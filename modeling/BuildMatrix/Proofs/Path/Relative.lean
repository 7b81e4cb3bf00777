import BuildMatrix.Path.Relative
import BuildMatrix.Proofs.Path.Name

/-!
# The last name of a relative path

The way from a base to a path ends as the path does, or it climbs in the end, or it
is no way at all.  So whatever base a path is seen from, it shows its own file name
or none.
-/

namespace BuildMatrix.Path

/-- What a way between two paths ends in. -/
theorem getLast?_wayBetween {started : Bool} {base path way : List Component}
    (h : wayBetween started base path = some way) :
    (way = [] ∧ (started = true → path = [])) ∨ way.getLast? = some .up ∨
      way.getLast? = path.getLast? := by
  induction base generalizing started path way with
  | nil =>
    rw [wayBetween] at h
    injection h with h
    rw [h]
    exact .inr (.inr rfl)
  | cons b base ih =>
    cases path with
    | nil =>
      rw [wayBetween] at h
      obtain ⟨rest, hrest, rfl⟩ := Option.map_eq_some_iff.1 h
      refine .inr (.inl ?_)
      cases rest with
      | nil => rfl
      | cons c rest =>
        rcases ih hrest with ⟨hnil, -⟩ | hup | hnone
        · cases hnil
        · rw [List.getLast?_cons_cons, hup]
        · cases List.getLast?_eq_none_iff.1 hnone
    | cons c path =>
      rw [wayBetween] at h
      split at h
      · next hshared =>
        rcases ih h with ⟨hnil, -⟩ | hup | hsame
        · exact .inl ⟨hnil, fun hstarted => absurd hstarted hshared.1⟩
        · exact .inr (.inl hup)
        · cases path with
          | nil => exact .inl ⟨List.getLast?_eq_none_iff.1 hsame, fun hstarted =>
              absurd hstarted hshared.1⟩
          | cons d path => exact .inr (.inr (by rw [hsame, List.getLast?_cons_cons]))
      split at h
      · obtain ⟨rest, hrest, rfl⟩ := Option.map_eq_some_iff.1 h
        rcases ih hrest with ⟨rfl, hpath⟩ | hup | hsame
        · rw [hpath rfl]
          exact .inr (.inr rfl)
        · refine .inr (.inl ?_)
          rw [List.getLast?_cons, hup]
          rfl
        · refine .inr (.inr ?_)
          rw [List.getLast?_cons, List.getLast?_cons, hsame]
      split at h
      · cases h
      · injection h with h
        refine .inr (.inr ?_)
        rw [← h, List.getLast?_append, List.getLast?_cons]
        rfl

/-! ## File names -/

/-- The last component of a path that ends in a piece that means something. -/
theorem getLast?_components {p : Path} {front : List String} {piece : String} {c : Component}
    (hpieces : p.pieces = front ++ [piece]) (hc : component? piece = some c) :
    p.components.getLast? = some c := by
  have hlast : ∀ pieces : List String,
      ((pieces ++ [piece]).filterMap component?).getLast? = some c := by
    intro pieces
    rw [List.filterMap_append, List.filterMap_cons_some hc, List.filterMap_nil,
      List.getLast?_concat]
  have hdot : piece ≠ "." := by
    rintro rfl
    cases hc
  unfold components
  split
  · next rest hrest =>
    rw [hpieces] at hrest
    cases front with
    | nil =>
      injection hrest with hpiece _
      exact absurd hpiece hdot
    | cons first front =>
      injection hrest with _ hrest
      have hrest : rest = front ++ [piece] := hrest.symm
      rw [hrest, List.getLast?_cons, hlast]
      rfl
  · rw [hpieces, List.getLast?_append, hlast]
    rfl

theorem component?_of_plain {name : String} (plain : Plain name) :
    component? name = some (.name name) := by
  unfold component?
  rw [if_neg (not_or.2 ⟨plain.not_empty, plain.not_here⟩), if_neg plain.not_up]

theorem getLast?_components_child (d : Path) {name : String} (plain : Plain name) :
    (d.child name).components.getLast? = some (.name name) := by
  obtain ⟨front, hpieces, -⟩ := d.pieces_child plain.single
  exact getLast?_components hpieces (component?_of_plain plain)

theorem ofComponents_concat (cs : List Component) (c : Component) :
    ofComponents (cs ++ [c]) = (ofComponents cs).child c.text := by
  unfold ofComponents
  rw [List.foldl_append]
  rfl

/-- Whatever base a path is seen from, it shows its file name or none. -/
theorem fileName?_relativeTo {p : Path} {name : String} (plain : Plain name)
    (h : p.components.getLast? = some (.name name)) (base : Path) :
    (p.relativeTo base).fileName? = some name ∨ (p.relativeTo base).fileName? = none := by
  have hself : p.fileName? = some name := by
    unfold fileName?
    rw [h]
  unfold relativeTo relativeTo?
  split
  · split
    · exact .inl hself
    · exact .inl hself
  cases hway : wayBetween false base.components p.components with
  | none => exact .inl hself
  | some way =>
    show (ofComponents way).fileName? = some name ∨ (ofComponents way).fileName? = none
    rcases getLast?_wayBetween hway with ⟨rfl, -⟩ | hup | hname
    · exact .inr rfl
    · obtain ⟨front, rfl⟩ := List.getLast?_eq_some_iff.1 hup
      refine .inr ?_
      have hsingle : '/' ∉ "..".toList := by decide
      obtain ⟨pieces, hpieces, -⟩ := (ofComponents front).pieces_child hsingle
      rw [ofComponents_concat]
      unfold fileName?
      rw [show Component.up.text = ".." from rfl, getLast?_components hpieces rfl]
    · rw [h] at hname
      obtain ⟨front, rfl⟩ := List.getLast?_eq_some_iff.1 hname
      refine .inl ?_
      rw [ofComponents_concat]
      unfold fileName?
      rw [show (Component.name name).text = name from rfl, getLast?_components_child _ plain]

end BuildMatrix.Path
