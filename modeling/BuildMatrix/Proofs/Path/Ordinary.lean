import BuildMatrix.Proofs.Path.Components

/-!
# Paths made of names

A path is *ordinary* if all of its components are names; then it is relative and climbs
nowhere.  The names of an ordinary path that is joined to another one, and the names of
entries below, come behind the other one's components (`components_join`,
`components_below`).  So seen from the other path such a place is spelled with just these
names, with single slashes between them (`relativeTo_of_components`).

What a file name has behind its last dot is its extension, if something comes before the
dot (`extensionOf?_eq_some_iff`).
-/

namespace BuildMatrix.Path

/-! ## Names -/

/-- A name that a directory can have an entry of. -/
structure EntryName (name : String) : Prop where
  /-- It means something and is no step upward. -/
  proper : Proper name
  /-- It is a single piece. -/
  single : '/' ∉ name.toList

instance (name : String) : Decidable (EntryName name) :=
  decidable_of_iff (Proper name ∧ '/' ∉ name.toList) ⟨fun h => ⟨h.1, h.2⟩, fun h => ⟨h.1, h.2⟩⟩

/-- The names among the components of a path. -/
def names (p : Path) : List String :=
  p.components.filterMap fun
    | .name given => some given
    | _ => none

/-- All components of the path are names. -/
def Ordinary (p : Path) : Prop := ∀ c ∈ p.components, ∃ name, c = .name name

/-- The path spelled with names and single slashes. -/
def spelled (names : List String) : String := "/".intercalate names

section Names

variable {p : Path} {ns : List String}

theorem names_of_components (h : p.components = ns.map .name) : p.names = ns := by
  rw [names, h, List.filterMap_map]
  exact List.filterMap_some

theorem ordinary_of_components (h : p.components = ns.map .name) : p.Ordinary := by
  intro c hc
  rw [h] at hc
  obtain ⟨name, -, rfl⟩ := List.mem_map.1 hc
  exact ⟨name, rfl⟩

theorem Ordinary.components_eq (ordinary : p.Ordinary) : p.components = p.names.map .name := by
  unfold Ordinary at ordinary
  unfold names
  generalize p.components = cs at ordinary
  induction cs with
  | nil => rfl
  | cons c cs ih =>
    obtain ⟨name, rfl⟩ := ordinary c List.mem_cons_self
    simpa using ih fun c hc => ordinary c (List.mem_cons_of_mem _ hc)

/-- A name among the components is a piece. -/
theorem mem_pieces_of_components {name : String} (h : .name name ∈ p.components) :
    name ∈ p.pieces ∧ EntryName name := by
  rw [components_eq] at h
  have hsteps : Component.name name ∈ p.steps := by
    rcases List.mem_append.1 h with hlead | hsteps
    · rcases p.lead_cases with hp | hp | hp <;> rw [hp] at hlead <;> simp at hlead
    · exact hsteps
  obtain ⟨piece, hpiece, hc⟩ := List.mem_filterMap.1 hsteps
  have hsame := eq_of_component?_eq_name hc
  subst hsame
  refine ⟨hpiece, ?_, not_mem_of_mem_pieces hpiece⟩
  rcases component?_cases piece with ⟨-, hnone⟩ | ⟨-, hup⟩ | ⟨proper, -⟩
  · rw [hc] at hnone
    cases hnone
  · rw [hc] at hup
    cases hup
  · exact proper

theorem Ordinary.entryName (ordinary : p.Ordinary) {name : String} (h : name ∈ p.names) :
    EntryName name :=
  (mem_pieces_of_components (by rw [ordinary.components_eq]; exact List.mem_map_of_mem h)).2

end Names

/-! ## Places below a path -/

theorem isAbsolute_iff_components {p : Path} :
    p.isAbsolute = true ↔ p.components.head? = some .root := by
  rw [isAbsolute_iff, components_eq]
  rcases p.lead_cases with h | h | h
  · have hsteps : p.steps.head? ≠ some .root := fun hroot =>
      (mem_steps (List.mem_of_head? hroot)).1 rfl
    simp [h, hsteps]
  · simp [h]
  · simp [h]

/-- An ordinary path adds its names to the path to which it is joined. -/
theorem components_join (p : Path) {q : Path} (ordinary : q.Ordinary) :
    (p.join q).components = p.components ++ q.names.map .name := by
  rw [← ordinary.components_eq]
  by_cases hempty : p.text = ""
  · have hp : p = ⟨""⟩ := congrArg Path.mk hempty
    rw [join_of_empty hempty, hp]
    rfl
  · have hrelative : ¬ q.isAbsolute = true := by
      rw [isAbsolute_iff_components]
      intro hroot
      obtain ⟨name, hname⟩ := ordinary _ (List.mem_of_head? hroot)
      cases hname
    have hlead : q.lead = [] := by
      have hcomponents := q.components_eq
      rcases q.lead_cases with h | h | h
      · exact h
      · obtain ⟨name, hname⟩ := ordinary .here (by rw [hcomponents, h]; exact List.mem_cons_self)
        cases hname
      · exact absurd (isAbsolute_iff.2 h) hrelative
    obtain ⟨-, hjoin, hsteps⟩ := join_of_relative hrelative hempty
    rw [components_eq (p.join q), hjoin, hsteps, components_eq p, components_eq q, hlead,
      List.nil_append, List.append_assoc]

/-- Entries below a path add their names. -/
theorem components_below (p : Path) {ns : List String} (hns : ∀ name ∈ ns, EntryName name) :
    (ns.foldl child p).components = p.components ++ ns.map .name := by
  induction ns generalizing p with
  | nil => simp
  | cons name ns ih =>
    have hname := hns name List.mem_cons_self
    rw [List.foldl_cons, ih (p.child name) fun n hn => hns n (List.mem_cons_of_mem _ hn),
      components_child p hname.single hname.proper]
    simp

/-! ## Spelling with names -/

/-- The text of names ends as the last name does. -/
theorem exists_spelled_concat (ns : List String) (name : String) :
    ∃ x, spelled (ns ++ [name]) = x ++ name := by
  cases ns with
  | nil => exact ⟨"", by simp [spelled]⟩
  | cons first ns =>
    refine ⟨spelled (first :: ns) ++ "/", ?_⟩
    rw [spelled, String.intercalate_append_of_ne_nil (List.cons_ne_nil _ _) (List.cons_ne_nil _ _)]
    simp [spelled]

/-- A name below names is put behind a slash, if there are any. -/
theorem child_spelled {ns : List String} (hns : ∀ name ∈ ns, EntryName name) {name : String}
    (hname : EntryName name) : (child ⟨spelled ns⟩ name).text = spelled (ns ++ [name]) := by
  have hrelative : ¬ (Path.mk name).isAbsolute = true := not_isAbsolute_of_single hname.single
  rcases List.eq_nil_or_concat ns with rfl | ⟨front, last, rfl⟩
  · show (join ⟨""⟩ ⟨name⟩).text = _
    rw [join_of_empty rfl]
    simp [spelled]
  · rw [List.concat_eq_append] at hns ⊢
    have hlast : EntryName last := hns last (by simp)
    obtain ⟨x, hx⟩ := exists_spelled_concat front last
    have hne : last.toList ≠ [] := fun h =>
      hlast.proper.not_idle (.inl (String.toList_eq_nil_iff.1 h))
    have hopen : ¬ (spelled (front ++ [last]) = "" ∨
        (spelled (front ++ [last])).toList.getLast? = some '/') := by
      rw [hx, String.append_eq_empty_iff, String.toList_append, List.getLast?_append,
        List.getLast?_eq_some_getLast hne]
      rintro (h | h)
      · exact hne (String.toList_eq_nil_iff.2 h.2)
      · injection h with h
        exact hlast.single (h ▸ List.getLast_mem hne)
    show (join ⟨spelled (front ++ [last])⟩ ⟨name⟩).text = _
    rw [join, if_neg hrelative, if_neg hopen, spelled, spelled,
      String.intercalate_append_of_ne_nil (List.concat_ne_nil _ _) (List.cons_ne_nil _ _)]
    simp

/-- The path of names is spelled with single slashes between them. -/
theorem ofComponents_names {ns : List String} (hns : ∀ name ∈ ns, EntryName name) :
    ofComponents (ns.map .name) = ⟨spelled ns⟩ := by
  induction ns using List.reverseRecOn with
  | nil => rfl
  | append_singleton ns name ih =>
    have hfront : ∀ n ∈ ns, EntryName n := fun n hn => hns n (List.mem_append_left _ hn)
    rw [List.map_append, List.map_singleton, ofComponents_concat, ih hfront]
    exact congrArg Path.mk (child_spelled hfront (hns name (by simp)))

/-- The names can be read off. -/
theorem components_spelled {ns : List String} (hns : ∀ name ∈ ns, EntryName name) :
    (Path.mk (spelled ns)).components = ns.map .name := by
  have hbelow := components_below ⟨""⟩ hns
  have hfold : ns.foldl child ⟨""⟩ = ofComponents (ns.map .name) := by
    rw [ofComponents, List.foldl_map]
    rfl
  rw [hfold, ofComponents_names hns] at hbelow
  exact hbelow

theorem spelled_inj {ns ms : List String} (hns : ∀ name ∈ ns, EntryName name)
    (hms : ∀ name ∈ ms, EntryName name) (h : spelled ns = spelled ms) : ns = ms := by
  rw [← names_of_components (components_spelled hns), ← names_of_components (components_spelled hms),
    h]

/-! ## The way from a path to places below it -/

theorem wayBetween_append (cs more : List Component) :
    wayBetween false cs (cs ++ more) = some more := by
  induction cs with
  | nil => rfl
  | cons c cs ih =>
    rw [List.cons_append, wayBetween, if_pos ⟨Bool.false_ne_true, rfl⟩]
    exact ih

/-- Seen from a path, a place below it is spelled with the names that lead there. -/
theorem relativeTo_of_components {p base : Path} {ns : List String}
    (hns : ∀ name ∈ ns, EntryName name) (h : p.components = base.components ++ ns.map .name) :
    p.relativeTo base = ⟨spelled ns⟩ := by
  have habsolute : p.isAbsolute = base.isAbsolute := by
    rw [Bool.eq_iff_iff, isAbsolute_iff_components, isAbsolute_iff_components, h]
    cases hbase : base.components with
    | nil => cases ns <;> simp
    | cons c cs => simp
  rw [relativeTo, relativeTo?, if_neg (by simp [habsolute]), h, wayBetween_append,
    Option.map_some, ofComponents_names hns, Option.getD_some]

/-- A path without backslashes is shown as it is. -/
theorem slashed_of_not_mem {p : Path} (h : '\\' ∉ p.text.toList) : p.slashed = p.text := by
  rw [slashed, Text.swap]
  refine String.toList_inj.1 ?_
  rw [String.toList_map]
  refine (List.map_congr_left fun c hc => ?_).trans (List.map_id _)
  refine if_neg fun hslash : c = '\\' => h ?_
  rwa [← hslash]

theorem slashed_spelled {ns : List String} (hns : ∀ name ∈ ns, EntryName name)
    (plain : ∀ name ∈ ns, '\\' ∉ name.toList) : (Path.mk (spelled ns)).slashed = spelled ns := by
  refine slashed_of_not_mem fun hmem => ?_
  cases ns with
  | nil => simp [spelled] at hmem
  | cons first rest =>
    obtain ⟨piece, hpiece, hc⟩ := (mem_pieces_iff (p := ⟨spelled (first :: rest)⟩) (by decide)).2 hmem
    rw [spelled, pieces_intercalate (List.cons_ne_nil _ _) fun n hn => (hns n hn).single] at hpiece
    exact plain piece hpiece hc

/-! ## Extensions -/

/-- The extension is the part behind the last dot, unless there is no dot, or only one in front. -/
theorem extensionOf?_of_splitOn {name : String} {front : List (List Char)} {last : List Char}
    (h : name.toList.splitOn '.' = front ++ [last]) :
    extensionOf? name = if front = [] ∨ front = [[]] then none else some (String.ofList last) := by
  rw [extensionOf?, h, List.reverse_concat]
  split
  · next hreverse => simp at hreverse
  · next hreverse =>
    simp only [List.cons.injEq, List.reverse_eq_nil_iff] at hreverse
    rw [if_pos (.inl hreverse.2)]
  · next hreverse =>
    simp only [List.cons.injEq, List.reverse_eq_iff, List.reverse_singleton] at hreverse
    rw [if_pos (.inr hreverse.2)]
  · next hone hblank hreverse =>
    simp only [List.cons.injEq] at hreverse
    rw [if_neg, ← hreverse.1]
    rintro (rfl | rfl)
    · exact hone (by simpa using hreverse.2.symm)
    · exact hblank (by simpa using hreverse.2.symm)

/-- The extension of a file name is what follows the last dot, if something comes before it. -/
theorem extensionOf?_eq_some_iff {name extension : String} (plain : '.' ∉ extension.toList) :
    extensionOf? name = some extension ↔
      ∃ stem, stem ≠ "" ∧ name = stem ++ "." ++ extension := by
  constructor
  · intro h
    obtain ⟨front, last, hsplit⟩ := exists_last_part '.' name.toList
    rw [extensionOf?_of_splitOn hsplit] at h
    split at h
    · cases h
    next hfront =>
    injection h with h
    subst h
    rw [String.toList_ofList] at plain
    obtain ⟨x, hx⟩ := (splitOn_concat hsplit).resolve_left fun hnil => hfront (.inl hnil.1)
    refine ⟨String.ofList x, fun hempty => hfront (.inr ?_), String.toList_inj.1 (by simp [hx])⟩
    have hnil : x = [] := by simpa using congrArg String.toList hempty
    rw [hx, hnil, List.splitOn_append_cons_self, List.splitOn_eq_singleton plain] at hsplit
    exact (List.append_inj_left' hsplit rfl).symm
  · rintro ⟨stem, hstem, rfl⟩
    have hsplit : (stem ++ "." ++ extension).toList.splitOn '.' =
        stem.toList.splitOn '.' ++ [extension.toList] := by
      have hlist : (stem ++ "." ++ extension).toList = stem.toList ++ '.' :: extension.toList := by
        simp
      rw [hlist, List.splitOn_append_cons_self, List.splitOn_eq_singleton plain]
    rw [extensionOf?_of_splitOn hsplit, if_neg, String.ofList_toList]
    have hback : ['.'].intercalate (stem.toList.splitOn '.') = stem.toList :=
      List.intercalate_splitOn '.'
    rintro (h | h)
    · rw [h] at hback
      exact hstem (String.toList_eq_nil_iff.1 hback.symm)
    · rw [h] at hback
      exact hstem (String.toList_eq_nil_iff.1 hback.symm)

end BuildMatrix.Path
