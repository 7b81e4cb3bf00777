import BuildMatrix.Proofs.Path.Components
import BuildMatrix.Proofs.Tree.Growth

/-!
# Two spellings of the way to a directory

Pieces that stand for the same components lead to the same directory in every tree
(`resolve_of_steps`).  Idle pieces may stand anywhere between the others: on the way to
a directory everything is a directory, and there an idle piece leads nowhere.
-/

namespace BuildMatrix.Tree

open BuildMatrix.Path (component?_inj component?_eq_none component?_of_idle)

variable {t : Tree} {links : Nat} {dir d : Location}

/-- Nothing leads to a directory from where there is none. -/
theorem resolve_of_not_directory (h : t.node? dir ≠ some .directory) (pieces : List String) :
    t.resolve .node links dir pieces ≠ .ok (.taken d .directory) := by
  cases pieces with
  | nil =>
    rw [resolve_nil]
    intro hend
    split at hend
    · next node hnode =>
      injection hend with hend
      injection hend with _ hdirectory
      exact h (by rw [hnode, hdirectory])
    · cases hend
  | cons piece rest =>
    rw [resolve_cons, turn_of_not_directory h]
    exact fun h => by cases h

theorem resolve_idle {piece : String} (idle : Idle piece) (rest : List String) :
    t.resolve .node links dir (piece :: rest) = .ok (.taken d .directory) ↔
      t.resolve .node links dir rest = .ok (.taken d .directory) := by
  by_cases hdir : t.node? dir = some .directory
  · have hidle : earlyTurn .node links dir piece rest = some (.onward links dir rest) := if_pos idle
    rw [resolve_cons, turn_of_directory hdir, hidle]
    rfl
  · exact iff_of_false (resolve_of_not_directory hdir _) (resolve_of_not_directory hdir _)

theorem resolve_idles {idles : List String} (h : ∀ i ∈ idles, Idle i) (rest : List String) :
    t.resolve .node links dir (idles ++ rest) = .ok (.taken d .directory) ↔
      t.resolve .node links dir rest = .ok (.taken d .directory) := by
  induction idles with
  | nil => rfl
  | cons i idles ih =>
    obtain ⟨hi, hidles⟩ := List.forall_mem_cons.1 h
    rw [List.cons_append, resolve_idle hi, ih hidles]

/-- What comes behind a piece does not decide whether a resolution goes on, nor where. -/
theorem turn_rest (t : Tree) (links : Nat) (dir : Location) (piece : String)
    (rest rest' : List String) :
    (∃ outcome outcome', t.turn .node links dir piece rest = .ended outcome ∧
        t.turn .node links dir piece rest' = .ended outcome') ∨
      ∃ links' dir' front, t.turn .node links dir piece rest = .onward links' dir' (front ++ rest) ∧
        t.turn .node links dir piece rest' = .onward links' dir' (front ++ rest') := by
  have hslash : ∀ rest : List String, ¬ (Aim.node = .file ∧ rest ≠ [] ∧ rest.all (· = "")) :=
    fun rest h => by cases h.1
  by_cases hdir : t.node? dir = some .directory
  swap
  · rw [turn_of_not_directory hdir, turn_of_not_directory hdir]
    exact .inl ⟨_, _, rfl, rfl⟩
  rw [turn_of_directory hdir, turn_of_directory hdir, earlyTurn, earlyTurn]
  by_cases hidle : piece = "" ∨ piece = "."
  · rw [if_pos hidle, if_pos hidle]
    exact .inr ⟨links, dir, [], rfl, rfl⟩
  rw [if_neg hidle, if_neg hidle]
  by_cases hup : piece = ".."
  · rw [if_pos hup, if_pos hup]
    exact .inr ⟨links, dir.dropLast, [], rfl, rfl⟩
  rw [if_neg hup, if_neg hup, if_neg (hslash rest), if_neg (hslash rest')]
  by_cases hlong : nameLimit < piece.utf8ByteSize
  · rw [if_pos hlong]
    exact .inl ⟨_, _, rfl, rfl⟩
  rw [if_neg hlong, Option.getD_none, Option.getD_none]
  cases t.node? (dir ++ [piece]) with
  | none => exact .inl ⟨_, _, rfl, rfl⟩
  | some node =>
    cases node with
    | directory => exact .inr ⟨links, dir ++ [piece], [], rfl, rfl⟩
    | file c => exact .inr ⟨links, dir ++ [piece], [], rfl, rfl⟩
    | link target =>
      rw [nodeTurn_node_link, nodeTurn_node_link]
      cases links with
      | zero => exact .inl ⟨_, _, rfl, rfl⟩
      | succ links => exact .inr ⟨links, _, target.pieces, rfl, rfl⟩

/-- No turn ends at a directory. -/
theorem outcome_ne_of_ended {piece : String} {rest : List String} {outcome : Except Trouble Place}
    (h : t.turn .node links dir piece rest = .ended outcome) :
    outcome ≠ .ok (.taken d .directory) := by
  rintro rfl
  obtain ⟨target, hlink⟩ := link_of_turn_ended h
  cases hlink

/-- Pieces that stand for the same components lead to the same directory. -/
theorem resolve_of_steps {a b : List String}
    (h : a.filterMap Path.component? = b.filterMap Path.component?) :
    t.resolve .node links dir a = .ok (.taken d .directory) ↔
      t.resolve .node links dir b = .ok (.taken d .directory) := by
  induction links, dir, a using resolve_ind t .node generalizing b with
  | nil links dir =>
    have hidle : ∀ i ∈ b, Idle i := fun i hi =>
      component?_eq_none (List.filterMap_eq_nil_iff.1 h.symm i hi)
    have hall : t.resolve .node links dir (b ++ []) = .ok (.taken d .directory) ↔
        t.resolve .node links dir [] = .ok (.taken d .directory) := resolve_idles hidle []
    rw [List.append_nil] at hall
    exact hall.symm
  | cons links dir piece rest ih =>
    by_cases hdir : t.node? dir = some .directory
    swap
    · exact iff_of_false (resolve_of_not_directory hdir _) (resolve_of_not_directory hdir _)
    cases hpiece : Path.component? piece with
    | none =>
      rw [List.filterMap_cons_none hpiece] at h
      have idle := component?_eq_none hpiece
      have hturn : t.turn .node links dir piece rest = .onward links dir rest := by
        rw [turn_of_directory hdir, earlyTurn, if_pos (show piece = "" ∨ piece = "." from idle)]
        rfl
      rw [resolve_idle idle]
      exact ih links dir rest hturn h
    | some c =>
      -- the other pieces begin with idle ones, and then comes the same piece
      rw [List.filterMap_cons_some hpiece] at h
      obtain ⟨idles, other, rest', rfl, hidles, hother, hrest⟩ :=
        List.filterMap_eq_cons_iff.1 h.symm
      obtain rfl := component?_inj hpiece hother
      rw [resolve_idles fun i hi => component?_eq_none (hidles i hi), resolve_cons, resolve_cons]
      rcases t.turn_rest links dir piece rest rest' with
        ⟨outcome, outcome', hturn, hturn'⟩ | ⟨links', dir', front, hturn, hturn'⟩
      · rw [hturn, hturn']
        exact iff_of_false (outcome_ne_of_ended hturn) (outcome_ne_of_ended hturn')
      · rw [hturn, hturn']
        refine ih links' dir' _ hturn ?_
        rw [List.filterMap_append, List.filterMap_append, hrest]

/-- Idle pieces at the end do not count. -/
theorem resolve_append_idle {pieces idles : List String} (h : ∀ i ∈ idles, Idle i) :
    t.resolve .node links dir (pieces ++ idles) = .ok (.taken d .directory) ↔
      t.resolve .node links dir pieces = .ok (.taken d .directory) := by
  have hnone : idles.filterMap Path.component? = [] :=
    List.filterMap_eq_nil_iff.2 fun i hi => component?_of_idle (h i hi)
  refine resolve_of_steps ?_
  rw [List.filterMap_append, hnone, List.append_nil]

theorem resolve_of_sameWay {a b : List String} (way : SameWay a b) :
    t.resolve .node links dir a = .ok (.taken d .directory) ↔
      t.resolve .node links dir b = .ok (.taken d .directory) := by
  obtain ⟨core, x, y, rfl, rfl, hx, hy⟩ := way
  rw [resolve_append_idle hx, resolve_append_idle hy]

end BuildMatrix.Tree
