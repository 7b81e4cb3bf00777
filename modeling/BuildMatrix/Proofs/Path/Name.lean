import BuildMatrix.Path
import Mathlib.Data.List.Induction

/-!
# Names at the end of paths

A path below another one has the pieces of the other and one more.  Where the
other ends in a slash, the empty piece behind that slash is gone.
-/

namespace BuildMatrix

/-- A name that a directory can have an entry of and that does not start with a dot. -/
structure Plain (name : String) : Prop where
  /-- It is not empty. -/
  not_empty : name ≠ ""
  /-- It does not start with a dot. -/
  not_dotted : name.toList.head? ≠ some '.'
  /-- It is a single piece. -/
  single : '/' ∉ name.toList

instance (name : String) : Decidable (Plain name) :=
  decidable_of_iff (name ≠ "" ∧ name.toList.head? ≠ some '.' ∧ '/' ∉ name.toList)
    ⟨fun ⟨hempty, hdotted, hsingle⟩ => ⟨hempty, hdotted, hsingle⟩,
      fun ⟨hempty, hdotted, hsingle⟩ => ⟨hempty, hdotted, hsingle⟩⟩

namespace Plain

variable {name : String} (plain : Plain name)

include plain

theorem not_here : name ≠ "." := by
  rintro rfl
  exact plain.not_dotted (by decide)

theorem not_up : name ≠ ".." := by
  rintro rfl
  exact plain.not_dotted (by decide)

end Plain

/-- The path ends in a name, with some pieces before it. -/
structure EndsIn (p : Path) (front : List String) (name : String) : Prop where
  /-- The name comes last. -/
  pieces : p.pieces = front ++ [name]
  /-- It is the name of an entry. -/
  plain : Plain name

namespace Path

theorem not_isAbsolute_of_single {name : String} (single : '/' ∉ name.toList) :
    ¬ (Path.mk name).isAbsolute = true := by
  intro h
  have hhead : name.toList.head? = some '/' := of_decide_eq_true h
  exact single (List.mem_of_head? hhead)

theorem pieces_append {x : String} {name : String} (single : '/' ∉ name.toList) {p : Path}
    (h : p.text = x ++ "/" ++ name) : p.pieces = (Path.mk x).pieces ++ [name] := by
  have hlist : p.text.toList = x.toList ++ '/' :: name.toList := by
    rw [h, String.toList_append, String.toList_append, List.append_assoc]
    rfl
  rw [pieces, Text.pieces, hlist, List.splitOn_append_cons_self, List.splitOn_eq_singleton single,
    List.map_append, List.map_singleton, String.ofList_toList]
  rfl

/-- A path below another one ends in its name, and before it come the pieces of the other. -/
theorem pieces_child (d : Path) {name : String} (single : '/' ∉ name.toList) :
    ∃ front, (d.child name).pieces = front ++ [name] ∧
      (d.text = "" ∧ front = [] ∨
        d.text ≠ "" ∧ (d.pieces = front ∨ d.pieces = front ++ [""])) := by
  unfold child join
  rw [if_neg (not_isAbsolute_of_single single)]
  by_cases hempty : d.text = ""
  · rw [if_pos (.inl hempty)]
    refine ⟨[], ?_, .inl ⟨hempty, rfl⟩⟩
    rw [pieces, Text.pieces, hempty, String.empty_append, List.splitOn_eq_singleton single,
      List.map_singleton, String.ofList_toList]
    rfl
  by_cases hslash : d.text.toList.getLast? = some '/'
  · rw [if_pos (.inr hslash)]
    obtain ⟨x, hx⟩ := List.getLast?_eq_some_iff.1 hslash
    have hd : d.text = String.ofList x ++ "/" := by
      apply String.toList_inj.1
      rw [hx, String.toList_append, String.toList_ofList]
      rfl
    refine ⟨(Path.mk (String.ofList x)).pieces, ?_, .inr ⟨hempty, .inr ?_⟩⟩
    · exact pieces_append single (by rw [hd])
    · rw [pieces, Text.pieces, hx, List.splitOn_append_cons_self, List.map_append]
      rw [pieces, Text.pieces, String.toList_ofList]
      rfl
  · rw [if_neg (not_or.2 ⟨hempty, hslash⟩)]
    exact ⟨d.pieces, pieces_append single rfl, .inr ⟨hempty, .inl rfl⟩⟩

end Path

end BuildMatrix
