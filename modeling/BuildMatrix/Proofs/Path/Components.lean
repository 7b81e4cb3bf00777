import BuildMatrix.Proofs.Path.Lexical
import BuildMatrix.Proofs.Path.Relative
import Mathlib.Data.List.TakeWhile

/-!
# Components of paths that are put together

The components of a path are its *lead*, which says where it starts, and its *steps*
from there; both can be read off them (`components_eq_iff`).  A path that is joined to
another one adds its steps (`join_of_relative`), and so does a text that is put behind
another one with a slash in between (`steps_slash`).  Slashes at the end of a text are
no steps, so it does not matter if they are cut off first (`components_trimEnd_slash`).
-/

namespace BuildMatrix.Path

open Text (trimEnd)

/-! ## Pieces that are steps -/

/-- What a piece stands for. -/
theorem component?_cases (piece : String) :
    (Idle piece ∧ component? piece = none) ∨ (piece = ".." ∧ component? piece = some .up) ∨
      (Proper piece ∧ component? piece = some (.name piece)) := by
  unfold component?
  rcases piece_cases piece with idle | rfl | proper
  · exact .inl ⟨idle, if_pos idle⟩
  · exact .inr (.inl ⟨rfl, by decide⟩)
  · refine .inr (.inr ⟨proper, ?_⟩)
    rw [if_neg (show ¬ (piece = "" ∨ piece = ".") from proper.not_idle), if_neg proper.not_up]

theorem component?_eq_none {piece : String} (h : component? piece = none) : Idle piece := by
  rcases component?_cases piece with ⟨idle, -⟩ | ⟨-, hup⟩ | ⟨-, hname⟩
  · exact idle
  · rw [h] at hup
    cases hup
  · rw [h] at hname
    cases hname

theorem component?_of_idle {piece : String} (idle : Idle piece) : component? piece = none :=
  if_pos idle

theorem component?_of_proper {piece : String} (proper : Proper piece) :
    component? piece = some (.name piece) := by
  rcases component?_cases piece with ⟨idle, -⟩ | ⟨hup, -⟩ | ⟨-, hname⟩
  · exact absurd idle proper.not_idle
  · exact absurd hup proper.not_up
  · exact hname

/-- A piece that means something is told by what it means. -/
theorem component?_inj {piece other : String} {c : Component} (h : component? piece = some c)
    (h' : component? other = some c) : piece = other := by
  rcases component?_cases piece with ⟨-, hnone⟩ | ⟨rfl, hup⟩ | ⟨-, hname⟩
  · rw [h] at hnone
    cases hnone
  · rw [← h'] at h
    rcases component?_cases other with ⟨-, hnone⟩ | ⟨rfl, -⟩ | ⟨-, hname⟩
    · rw [hnone, hup] at h
      cases h
    · rfl
    · rw [hname, hup] at h
      cases h
  · rw [← h'] at h
    rcases component?_cases other with ⟨-, hnone⟩ | ⟨rfl, hup⟩ | ⟨-, hname'⟩
    · rw [hnone, hname] at h
      cases h
    · rw [hup, hname] at h
      cases h
    · rw [hname, hname'] at h
      injection h with h
      injection h

theorem eq_of_component?_eq_name {piece name : String} (h : component? piece = some (.name name)) :
    piece = name := by
  rcases component?_cases piece with ⟨-, hnone⟩ | ⟨-, hup⟩ | ⟨-, hname⟩
  · rw [h] at hnone
    cases hnone
  · rw [h] at hup
    cases hup
  · rw [h] at hname
    injection hname with hname
    injection hname with hname
    exact hname.symm

/-! ## Lead and steps -/

/-- Where a path starts, as it says. -/
def lead (p : Path) : List Component :=
  if p.pieces.head? = some "." then [.here] else if p.isAbsolute then [.root] else []

/-- The steps that a path takes from its start. -/
def steps (p : Path) : List Component := p.pieces.filterMap component?

theorem components_eq (p : Path) : p.components = p.lead ++ p.steps := by
  unfold components lead steps
  split
  · next rest hpieces =>
    rw [hpieces, List.head?_cons, if_pos rfl, List.filterMap_cons_none rfl]
    rfl
  · next hpieces =>
    have hhead : p.pieces.head? ≠ some "." := by
      intro hhead
      obtain ⟨rest, hrest⟩ := List.head?_eq_some_iff.1 hhead
      exact hpieces rest hrest
    rw [if_neg hhead]

theorem mem_steps {p : Path} {c : Component} (h : c ∈ p.steps) : c ≠ .root ∧ c ≠ .here := by
  obtain ⟨piece, -, hpiece⟩ := List.mem_filterMap.1 h
  rcases component?_cases piece with ⟨-, hnone⟩ | ⟨-, hup⟩ | ⟨-, hname⟩
  · rw [hpiece] at hnone
    cases hnone
  · rw [hpiece] at hup
    injection hup with hc
    rw [hc]
    exact ⟨fun h => (by cases h), fun h => by cases h⟩
  · rw [hpiece] at hname
    injection hname with hc
    rw [hc]
    exact ⟨fun h => (by cases h), fun h => by cases h⟩

theorem lead_cases (p : Path) : p.lead = [] ∨ p.lead = [.here] ∨ p.lead = [.root] := by
  unfold lead
  split
  · exact .inr (.inl rfl)
  · split
    · exact .inr (.inr rfl)
    · exact .inl rfl

/-- Lead and steps can be told apart. -/
theorem components_eq_iff {p q : Path} :
    p.components = q.components ↔ p.lead = q.lead ∧ p.steps = q.steps := by
  rw [components_eq, components_eq]
  refine ⟨fun h => ?_, fun ⟨hlead, hsteps⟩ => by rw [hlead, hsteps]⟩
  have hfirst : ∀ {p : Path} {c : Component} {rest : List Component},
      p.lead ++ p.steps = c :: rest → c = .root ∨ c = .here → p.lead = [c] := by
    intro p c rest h hc
    rcases p.lead_cases with hlead | hlead | hlead
    · rw [hlead, List.nil_append] at h
      obtain ⟨hroot, hhere⟩ := mem_steps (h ▸ List.mem_cons_self : c ∈ p.steps)
      exact absurd hc (not_or.2 ⟨hroot, hhere⟩)
    · rw [hlead] at h ⊢
      injection h with h _
      rw [h]
    · rw [hlead] at h ⊢
      injection h with h _
      rw [h]
  have hlead : p.lead = q.lead := by
    rcases p.lead_cases with hp | hp | hp
    · rcases q.lead_cases with hq | hq | hq
      · rw [hp, hq]
      · rw [hq, ← hfirst (h.trans (by rw [hq]; rfl)) (.inr rfl)]
      · rw [hq, ← hfirst (h.trans (by rw [hq]; rfl)) (.inl rfl)]
    · rw [hp, ← hfirst (h.symm.trans (by rw [hp]; rfl)) (.inr rfl)]
    · rw [hp, ← hfirst (h.symm.trans (by rw [hp]; rfl)) (.inl rfl)]
  rw [hlead] at h
  exact ⟨hlead, List.append_cancel_left h⟩

theorem isAbsolute_iff {p : Path} : p.isAbsolute = true ↔ p.lead = [.root] := by
  unfold lead
  constructor
  · intro h
    have hhead : p.pieces.head? ≠ some "." := by
      obtain ⟨rest, hrest⟩ := pieces_of_absolute h
      rw [hrest]
      exact fun h => absurd (Option.some.inj h) (by decide)
    rw [if_neg hhead, if_pos h]
  · intro h
    split at h
    · cases h
    · split at h
      · assumption
      · cases h

/-! ## Texts with a slash in between -/

theorem steps_slash (x y : String) :
    (Path.mk (x ++ "/" ++ y)).steps = (Path.mk x).steps ++ (Path.mk y).steps := by
  rw [steps, pieces_slash, List.filterMap_append]
  rfl

/-- The first piece is the one before the slash. -/
theorem head?_pieces_slash (x y : String) :
    (Path.mk (x ++ "/" ++ y)).pieces.head? = (Path.mk x).pieces.head? := by
  rw [pieces_slash]
  obtain ⟨front, last, hpieces⟩ := exists_last_piece ⟨x⟩
  rw [hpieces]
  cases front with
  | nil => rfl
  | cons first front => rfl

/-- What comes behind a slash does not change the start. -/
theorem lead_slash (x y : String) : (Path.mk (x ++ "/" ++ y)).lead = (Path.mk (x ++ "/")).lead := by
  have hempty := head?_pieces_slash x ""
  rw [String.append_empty] at hempty
  rw [lead, lead, head?_pieces_slash, hempty, isAbsolute_slash]

/-- Neither does the slash, unless there is nothing before it. -/
theorem lead_slash_of_ne {x : String} (hne : x ≠ "") (y : String) :
    (Path.mk (x ++ "/" ++ y)).lead = (Path.mk x).lead := by
  have habsolute : (Path.mk (x ++ "/" ++ y)).isAbsolute = (Path.mk x).isAbsolute := by
    have hlist : x.toList ≠ [] := fun h => hne (String.toList_eq_nil_iff.1 h)
    obtain ⟨c, rest, hx⟩ := List.exists_cons_of_ne_nil hlist
    unfold isAbsolute
    simp [hx]
  rw [lead, lead, head?_pieces_slash, habsolute]

/-! ## Slashes at the end -/

theorem exists_trimEnd (text : String) :
    ∃ k, text = trimEnd '/' text ++ String.ofList (List.replicate k '/') := by
  refine ⟨(text.toList.reverse.takeWhile (· == '/')).length, String.toList_inj.1 ?_⟩
  have hslash : ∀ c ∈ text.toList.reverse.takeWhile (· == '/'), c = '/' := by
    intro c hc
    have hd := List.mem_takeWhile_imp hc
    exact eq_of_beq hd
  have hslashes : text.toList.reverse.takeWhile (· == '/') =
      List.replicate (text.toList.reverse.takeWhile (· == '/')).length '/' :=
    List.eq_replicate_iff.2 ⟨rfl, hslash⟩
  have hback := congrArg List.reverse
    (List.takeWhile_append_dropWhile (p := (· == '/')) (l := text.toList.reverse))
  rw [List.reverse_reverse, List.reverse_append, hslashes, List.reverse_replicate] at hback
  rw [String.toList_append, trimEnd, String.toList_ofList, String.toList_ofList]
  exact hback.symm

theorem steps_append_slashes (x : String) (k : Nat) :
    (Path.mk (x ++ String.ofList (List.replicate k '/'))).steps = (Path.mk x).steps := by
  induction k with
  | zero => rw [List.replicate_zero, String.ofList_nil, String.append_empty]
  | succ k ih =>
    have htext : x ++ String.ofList (List.replicate (k + 1) '/') =
        x ++ String.ofList (List.replicate k '/') ++ "/" ++ "" := by
      apply String.toList_inj.1
      simp [List.replicate_succ']
    rw [htext, steps_slash, ih]
    exact List.append_nil _

/-- Cutting slashes off the end of a text before more is put behind it changes nothing, unless the
text is empty. -/
theorem components_trimEnd_slash {text : String} (hne : text ≠ "") (y : String) :
    (Path.mk (trimEnd '/' text ++ "/" ++ y)).lead = (Path.mk text).lead ∧
      (Path.mk (trimEnd '/' text ++ "/" ++ y)).steps =
        (Path.mk text).steps ++ (Path.mk y).steps := by
  obtain ⟨k, hk⟩ := exists_trimEnd text
  constructor
  · cases k with
    | zero =>
      rw [List.replicate_zero, String.ofList_nil, String.append_empty] at hk
      rw [← hk, lead_slash_of_ne hne]
    | succ k =>
      have htext : text = trimEnd '/' text ++ "/" ++ String.ofList (List.replicate k '/') := by
        refine hk.trans (String.toList_inj.1 ?_)
        simp [List.replicate_succ]
      have hlead := lead_slash (trimEnd '/' text) (String.ofList (List.replicate k '/'))
      rw [← htext] at hlead
      rw [lead_slash, hlead]
  · have hsteps := steps_append_slashes (trimEnd '/' text) k
    rw [← hk] at hsteps
    rw [steps_slash, hsteps]

/-! ## Joined paths -/

theorem join_of_absolute {p q : Path} (h : q.isAbsolute = true) : p.join q = q := if_pos h

theorem join_of_empty {p : Path} (h : p.text = "") (q : Path) : p.join q = q := by
  unfold join
  split
  · rfl
  · rw [if_pos (.inl h), h, String.empty_append]

/-- A relative path adds its steps to a path that is not empty. -/
theorem join_of_relative {p q : Path} (h : ¬ q.isAbsolute = true) (hne : p.text ≠ "") :
    (p.join q).text ≠ "" ∧ (p.join q).lead = p.lead ∧ (p.join q).steps = p.steps ++ q.steps := by
  unfold join
  rw [if_neg h]
  by_cases hslash : p.text.toList.getLast? = some '/'
  · rw [if_pos (.inr hslash)]
    obtain ⟨x, hx⟩ := List.getLast?_eq_some_iff.1 hslash
    have htext : p.text = String.ofList x ++ "/" := by
      apply String.toList_inj.1
      rw [hx, String.toList_append, String.toList_ofList]
      rfl
    have hsteps : p.steps = (Path.mk (String.ofList x)).steps := by
      have hp : p = ⟨String.ofList x ++ "/" ++ ""⟩ := by
        rw [String.append_empty, ← htext]
      rw [hp, steps_slash]
      exact List.append_nil _
    have hlead : p.lead = (Path.mk (String.ofList x ++ "/")).lead := by
      rw [← htext]
    rw [htext, lead_slash, hlead, steps_slash, hsteps]
    exact ⟨fun hempty => hne (by rw [htext]; exact (String.append_eq_empty_iff.1 hempty).1), rfl, rfl⟩
  · rw [if_neg (not_or.2 ⟨hne, hslash⟩), lead_slash_of_ne hne, steps_slash]
    exact ⟨fun hempty => hne (String.append_eq_empty_iff.1 (String.append_eq_empty_iff.1 hempty).1).1,
      rfl, rfl⟩

/-- A path that goes on as another one does goes on so wherever the two are joined to. -/
theorem join_append {q q' : Path} {more : List Component} (hlead : q'.lead = q.lead)
    (hsteps : q'.steps = q.steps ++ more) (p : Path) :
    (p.join q').lead = (p.join q).lead ∧ (p.join q').steps = (p.join q).steps ++ more := by
  have habsolute : q'.isAbsolute = true ↔ q.isAbsolute = true := by
    rw [isAbsolute_iff, isAbsolute_iff, hlead]
  by_cases h : q.isAbsolute = true
  · rw [join_of_absolute h, join_of_absolute (habsolute.2 h)]
    exact ⟨hlead, hsteps⟩
  by_cases hempty : p.text = ""
  · rw [join_of_empty hempty, join_of_empty hempty]
    exact ⟨hlead, hsteps⟩
  · obtain ⟨-, hleft, hleft'⟩ := join_of_relative h hempty
    obtain ⟨-, hright, hright'⟩ := join_of_relative (mt habsolute.1 h) hempty
    rw [hleft, hleft', hright, hright', hsteps, List.append_assoc]
    exact ⟨rfl, rfl⟩

section Single

variable {name : String}

theorem lead_single (single : '/' ∉ name.toList) (proper : Proper name) :
    (Path.mk name).lead = [] := by
  unfold lead
  rw [pieces_single single, List.head?_cons, if_neg, if_neg (not_isAbsolute_of_single single)]
  intro h
  exact proper.not_idle (.inr (Option.some.inj h))

theorem steps_single (single : '/' ∉ name.toList) (proper : Proper name) :
    (Path.mk name).steps = [.name name] := by
  rw [steps, pieces_single single, List.filterMap_cons_some (component?_of_proper proper)]
  rfl

/-- A path below another one takes one more step. -/
theorem steps_child (p : Path) (single : '/' ∉ name.toList) (proper : Proper name) :
    (p.child name).lead = p.lead ∧ (p.child name).steps = p.steps ++ [.name name] := by
  unfold child
  rw [← steps_single single proper]
  by_cases hempty : p.text = ""
  · have hp : p = ⟨""⟩ := congrArg Path.mk hempty
    rw [join_of_empty hempty, lead_single single proper, hp]
    exact ⟨rfl, rfl⟩
  · exact (join_of_relative (not_isAbsolute_of_single single) hempty).2

theorem components_child (p : Path) (single : '/' ∉ name.toList) (proper : Proper name) :
    (p.child name).components = p.components ++ [.name name] := by
  obtain ⟨hlead, hsteps⟩ := p.steps_child single proper
  rw [components_eq, components_eq, hlead, hsteps, List.append_assoc]

end Single

/-! ## Characters -/

theorem mem_splitOn_iff {a c : Char} (hne : c ≠ a) {xs : List Char} :
    (∃ l ∈ xs.splitOn a, c ∈ l) ↔ c ∈ xs := by
  induction xs with
  | nil => simp
  | cons x xs ih =>
    rw [List.splitOn_cons_eq_if_modifyHead]
    split
    · next hx =>
      have hcx : c ≠ x := fun heq => hne (heq.trans (eq_of_beq hx))
      simp [ih, hcx]
    · obtain ⟨first, others, hsplit⟩ := List.exists_cons_of_ne_nil (List.splitOn_ne_nil a xs)
      rw [hsplit] at ih ⊢
      rw [List.modifyHead_cons, List.mem_cons, ← ih]
      simp [or_assoc]

/-- A character that is no slash stands in a path if it stands in a piece of it. -/
theorem mem_pieces_iff {p : Path} {c : Char} (hc : c ≠ '/') :
    (∃ piece ∈ p.pieces, c ∈ piece.toList) ↔ c ∈ p.text.toList := by
  rw [← mem_splitOn_iff hc]
  simp [pieces, Text.pieces]

end BuildMatrix.Path
