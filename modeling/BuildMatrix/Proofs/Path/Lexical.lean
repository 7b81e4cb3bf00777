import BuildMatrix.Proofs.Path.Holder

/-!
# Where a path leads by its text alone

An executor of a build graph knows files by the text of their paths.  It takes out what
means nothing and cancels a name against a step upward behind it, without a look at the
file tree.  What is left is `Path.canonical`.

The pieces of a path are followed one by one (`onward`), and the way so far is kept with
its last name first.  Steps upward that nothing cancels stay at the far end of the way, in
front of all names (`Settled`).  So a path from some place on either stays below that
place, and then its names are put onto the way there (`walk_of_stays`), or it climbs, and
then it goes on from above the place, whatever the name of the place is
(`exists_walk_of_climbs`).
-/

namespace BuildMatrix.Path

/-! ## Following pieces -/

/-- A piece that is a name. -/
structure Proper (piece : String) : Prop where
  /-- It means something. -/
  not_idle : ¬ Idle piece
  /-- It is no step upward. -/
  not_up : piece ≠ ".."

instance (piece : String) : Decidable (Proper piece) :=
  decidable_of_iff (¬ (piece = "" ∨ piece = ".") ∧ piece ≠ "..")
    ⟨fun ⟨idle, up⟩ => ⟨idle, up⟩, fun ⟨idle, up⟩ => ⟨idle, up⟩⟩

theorem proper_of_plain {name : String} (plain : Plain name) : Proper name :=
  ⟨plain.not_idle, plain.not_up⟩

theorem piece_cases (piece : String) : Idle piece ∨ piece = ".." ∨ Proper piece := by
  by_cases idle : Idle piece
  · exact .inl idle
  by_cases up : piece = ".."
  · exact .inr (.inl up)
  · exact .inr (.inr ⟨idle, up⟩)

/-- The way after one more piece, the last name first.  A step upward cancels a name, but no other step
upward. -/
def onward (way : List String) (piece : String) : List String :=
  if piece = "" ∨ piece = "." then way
  else if piece = ".." then
    match way with
    | [] => [".."]
    | name :: rest => if name = ".." then ".." :: name :: rest else rest
  else piece :: way

/-- The way after some more pieces. -/
def walk (way pieces : List String) : List String := pieces.foldl onward way

section Walk

variable {way : List String} {piece : String} {pieces : List String}

theorem onward_of_idle (idle : Idle piece) : onward way piece = way := if_pos idle

theorem onward_of_proper (proper : Proper piece) : onward way piece = piece :: way := by
  unfold onward
  rw [if_neg (show ¬ (piece = "" ∨ piece = ".") from proper.not_idle), if_neg proper.not_up]

@[simp] theorem onward_nil_up : onward [] ".." = [".."] := by decide

@[simp] theorem onward_up_up : onward (".." :: way) ".." = ".." :: ".." :: way := by simp [onward]

theorem onward_up_of_proper (proper : Proper piece) : onward (piece :: way) ".." = way := by
  simp [onward, proper.not_up]

@[simp] theorem walk_nil : walk way [] = way := rfl

@[simp] theorem walk_cons : walk way (piece :: pieces) = walk (onward way piece) pieces := rfl

@[simp] theorem walk_append (more : List String) :
    walk way (pieces ++ more) = walk (walk way pieces) more := List.foldl_append

theorem walk_of_proper (proper : ∀ piece ∈ pieces, Proper piece) :
    walk way pieces = pieces.reverse ++ way := by
  induction pieces generalizing way with
  | nil => rfl
  | cons piece pieces ih =>
    obtain ⟨hpiece, hpieces⟩ := List.forall_mem_cons.1 proper
    rw [walk_cons, onward_of_proper hpiece, ih hpieces]
    simp

/-! ## Ways that are settled -/

/-- No step upward follows a name. -/
def Settled (way : List String) : Prop :=
  ∃ names k, way = names ++ List.replicate k ".." ∧ ∀ name ∈ names, Proper name

theorem Settled.onward (settled : Settled way) (piece : String) : Settled (onward way piece) := by
  obtain ⟨names, k, rfl, proper⟩ := settled
  rcases piece_cases piece with idle | rfl | hpiece
  · rw [onward_of_idle idle]
    exact ⟨names, k, rfl, proper⟩
  · cases names with
    | nil =>
      refine ⟨[], k + 1, ?_, proper⟩
      cases k with
      | zero => exact onward_nil_up
      | succ k => exact onward_up_up
    | cons name names =>
      obtain ⟨hname, hnames⟩ := List.forall_mem_cons.1 proper
      rw [List.cons_append, onward_up_of_proper hname]
      exact ⟨names, k, rfl, hnames⟩
  · rw [onward_of_proper hpiece]
    exact ⟨piece :: names, k, rfl, List.forall_mem_cons.2 ⟨hpiece, proper⟩⟩

theorem Settled.walk (settled : Settled way) (pieces : List String) : Settled (walk way pieces) := by
  induction pieces generalizing way with
  | nil => exact settled
  | cons piece pieces ih => exact ih (settled.onward piece)

theorem settled_walk (pieces : List String) : Settled (walk [] pieces) :=
  Settled.walk ⟨[], 0, rfl, fun _ h => by cases h⟩ pieces

/-- Pieces can be followed from their own start first. -/
theorem walk_walk (way pieces : List String) :
    walk way pieces = walk way (walk [] pieces).reverse := by
  induction pieces using List.reverseRecOn with
  | nil => rfl
  | append_singleton pieces piece ih =>
    rw [walk_append, walk_append, ih]
    obtain ⟨names, k, hnames, proper⟩ := settled_walk pieces
    rw [hnames]
    rcases piece_cases piece with idle | rfl | hpiece
    · simp [onward_of_idle idle]
    · cases names with
      | nil =>
        cases k with
        | zero => simp
        | succ k => simp [List.replicate_succ]
      | cons name names =>
        have hname := proper name List.mem_cons_self
        simp [onward_up_of_proper hname, onward_of_proper hname]
    · simp [onward_of_proper hpiece]

/-- Pieces that lead to no place above their start put their names onto the way. -/
theorem walk_of_stays (stays : ".." ∉ walk [] pieces) (way : List String) :
    walk way pieces = walk [] pieces ++ way := by
  obtain ⟨names, k, hnames, proper⟩ := settled_walk pieces
  have hk : k = 0 := by
    cases k with
    | zero => rfl
    | succ k =>
      refine absurd ?_ stays
      rw [hnames]
      simp
  rw [hk, List.replicate_zero, List.append_nil] at hnames
  rw [walk_walk, hnames, walk_of_proper fun name h => proper name (List.mem_reverse.1 h),
    List.reverse_reverse]

/-- Pieces that lead to a place above their start go on from above any name. -/
theorem exists_walk_of_climbs (climbs : ".." ∈ walk [] pieces) :
    ∃ rest, ∀ {name : String} (way : List String), Proper name →
      walk (name :: way) pieces = walk way rest := by
  obtain ⟨names, k, hnames, proper⟩ := settled_walk pieces
  cases k with
  | zero =>
    rw [hnames, List.replicate_zero, List.append_nil] at climbs
    exact absurd rfl (proper _ climbs).not_up
  | succ k =>
    refine ⟨List.replicate k ".." ++ names.reverse, fun way hname => ?_⟩
    rw [walk_walk, hnames, List.reverse_append, List.reverse_replicate, List.replicate_succ,
      List.cons_append, walk_cons, onward_up_of_proper hname]

end Walk

/-! ## Texts -/

/-- Where a path leads by its text: whether from the root directory, and the names and steps upward
that are left, in order. -/
def canonical (text : String) : Bool × List String :=
  ((Path.mk text).isAbsolute, (walk [] (Path.mk text).pieces).reverse)

/-- What one text leads to lies below what the other leads to. -/
def LiesIn (directory text : String) : Prop :=
  (canonical text).1 = (canonical directory).1 ∧
    ∃ rest, rest ≠ [] ∧ (canonical text).2 = (canonical directory).2 ++ rest

theorem pieces_slash (x y : String) :
    (Path.mk (x ++ "/" ++ y)).pieces = (Path.mk x).pieces ++ (Path.mk y).pieces := by
  have hlist : (x ++ "/" ++ y).toList = x.toList ++ '/' :: y.toList := by simp
  rw [pieces, Text.pieces, hlist, List.splitOn_append_cons_self, List.map_append]
  rfl

theorem isAbsolute_slash (x y : String) :
    (Path.mk (x ++ "/" ++ y)).isAbsolute = (Path.mk (x ++ "/")).isAbsolute := by
  unfold isAbsolute
  cases hx : x.toList with
  | nil => simp [hx]
  | cons c rest => simp [hx]

theorem pieces_single {name : String} (single : '/' ∉ name.toList) :
    (Path.mk name).pieces = [name] := by
  rw [pieces, Text.pieces, List.splitOn_eq_singleton single, List.map_singleton, String.ofList_toList]

theorem exists_last_piece (p : Path) : ∃ front last, p.pieces = front ++ [last] := by
  obtain ⟨front, last, hsplit⟩ := exists_last_part '/' p.text.toList
  refine ⟨front.map String.ofList, String.ofList last, ?_⟩
  rw [pieces, Text.pieces, hsplit, List.map_append, List.map_singleton]

/-- A text without slashes goes to the last piece of what it is added to. -/
theorem pieces_append_single {x y last : String} {front : List String}
    (h : (Path.mk x).pieces = front ++ [last]) (single : '/' ∉ y.toList) :
    (Path.mk (x ++ y)).pieces = front ++ [last ++ y] := by
  rw [pieces, Text.pieces] at h ⊢
  obtain ⟨parts, ends, hsplit, rfl, hends⟩ := List.map_eq_append_iff.1 h
  obtain ⟨part, rfl, rfl⟩ := List.map_eq_singleton_iff.1 hends
  rw [String.toList_append, splitOn_append hsplit single, List.map_append, List.map_singleton,
    String.ofList_append, String.ofList_toList]

/-- A bare name leads to itself. -/
theorem canonical_single {name : String} (single : '/' ∉ name.toList) (proper : Proper name) :
    canonical name = (false, [name]) := by
  rw [canonical, pieces_single single, walk_cons, onward_of_proper proper,
    Bool.eq_false_iff.2 (not_isAbsolute_of_single single)]
  rfl

example : canonical "b/v/objs/../../x//./a.o" = (false, ["b", "x", "a.o"]) ∧
    canonical "/../a/../.." = (true, ["..", ".."]) := by decide

end BuildMatrix.Path
