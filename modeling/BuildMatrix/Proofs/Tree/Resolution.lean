import BuildMatrix.Tree
import BuildMatrix.Proofs.SortedMap

/-!
# Following paths

A resolution takes one *turn* for each piece of a path: it has ended, or it goes on
with other pieces from another directory.  What a resolution does is said turn by
turn (`resolve_cons`), and what holds of every turn holds of the whole
(`resolve_ind`).
-/

namespace BuildMatrix

/-- The location of a node, or that of a name which is still free. -/
def Place.location : Place → Location
  | .taken location _ => location
  | .vacant dir name => dir ++ [name]

namespace Tree

/-! ## Nodes -/

theorem node?_put {t : Tree} {location : Location} (h : location ≠ []) (node : Node)
    (other : Location) :
    (t.put location node).node? other = if other = location then some node else t.node? other := by
  unfold node? put
  by_cases hroot : other = []
  · rw [if_pos hroot, if_pos hroot, if_neg fun heq : other = location => h (heq ▸ hroot)]
  · rw [if_neg hroot, if_neg hroot]
    exact SortedMap.get?_insert _ _ _ _

theorem node?_nil (t : Tree) : t.node? [] = some .directory := if_pos rfl

theorem node?_put_self {t : Tree} {location : Location} (h : location ≠ []) (node : Node) :
    (t.put location node).node? location = some node := by
  rw [node?_put h, if_pos rfl]

theorem node?_put_of_ne {t : Tree} {location other : Location} (h : location ≠ []) (node : Node)
    (hne : other ≠ location) : (t.put location node).node? other = t.node? other := by
  rw [node?_put h, if_neg hne]

/-! ## Turns -/

/-- How a resolution goes on after a piece. -/
inductive Turn where
  /-- The resolution has ended. -/
  | ended (outcome : Except Trouble Place)
  /-- Further pieces are followed from a directory. -/
  | onward (links : Nat) (dir : Location) (pieces : List String)

/-- The turn at a piece that names something in a directory, given the node of this name. -/
def nodeTurn (aim : Aim) (links : Nat) (dir : Location) (piece : String) (rest : List String) :
    Option Node → Turn
  | none => .ended (if rest = [] then .ok (.vacant dir piece) else .error .notFound)
  | some (.link target) =>
      if rest = [] ∧ aim = .entry then .ended (.ok (.taken (dir ++ [piece]) (.link target)))
      else
        match links with
        | 0 => .ended (.error .tooManyLinks)
        | links + 1 => .onward links (if target.isAbsolute then [] else dir) (target.pieces ++ rest)
  | some _ => .onward links (dir ++ [piece]) rest

/-- The turn at a piece that names nothing in a directory; none if it names something. -/
def earlyTurn (aim : Aim) (links : Nat) (dir : Location) (piece : String) (rest : List String) :
    Option Turn :=
  if piece = "" ∨ piece = "." then some (.onward links dir rest)
  else if piece = ".." then some (.onward links dir.dropLast rest)
  else if aim = .file ∧ rest ≠ [] ∧ rest.all (· = "") then some (.ended (.error .isDirectory))
  else if nameLimit < piece.utf8ByteSize then some (.ended (.error .nameTooLong))
  else none

/-- The turn that a resolution takes at a piece, with the rest of the pieces behind it. -/
def turn (t : Tree) (aim : Aim) (links : Nat) (dir : Location) (piece : String)
    (rest : List String) : Turn :=
  if t.node? dir ≠ some .directory then .ended (.error .notDirectory)
  else
    (earlyTurn aim links dir piece rest).getD
      (nodeTurn aim links dir piece rest (t.node? (dir ++ [piece])))

/-- What a turn comes to. -/
def Turn.outcome (t : Tree) (aim : Aim) : Turn → Except Trouble Place
  | .ended outcome => outcome
  | .onward links dir pieces => t.resolve aim links dir pieces

section Turns

variable {t : Tree} {aim : Aim} {links : Nat} {dir : Location} {piece : String} {rest : List String}

theorem resolve_nil :
    t.resolve aim links dir [] =
      match t.node? dir with
      | some node => .ok (.taken dir node)
      | none => .error .notFound :=
  (resolve.eq_def t aim links dir []).trans rfl

/-- A resolution goes on as its next turn says. -/
theorem resolve_cons :
    t.resolve aim links dir (piece :: rest) = (t.turn aim links dir piece rest).outcome t aim := by
  rw [resolve.eq_def]
  unfold turn earlyTurn
  by_cases hdir : t.node? dir ≠ some .directory
  · simp only [if_pos hdir]
    rfl
  simp only [if_neg hdir]
  by_cases hidle : piece = "" ∨ piece = "."
  · simp only [if_pos hidle]
    rfl
  simp only [if_neg hidle]
  by_cases hup : piece = ".."
  · simp only [if_pos hup]
    rfl
  simp only [if_neg hup]
  by_cases hslash : aim = .file ∧ rest ≠ [] ∧ rest.all (· = "")
  · simp only [if_pos hslash]
    rfl
  simp only [if_neg hslash]
  by_cases hlong : nameLimit < piece.utf8ByteSize
  · simp only [if_pos hlong]
    rfl
  simp only [if_neg hlong, Option.getD_none]
  cases hnode : t.node? (dir ++ [piece]) with
  | none =>
    cases rest with
    | nil => rfl
    | cons next rest => rfl
  | some node =>
    cases node with
    | directory => rfl
    | file content => rfl
    | link target =>
      unfold nodeTurn
      by_cases hentry : rest = [] ∧ aim = .entry
      · simp only [if_pos hentry]
        rfl
      · simp only [if_neg hentry]
        cases links with
        | zero => rfl
        | succ links => rfl

theorem turn_of_directory (h : t.node? dir = some .directory) :
    t.turn aim links dir piece rest =
      (earlyTurn aim links dir piece rest).getD
        (nodeTurn aim links dir piece rest (t.node? (dir ++ [piece]))) :=
  if_neg (not_not.2 h)

theorem turn_of_not_directory (h : t.node? dir ≠ some .directory) :
    t.turn aim links dir piece rest = .ended (.error .notDirectory) := if_pos h

/-- A turn ends outside of directories, or it is taken early, or the node at the piece decides. -/
theorem turn_cases (t : Tree) (aim : Aim) (links : Nat) (dir : Location) (piece : String)
    (rest : List String) :
    (t.node? dir ≠ some .directory ∧
        t.turn aim links dir piece rest = .ended (.error .notDirectory)) ∨
      t.node? dir = some .directory ∧
        ((∃ turn, earlyTurn aim links dir piece rest = some turn ∧
            t.turn aim links dir piece rest = turn) ∨
          earlyTurn aim links dir piece rest = none ∧
            t.turn aim links dir piece rest =
              nodeTurn aim links dir piece rest (t.node? (dir ++ [piece]))) := by
  by_cases hdir : t.node? dir = some .directory
  · refine .inr ⟨hdir, ?_⟩
    rw [turn_of_directory hdir]
    cases earlyTurn aim links dir piece rest with
    | some turn => exact .inl ⟨turn, rfl, rfl⟩
    | none => exact .inr ⟨rfl, rfl⟩
  · exact .inl ⟨hdir, turn_of_not_directory hdir⟩

/-! ## Entries and what they lead to -/

theorem earlyTurn_entry (links : Nat) (dir : Location) (piece : String) (rest : List String) :
    earlyTurn .node links dir piece rest = earlyTurn .entry links dir piece rest := by
  simp only [earlyTurn, reduceCtorEq, false_and, if_false]

/-- A link is followed, unless it is what the path is about. -/
theorem nodeTurn_link {aim : Aim} {rest : List String} (h : ¬ (rest = [] ∧ aim = .entry))
    (links : Nat) (dir : Location) (piece : String) (target : Path) :
    nodeTurn aim links dir piece rest (some (.link target)) =
      match links with
      | 0 => .ended (.error .tooManyLinks)
      | links + 1 => .onward links (if target.isAbsolute then [] else dir) (target.pieces ++ rest) :=
  if_neg h

/-- On the way to a node every link is followed. -/
theorem nodeTurn_node_link (links : Nat) (dir : Location) (piece : String) (rest : List String)
    (target : Path) :
    nodeTurn .node links dir piece rest (some (.link target)) =
      match links with
      | 0 => .ended (.error .tooManyLinks)
      | links + 1 => .onward links (if target.isAbsolute then [] else dir) (target.pieces ++ rest) :=
  nodeTurn_link (fun h => by cases h.2) links dir piece target

/-- A path to an entry ends at what the piece names or goes on like a path to a node. -/
theorem nodeTurn_entry {links : Nat} {dir : Location} {piece : String} {rest : List String}
    {found : Option Node} {turn : Turn} (h : nodeTurn .entry links dir piece rest found = turn) :
    (∃ outcome, turn = .ended outcome ∧
        ∀ place, outcome = .ok place → place.location = dir ++ [piece]) ∨
      ∃ links' dir' pieces, turn = .onward links' dir' pieces ∧
        nodeTurn .node links dir piece rest found = .onward links' dir' pieces := by
  subst h
  cases found with
  | none =>
    refine .inl ⟨_, rfl, fun place hplace => ?_⟩
    split at hplace
    · injection hplace with hplace
      rw [← hplace]
      rfl
    · cases hplace
  | some node =>
    cases node with
    | directory => exact .inr ⟨links, dir ++ [piece], rest, rfl, rfl⟩
    | file c => exact .inr ⟨links, dir ++ [piece], rest, rfl, rfl⟩
    | link target =>
      rw [nodeTurn_node_link]
      by_cases hlast : rest = [] ∧ Aim.entry = .entry
      · refine .inl ⟨_, if_pos hlast, fun place hplace => ?_⟩
        injection hplace with hplace
        rw [← hplace]
        rfl
      · rw [nodeTurn_link hlast]
        cases links with
        | zero => exact .inl ⟨_, rfl, fun place hplace => by cases hplace⟩
        | succ links => exact .inr ⟨links, _, _, rfl, rfl⟩

/-! ## Induction on turns -/

/-- A turn that goes on uses up a link or a piece. -/
theorem measure_of_earlyTurn {links' : Nat} {dir' : Location} {pieces : List String}
    (h : earlyTurn aim links dir piece rest = some (.onward links' dir' pieces)) :
    links' = links ∧ pieces = rest := by
  unfold earlyTurn at h
  split at h
  · injection h with h
    injection h with hlinks _ hpieces
    exact ⟨hlinks.symm, hpieces.symm⟩
  split at h
  · injection h with h
    injection h with hlinks _ hpieces
    exact ⟨hlinks.symm, hpieces.symm⟩
  split at h
  · cases h
  split at h
  · cases h
  · cases h

theorem measure_of_nodeTurn {links' : Nat} {dir' : Location} {pieces : List String}
    {node : Option Node} (h : nodeTurn aim links dir piece rest node = .onward links' dir' pieces) :
    links' = links ∧ pieces = rest ∨ links' < links := by
  unfold nodeTurn at h
  split at h
  · cases h
  · split at h
    · cases h
    · split at h
      · cases h
      · injection h with hlinks _ _
        exact .inr (by omega)
  · injection h with hlinks _ hpieces
    exact .inl ⟨hlinks.symm, hpieces.symm⟩

theorem measure_of_turn {links' : Nat} {dir' : Location} {pieces : List String}
    (h : t.turn aim links dir piece rest = .onward links' dir' pieces) :
    links' = links ∧ pieces = rest ∨ links' < links := by
  rcases t.turn_cases aim links dir piece rest with
    ⟨-, hturn⟩ | ⟨-, ⟨turn, hearly, hturn⟩ | ⟨-, hturn⟩⟩
  · rw [hturn] at h
    cases h
  · rw [hturn] at h
    exact .inl (measure_of_earlyTurn (hearly.trans (congrArg some h)))
  · rw [hturn] at h
    exact measure_of_nodeTurn h

end Turns

/-- What holds at the end of the pieces, and at a piece if it holds after its turn, holds of every
resolution. -/
theorem resolve_ind (t : Tree) (aim : Aim) {motive : Nat → Location → List String → Prop}
    (nil : ∀ links dir, motive links dir [])
    (cons : ∀ links dir piece rest,
      (∀ links' dir' pieces, t.turn aim links dir piece rest = .onward links' dir' pieces →
        motive links' dir' pieces) → motive links dir (piece :: rest))
    (links : Nat) (dir : Location) (pieces : List String) : motive links dir pieces := by
  match pieces with
  | [] => exact nil links dir
  | piece :: rest =>
    refine cons links dir piece rest fun links' dir' pieces h => ?_
    have hless := measure_of_turn h
    exact resolve_ind t aim nil cons links' dir' pieces
termination_by (links, pieces.length)
decreasing_by
  rcases hless with ⟨rfl, rfl⟩ | hless
  · exact Prod.Lex.right _ (Nat.lt_succ_self _)
  · exact Prod.Lex.left _ _ hless

end Tree

end BuildMatrix
