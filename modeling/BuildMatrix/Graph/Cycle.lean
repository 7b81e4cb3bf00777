/-!
# Cycles

A directed graph is given by its nodes and its arcs.  The search for a cycle has
two parts.

`finishOrder` is a depth-first search from every node in turn.  It keeps a list
of work: *enter* a node, or *leave* it once everything behind it is done.
Entering a node takes it off the list of fresh nodes and queues its successors
before leaving it.  A node with an arc to itself is reported as soon as it is
entered.  The search ends because each node is entered once and every other step
shortens the work.  The result lists the nodes, the last one left first.

In that order every arc of a graph without cycles points forward.  `backward?`
looks for the first node with an arc from a later node, and reports that later
node; the two lie on a common cycle, since the later node was left first and yet
has an arc to a node that was then still open.

Of several such arcs the first one given counts, both for the search and for the
report.
-/

namespace BuildMatrix

variable {α : Type} [DecidableEq α]

/-- The successors of a node, in the order of the arcs. -/
def successors (arcs : List (α × α)) (a : α) : List α :=
  (arcs.filter fun arc => arc.1 = a).map Prod.snd

/-- The predecessors of a node, in the order of the arcs. -/
def predecessors (arcs : List (α × α)) (a : α) : List α :=
  (arcs.filter fun arc => arc.2 = a).map Prod.fst

/-! ## Depth-first search -/

/-- An item of work in a depth-first search. -/
inductive Visit (α : Type) where
  /-- Go into a node, unless that was done. -/
  | enter (node : α)
  /-- Finish a node. -/
  | leave (node : α)

/-- Work off the visits.  `fresh` lists the nodes not yet entered and `left` those left, the last
one first.  Fails with a node that has an arc to itself. -/
def search (arcs : List (α × α)) (work : List (Visit α)) (fresh left : List α) :
    Except α (List α) :=
  match work with
  | [] => .ok left
  | .leave a :: work => search arcs work fresh (a :: left)
  | .enter a :: work =>
      if a ∈ fresh then
        if (a, a) ∈ arcs then .error a
        else
          search arcs ((successors arcs a).map .enter ++ .leave a :: work) (fresh.erase a) left
      else search arcs work fresh left
termination_by (fresh.length, work.length)
decreasing_by
  · exact Prod.Lex.right _ (by simp)
  · next h _ =>
      refine Prod.Lex.left _ _ ?_
      rw [List.length_erase_of_mem h]
      have := List.length_pos_of_mem h
      omega
  · exact Prod.Lex.right _ (by simp)

/-- The nodes in the reverse order of leaving them, or a node with an arc to itself. -/
def finishOrder (nodes : List α) (arcs : List (α × α)) : Except α (List α) :=
  search arcs (nodes.map .enter) nodes []

/-! ## Arcs that point backward -/

/-- The first arc, by its end and then by the order of the arcs, from a node that is not listed
before its end.  `seen` is what was listed so far. -/
def backward? (arcs : List (α × α)) (seen : List α) : List α → Option α
  | [] => none
  | a :: rest =>
      match (predecessors arcs a).find? fun b => b ≠ a ∧ b ∉ seen with
      | some b => some b
      | none => backward? arcs (a :: seen) rest
termination_by structural order => order

/-- A node on a cycle, if there is one. -/
def cycleNode? (nodes : List α) (arcs : List (α × α)) : Option α :=
  match finishOrder nodes arcs with
  | .error a => some a
  | .ok order => backward? arcs [] order

/-! ## Tests -/

example : cycleNode? [0, 1, 2] [(0, 1), (1, 2)] = none := by cbv

example : cycleNode? [0, 1, 2] [(0, 1), (1, 2), (2, 1)] = some 2 := by cbv

example : cycleNode? [0, 1] [(0, 1), (1, 1)] = some 1 := by cbv

end BuildMatrix
