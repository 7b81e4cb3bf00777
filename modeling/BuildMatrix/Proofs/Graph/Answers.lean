import BuildMatrix.Proofs.Graph.Construction
import BuildMatrix.Proofs.Task

/-!
# Additions and what is answered to them

`Graph.add` gives a new graph, or an error and no graph.  Here a graph is changed in
place.  `enter` looks a target up, then writes to the index, then to the edges.  A
`Task` keeps what it has written when it fails, so a refused edge leaves no trace only
because the test comes before both writes (`outcome_enter`).

Additions are made one after the other whatever is answered, and `performAll` notes
every answer.  One addition makes the list of edges longer by the edge that it enters,
or leaves it (`outcome_perform`).  So the edges of a graph are those of the additions
that succeeded, in their order (`performAll_eq`).

Together with `Indexed` this says what a graph holds after any additions
(`performAll_represents`).
-/

namespace BuildMatrix.Graph

/-! ## Changes in place -/

/-- Add an edge to the graph at hand, unless its target is taken. -/
def enter (edge : Edge) : Task GraphError Graph Unit := do
  let g ← get
  -- a failure does not undo what is written, so the test has to come first
  if g.hasTarget edge.target then throw (.duplicateTarget edge.target)
  set { g with index := g.index.insert edge.target g.edges.length }
  modify fun g => { g with edges := g.edges ++ [edge] }

/-- Make an addition to the graph at hand. -/
def perform : Addition → Task GraphError Graph Unit
  | .global key value => modify (·.addGlobal key value)
  | .rule rule => modify (·.addRule rule)
  | .source path => modify (·.addSource path)
  | .edge edge => enter edge
  | .default target => modify (·.addDefault target)

/-- An addition with the answer to it. -/
abbrev Answered := Addition × Except GraphError Unit

/-- Make additions one after the other, whatever the answers, and note the answers. -/
def performAll : List Addition → Graph → List Answered × Graph
  | [], g => ([], g)
  | addition :: additions, g =>
      let (answer, grown) := (perform addition).outcome g
      let (log, last) := performAll additions grown
      ((addition, answer) :: log, last)

/-- The edges that were added with success, in the order of the additions. -/
def accepted (log : List Answered) : List Edge :=
  log.filterMap fun
    | (.edge edge, .ok ()) => some edge
    | _ => none

/-! ## One addition -/

/-- An edge is entered or refused as `add` has it, and a refusal leaves the graph as it was. -/
theorem outcome_enter (g : Graph) (edge : Edge) :
    (enter edge).outcome g =
      match g.add edge with
      | .ok grown => (.ok (), grown)
      | .error error => (.error error, g) := by
  unfold Task.outcome enter
  rcases g.add_cases edge with ⟨htaken, hadd⟩ | ⟨hfree, hadd⟩
  · rw [hadd, Task.get_bind, if_pos htaken]
    rfl
  · rw [hadd, Task.get_bind, hfree]
    rfl

/-- Exactly the edges whose target is taken are refused. -/
theorem Indexed.outcome_enter_eq_error_iff {g h : Graph} (hg : g.Indexed) {edge : Edge}
    {error : GraphError} :
    (enter edge).outcome g = (.error error, h) ↔
      edge.target ∈ g.targets ∧ error = .duplicateTarget edge.target ∧ h = g := by
  rw [outcome_enter, ← hg.hasTarget_iff]
  rcases g.add_cases edge with ⟨htaken, hadd⟩ | ⟨hfree, hadd⟩
  · rw [hadd]
    constructor
    · intro heq
      injection heq with herror hgraph
      injection herror with herror
      exact ⟨htaken, herror.symm, hgraph.symm⟩
    · rintro ⟨-, rfl, rfl⟩
      rfl
  · rw [hadd, hfree]
    constructor
    · intro heq
      injection heq with herror _
      cases herror
    · rintro ⟨htaken, -⟩
      cases htaken

/-- An addition in place leaves the graph that `grow` gives.  It appends the edge that it enters, if
any, and touches no other. -/
theorem outcome_perform (g : Graph) (addition : Addition) :
    ∃ answer, (perform addition).outcome g = (answer, g.grow addition) ∧
      (g.grow addition).edges = g.edges ++ accepted [(addition, answer)] := by
  cases addition with
  | global key value => exact ⟨.ok (), rfl, (List.append_nil _).symm⟩
  | rule rule => exact ⟨.ok (), rfl, (List.append_nil _).symm⟩
  | source path => exact ⟨.ok (), rfl, (List.append_nil _).symm⟩
  | default target => exact ⟨.ok (), rfl, (List.append_nil _).symm⟩
  | edge edge =>
    rw [perform, outcome_enter, grow]
    rcases g.add_cases edge with ⟨-, hadd⟩ | ⟨-, hadd⟩
    · rw [hadd]
      exact ⟨.error (.duplicateTarget edge.target), rfl, (List.append_nil _).symm⟩
    · rw [hadd]
      exact ⟨.ok (), rfl, rfl⟩

/-! ## Additions one after the other -/

/-- Additions in place leave the graph that they make, and every one of them is answered.  The edges
are those that were there and, after them, those that were accepted. -/
theorem performAll_eq (additions : List Addition) (g : Graph) :
    ∃ log, performAll additions g = (log, additions.foldl grow g) ∧
      log.map Prod.fst = additions ∧
      (additions.foldl grow g).edges = g.edges ++ accepted log := by
  induction additions generalizing g with
  | nil => exact ⟨[], rfl, rfl, (List.append_nil _).symm⟩
  | cons addition additions ih =>
    obtain ⟨answer, hfirst, hgrown⟩ := g.outcome_perform addition
    obtain ⟨log, hrest, hmade, hedges⟩ := ih (g.grow addition)
    refine ⟨(addition, answer) :: log, ?_, ?_, ?_⟩
    · rw [performAll, hfirst]
      dsimp only
      rw [hrest]
      rfl
    · rw [List.map_cons, hmade]
    · calc ((addition :: additions).foldl grow g).edges
        _ = (g.grow addition).edges ++ accepted log := hedges
        _ = g.edges ++ (accepted [(addition, answer)] ++ accepted log) := by
          rw [hgrown, List.append_assoc]
        _ = g.edges ++ accepted ((addition, answer) :: log) := by
          rw [accepted, accepted, ← List.filterMap_append]
          rfl

/-- Whatever additions are made to the empty graph, and in whatever order, no two edges have the same
target.  The index gives the position of every target and of nothing else, and a look-up finds exactly
the edge that makes a target.  The edges stand in the order in which they were accepted.  An edge is
accepted or refused as `add` has it.  It is refused exactly if its target is taken, and then the graph
is left as it was in all its parts. -/
theorem performAll_represents (additions : List Addition) :
    ∃ log g, performAll additions empty = (log, g) ∧ g = ofAdditions additions ∧
      log.map Prod.fst = additions ∧
      g.targets.Nodup ∧
      (∀ target i, g.index.get? target = some i ↔ g.targets[i]? = some target) ∧
      (∀ target edge, g.edge? target = some edge ↔ edge ∈ g.edges ∧ edge.target = target) ∧
      g.edges = accepted log ∧
      (∀ edge h, (enter edge).outcome g = (.ok (), h) ↔ g.add edge = .ok h) ∧
      ∀ edge error h, (enter edge).outcome g = (.error error, h) ↔
        edge.target ∈ g.targets ∧ error = .duplicateTarget edge.target ∧ h = g := by
  obtain ⟨log, hperformed, hmade, hedges⟩ := performAll_eq additions empty
  have indexed := indexed_ofAdditions additions
  refine ⟨log, ofAdditions additions, hperformed, rfl, hmade, indexed.once, indexed,
    fun _ _ => indexed.edge?_eq_some_iff, hedges, fun edge h => ?_,
    fun _ _ _ => indexed.outcome_enter_eq_error_iff⟩
  rw [outcome_enter]
  cases (ofAdditions additions).add edge with
  | ok grown => simp
  | error error => simp

/-- The second edge for a target is refused, and the one after it is accepted. -/
example : accepted (performAll [.edge ⟨"a", "copy", ["b"], []⟩, .edge ⟨"a", "copy", ["c"], []⟩,
    .edge ⟨"c", "copy", ["a"], []⟩] empty).1 =
      [⟨"a", "copy", ["b"], []⟩, ⟨"c", "copy", ["a"], []⟩] := by
  cbv

end BuildMatrix.Graph
