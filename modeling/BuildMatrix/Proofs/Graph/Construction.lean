import BuildMatrix.Graph
import Mathlib.Data.List.Nodup

/-!
# Graphs that additions make

A graph grows by additions: variables, rules, sources, edges and defaults, in any
order.  An edge whose target is taken is refused and changes nothing.

`Indexed` is what every graph made in this way satisfies.  The index gives a
position for exactly the targets, and the position is that of the target's edge.
It follows that no two edges have the same target, and that `hasTarget` decides
whether some edge makes a target.  Only `Graph.add` touches edges and index, so
`Indexed.add` is the one step that has to be looked at.

A list of edges is added as a whole if all targets, old and new, differ, and is
refused otherwise (`addAll_of_nodup`, `addAll_of_not_nodup`).
-/

namespace BuildMatrix.Graph

/-! ## Additions -/

/-- One addition to a graph. -/
inductive Addition where
  /-- A file-scope variable. -/
  | global (key value : String)
  /-- A rule. -/
  | rule (rule : Rule)
  /-- A source. -/
  | source (path : String)
  /-- An edge, refused if its target is taken. -/
  | edge (edge : Edge)
  /-- A default. -/
  | default (target : String)

/-- The graph after an addition. -/
def grow (g : Graph) : Addition → Graph
  | .global key value => g.addGlobal key value
  | .rule rule => g.addRule rule
  | .source path => g.addSource path
  | .edge edge =>
      match g.add edge with
      | .ok grown => grown
      | .error _ => g
  | .default target => g.addDefault target

/-- The graph that additions make, starting from the empty one. -/
def ofAdditions (additions : List Addition) : Graph := additions.foldl grow empty

/-! ## The index -/

/-- The index gives the position of each target's edge, and of nothing else. -/
def Indexed (g : Graph) : Prop := ∀ target i, g.index.get? target = some i ↔ g.targets[i]? = some target

theorem indexed_empty : empty.Indexed := by
  intro target i
  simp [empty, targets]

/-- A graph with the edges and the index of an indexed one is indexed. -/
theorem Indexed.congr {g h : Graph} (hg : g.Indexed) (edges : h.edges = g.edges)
    (index : h.index = g.index) : h.Indexed := by
  intro target i
  unfold targets
  rw [edges, index]
  exact hg target i

theorem Indexed.hasTarget_iff {g : Graph} (hg : g.Indexed) {target : String} :
    g.hasTarget target = true ↔ target ∈ g.targets := by
  unfold hasTarget SortedMap.contains
  rw [Option.isSome_iff_exists, List.mem_iff_getElem?]
  exact exists_congr fun i => hg target i

/-- No two edges have the same target. -/
theorem Indexed.once {g : Graph} (hg : g.Indexed) : g.targets.Nodup := by
  rw [List.nodup_iff_getElem?_ne_getElem?]
  intro i j hij hj heq
  have htarget : g.targets[j]? = some g.targets[j] := List.getElem?_eq_getElem hj
  have hi := (hg _ i).2 (heq.trans htarget)
  rw [(hg _ j).2 htarget] at hi
  injection hi with h
  omega

/-- An edge is known by its target. -/
theorem Indexed.eq_of_target_eq {g : Graph} (hg : g.Indexed) {a b : Edge} (ha : a ∈ g.edges)
    (hb : b ∈ g.edges) (h : a.target = b.target) : a = b :=
  List.inj_on_of_nodup_map hg.once ha hb h

/-- Every edge is found under its target. -/
theorem Indexed.edge?_of_mem {g : Graph} (hg : g.Indexed) {edge : Edge} (h : edge ∈ g.edges) :
    g.edge? edge.target = some edge := by
  obtain ⟨i, hi⟩ := List.mem_iff_getElem?.1 h
  have hindex : g.index.get? edge.target = some i := by
    rw [hg, targets, List.getElem?_map, hi]
    rfl
  unfold edge?
  rw [hindex]
  exact hi

/-- What is found under a target is the edge that makes it. -/
theorem Indexed.edge?_eq_some_iff {g : Graph} (hg : g.Indexed) {target : String} {edge : Edge} :
    g.edge? target = some edge ↔ edge ∈ g.edges ∧ edge.target = target := by
  constructor
  · intro h
    obtain ⟨i, hindex, hi⟩ := Option.bind_eq_some_iff.1 h
    have htarget : g.targets[i]? = some target := (hg target i).1 hindex
    rw [targets, List.getElem?_map, hi] at htarget
    injection htarget with htarget
    exact ⟨List.mem_of_getElem? hi, htarget⟩
  · rintro ⟨hmem, rfl⟩
    exact hg.edge?_of_mem hmem

/-- The two outcomes of adding an edge. -/
theorem add_cases (g : Graph) (edge : Edge) :
    (g.hasTarget edge.target = true ∧ g.add edge = .error (.duplicateTarget edge.target)) ∨
    (g.hasTarget edge.target = false ∧ g.add edge = .ok
      { g with
        edges := g.edges ++ [edge]
        index := g.index.insert edge.target g.edges.length }) := by
  unfold add
  cases h : g.hasTarget edge.target with
  | true => exact .inl ⟨rfl, rfl⟩
  | false => exact .inr ⟨rfl, rfl⟩

theorem Indexed.add {g h : Graph} (hg : g.Indexed) {edge : Edge} (hadd : g.add edge = .ok h) :
    h.Indexed := by
  rcases g.add_cases edge with ⟨-, herr⟩ | ⟨hfree, hok⟩
  · rw [herr] at hadd
    cases hadd
  · rw [hok] at hadd
    injection hadd with hh
    subst hh
    have hnew : edge.target ∉ g.targets := by
      rw [← hg.hasTarget_iff, hfree]
      decide
    have hlen : g.targets.length = g.edges.length := List.length_map ..
    intro target i
    show (g.index.insert edge.target g.edges.length).get? target = some i ↔
      ((g.edges ++ [edge]).map Edge.target)[i]? = some target
    have htargets : (g.edges ++ [edge]).map Edge.target = g.targets ++ [edge.target] := by
      rw [List.map_append, List.map_cons, List.map_nil, targets]
    rw [htargets, SortedMap.get?_insert, ← hlen]
    by_cases htarget : target = edge.target
    · subst htarget
      rw [if_pos rfl, Option.some.injEq]
      constructor
      · rintro rfl
        exact List.getElem?_concat_length
      · intro hi
        by_contra hne
        have hold : g.targets[i]? = some edge.target := by
          have hlt : i < g.targets.length := by
            have := (List.getElem?_eq_some_iff.1 hi).1
            rw [List.length_append, List.length_singleton] at this
            omega
          rwa [List.getElem?_append_left hlt] at hi
        exact hnew (List.mem_of_getElem? hold)
    · rw [if_neg htarget, hg target i]
      constructor
      · intro hi
        have hlt : i < g.targets.length := (List.getElem?_eq_some_iff.1 hi).1
        rwa [List.getElem?_append_left hlt]
      · intro hi
        have hlt : i < g.targets.length := by
          by_contra hge
          rw [List.getElem?_append_right (by omega), List.getElem?_singleton] at hi
          split at hi
          · injection hi with hi
            exact htarget hi.symm
          · cases hi
        rwa [List.getElem?_append_left hlt] at hi

/-! ## Every graph that is made is indexed -/

theorem Indexed.grow {g : Graph} (hg : g.Indexed) (addition : Addition) :
    (g.grow addition).Indexed := by
  cases addition with
  | global key value => exact hg.congr rfl rfl
  | rule rule => exact hg.congr rfl rfl
  | source path => exact hg.congr rfl rfl
  | default target => exact hg.congr rfl rfl
  | edge edge =>
    simp only [Graph.grow]
    split
    · next grown hok => exact hg.add hok
    · exact hg

theorem indexed_foldl {g : Graph} (hg : g.Indexed) (additions : List Addition) :
    (additions.foldl Graph.grow g).Indexed := by
  induction additions generalizing g with
  | nil => exact hg
  | cons addition additions ih => exact ih (hg.grow addition)

theorem indexed_ofAdditions (additions : List Addition) : (ofAdditions additions).Indexed :=
  indexed_foldl indexed_empty additions

/-! ## Adding a list of edges -/

theorem addAll_cons (g : Graph) (edge : Edge) (edges : List Edge) :
    g.addAll (edge :: edges) = g.add edge >>= fun grown => grown.addAll edges := rfl

/-- Edges with new and different targets are all added, and nothing else changes. -/
theorem addAll_of_nodup {g : Graph} (hg : g.Indexed) {edges : List Edge}
    (once : (g.targets ++ edges.map Edge.target).Nodup) :
    ∃ h : Graph, g.addAll edges = .ok h ∧ h.Indexed ∧
      h = { g with edges := g.edges ++ edges, index := h.index } := by
  induction edges generalizing g with
  | nil => exact ⟨g, rfl, hg, by rw [List.append_nil]⟩
  | cons edge edges ih =>
    rcases g.add_cases edge with ⟨htaken, -⟩ | ⟨-, hok⟩
    · have hmem : edge.target ∈ g.targets := hg.hasTarget_iff.1 htaken
      rw [List.nodup_append] at once
      exact absurd rfl (once.2.2 _ hmem _ List.mem_cons_self)
    · have htargets : (g.targets ++ [edge.target]) ++ edges.map Edge.target =
          g.targets ++ (edge :: edges).map Edge.target := by
        rw [List.append_assoc, List.map_cons, List.singleton_append]
      have honce := htargets ▸ once
      obtain ⟨h, hadd, hindexed, hh⟩ := ih (hg.add hok) (by
        unfold targets at honce ⊢
        rw [List.map_append]
        exact honce)
      refine ⟨h, ?_, hindexed, ?_⟩
      · rw [addAll_cons, hok]
        exact hadd
      · rw [hh, List.append_assoc, List.singleton_append]

/-- Edges of which two have the same target, or one has a target that is taken, are refused. -/
theorem addAll_of_not_nodup {g : Graph} (hg : g.Indexed) {edges : List Edge}
    (h : ¬ (g.targets ++ edges.map Edge.target).Nodup) :
    ∃ target, g.addAll edges = .error (.duplicateTarget target) := by
  induction edges generalizing g with
  | nil =>
    rw [List.map_nil, List.append_nil] at h
    exact absurd hg.once h
  | cons edge edges ih =>
    rcases g.add_cases edge with ⟨-, herr⟩ | ⟨-, hok⟩
    · refine ⟨edge.target, ?_⟩
      rw [addAll_cons, herr]
      rfl
    · obtain ⟨target, hadd⟩ := ih (hg.add hok) (by
        unfold targets at h ⊢
        rw [List.map_append, List.append_assoc, List.map_singleton, List.singleton_append]
        exact h)
      refine ⟨target, ?_⟩
      rw [addAll_cons, hok]
      exact hadd

end BuildMatrix.Graph
