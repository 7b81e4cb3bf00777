import BuildMatrix.Proofs.Graph.Validity

/-!
# Edges in the order of a build

A list of edges is *staged* if every edge finds its inputs among the targets of
the edges before it, or, unless it is phony, among some given files.  Lists that
are staged can be put one after the other (`Staged.append`), so a long list is
seen to be staged part by part.

The inputs of a graph with staged edges resolve if the files are sources
(`Staged.made_or_file`).  If moreover no file is a target, and no two targets are
the same, positions increase from an edge to every edge that it feeds, so there is
no cycle (`Staged.acyclic`).
-/

namespace BuildMatrix

open Relation

/-- Every edge finds its inputs among what is made before it, or, unless it is phony, among the
files. -/
def Staged (files : List String) : (made : List String) → List Edge → Prop
  | _, [] => True
  | made, e :: edges =>
      (∀ input ∈ e.inputs, input ∈ made ∨ e.rule ≠ phony ∧ input ∈ files) ∧
        Staged files (e.target :: made) edges

namespace Staged

variable {files made more : List String} {edges rest : List Edge}

theorem mono (s : Staged files made edges) (subset : made ⊆ more) : Staged files more edges := by
  induction edges generalizing made more with
  | nil => trivial
  | cons e edges ih =>
    exact ⟨fun input hinput => (s.1 input hinput).imp_left fun h => subset h,
      ih s.2 (List.cons_subset_cons _ subset)⟩

theorem append (s : Staged files made edges)
    (r : Staged files (edges.map Edge.target ++ made) rest) : Staged files made (edges ++ rest) := by
  induction edges generalizing made with
  | nil => exact r
  | cons e edges ih =>
    refine ⟨s.1, ih s.2 (r.mono ?_)⟩
    intro target h
    rw [List.map_cons, List.cons_append, List.mem_cons, List.mem_append] at h
    rw [List.mem_append, List.mem_cons]
    rcases h with h | h | h
    · exact .inr (.inl h)
    · exact .inl h
    · exact .inr (.inr h)

theorem of_files (h : ∀ e ∈ edges, e.rule ≠ phony ∧ e.inputs ⊆ files) :
    Staged files made edges := by
  induction edges generalizing made with
  | nil => trivial
  | cons e edges ih =>
    obtain ⟨⟨hrule, hinputs⟩, hedges⟩ := List.forall_mem_cons.1 h
    exact ⟨fun input hinput => .inr ⟨hrule, hinputs hinput⟩, ih hedges⟩

theorem of_made (h : ∀ e ∈ edges, e.inputs ⊆ made) : Staged files made edges := by
  induction edges generalizing made with
  | nil => trivial
  | cons e edges ih =>
    obtain ⟨hinputs, hedges⟩ := List.forall_mem_cons.1 h
    exact ⟨fun input hinput => .inl (hinputs hinput),
      ih fun d hd => List.subset_cons_of_subset _ (hedges d hd)⟩

/-- Parts that are staged whatever was made before them are staged one after the other. -/
theorem flatMap {β : Type} {part : β → List Edge} (parts : ∀ b made, Staged files made (part b))
    (l : List β) : Staged files made (l.flatMap part) := by
  induction l generalizing made with
  | nil => trivial
  | cons b l ih =>
    rw [List.flatMap_cons]
    exact (parts b made).append ih

/-- Where the inputs of an edge come from. -/
theorem of_split (s : Staged files made edges) {l₁ l₂ : List Edge} {e : Edge}
    (split : edges = l₁ ++ e :: l₂) {input : String} (h : input ∈ e.inputs) :
    input ∈ made ∨ input ∈ l₁.map Edge.target ∨ e.rule ≠ phony ∧ input ∈ files := by
  induction l₁ generalizing edges made with
  | nil =>
    subst split
    exact (s.1 input h).imp_right .inr
  | cons d l₁ ih =>
    subst split
    rcases ih s.2 rfl with hmade | hbefore | hfile
    · rcases List.mem_cons.1 hmade with rfl | hmade
      · exact .inr (.inl List.mem_cons_self)
      · exact .inl hmade
    · exact .inr (.inl (List.mem_cons_of_mem _ hbefore))
    · exact .inr (.inr hfile)

/-- Every input is some edge's target or, unless the edge is phony, one of the files. -/
theorem made_or_file (s : Staged files [] edges) {e : Edge} (he : e ∈ edges) {input : String}
    (h : input ∈ e.inputs) :
    (∃ f ∈ edges, f.target = input) ∨ e.rule ≠ phony ∧ input ∈ files := by
  obtain ⟨l₁, l₂, rfl⟩ := List.append_of_mem he
  rcases s.of_split rfl h with hmade | hbefore | hfile
  · cases hmade
  · obtain ⟨f, hf, htarget⟩ := List.mem_map.1 hbefore
    exact .inl ⟨f, List.mem_append_left _ hf, htarget⟩
  · exact .inr hfile

/-- Edges that make none of the files, and nothing twice, have no cycle. -/
theorem acyclic {g : Graph} (s : Staged files [] g.edges) (once : g.targets.Nodup)
    (apart : ∀ file ∈ files, file ∉ g.targets) (e : Edge) : ¬ TransGen g.Feeds e e := by
  have step : ∀ {a b : Edge}, g.Feeds a b →
      g.targets.idxOf a.target < g.targets.idxOf b.target := by
    rintro a b ⟨ha, hb, hinput⟩
    obtain ⟨l₁, l₂, hsplit⟩ := List.append_of_mem hb
    have htargets : g.targets = l₁.map Edge.target ++ b.target :: l₂.map Edge.target := by
      rw [Graph.targets, hsplit, List.map_append, List.map_cons]
    rcases s.of_split hsplit hinput with hmade | hbefore | ⟨-, hfile⟩
    · cases hmade
    · exact idxOf_lt_idxOf_of_split once htargets hbefore
    · exact absurd (List.mem_map_of_mem ha) (apart _ hfile)
  have path : ∀ {a b : Edge}, TransGen g.Feeds a b →
      g.targets.idxOf a.target < g.targets.idxOf b.target := by
    intro a b h
    induction h with
    | single hab => exact step hab
    | tail _ hbc ih => exact Nat.lt_trans ih (step hbc)
  exact fun h => Nat.lt_irrefl _ (path h)

end Staged

end BuildMatrix
