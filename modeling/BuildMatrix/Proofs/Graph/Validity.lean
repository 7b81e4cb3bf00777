import BuildMatrix.Graph.Validate
import BuildMatrix.Proofs.Graph.Construction
import BuildMatrix.Proofs.Graph.Search

/-!
# The check of a build graph is sound and complete

`Valid` says what an executor needs of a graph, in terms of its edges alone: every
rule is declared, every input and default can be had, and no edge feeds itself
through others.  `Blames` says of each error when it is truthful.  The main
statement, `validate_ofAdditions`, is about every graph that additions make.  The
check passes exactly the valid ones, and an error that it reports is truthful.

The check goes through edges, defaults and cycles one after the other, and the
lemmas follow it.  For the last part the arcs between targets have to be compared
with the relation between edges.  A path over targets is the image of one over
edges, because a target determines its edge.
-/

namespace BuildMatrix.Graph

open Relation

/-! ## Validity -/

/-- One edge feeds another: its target is an input of the other. -/
def Feeds (g : Graph) (a b : Edge) : Prop := a ∈ g.edges ∧ b ∈ g.edges ∧ a.target ∈ b.inputs

/-- An executor can act on the graph. -/
structure Valid (g : Graph) : Prop where
  /-- The rule of every edge that is not phony is declared. -/
  rules : ∀ e ∈ g.edges, e.rule ≠ phony → ∃ r ∈ g.rules, r.name = e.rule
  /-- Every input of a phony edge is some edge's target. -/
  aliases : ∀ e ∈ g.edges, e.rule = phony → ∀ input ∈ e.inputs, ∃ f ∈ g.edges, f.target = input
  /-- Every input of any other edge is some edge's target or a source. -/
  inputs : ∀ e ∈ g.edges, e.rule ≠ phony → ∀ input ∈ e.inputs,
    (∃ f ∈ g.edges, f.target = input) ∨ input ∈ g.sources
  /-- Every default is some edge's target. -/
  defaults : ∀ target ∈ g.defaults, ∃ f ∈ g.edges, f.target = target
  /-- No edge feeds itself, directly or through others. -/
  acyclic : ∀ e, ¬ TransGen g.Feeds e e

/-- An error is truthful: what it names is at fault in the graph. -/
def Blames (g : Graph) : GraphError → Prop
  | .duplicateTarget _ => False
  | .unknownRule target rule =>
      ∃ e ∈ g.edges, e.target = target ∧ e.rule = rule ∧ rule ≠ phony ∧ ∀ r ∈ g.rules, r.name ≠ rule
  | .danglingInput target input =>
      (∀ f ∈ g.edges, f.target ≠ input) ∧
        ((∃ e ∈ g.edges, e.target = target ∧ input ∈ e.inputs ∧
            (e.rule = phony ∨ input ∉ g.sources)) ∨
          target = "default" ∧ input ∈ g.defaults)
  | .cycle target => ∃ e ∈ g.edges, e.target = target ∧ TransGen g.Feeds e e

/-! ## Checks one after the other -/

theorem forM_eq_ok_iff {ε β : Type} {check : β → Except ε Unit} {l : List β} :
    l.forM check = .ok () ↔ ∀ b ∈ l, check b = .ok () := by
  induction l with
  | nil => simp [pure, Except.pure]
  | cons b l ih =>
    rw [List.forall_mem_cons, ← ih]
    show (check b >>= fun _ => l.forM check) = .ok () ↔ _
    cases hb : check b with
    | ok u => simp [bind, Except.bind]
    | error e => simp [bind, Except.bind]

theorem exists_of_forM_eq_error {ε β : Type} {check : β → Except ε Unit} {l : List β} {e : ε}
    (h : l.forM check = .error e) : ∃ b ∈ l, check b = .error e := by
  induction l with
  | nil => cases h
  | cons b l ih =>
    have h : (check b >>= fun _ => l.forM check) = .error e := h
    cases hb : check b with
    | ok u =>
      rw [hb] at h
      obtain ⟨c, hc, hce⟩ := ih h
      exact ⟨c, List.mem_cons_of_mem _ hc, hce⟩
    | error e' =>
      rw [hb] at h
      injection h with h
      exact ⟨b, List.mem_cons_self, h ▸ hb⟩

/-! ## Edges and defaults -/

section Parts

variable {g : Graph} (hg : g.Indexed)

theorem isPhony_iff {e : Edge} : e.isPhony = true ↔ e.rule = phony := decide_eq_true_iff

theorem hasRule_iff {rule : String} : g.hasRule rule = true ↔ ∃ r ∈ g.rules, r.name = rule := by
  simp [hasRule]

theorem mem_targets {target : String} : target ∈ g.targets ↔ ∃ e ∈ g.edges, e.target = target :=
  List.mem_map

include hg

theorem hasTarget_iff_exists {target : String} :
    g.hasTarget target = true ↔ ∃ e ∈ g.edges, e.target = target :=
  hg.hasTarget_iff.trans mem_targets

theorem resolves_iff {e : Edge} {input : String} :
    g.resolves e input = true ↔
      (∃ f ∈ g.edges, f.target = input) ∨ e.rule ≠ phony ∧ input ∈ g.sources := by
  rw [resolves, Bool.or_eq_true, hasTarget_iff_exists hg, Bool.and_eq_true, Bool.not_eq_true',
    ← Bool.not_eq_true, isPhony_iff, List.contains_iff_mem]

end Parts

/-! ## The parts of the check -/

section Checks

variable {g : Graph} (hg : g.Indexed)

include hg

/-- An edge passes if its rule is declared, or `phony`, and all its inputs resolve. -/
theorem checkEdge_eq_ok_iff {e : Edge} :
    g.checkEdge e = .ok () ↔
      (e.rule ≠ phony → ∃ r ∈ g.rules, r.name = e.rule) ∧
        ∀ input ∈ e.inputs,
          (∃ f ∈ g.edges, f.target = input) ∨ e.rule ≠ phony ∧ input ∈ g.sources := by
  have hrule : (!e.isPhony && !g.hasRule e.rule) = true ↔
      e.rule ≠ phony ∧ ¬ ∃ r ∈ g.rules, r.name = e.rule := by
    rw [Bool.and_eq_true, Bool.not_eq_true', Bool.not_eq_true', ← Bool.not_eq_true,
      ← Bool.not_eq_true, isPhony_iff, hasRule_iff]
  unfold checkEdge
  split
  · next h =>
    obtain ⟨hne, hno⟩ := hrule.1 h
    constructor
    · intro herr
      cases herr
    · intro hpass
      exact absurd (hpass.1 hne) hno
  · next h =>
    have hdeclared : e.rule ≠ phony → ∃ r ∈ g.rules, r.name = e.rule := fun hne => by
      by_contra hno
      exact h (hrule.2 ⟨hne, hno⟩)
    split
    · next input hfind =>
      have hbad : ¬ g.resolves e input = true := by simpa using List.find?_some hfind
      have hmem : input ∈ e.inputs := List.mem_of_find?_eq_some hfind
      constructor
      · intro herr
        cases herr
      · intro hpass
        exact absurd ((resolves_iff hg).2 (hpass.2 input hmem)) hbad
    · next hnone =>
      have hall := List.find?_eq_none.1 hnone
      refine ⟨fun _ => ⟨hdeclared, fun input hmem => ?_⟩, fun _ => rfl⟩
      exact (resolves_iff hg).1 (by simpa using hall input hmem)

/-- What an edge is blamed for is its fault. -/
theorem blames_of_checkEdge_eq_error {e : Edge} (he : e ∈ g.edges) {error : GraphError}
    (h : g.checkEdge e = .error error) : g.Blames error := by
  unfold checkEdge at h
  split at h
  · next hrule =>
    rw [Bool.and_eq_true, Bool.not_eq_true', Bool.not_eq_true', ← Bool.not_eq_true,
      ← Bool.not_eq_true, isPhony_iff, hasRule_iff] at hrule
    injection h with h
    subst h
    exact ⟨e, he, rfl, rfl, hrule.1, fun r hr hname => hrule.2 ⟨r, hr, hname⟩⟩
  · split at h
    · next input hfind =>
      have hbad : ¬ g.resolves e input = true := by simpa using List.find?_some hfind
      rw [resolves_iff hg] at hbad
      push Not at hbad
      injection h with h
      subst h
      refine ⟨hbad.1, .inl ⟨e, he, rfl, List.mem_of_find?_eq_some hfind, ?_⟩⟩
      by_cases hphony : e.rule = phony
      · exact .inl hphony
      · exact .inr (hbad.2 hphony)
    · cases h

theorem checkDefaults_eq_ok_iff :
    g.checkDefaults = .ok () ↔ ∀ target ∈ g.defaults, ∃ f ∈ g.edges, f.target = target := by
  unfold checkDefaults
  split
  · next target hfind =>
    have hbad : ¬ g.hasTarget target = true := by simpa using List.find?_some hfind
    constructor
    · intro herr
      cases herr
    · intro hpass
      exact absurd ((hasTarget_iff_exists hg).2 (hpass target (List.mem_of_find?_eq_some hfind))) hbad
  · next hnone =>
    refine ⟨fun _ target hmem => ?_, fun _ => rfl⟩
    exact (hasTarget_iff_exists hg).1 (by simpa using List.find?_eq_none.1 hnone target hmem)

theorem blames_of_checkDefaults_eq_error {error : GraphError} (h : g.checkDefaults = .error error) :
    g.Blames error := by
  unfold checkDefaults at h
  split at h
  · next target hfind =>
    have hbad : ¬ g.hasTarget target = true := by simpa using List.find?_some hfind
    rw [hasTarget_iff_exists hg] at hbad
    push Not at hbad
    injection h with h
    subst h
    exact ⟨hbad, .inr ⟨rfl, List.mem_of_find?_eq_some hfind⟩⟩
  · cases h

/-! ## Cycles of edges and of targets -/

/-- An arc between targets comes from an edge with the one as an input and the other as its target. -/
theorem arc_iff {s t : String} :
    Arc g.arcs s t ↔ (∃ a ∈ g.edges, a.target = s) ∧ ∃ b ∈ g.edges, b.target = t ∧ s ∈ b.inputs := by
  unfold Arc arcs
  simp only [List.mem_flatMap, List.mem_map, List.mem_filter, Prod.mk.injEq,
    hasTarget_iff_exists hg]
  constructor
  · rintro ⟨b, hb, input, ⟨hinput, hmade⟩, rfl, rfl⟩
    exact ⟨hmade, b, hb, rfl, hinput⟩
  · rintro ⟨hmade, b, hb, rfl, hinput⟩
    exact ⟨b, hb, s, ⟨hinput, hmade⟩, rfl, rfl⟩

/-- Arcs run between targets. -/
theorem arc_ends (s t : String) (h : Arc g.arcs s t) : s ∈ g.targets ∧ t ∈ g.targets := by
  obtain ⟨hs, b, hb, hbt, -⟩ := (arc_iff hg).1 h
  exact ⟨mem_targets.2 hs, mem_targets.2 ⟨b, hb, hbt⟩⟩

/-- A path over edges is one over their targets. -/
theorem leads_of_feeds {a b : Edge} (h : TransGen g.Feeds a b) :
    Leads g.arcs a.target b.target := by
  have step : ∀ {a b : Edge}, g.Feeds a b → Arc g.arcs a.target b.target := by
    intro a b hab
    exact (arc_iff hg).2 ⟨⟨a, hab.1, rfl⟩, b, hab.2.1, rfl, hab.2.2⟩
  induction h with
  | single hab => exact TransGen.single (step hab)
  | tail _ hbc ih => exact ih.tail (step hbc)

/-- A path over targets is one over edges with these targets. -/
theorem feeds_of_leads {s t : String} (h : Leads g.arcs s t) :
    ∃ a ∈ g.edges, ∃ b ∈ g.edges, a.target = s ∧ b.target = t ∧ TransGen g.Feeds a b := by
  induction h with
  | single arc =>
    obtain ⟨⟨a, ha, rfl⟩, b, hb, rfl, hinput⟩ := (arc_iff hg).1 arc
    exact ⟨a, ha, b, hb, rfl, rfl, TransGen.single ⟨ha, hb, hinput⟩⟩
  | tail _ arc ih =>
    obtain ⟨a, ha, b, hb, has, hbt, path⟩ := ih
    obtain ⟨-, c, hc, rfl, hinput⟩ := (arc_iff hg).1 arc
    exact ⟨a, ha, c, hc, has, rfl, path.tail ⟨hb, hc, hbt ▸ hinput⟩⟩

theorem checkAcyclic_eq_ok_iff : g.checkAcyclic = .ok () ↔ ∀ e, ¬ TransGen g.Feeds e e := by
  unfold checkAcyclic
  split
  · next target hfound =>
    obtain ⟨a, ha, b, hb, hat, hbt, path⟩ :=
      feeds_of_leads hg (leads_of_cycleNode?_eq_some hg.once (arc_ends hg) hfound)
    have hab : a = b := hg.eq_of_target_eq ha hb (hat.trans hbt.symm)
    constructor
    · intro herr
      cases herr
    · intro hpass
      exact absurd (hab ▸ path) (hpass a)
  · next hnone =>
    refine ⟨fun _ e path => ?_, fun _ => rfl⟩
    exact not_leads_of_cycleNode?_eq_none hg.once (arc_ends hg) hnone _ (leads_of_feeds hg path)

theorem blames_of_checkAcyclic_eq_error {error : GraphError} (h : g.checkAcyclic = .error error) :
    g.Blames error := by
  unfold checkAcyclic at h
  split at h
  · next target hfound =>
    obtain ⟨a, ha, b, hb, hat, hbt, path⟩ :=
      feeds_of_leads hg (leads_of_cycleNode?_eq_some hg.once (arc_ends hg) hfound)
    have hab : a = b := hg.eq_of_target_eq ha hb (hat.trans hbt.symm)
    injection h with h
    subst h
    exact ⟨a, ha, hat, hab ▸ path⟩
  · cases h

/-! ## The whole check -/

omit hg in
/-- How the check ends: at an edge, at the defaults, or with the search for cycles. -/
theorem validate_cases (g : Graph) :
    (∃ error, g.validate = .error error ∧ ∃ e ∈ g.edges, g.checkEdge e = .error error) ∨
    (∀ e ∈ g.edges, g.checkEdge e = .ok ()) ∧
      ((∃ error, g.validate = .error error ∧ g.checkDefaults = .error error) ∨
        g.checkDefaults = .ok () ∧ g.validate = g.checkAcyclic) := by
  have hparts : g.validate =
      (g.edges.forM g.checkEdge >>= fun _ => g.checkDefaults >>= fun _ => g.checkAcyclic) := rfl
  cases hedges : g.edges.forM g.checkEdge with
  | error error =>
    rw [hedges] at hparts
    exact .inl ⟨error, hparts, exists_of_forM_eq_error hedges⟩
  | ok u =>
    rw [hedges] at hparts
    refine .inr ⟨forM_eq_ok_iff.1 hedges, ?_⟩
    cases hdefaults : g.checkDefaults with
    | error error =>
      rw [hdefaults] at hparts
      exact .inl ⟨error, hparts, rfl⟩
    | ok u =>
      rw [hdefaults] at hparts
      exact .inr ⟨rfl, hparts⟩

/-- A graph is valid if it passes each part of the check. -/
theorem valid_iff :
    g.Valid ↔
      (∀ e ∈ g.edges, g.checkEdge e = .ok ()) ∧ g.checkDefaults = .ok () ∧
        g.checkAcyclic = .ok () := by
  rw [checkDefaults_eq_ok_iff hg, checkAcyclic_eq_ok_iff hg]
  constructor
  · intro valid
    refine ⟨fun e he => (checkEdge_eq_ok_iff hg).2 ⟨valid.rules e he, fun input hinput => ?_⟩,
      valid.defaults, valid.acyclic⟩
    by_cases hphony : e.rule = phony
    · exact .inl (valid.aliases e he hphony input hinput)
    · exact (valid.inputs e he hphony input hinput).imp_right fun hsource => ⟨hphony, hsource⟩
  · rintro ⟨hedges, hdefaults, hacyclic⟩
    have hedge := fun e he => (checkEdge_eq_ok_iff hg).1 (hedges e he)
    refine ⟨fun e he => (hedge e he).1, fun e he hphony input hinput => ?_,
      fun e he hphony input hinput => ?_, hdefaults, hacyclic⟩
    · rcases (hedge e he).2 input hinput with hmade | ⟨hne, -⟩
      · exact hmade
      · exact absurd hphony hne
    · exact ((hedge e he).2 input hinput).imp_right And.right

/-- The check passes exactly the valid graphs. -/
theorem validate_eq_ok_iff : g.validate = .ok () ↔ g.Valid := by
  rw [valid_iff hg]
  rcases g.validate_cases with ⟨error, hvalidate, e, he, herror⟩ |
    ⟨hedges, ⟨error, hvalidate, herror⟩ | ⟨hdefaults, hvalidate⟩⟩
  · rw [hvalidate]
    refine ⟨fun h => (by cases h), fun h => ?_⟩
    rw [h.1 e he] at herror
    cases herror
  · rw [hvalidate, herror]
    refine ⟨fun h => (by cases h), fun h => ?_⟩
    cases h.2.1
  · rw [hvalidate]
    exact ⟨fun h => ⟨hedges, hdefaults, h⟩, fun h => h.2.2⟩

/-- An error that the check reports is truthful. -/
theorem blames_of_validate_eq_error {error : GraphError} (h : g.validate = .error error) :
    g.Blames error := by
  rcases g.validate_cases with ⟨error', hvalidate, e, he, herror⟩ |
    ⟨-, ⟨error', hvalidate, herror⟩ | ⟨-, hvalidate⟩⟩
  · rw [hvalidate] at h
    injection h with h
    exact blames_of_checkEdge_eq_error hg he (h ▸ herror)
  · rw [hvalidate] at h
    injection h with h
    exact blames_of_checkDefaults_eq_error hg (h ▸ herror)
  · exact blames_of_checkAcyclic_eq_error hg (hvalidate ▸ h)

end Checks

/-- Of every graph that additions make, the check passes exactly the valid ones, and an error that
it reports is truthful. -/
theorem validate_ofAdditions (additions : List Addition) :
    ((ofAdditions additions).validate = .ok () ↔ (ofAdditions additions).Valid) ∧
      ∀ error, (ofAdditions additions).validate = .error error →
        (ofAdditions additions).Blames error := by
  have hg := indexed_ofAdditions additions
  exact ⟨validate_eq_ok_iff hg, fun _ herror => blames_of_validate_eq_error hg herror⟩

/-- The cycle is found behind a source that is a target as well: `b` and `c` depend on each other. -/
example : (ofAdditions [.rule ⟨"copy", []⟩, .source "a", .edge ⟨"a", "copy", [], []⟩,
    .edge ⟨"b", "copy", ["a", "c"], []⟩, .edge ⟨"c", "copy", ["b"], []⟩]).validate =
      .error (.cycle "c") := by
  cbv

end BuildMatrix.Graph
