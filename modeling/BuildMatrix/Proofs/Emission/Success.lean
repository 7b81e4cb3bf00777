import BuildMatrix.Proofs.Emission.Order

/-!
# When emitting succeeds

There are three ways in which the graph of a project can fail.  Two sources that
are compiled may have the same stem, so that their objects are the same target.
One may have the stem of the file that is generated for the unit tests.  And one
may be that generated file of a variant, left over from an earlier build, so that
it is made from its own object.  The first two repeat a target, and the third is a
cycle.

Nothing else can go wrong, whatever the compiler, the settings and the sources
are.  All rules are declared.  The edges come in the order of a build
(`staged_allEdges`), so all inputs are there.  They have no cycle either, unless a
source that is compiled is a target.  Its last letter then leaves no choice but the
generated file (`path_mem_targets_iff`).
-/

namespace BuildMatrix

open Relation

namespace Emitter

variable {e : Emitter} {variants : VariantSet} {sources : List Source}

/-! ## The last letter of a target -/

/-- The last letter of a text. -/
def lastLetter (text : String) : Option Char := text.toList.getLast?

theorem lastLetter_append {text rest : String} {c : Char} (h : lastLetter rest = some c) :
    lastLetter (text ++ rest) = some c := by
  unfold lastLetter at h ⊢
  rw [String.toList_append, List.getLast?_append, h]
  rfl

/-- The last letters of targets that are no generated files. -/
def targetLetters : List Char := ['o', 'j', 'r', 'e', 'g', 't', 'l']

theorem objectExtension_cases (tc : Toolchain) :
    tc.objectExtension = ".o" ∨ tc.objectExtension = ".obj" := by
  unfold Toolchain.objectExtension Toolchain.capabilities Family.capabilities
  cases tc.identity.family.style with
  | gnu => exact .inl rfl
  | msvc => exact .inr rfl

theorem exeExtension_cases (tc : Toolchain) : tc.exeExtension = "" ∨ tc.exeExtension = ".exe" := by
  unfold Toolchain.exeExtension Toolchain.capabilities Family.capabilities
  cases tc.identity.family.style with
  | gnu => exact .inl rfl
  | msvc => exact .inr rfl

theorem letter_of_mem_below {path : String} (h : path ∈ e.below sources) :
    e.baseline.manualRegistration = true ∧ path = registrationStem ++ ".c" ∨
      ∃ c ∈ targetLetters, lastLetter path = some c := by
  have hobject : ∀ stem : String, ∃ c ∈ targetLetters,
      lastLetter ("objs/" ++ (stem ++ e.toolchain.objectExtension)) = some c := by
    intro stem
    rcases objectExtension_cases e.toolchain with hext | hext
    · rw [hext]
      exact ⟨'o', by decide, lastLetter_append (lastLetter_append (by decide))⟩
    · rw [hext]
      exact ⟨'j', by decide, lastLetter_append (lastLetter_append (by decide))⟩
  have hrunner : ∃ c ∈ targetLetters,
      lastLetter ("runner" ++ e.toolchain.exeExtension) = some c := by
    rcases exeExtension_cases e.toolchain with hext | hext
    · rw [hext]
      exact ⟨'r', by decide, by decide⟩
    · rw [hext]
      exact ⟨'e', by decide, by decide⟩
  unfold below at h
  rcases List.mem_append.1 h with h | h
  · rcases List.mem_append.1 h with h | h
    · obtain ⟨s, -, rfl⟩ := List.mem_map.1 h
      exact .inr (hobject s.stem)
    · split at h
      · next hmanual =>
        rcases List.mem_cons.1 h with rfl | h
        · exact .inl ⟨hmanual, rfl⟩
        · rw [List.mem_singleton.1 h]
          exact .inr (hobject registrationStem)
      · cases h
  · rw [List.mem_singleton.1 h]
    exact .inr hrunner

theorem letter_of_mem_targets (hnames : MatrixNames variants) {target : String}
    (h : target ∈ (e.allEdges variants sources).map Edge.target) :
    (e.baseline.manualRegistration = true ∧
        ∃ v ∈ variants.toList, target = e.generatedTarget v.name) ∨
      ∃ c ∈ targetLetters, lastLetter target = some c := by
  have hletter : ∀ name ∈ variantNames, ∃ c ∈ targetLetters, lastLetter name = some c := by
    intro name hname
    obtain ⟨family, -, hname⟩ := List.mem_flatMap.1 hname
    obtain ⟨configuration, -, rfl⟩ := List.mem_map.1 hname
    cases configuration with
    | debug => exact ⟨'g', by decide, lastLetter_append (by decide)⟩
    | release => exact ⟨'e', by decide, lastLetter_append (by decide)⟩
  rw [targets_allEdges] at h
  rcases List.mem_append.1 h with h | h
  · obtain ⟨v, hv, h⟩ := List.mem_flatMap.1 h
    obtain ⟨c, hc, hlast⟩ := hletter v.name (name_mem_variantNames hnames hv)
    rw [targets_variantEdges] at h
    rcases List.mem_append.1 h with h | h
    · obtain ⟨path, hpath, rfl⟩ := List.mem_map.1 h
      rcases letter_of_mem_below hpath with ⟨hmanual, rfl⟩ | ⟨d, hd, hlast⟩
      · exact .inl ⟨hmanual, v, hv, (generatedTarget_eq v.name).symm⟩
      · exact .inr ⟨d, hd, lastLetter_append (lastLetter_append (lastLetter_append
          (lastLetter_append hlast)))⟩
    · rcases List.mem_cons.1 h with rfl | h
      · exact .inr ⟨c, hc, hlast⟩
      · rw [List.mem_singleton.1 h]
        exact .inr ⟨c, hc, lastLetter_append hlast⟩
  · have hall : ∀ name ∈ aggregateNames, lastLetter name = some 't' ∨ lastLetter name = some 'l' ∨
        lastLetter name = some 'e' := by decide
    rcases hall target (mem_aggregateNames_of_mem h) with hlast | hlast | hlast
    · exact .inr ⟨'t', by decide, hlast⟩
    · exact .inr ⟨'l', by decide, hlast⟩
    · exact .inr ⟨'e', by decide, hlast⟩

end Emitter

/-- The path of a source ends in the extension of its language. -/
def Source.Named (s : Source) : Prop :=
  ∃ front, s.path = front ++ match s.language with | .c => ".c" | .cxx => ".cxx"

namespace Emitter

variable {e : Emitter} {variants : VariantSet} {sources : List Source}

/-- The path of a source ends in no letter in which a target ends, but for generated files. -/
def Unmade (s : Source) : Prop := ∃ c, c ∉ targetLetters ∧ lastLetter s.path = some c

theorem unmade_of_named {s : Source} (hs : s.Named) : Unmade s := by
  obtain ⟨front, hpath⟩ := hs
  unfold Unmade
  rw [hpath]
  cases s.language with
  | c => exact ⟨'c', by decide, lastLetter_append (by decide)⟩
  | cxx => exact ⟨'x', by decide, lastLetter_append (by decide)⟩

/-- A source is a target only if it is the generated file of a variant. -/
theorem path_mem_targets_iff (hnames : MatrixNames variants) {s : Source} (hs : Unmade s) :
    s.path ∈ (e.allEdges variants sources).map Edge.target ↔
      e.baseline.manualRegistration = true ∧
        ∃ v ∈ variants.toList, s.path = e.generatedTarget v.name := by
  constructor
  · intro h
    rcases letter_of_mem_targets hnames h with hgenerated | ⟨c, hc, hlast⟩
    · exact hgenerated
    obtain ⟨d, hd, hlast'⟩ := hs
    rw [hlast] at hlast'
    injection hlast' with hcd
    exact absurd (hcd ▸ hc) hd
  · rintro ⟨hmanual, v, hv, hpath⟩
    rw [hpath, targets_allEdges, generatedTarget_eq]
    refine List.mem_append_left _ (List.mem_flatMap.2 ⟨v, hv, ?_⟩)
    rw [targets_variantEdges]
    refine List.mem_append_left _ (List.mem_map_of_mem ?_)
    unfold below
    rw [if_pos hmanual]
    exact List.mem_append_left _ (List.mem_append_right _ List.mem_cons_self)

/-! ## Only cycles are left -/

section Checked

variable {g : Graph}

theorem Emitted.resolves (emitted : e.Emitted variants sources g) (hnames : MatrixNames variants)
    {edge : Edge} (h : edge ∈ g.edges) {input : String} (hinput : input ∈ edge.inputs) :
    (∃ f ∈ g.edges, f.target = input) ∨ edge.rule ≠ phony ∧ input ∈ g.sources := by
  rw [emitted.edges] at h ⊢
  refine ((staged_allEdges hnames).made_or_file h hinput).imp_right ?_
  rintro ⟨hrule, hfile⟩
  obtain ⟨s, hs, rfl⟩ := List.mem_map.1 hfile
  exact ⟨hrule, (emitted.sources _).2 (List.mem_map_of_mem (List.mem_of_mem_filter hs))⟩

theorem Emitted.declared (emitted : e.Emitted variants sources g) {edge : Edge}
    (h : edge ∈ g.edges) (hrule : edge.rule ≠ phony) : ∃ r ∈ g.rules, r.name = edge.rule := by
  rw [emitted.edges] at h
  rw [emitted.rules]
  exact rule_declared h hrule

theorem Emitted.default_made (emitted : e.Emitted variants sources g)
    (hnames : MatrixNames variants) {target : String} (h : target ∈ g.defaults) :
    ∃ f ∈ g.edges, f.target = target := by
  rw [emitted.defaults] at h
  unfold Emitter.defaults at h
  split at h
  · next hdefault =>
    rw [emitted.edges, ← List.mem_map, List.mem_singleton.1 h, targets_allEdges]
    have hname := VariantSet.contains_iff_mem_names.1 hdefault
    rw [← hnames.own] at hname
    obtain ⟨v, hv, hname⟩ := List.mem_map.1 hname
    refine List.mem_append_left _ (List.mem_flatMap.2 ⟨v, hv, ?_⟩)
    rw [targets_variantEdges, ← hname]
    exact List.mem_append_right _ (List.mem_cons_of_mem _ List.mem_cons_self)
  · cases h

/-- The graph passes if it has no cycle. -/
theorem Emitted.valid_iff (emitted : e.Emitted variants sources g) (hnames : MatrixNames variants) :
    g.Valid ↔ ∀ edge, ¬ TransGen g.Feeds edge edge := by
  refine ⟨Graph.Valid.acyclic, fun acyclic => ?_⟩
  refine ⟨fun edge h => emitted.declared h, fun edge h hphony input hinput => ?_,
    fun edge h _ input hinput => ?_, fun target h => emitted.default_made hnames h, acyclic⟩
  · rcases emitted.resolves hnames h hinput with hmade | ⟨hrule, -⟩
    · exact hmade
    · exact absurd hphony hrule
  · exact (emitted.resolves hnames h hinput).imp_right And.right

/-- The graph is refused for cycles only. -/
theorem Emitted.error_eq_cycle (emitted : e.Emitted variants sources g)
    (hnames : MatrixNames variants) {error : GraphError} (h : g.validate = .error error) :
    ∃ target, error = .cycle target := by
  have blames := Graph.blames_of_validate_eq_error emitted.indexed h
  cases error with
  | cycle target => exact ⟨target, rfl⟩
  | duplicateTarget target => exact False.elim blames
  | unknownRule target rule =>
    obtain ⟨edge, hedge, -, rfl, hrule, hno⟩ := blames
    obtain ⟨r, hr, hname⟩ := emitted.declared hedge hrule
    exact absurd hname (hno r hr)
  | danglingInput target input =>
    obtain ⟨hno, ⟨edge, hedge, -, hinput, hsource⟩ | ⟨-, hdefault⟩⟩ := blames
    · rcases emitted.resolves hnames hedge hinput with ⟨f, hf, hmade⟩ | ⟨hrule, hmem⟩
      · exact absurd hmade (hno f hf)
      · exact absurd hsource (not_or.2 ⟨hrule, not_not.2 hmem⟩)
    · obtain ⟨f, hf, hmade⟩ := emitted.default_made hnames hdefault
      exact absurd hmade (hno f hf)

end Checked

/-! ## The three ways to fail -/

/-- Two sources that are compiled have the same stem. -/
def SharedStem (e : Emitter) (sources : List Source) : Prop :=
  ∃ s ∈ sources, ∃ t ∈ sources,
    s ≠ t ∧ e.compilable s = true ∧ e.compilable t = true ∧ s.stem = t.stem

/-- Tests are registered by a generated file, and a source that is compiled has its stem. -/
def TakenStem (e : Emitter) (sources : List Source) : Prop :=
  e.baseline.manualRegistration = true ∧
    ∃ s ∈ sources, e.compilable s = true ∧ s.stem = registrationStem

/-- Tests are registered by a generated file, and a source that is compiled is that of a variant. -/
def ReadsGenerated (e : Emitter) (variants : VariantSet) (sources : List Source) : Prop :=
  e.baseline.manualRegistration = true ∧
    ∃ s ∈ sources, e.compilable s = true ∧
      ∃ v ∈ variants.toList, s.path = e.buildDir ++ "/" ++ v.name ++ "/register_unit_tests.c"

theorem nodup_stems_iff (distinct : (sources.map (·.path)).Nodup) :
    (e.stems sources).Nodup ↔ ¬ (e.SharedStem sources ∨ e.TakenStem sources) := by
  have hcompiled : (sources.filter e.compilable).Nodup := (List.Nodup.of_map _ distinct).filter _
  have hshared : ((sources.filter e.compilable).map (·.stem)).Nodup ↔ ¬ e.SharedStem sources := by
    rw [List.nodup_map_iff_inj_on hcompiled]
    constructor
    · rintro inj ⟨s, hs, t, ht, hne, hsc, htc, hstem⟩
      exact hne (inj s (List.mem_filter.2 ⟨hs, hsc⟩) t (List.mem_filter.2 ⟨ht, htc⟩) hstem)
    · intro hno s hs t ht hstem
      obtain ⟨hs, hsc⟩ := List.mem_filter.1 hs
      obtain ⟨ht, htc⟩ := List.mem_filter.1 ht
      by_contra hne
      exact hno ⟨s, hs, t, ht, hne, hsc, htc, hstem⟩
  unfold stems
  rw [not_or, ← hshared]
  by_cases hmanual : e.baseline.manualRegistration = true
  · rw [if_pos hmanual, List.nodup_append]
    refine and_congr_right fun _ => ⟨?_, fun hno => ⟨List.nodup_singleton _, ?_⟩⟩
    · rintro ⟨-, happart⟩ ⟨-, s, hs, hsc, hstem⟩
      exact happart s.stem (List.mem_map_of_mem (List.mem_filter.2 ⟨hs, hsc⟩)) registrationStem
        List.mem_cons_self hstem
    · intro a ha b hb hab
      obtain ⟨s, hs, rfl⟩ := List.mem_map.1 ha
      obtain ⟨hs, hsc⟩ := List.mem_filter.1 hs
      exact hno ⟨hmanual, s, hs, hsc, hab.trans (List.mem_singleton.1 hb)⟩
  · rw [if_neg hmanual, List.append_nil]
    exact ⟨fun h => ⟨h, fun htaken => hmanual htaken.1⟩, And.left⟩

theorem readsGenerated_iff :
    e.ReadsGenerated variants sources ↔ e.baseline.manualRegistration = true ∧
      ∃ s ∈ sources, e.compilable s = true ∧
        ∃ v ∈ variants.toList, s.path = e.generatedTarget v.name := by
  have htarget : ∀ name, e.buildDir ++ "/" ++ name ++ "/register_unit_tests.c" =
      e.generatedTarget name := by
    intro name
    apply String.toList_inj.1
    simp [generatedTarget, variantDir, registrationStem]
  unfold ReadsGenerated
  simp only [htarget]

/-- Sources whose paths start with another letter than the build directory are not generated. -/
theorem not_readsGenerated_of_head
    (outside : ∀ s ∈ sources, s.path.toList.head? ≠ (e.buildDir ++ "/").toList.head?) :
    ¬ e.ReadsGenerated variants sources := by
  rintro ⟨-, s, hs, -, v, -, hpath⟩
  refine outside s hs ?_
  have hne : (e.buildDir ++ "/").toList ≠ [] := by simp
  rw [hpath, String.append_assoc, String.toList_append, List.head?_append_of_ne_nil _ hne]

/-- Sources of different stems are fine if none is named as the build names its own files. -/
theorem fine_of_foreign
    (stems : ∀ s ∈ sources, ∀ s' ∈ sources, e.compilable s = true → e.compilable s' = true →
      s.stem = s'.stem → s = s')
    (foreign : ∀ s ∈ sources, s.stem ≠ registrationStem ∧
      s.path.toList.head? ≠ (e.buildDir ++ "/").toList.head?) :
    ¬ (e.SharedStem sources ∨ e.TakenStem sources ∨ e.ReadsGenerated variants sources) := by
  rintro (⟨s, hs, s', hs', hne, hsc, hsc', hstem⟩ | ⟨-, s, hs, -, hstem⟩ | reads)
  · exact hne (stems s hs s' hs' hsc hsc' hstem)
  · exact (foreign s hs).1 hstem
  · exact not_readsGenerated_of_head (fun s hs => (foreign s hs).2) reads

/-- The generated file of a variant is read by the compilation that it is made from. -/
theorem Emitted.cycle_of_readsGenerated {g : Graph} (emitted : e.Emitted variants sources g)
    (reads : e.ReadsGenerated variants sources) : ∃ edge, TransGen g.Feeds edge edge := by
  obtain ⟨hmanual, s, hs, hsc, v, hv, hpath⟩ := readsGenerated_iff.1 reads
  have hcompiled : s ∈ sources.filter e.compilable := List.mem_filter.2 ⟨hs, hsc⟩
  have hcompile : e.compileEdge v s ∈ g.edges :=
    emitted.mem_of_mem_variantEdges hv (compileEdge_mem hs hsc)
  have hgenerate : (⟨e.generatedTarget v.name, generateRuleName,
      (sources.filter e.compilable).map (e.objectTarget v.name), []⟩ : Edge) ∈ g.edges := by
    refine emitted.mem_of_mem_variantEdges hv (List.mem_append_left _ (List.mem_append_right _ ?_))
    rw [if_pos hmanual]
    exact List.mem_cons_self
  refine ⟨e.compileEdge v s, TransGen.head ⟨hcompile, hgenerate, ?_⟩
    (TransGen.single ⟨hgenerate, hcompile, ?_⟩)⟩
  · exact List.mem_map_of_mem hcompiled
  · exact List.mem_singleton.2 hpath.symm

/-- Else there is no cycle. -/
theorem Emitted.acyclic {g : Graph} (emitted : e.Emitted variants sources g)
    (hnames : MatrixNames variants) (unmade : ∀ s ∈ sources, Unmade s)
    (fresh : ¬ e.ReadsGenerated variants sources) (edge : Edge) : ¬ TransGen g.Feeds edge edge := by
  have hstaged : Staged (e.compiledPaths sources) [] g.edges := by
    rw [emitted.edges]
    exact staged_allEdges hnames
  refine hstaged.acyclic emitted.indexed.once (fun file hfile htarget => fresh ?_) edge
  obtain ⟨s, hs, rfl⟩ := List.mem_map.1 hfile
  obtain ⟨hs, hsc⟩ := List.mem_filter.1 hs
  rw [Graph.targets, emitted.edges, path_mem_targets_iff hnames (unmade s hs)] at htarget
  exact readsGenerated_iff.2 ⟨htarget.1, s, hs, hsc, htarget.2⟩

/-- Stems that are shared or taken make emitting fail. -/
theorem emit_repeats (hnames : MatrixNames variants) (distinct : (sources.map (·.path)).Nodup)
    (repeats : e.SharedStem sources ∨ e.TakenStem sources) :
    ∃ target, e.emit variants sources = .error (.duplicateTarget target) := by
  rcases e.emit_cases variants sources with ⟨-, hemit⟩ | ⟨once, -⟩
  · exact hemit
  · rw [nodup_targets_iff hnames, nodup_stems_iff distinct] at once
    exact absurd repeats once

/-- Without them, and without generated files among the sources, emitting succeeds. -/
theorem emit_succeeds (hnames : MatrixNames variants) (distinct : (sources.map (·.path)).Nodup)
    (unmade : ∀ s ∈ sources, Unmade s) (once : ¬ (e.SharedStem sources ∨ e.TakenStem sources))
    (fresh : ¬ e.ReadsGenerated variants sources) : ∃ g, e.emit variants sources = .ok g := by
  rcases e.emit_cases variants sources with ⟨htwice, -⟩ | ⟨-, g, emitted, hemit⟩
  · rw [nodup_targets_iff hnames, nodup_stems_iff distinct] at htwice
    exact absurd once htwice
  · have hvalidate : g.validate = .ok () :=
      (Graph.validate_eq_ok_iff emitted.indexed).2
        ((emitted.valid_iff hnames).2 (emitted.acyclic hnames unmade fresh))
    refine ⟨g, ?_⟩
    rw [hemit, hvalidate]
    rfl

theorem emit_of_fine (hnames : MatrixNames variants) (distinct : (sources.map (·.path)).Nodup)
    (unmade : ∀ s ∈ sources, Unmade s)
    (fine : ¬ (e.SharedStem sources ∨ e.TakenStem sources ∨ e.ReadsGenerated variants sources)) :
    ∃ g, e.emit variants sources = .ok g := by
  rw [← or_assoc, not_or] at fine
  exact emit_succeeds hnames distinct unmade fine.1 fine.2

/-- It succeeds for sources of different stems whose paths start with another letter than the build
directory. -/
theorem emit_outside (hnames : MatrixNames variants) (distinct : (sources.map (·.path)).Nodup)
    (unmade : ∀ s ∈ sources, Unmade s) (once : (e.stems sources).Nodup)
    (outside : ∀ s ∈ sources, s.path.toList.head? ≠ (e.buildDir ++ "/").toList.head?) :
    ∃ g, e.emit variants sources = .ok g :=
  emit_succeeds hnames distinct unmade ((nodup_stems_iff distinct).1 once)
    (not_readsGenerated_of_head outside)

/-- With generated files among the sources, emitting fails. -/
theorem emit_refuses (reads : e.ReadsGenerated variants sources) :
    ∃ error, e.emit variants sources = .error error := by
  cases hemit : e.emit variants sources with
  | error error => exact ⟨error, rfl⟩
  | ok g =>
    obtain ⟨emitted, valid⟩ := emitted_of_emit hemit
    obtain ⟨edge, hcycle⟩ := emitted.cycle_of_readsGenerated reads
    exact absurd hcycle (valid.acyclic edge)

/-- How emitting ends. -/
theorem emit_trichotomy (hnames : MatrixNames variants)
    (distinct : (sources.map (·.path)).Nodup) (named : ∀ s ∈ sources, s.Named) :
    (e.SharedStem sources ∨ e.TakenStem sources) ∧
        (∃ target, e.emit variants sources = .error (.duplicateTarget target)) ∨
      ¬ (e.SharedStem sources ∨ e.TakenStem sources) ∧ e.ReadsGenerated variants sources ∧
        (∃ target, e.emit variants sources = .error (.cycle target)) ∨
      ¬ (e.SharedStem sources ∨ e.TakenStem sources) ∧ ¬ e.ReadsGenerated variants sources ∧
        ∃ g, e.emit variants sources = .ok g := by
  by_cases repeats : e.SharedStem sources ∨ e.TakenStem sources
  · exact .inl ⟨repeats, emit_repeats hnames distinct repeats⟩
  refine .inr ?_
  by_cases reads : e.ReadsGenerated variants sources
  · refine .inl ⟨repeats, reads, ?_⟩
    rcases e.emit_cases variants sources with ⟨htwice, -⟩ | ⟨-, g, emitted, hemit⟩
    · rw [nodup_targets_iff hnames, nodup_stems_iff distinct] at htwice
      exact absurd repeats htwice
    obtain ⟨edge, hcycle⟩ := emitted.cycle_of_readsGenerated reads
    cases hvalidate : g.validate with
    | ok u =>
      have valid := (Graph.validate_eq_ok_iff emitted.indexed).1 hvalidate
      exact absurd hcycle (valid.acyclic edge)
    | error error =>
      obtain ⟨target, rfl⟩ := emitted.error_eq_cycle hnames hvalidate
      refine ⟨target, ?_⟩
      rw [hemit, hvalidate]
      rfl
  · exact .inr ⟨repeats, reads, emit_succeeds hnames distinct
      (fun s hs => unmade_of_named (named s hs)) repeats reads⟩

/-- With a variant set of the matrix, and sources with different paths that are named after their
languages, emitting fails in three cases only.  The first two are reported as a repeated target, and
the third as a cycle if it is alone. -/
theorem emit_fails_iff (e : Emitter) (tc : Toolchain) (b : Baseline) (host : Host)
    (settings : Settings) (verdict : FlagSet → Bool) (sources : List Source)
    (distinct : (sources.map (·.path)).Nodup) (named : ∀ s ∈ sources, s.Named) :
    let variants := (buildMatrix tc b host settings).answer verdict
    ((∃ error, e.emit variants sources = .error error) ↔
        e.SharedStem sources ∨ e.TakenStem sources ∨ e.ReadsGenerated variants sources) ∧
      (e.SharedStem sources ∨ e.TakenStem sources →
        ∃ target, e.emit variants sources = .error (.duplicateTarget target)) ∧
      (e.ReadsGenerated variants sources → ¬ (e.SharedStem sources ∨ e.TakenStem sources) →
        ∃ target, e.emit variants sources = .error (.cycle target)) ∧
      (∀ target input, e.emit variants sources ≠ .error (.danglingInput target input)) ∧
      ∀ target rule, e.emit variants sources ≠ .error (.unknownRule target rule) := by
  intro variants
  rcases emit_trichotomy (e := e) (matrixNames_answer tc b host settings verdict) distinct named with
    ⟨htwice, target, hemit⟩ | ⟨once, reads, target, hemit⟩ | ⟨once, fresh, g, hemit⟩
  · rw [hemit]
    refine ⟨⟨fun _ => or_assoc.1 (.inl htwice), fun _ => ⟨_, rfl⟩⟩, fun _ => ⟨target, rfl⟩,
      fun _ once => absurd htwice once, ?_, ?_⟩
    · rintro _ _ ⟨⟩
    · rintro _ _ ⟨⟩
  · rw [hemit]
    refine ⟨⟨fun _ => .inr (.inr reads), fun _ => ⟨_, rfl⟩⟩, fun htwice => absurd htwice once,
      fun _ _ => ⟨target, rfl⟩, ?_, ?_⟩
    · rintro _ _ ⟨⟩
    · rintro _ _ ⟨⟩
  · rw [hemit]
    refine ⟨⟨?_, fun hfail => ?_⟩, fun htwice => absurd htwice once,
      fun reads => absurd reads fresh, ?_, ?_⟩
    · rintro ⟨_, ⟨⟩⟩
    · rcases or_assoc.2 hfail with htwice | reads
      · exact absurd htwice once
      · exact absurd reads fresh
    · rintro _ _ ⟨⟩
    · rintro _ _ ⟨⟩

/-- The generated file of a variant is taken for a source, with a compiler under which tests do not
register themselves. -/
theorem emit_own_generated_file :
    ∃ target, ({ toolchain := ⟨⟨.tinyCc, "tcc", ⟨"/bin/tcc"⟩⟩⟩
                 baseline := { manualRegistration := true }
                 settings := {}
                 buildDir := "out" } : Emitter).emit
        ((buildMatrix ⟨⟨.tinyCc, "tcc", ⟨"/bin/tcc"⟩⟩⟩ {} {} {}).answer fun _ => true)
        [⟨"a.c", .c, false, false⟩, ⟨"out/default-debug/register_unit_tests.c", .c, false, false⟩] =
      .error (.cycle target) := by
  refine (emit_fails_iff _ _ _ _ _ _ _ (by decide) ?_).2.2.1 ?_ ?_
  · intro s hs
    rcases List.mem_cons.1 hs with rfl | hs
    · exact ⟨"a", rfl⟩
    · rw [List.mem_singleton.1 hs]
      exact ⟨"out/default-debug/register_unit_tests", rfl⟩
  · have hnames := matrixNames_answer ⟨⟨.tinyCc, "tcc", ⟨"/bin/tcc"⟩⟩⟩ {} {} {} fun _ => true
    obtain ⟨v, hv, hname⟩ := List.mem_map.1 (hnames.own ▸ hnames.default)
    exact ⟨rfl, _, List.mem_cons_of_mem _ List.mem_cons_self, rfl, v, hv, by rw [hname]; rfl⟩
  · exact (nodup_stems_iff (by decide)).1 (by decide +kernel)

end Emitter

end BuildMatrix
