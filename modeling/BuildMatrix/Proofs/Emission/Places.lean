import BuildMatrix.Proofs.Emission.Isolation
import BuildMatrix.Proofs.Path.Lexical
import BuildMatrix.Proofs.Source.Collected
import BuildMatrix.Proofs.Tree.Beginning
import Mathlib.Data.List.TakeWhile

/-!
# Where targets lead

No two targets of a graph are the same text, but an executor follows the texts, and two of
them may lead to one place.  Whether this happens is a matter of the paths that are used
inside the directory of a variant, which are the same for all variants (`Emitter.below`).

If each of these stays below the directory, and no two lead to one place, then all targets
of the graph lead to different places, and those of a variant lie in its directory.
Otherwise two targets meet.  A path that climbs out of the directory leads to the same
place for all variants, and there are always two of them (`emit_apart_iff`).

Objects are named after their sources.  So the targets are apart if all source paths are
made of names only.  A source directory above the project root makes objects that climb,
and a graph in which targets meet (`emit_climbing`).
-/

namespace BuildMatrix

open BuildMatrix.Path (canonical walk Proper LiesIn)

/-- Targets of different edges lead to different places. -/
def Graph.Apart (g : Graph) : Prop :=
  ∀ a ∈ g.edges, ∀ b ∈ g.edges, a ≠ b → canonical a.target ≠ canonical b.target

namespace Emitter

variable {e : Emitter} {variants : VariantSet} {sources : List Source}

/-! ## Last pieces -/

/-- A text ends in a name if its last letter is neither a slash nor a dot. -/
theorem exists_proper_last {text : String} {c : Char} (h : lastLetter text = some c)
    (hslash : c ≠ '/') (hdot : c ≠ '.') :
    ∃ front last, (Path.mk text).pieces = front ++ [last] ∧ Proper last := by
  obtain ⟨front, last, hsplit⟩ := Path.exists_last_part '/' text.toList
  have hlast : last.getLast? = some c := by
    unfold lastLetter at h
    rcases Path.splitOn_concat hsplit with ⟨-, htext⟩ | ⟨x, htext⟩
    · rwa [htext] at h
    · rw [htext, List.getLast?_append, List.getLast?_cons] at h
      cases hnone : last.getLast? with
      | none =>
        rw [hnone] at h
        exact absurd (Option.some.inj h).symm hslash
      | some d =>
        rw [hnone] at h
        exact h
  refine ⟨front.map String.ofList, String.ofList last, ?_, ?_⟩
  · rw [Path.pieces, Text.pieces, hsplit, List.map_append, List.map_singleton]
  · have hne : ∀ piece : String, piece.toList.getLast? ≠ some c → String.ofList last ≠ piece := by
      rintro _ hpiece rfl
      rw [String.toList_ofList] at hpiece
      exact hpiece hlast
    have hend : ∀ piece ∈ ["", ".", ".."], piece.toList.getLast? ≠ some c := by
      intro piece hpiece heq
      have all : ∀ piece ∈ ["", ".", ".."], piece.toList.getLast?.getD '.' = '.' := by decide
      have := all piece hpiece
      rw [heq] at this
      exact hdot this
    exact ⟨fun idle => idle.elim (hne _ (hend _ (by simp))) (hne _ (hend _ (by simp))),
      hne _ (hend _ (by simp))⟩

/-! ## Inside the directory of a variant -/

/-- Where a path leads from the directory of a variant. -/
def placeBelow (rest : String) : List String := walk [] (Path.mk rest).pieces

/-- The place of the build directory. -/
def buildPlace (e : Emitter) : List String := walk [] (Path.mk e.buildDir).pieces

/-- What is made inside the directory of a variant stays there, and in different places. -/
structure Separate (e : Emitter) (sources : List Source) : Prop where
  /-- No path climbs out of the directory. -/
  stays : ∀ rest ∈ e.below sources, ".." ∉ placeBelow rest
  /-- No two lead to the same place. -/
  differ : ((e.below sources).map placeBelow).Nodup

theorem proper_of_mem_variantNames {v : String} (h : v ∈ variantNames) : Proper v := by
  have all : ∀ v ∈ variantNames, Proper v := by decide
  exact all v h

theorem canonical_variantDir {v : String} (hv : v ∈ variantNames) :
    canonical (e.variantDir v) =
      ((Path.mk (e.buildDir ++ "/")).isAbsolute, (v :: e.buildPlace).reverse) := by
  have hpieces := Path.pieces_single (slash_not_mem_of_mem_variantNames hv)
  rw [canonical, variantDir, Path.isAbsolute_slash, Path.pieces_slash, Path.walk_append, hpieces,
    Path.walk_cons, Path.onward_of_proper (proper_of_mem_variantNames hv), Path.walk_nil, buildPlace]

theorem canonical_inside {v : String} (hv : v ∈ variantNames) (rest : String) :
    canonical (e.inside v rest) = ((Path.mk (e.buildDir ++ "/")).isAbsolute,
      (walk (v :: e.buildPlace) (Path.mk rest).pieces).reverse) := by
  have hdir := canonical_variantDir (e := e) hv
  unfold canonical at hdir ⊢
  injection hdir with habsolute hwalk
  have hfirst : (Path.mk (e.variantDir v ++ "/")).isAbsolute =
      (Path.mk (e.buildDir ++ "/")).isAbsolute := by
    rw [variantDir, String.append_assoc, Path.isAbsolute_slash]
  rw [inside_eq, Path.isAbsolute_slash, Path.pieces_slash, Path.walk_append, List.reverse_inj.1 hwalk,
    hfirst]

/-- A path that stays below the directory of a variant is put onto its place. -/
theorem canonical_inside_of_stays {v rest : String} (hv : v ∈ variantNames)
    (stays : ".." ∉ placeBelow rest) :
    canonical (e.inside v rest) = ((Path.mk (e.buildDir ++ "/")).isAbsolute,
      (placeBelow rest ++ v :: e.buildPlace).reverse) := by
  rw [canonical_inside hv, Path.walk_of_stays stays]
  rfl

/-- What is made in the directory of a variant ends in a name. -/
theorem placeBelow_ne_nil {rest : String} (h : rest ∈ e.below sources) : placeBelow rest ≠ [] := by
  have hletter : ∃ c, lastLetter rest = some c ∧ c ≠ '/' ∧ c ≠ '.' := by
    rcases letter_of_mem_below h with ⟨-, rfl⟩ | ⟨c, hc, hlast⟩
    · exact ⟨'c', by decide, by decide⟩
    · have all : ∀ c ∈ targetLetters, c ≠ '/' ∧ c ≠ '.' := by simp [targetLetters]
      exact ⟨c, hlast, all c hc⟩
  obtain ⟨c, hlast, hslash, hdot⟩ := hletter
  obtain ⟨front, last, hpieces, proper⟩ := exists_proper_last hlast hslash hdot
  rw [placeBelow, hpieces, Path.walk_append, Path.walk_cons, Path.onward_of_proper proper,
    Path.walk_nil]
  exact List.cons_ne_nil _ _

theorem liesIn_of_stays {v rest : String} (hv : v ∈ variantNames) (stays : ".." ∉ placeBelow rest)
    (hne : placeBelow rest ≠ []) : LiesIn (e.variantDir v) (e.inside v rest) := by
  rw [LiesIn, canonical_inside_of_stays hv stays, canonical_variantDir hv]
  refine ⟨rfl, (placeBelow rest).reverse, ?_, ?_⟩
  · rwa [Ne, List.reverse_eq_nil_iff]
  · rw [List.reverse_append]

/-- A path that stays below the directory of a variant leads to two names at least. -/
theorem canonical_inside_ne_single {v rest target : String} (hv : v ∈ variantNames)
    (h : rest ∈ e.below sources) (stays : ".." ∉ placeBelow rest)
    (htarget : canonical target = (false, [target])) :
    canonical (e.inside v rest) ≠ canonical target := by
  rw [canonical_inside_of_stays hv stays, htarget]
  intro hsame
  have hlength := congrArg (fun place => place.2.length) hsame
  have := List.length_pos_of_ne_nil (placeBelow_ne_nil h)
  simp at hlength
  omega

/-- A path that climbs out of the directory of a variant leads to the same place for all variants. -/
theorem canonical_eq_of_climbs {v w rest : String} (hv : v ∈ variantNames) (hw : w ∈ variantNames)
    (climbs : ".." ∈ placeBelow rest) : canonical (e.inside v rest) = canonical (e.inside w rest) := by
  obtain ⟨onwards, hwalk⟩ := Path.exists_walk_of_climbs climbs
  rw [canonical_inside hv, canonical_inside hw, hwalk _ (proper_of_mem_variantNames hv),
    hwalk _ (proper_of_mem_variantNames hw)]

/-! ## All targets -/

/-- A target is inside the directory of a variant or a bare name. -/
theorem target_cases (hnames : MatrixNames variants) {target : String}
    (h : target ∈ (e.allEdges variants sources).map Edge.target) :
    (∃ v ∈ variants.toList, ∃ rest ∈ e.below sources, target = e.inside v.name rest) ∨
      canonical target = (false, [target]) := by
  rw [targets_allEdges] at h
  rcases List.mem_append.1 h with h | h
  · obtain ⟨v, hv, h⟩ := List.mem_flatMap.1 h
    have hproper : ∀ name ∈ variantNames, Proper (runTarget name) := by decide
    have hvn := name_mem_variantNames hnames hv
    have hname := Path.canonical_single (slash_not_mem_of_mem_variantNames hvn)
      (proper_of_mem_variantNames hvn)
    have hrun := Path.canonical_single (slash_not_mem_runTarget hvn) (hproper v.name hvn)
    rw [targets_variantEdges] at h
    rcases List.mem_append.1 h with h | h
    · obtain ⟨rest, hrest, rfl⟩ := List.mem_map.1 h
      exact .inl ⟨v, hv, rest, hrest, rfl⟩
    · rcases List.mem_cons.1 h with rfl | h
      · exact .inr hname
      · rw [List.mem_singleton.1 h]
        exact .inr hrun
  · have hbare : ∀ name ∈ aggregateNames, canonical name = (false, [name]) := by decide
    exact .inr (hbare target (mem_aggregateNames_of_mem h))

section Emitted

variable {g : Graph}

theorem Emitted.target_mem (emitted : e.Emitted variants sources g) {v : Variant}
    (hv : v ∈ variants.toList) {rest : String} (h : rest ∈ e.below sources) :
    ∃ edge ∈ g.edges, edge.target = e.inside v.name rest := by
  rw [← List.mem_map, emitted.edges, targets_allEdges]
  refine List.mem_append_left _ (List.mem_flatMap.2 ⟨v, hv, ?_⟩)
  rw [targets_variantEdges]
  exact List.mem_append_left _ (List.mem_map_of_mem h)

/-- Two different targets inside directories of variants lead to different places, if targets are
apart. -/
theorem Emitted.canonical_ne (emitted : e.Emitted variants sources g)
    (hnames : MatrixNames variants) (apart : g.Apart) {v w : Variant} (hv : v ∈ variants.toList)
    (hw : w ∈ variants.toList) {r q : String} (hr : r ∈ e.below sources) (hq : q ∈ e.below sources)
    (hne : ¬ (v.name = w.name ∧ r = q)) :
    canonical (e.inside v.name r) ≠ canonical (e.inside w.name q) := by
  obtain ⟨a, ha, hat⟩ := emitted.target_mem hv hr
  obtain ⟨b, hb, hbt⟩ := emitted.target_mem hw hq
  rw [← hat, ← hbt]
  refine apart a ha b hb ?_
  rintro rfl
  exact hne ((inside_inj (name_mem_variantNames hnames hv) (name_mem_variantNames hnames hw)).1
    (hat.symm.trans hbt))

theorem Emitted.separate_of_apart (emitted : e.Emitted variants sources g)
    (hnames : MatrixNames variants)
    (halves : ∀ c, variantName "default" c ∈ variants.names) (apart : g.Apart) :
    e.Separate sources := by
  have exists_half : ∀ c, ∃ v ∈ variants.toList, v.name = variantName "default" c := fun c =>
    List.mem_map.1 (hnames.own ▸ halves c)
  obtain ⟨v, hv, hvname⟩ := exists_half .debug
  obtain ⟨w, hw, hwname⟩ := exists_half .release
  have hvw : v.name ≠ w.name := by
    rw [hvname, hwname]
    decide
  have hvn := name_mem_variantNames hnames hv
  have hwn := name_mem_variantNames hnames hw
  have stays : ∀ rest ∈ e.below sources, ".." ∉ placeBelow rest := by
    intro rest hrest climbs
    -- the path means the same for both halves
    exact emitted.canonical_ne hnames apart hv hw hrest hrest (fun h => hvw h.1)
      (canonical_eq_of_climbs hvn hwn climbs)
  refine ⟨stays, ?_⟩
  rw [List.nodup_map_iff_inj_on (nodup_below_iff.2 (emitted.nodup_stems hnames))]
  intro r hr q hq hplace
  by_contra hne
  refine emitted.canonical_ne hnames apart hv hv hr hq (fun h => hne h.2) ?_
  rw [canonical_inside_of_stays hvn (stays r hr), canonical_inside_of_stays hvn (stays q hq), hplace]

theorem Emitted.apart_of_separate (emitted : e.Emitted variants sources g)
    (hnames : MatrixNames variants) (separate : e.Separate sources) : g.Apart := by
  intro a ha b hb hne heq
  refine hne (emitted.indexed.eq_of_target_eq ha hb ?_)
  have cases_of : ∀ {edge : Edge}, edge ∈ g.edges → _ := fun hedge =>
    target_cases hnames (emitted.edges ▸ List.mem_map_of_mem hedge)
  have hbare : ∀ {v : Variant} {rest target : String}, v ∈ variants.toList →
      rest ∈ e.below sources → canonical target = (false, [target]) →
        canonical (e.inside v.name rest) ≠ canonical target := fun hv hrest =>
    canonical_inside_ne_single (name_mem_variantNames hnames hv) hrest (separate.stays _ hrest)
  rcases cases_of ha with ⟨v, hv, r, hr, hat⟩ | hat
  · rcases cases_of hb with ⟨w, hw, q, hq, hbt⟩ | hbt
    · have hvn := name_mem_variantNames hnames hv
      have hwn := name_mem_variantNames hnames hw
      rw [hat, hbt, canonical_inside_of_stays hvn (separate.stays r hr),
        canonical_inside_of_stays hwn (separate.stays q hq)] at heq
      injection heq with _ hway
      have hway := List.reverse_inj.1 hway
      rw [List.append_cons (placeBelow r), List.append_cons (placeBelow q)] at hway
      obtain ⟨hplace, hname⟩ := List.append_inj' (List.append_cancel_right hway) rfl
      injection hname with hname _
      rw [hat, hbt, hname, List.inj_on_of_nodup_map separate.differ hr hq hplace]
    · rw [hat] at heq
      exact absurd heq (hbare hv hr hbt)
  · rcases cases_of hb with ⟨w, hw, q, hq, hbt⟩ | hbt
    · rw [hbt] at heq
      exact absurd heq.symm (hbare hw hq hat)
    · rw [hat, hbt] at heq
      injection heq with _ heq
      injection heq

end Emitted

end Emitter

/-! ## Sources below the project root -/

/-- The path of the source is made of names only. -/
def Source.Level (s : Source) : Prop := ∀ piece ∈ (Path.mk s.path).pieces, Proper piece

/-- A source's path is its stem and what follows it in the last piece, which begins with a dot if it is
anything. -/
theorem Source.exists_extension (s : Source) :
    ∃ extension, s.path = s.stem ++ extension ∧ '/' ∉ extension.toList ∧
      ∀ c ∈ extension.toList.head?, c = '.' := by
  let named : Char → Bool := fun c => c ≠ '.' ∧ c ≠ '/'
  have hsplit : (s.path.toList.reverse.dropWhile named).reverse ++
      (s.path.toList.reverse.takeWhile named).reverse = s.path.toList := by
    rw [← List.reverse_append, List.takeWhile_append_dropWhile, List.reverse_reverse]
  have hnamed : '/' ∉ (s.path.toList.reverse.takeWhile named).reverse := by
    intro h
    have := List.mem_takeWhile_imp (List.mem_reverse.1 h)
    simp [named] at this
  generalize (s.path.toList.reverse.takeWhile named).reverse = ending at hsplit hnamed
  unfold Source.stem stemReversed
  split
  · next stem hdrop =>
    rw [show s.path.toList.reverse.dropWhile named = '.' :: stem from hdrop, List.reverse_cons,
      List.append_assoc] at hsplit
    refine ⟨String.ofList ('.' :: ending), ?_, ?_, ?_⟩
    · rw [← String.toList_inj, ← hsplit, String.toList_append, String.toList_ofList,
        String.toList_ofList]
      rfl
    · rw [String.toList_ofList]
      exact List.not_mem_cons_of_ne_of_not_mem (by decide) hnamed
    · rw [String.toList_ofList]
      rintro c ⟨⟩
      rfl
  · refine ⟨"", ?_, by decide, nofun⟩
    rw [← String.toList_inj]
    simp

namespace Emitter

variable {e : Emitter} {variants : VariantSet} {sources : List Source}

/-- The object of a level source is reached by names only: the two paths differ in their last pieces,
and that of the object has an extension. -/
theorem proper_of_mem_object {s : Source} (level : s.Level) {piece : String}
    (h : piece ∈ (Path.mk (e.object s.stem)).pieces) : Proper piece := by
  obtain ⟨front, last, hstem⟩ := (Path.mk s.stem).exists_last_piece
  obtain ⟨extension, hpath, hsingle, -⟩ := s.exists_extension
  have hfront : ∀ piece ∈ front, Proper piece := by
    intro piece hpiece
    refine level piece ?_
    rw [hpath, Path.pieces_append_single hstem hsingle]
    exact List.mem_append_left _ hpiece
  have hletter : '/' ∉ e.toolchain.objectExtension.toList ∧
      ∃ c, lastLetter e.toolchain.objectExtension = some c ∧ c ≠ '/' ∧ c ≠ '.' := by
    rcases objectExtension_cases e.toolchain with hext | hext
    · rw [hext]
      exact ⟨by decide, 'o', by decide, by decide⟩
    · rw [hext]
      exact ⟨by decide, 'j', by decide, by decide⟩
  obtain ⟨hext, c, hlast, hslash, hdot⟩ := hletter
  have hname := Path.pieces_append_single hstem hext
  have hend : lastLetter (s.stem ++ e.toolchain.objectExtension) = some c := lastLetter_append hlast
  obtain ⟨front', last', hpieces, proper⟩ := exists_proper_last hend hslash hdot
  rw [hname] at hpieces
  obtain ⟨-, hlast'⟩ := List.append_inj' hpieces rfl
  rw [object, show ("objs/" : String) = "objs" ++ "/" from rfl, Path.pieces_slash, hname,
    Path.pieces_single (by decide)] at h
  rcases List.mem_append.1 h with h | h
  · rw [List.mem_singleton.1 h]
    decide
  rcases List.mem_append.1 h with h | h
  · exact hfront piece h
  · rw [hlast'] at h
    rw [List.mem_singleton.1 h]
    exact proper

/-- What is made inside the directory of a variant is reached by names only, if the sources are level. -/
theorem proper_of_mem_below (level : ∀ s ∈ sources, e.compilable s = true → s.Level) {rest : String}
    (h : rest ∈ e.below sources) : ∀ piece ∈ (Path.mk rest).pieces, Proper piece := by
  rcases List.mem_append.1 h with h | h
  · rcases List.mem_append.1 h with h | h
    · obtain ⟨s, hs, rfl⟩ := List.mem_map.1 h
      obtain ⟨hs, hsc⟩ := List.mem_filter.1 hs
      exact fun piece => proper_of_mem_object (level s hs hsc)
    · split at h
      · rcases List.mem_cons.1 h with rfl | h
        · decide
        · rw [List.mem_singleton.1 h]
          rcases objectExtension_cases e.toolchain with hext | hext
          · rw [hext]
            decide
          · rw [hext]
            decide
      · cases h
  · rw [List.mem_singleton.1 h]
    rcases exeExtension_cases e.toolchain with hext | hext
    · rw [hext]
      decide
    · rw [hext]
      decide

/-- Sources whose paths are made of names only make objects that stay, in different places. -/
theorem separate_of_level (once : (e.stems sources).Nodup)
    (level : ∀ s ∈ sources, e.compilable s = true → s.Level) : e.Separate sources := by
  have hplace : ∀ rest ∈ e.below sources, placeBelow rest = (Path.mk rest).pieces.reverse := by
    intro rest hrest
    rw [placeBelow, Path.walk_of_proper (proper_of_mem_below level hrest), List.append_nil]
  constructor
  · intro rest hrest hup
    rw [hplace rest hrest, List.mem_reverse] at hup
    exact (proper_of_mem_below level hrest _ hup).not_up rfl
  · rw [List.nodup_map_iff_inj_on (nodup_below_iff.2 once)]
    intro r hr q hq hrq
    rw [hplace r hr, hplace q hq, List.reverse_inj] at hrq
    have htext := congrArg ("/".intercalate ·) hrq
    simpa only [Path.intercalate_pieces] using htext

/-! ## Where the targets of a graph lead -/

/-- The runner and the object of the generated file never leave the directory of their variant. -/
theorem liesIn_of_own {v : String} (hv : v ∈ variantNames) :
    LiesIn (e.variantDir v) (e.runnerTarget v) ∧ LiesIn (e.variantDir v) (e.registrationTarget v) := by
  have hown : ∀ rest ∈ ["runner", "runner.exe", "objs/register_unit_tests.o",
      "objs/register_unit_tests.obj"], ".." ∉ placeBelow rest ∧ placeBelow rest ≠ [] := by
    decide
  have lies : ∀ rest ∈ ["runner", "runner.exe", "objs/register_unit_tests.o",
      "objs/register_unit_tests.obj"], LiesIn (e.variantDir v) (e.inside v rest) := fun rest h =>
    liesIn_of_stays hv (hown rest h).1 (hown rest h).2
  rw [runnerTarget_eq, registrationTarget_eq]
  constructor
  · rcases exeExtension_cases e.toolchain with hext | hext
    · rw [hext]
      exact lies _ (by decide)
    · rw [hext]
      exact lies _ (by decide)
  · rcases objectExtension_cases e.toolchain with hext | hext
    · rw [hext]
      exact lies _ (by decide)
    · rw [hext]
      exact lies _ (by decide)

/-- In a graph that emitting gives for variants of the matrix, the targets lead to different places if
and only if what is made inside the directory of a variant stays there, in different places.  Then
the objects of a variant lie in its directory, as its runner and the object of its generated file
always do.  All this holds if the paths of the sources that are compiled are made of names only. -/
theorem emit_apart_iff (e : Emitter) (tc : Toolchain) (b : Baseline) (host : Host)
    (settings : Settings) (verdict : FlagSet → Bool) {variants : VariantSet}
    (matrix : variants = (buildMatrix tc b host settings).answer verdict) (sources : List Source)
    {g : Graph} (h : e.emit variants sources = .ok g) :
    (g.Apart ↔ e.Separate sources) ∧
      (g.Apart → ∀ v ∈ variants.toList, ∀ s ∈ sources, e.compilable s = true →
        LiesIn (e.variantDir v.name) (e.objectTarget v.name s)) ∧
      (∀ v ∈ variants.toList, LiesIn (e.variantDir v.name) (e.runnerTarget v.name) ∧
        LiesIn (e.variantDir v.name) (e.registrationTarget v.name)) ∧
      ((∀ s ∈ sources, e.compilable s = true → s.Level) → g.Apart) := by
  have hnames : MatrixNames variants := matrix ▸ matrixNames_answer tc b host settings verdict
  have halves : ∀ c, variantName "default" c ∈ variants.names := fun c =>
    matrix ▸ default_mem_names_answer tc b host settings verdict c
  obtain ⟨emitted, -⟩ := emitted_of_emit h
  have apart_of := emitted.apart_of_separate hnames
  have separate_of := emitted.separate_of_apart hnames halves
  refine ⟨⟨separate_of, apart_of⟩, fun apart v hv s hs hsc => ?_,
    fun v hv => liesIn_of_own (name_mem_variantNames hnames hv), fun level => ?_⟩
  · have hobject : e.object s.stem ∈ e.below sources :=
      List.mem_append_left _ (List.mem_append_left _
        (List.mem_map.2 ⟨s, List.mem_filter.2 ⟨hs, hsc⟩, rfl⟩))
    rw [objectTarget_eq]
    exact liesIn_of_stays (name_mem_variantNames hnames hv) ((separate_of apart).stays _ hobject)
      (placeBelow_ne_nil hobject)
  · exact apart_of (separate_of_level (emitted.nodup_stems hnames) level)

/-- The targets of the small compiler's graph are apart. -/
theorem apart_mixedSources :
    ∃ g, smallEmitter.emit
        ((buildMatrix smallEmitter.toolchain {} {} {}).answer fun _ => true) mixedSources = .ok g ∧
      g.Apart := by
  have level : ∀ s ∈ mixedSources, smallEmitter.compilable s = true → s.Level := by
    intro s hs _
    have all : ∀ s ∈ mixedSources, ∀ piece ∈ (Path.mk s.path).pieces, Proper piece := by
      decide +kernel
    exact all s hs
  obtain ⟨g, hemit⟩ := exists_graph_mixedSources
  exact ⟨g, hemit, (emit_apart_iff _ _ _ _ _ _ rfl _ hemit).2.2.2 level⟩

end Emitter

/-! ## Sources above the project root -/

/-- A project at `p/q`, with sources in a directory that is not below it. -/
def sidewaysTree : Tree :=
  (((Tree.empty.put ["p"] .directory).put ["p", "q"] .directory).put ["x"] .directory).put ["x", "a.c"]
    (.file .empty)

/-- The settings of the project. -/
def sidewaysSettings : Settings := { sourceDirs := [⟨"../../x"⟩] }

/-- The source of the project. -/
def sidewaysSource : Source := ⟨"../../x/a.c", .c, false, false⟩

theorem wellFormed_sidewaysTree : sidewaysTree.WellFormed := by
  have fits : Tree.empty.Fits ["p"] := ⟨by decide, rfl, by decide⟩
  have fits₁ : (Tree.empty.put ["p"] .directory).Fits ["p", "q"] :=
    ⟨by decide, by decide, by decide⟩
  have fits₂ : ((Tree.empty.put ["p"] .directory).put ["p", "q"] .directory).Fits ["x"] :=
    ⟨by decide, rfl, by decide⟩
  have fits₃ : (((Tree.empty.put ["p"] .directory).put ["p", "q"] .directory).put ["x"]
      .directory).Fits ["x", "a.c"] := ⟨by decide, by decide, by decide⟩
  exact fits₃.wellFormed (fits₂.wellFormed (fits₁.wellFormed
    (fits.wellFormed Tree.wellFormed_empty _) _) _) _

theorem directory?_sidewaysTree :
    sidewaysTree.directory? (Path.join ⟨"p/q"⟩ ⟨"../../x"⟩) = some ["x"] := by
  have hdirectory : ∀ dir ∈ [["p"], ["p", "q"], ["x"]],
      sidewaysTree.node? dir = some .directory := by decide
  have hp := hdirectory ["p"] (by decide)
  have hq := hdirectory ["p", "q"] (by decide)
  have hx := hdirectory ["x"] (by decide)
  have hjoin : Path.join ⟨"p/q"⟩ ⟨"../../x"⟩ = ⟨"p/q/../../x"⟩ := by decide
  have hpieces : (Path.mk "p/q/../../x").pieces = ["p", "q", "..", "..", "x"] := by decide
  have hstart : sidewaysTree.startOf ⟨"p/q/../../x"⟩ = [] := by decide
  -- down to the project, and up again
  have hway := calc sidewaysTree.resolve .node Tree.linkLimit [] ["p", "q", "..", "..", "x"]
    _ = sidewaysTree.resolve .node Tree.linkLimit ["p"] ["q", "..", "..", "x"] :=
      Tree.resolve_down (by decide) (by decide) rfl hp
    _ = sidewaysTree.resolve .node Tree.linkLimit ["p", "q"] ["..", "..", "x"] :=
      Tree.resolve_down (by decide) (by decide) hp hq
    _ = sidewaysTree.resolve .node Tree.linkLimit ["p"] ["..", "x"] := Tree.resolve_up hq
    _ = sidewaysTree.resolve .node Tree.linkLimit [] ["x"] := Tree.resolve_up hp
    _ = sidewaysTree.resolve .node Tree.linkLimit ["x"] [] :=
      Tree.resolve_down (by decide) (by decide) rfl hx
    _ = .ok (.taken ["x"] .directory) := by rw [Tree.resolve_nil, hx]
  have hfind : sidewaysTree.find? ⟨"p/q/../../x"⟩ = some (["x"], .directory) := by
    rw [Tree.find?_eq_some_iff, Tree.locate, Tree.follow_of_followable (by decide), hpieces,
      hstart, hway]
  rw [hjoin, Tree.directory?, hfind]

theorem collectSources_sidewaysTree :
    collectSources sidewaysTree ⟨"p/q"⟩ sidewaysSettings false = [sidewaysSource] := by
  have hbelow : sidewaysTree.below ["x"] = [(["a.c"], .file .empty)] := rfl
  have hfiles : filesBelow sidewaysTree ⟨"p/q"⟩ ⟨"../../x"⟩ =
      [⟨⟨"../../x/a.c"⟩, "a.c", .empty⟩] := by
    rw [filesBelow, directory?_sidewaysTree]
    dsimp only
    rw [hbelow]
    rfl
  rw [collectSources, show sidewaysSettings.sourceDirs = [⟨"../../x"⟩] from rfl,
    List.flatMap_singleton, hfiles]
  decide +kernel

namespace Emitter

/-- The source of the project is compiled to one place for all variants, outside of their
directories. -/
theorem emit_climbing :
    sidewaysTree.WellFormed ∧
      collectSources sidewaysTree ⟨"p/q"⟩ sidewaysSettings false = [sidewaysSource] ∧
      ∃ g, smallEmitter.emit
          ((buildMatrix smallEmitter.toolchain {} {} sidewaysSettings).answer fun _ => true)
          [sidewaysSource] = .ok g ∧
        (∃ a ∈ g.edges, ∃ b ∈ g.edges, a.target = "out/default-debug/objs/../../x/a.o" ∧
          b.target = "out/default-release/objs/../../x/a.o" ∧ canonical a.target = canonical b.target) ∧
        ¬ g.Apart ∧
        ¬ LiesIn (smallEmitter.variantDir "default-debug")
          (smallEmitter.objectTarget "default-debug" sidewaysSource) := by
  refine ⟨wellFormed_sidewaysTree, collectSources_sidewaysTree, ?_⟩
  have hnames := matrixNames_answer smallEmitter.toolchain {} {} sidewaysSettings fun _ => true
  have distinct : ([sidewaysSource].map (·.path)).Nodup := List.nodup_singleton _
  have unmade : ∀ s ∈ [sidewaysSource], Unmade s := fun s hs =>
    unmade_collectSources (collectSources_sidewaysTree.symm ▸ hs)
  have once : (smallEmitter.stems [sidewaysSource]).Nodup := by decide +kernel
  have outside : ∀ s ∈ [sidewaysSource],
      s.path.toList.head? ≠ (smallEmitter.buildDir ++ "/").toList.head? := by decide
  obtain ⟨g, hemit⟩ := emit_succeeds hnames distinct unmade ((nodup_stems_iff distinct).1 once)
    (not_readsGenerated_of_head outside)
  obtain ⟨emitted, -⟩ := emitted_of_emit hemit
  have object_mem : ∀ c, ∃ edge ∈ g.edges,
      edge.target = smallEmitter.inside (variantName "default" c) "objs/../../x/a.o" := by
    intro c
    obtain ⟨v, hv, hname⟩ := List.mem_map.1 (hnames.own ▸ default_mem_names_answer
      smallEmitter.toolchain {} {} sidewaysSettings (fun _ => true) c)
    rw [← hname]
    exact emitted.target_mem hv (by decide +kernel)
  obtain ⟨a, ha, hat⟩ := object_mem .debug
  obtain ⟨b, hb, hbt⟩ := object_mem .release
  have hmeet : canonical a.target = canonical b.target := by
    rw [hat, hbt]
    decide +kernel
  refine ⟨g, hemit, ⟨a, ha, b, hb, hat, hbt, hmeet⟩, fun apart => apart a ha b hb ?_ hmeet, ?_⟩
  · rintro rfl
    rw [hat] at hbt
    exact absurd hbt (by decide)
  · rintro ⟨-, rest, -, hrest⟩
    have hplaces : (canonical (smallEmitter.objectTarget "default-debug" sidewaysSource)).2 =
        ["out", "x", "a.o"] ∧
        (canonical (smallEmitter.variantDir "default-debug")).2 = ["out", "default-debug"] := by
      decide +kernel
    rw [hplaces.1, hplaces.2] at hrest
    injection hrest with _ hrest
    injection hrest with hrest _
    exact absurd hrest (by decide)

end Emitter

end BuildMatrix
