import BuildMatrix.Source.Discovery
import Mathlib.Data.List.Basic

/-!
# Searches for sources

A search gets through if nothing on its way is refused (`Unhindered`).  On the way are
the directories that are listed, and of the files only the examples, each where its path
comes first: a file that is no example is taken without a look at it, and so is a path
that came before.  A search that gets through finds the sources of the project
(`findSources_eq_ok_iff`).  One that does not names what was refused (`arises_of_takeSteps`).
-/

namespace BuildMatrix

variable {refusal? : Path → Option Trouble} {seen : List String} {steps rest : List Step}

/-- The source that a step takes, if it takes one. -/
def Step.source? : Step → Option Source
  | .list _ _ => none
  | .take _ s => some s

/-- The paths of the sources that the steps take. -/
def takenPaths (steps : List Step) : List String := (steps.filterMap Step.source?).map (·.path)

theorem takenPaths_take (file : Path) (s : Source) (steps : List Step) :
    takenPaths (.take file s :: steps) = s.path :: takenPaths steps := rfl

theorem takenPaths_append (steps steps' : List Step) :
    takenPaths (steps ++ steps') = takenPaths steps ++ takenPaths steps' := by
  rw [takenPaths, List.filterMap_append, List.map_append]
  rfl

/-- A path that is taken is taken somewhere for the first time. -/
theorem exists_split_of_taken {path : String} (h : path ∈ takenPaths steps) :
    ∃ before file s after, steps = before ++ .take file s :: after ∧ s.path = path ∧
      path ∉ takenPaths before := by
  induction steps with
  | nil => cases h
  | cons step rest ih =>
    cases step with
    | list base directory =>
      obtain ⟨before, file, s, after, rfl, hpath, fresh⟩ := ih h
      exact ⟨.list base directory :: before, file, s, after, rfl, hpath, fresh⟩
    | take other s =>
      by_cases hs : s.path = path
      · exact ⟨[], other, s, rest, rfl, hs, List.not_mem_nil⟩
      · rw [takenPaths_take, List.mem_cons] at h
        obtain ⟨before, file, s', after, rfl, hpath, fresh⟩ := ih (h.resolve_left (Ne.symm hs))
        refine ⟨.take other s :: before, file, s', after, rfl, hpath, ?_⟩
        rw [takenPaths_take, List.mem_cons, not_or]
        exact ⟨Ne.symm hs, fresh⟩

/-! ## Steps that get through -/

/-- Nothing on the way of a search is refused; `seen` lists the paths that came before. -/
structure Unhindered (refusal? : Path → Option Trouble) (seen : List String) (steps : List Step) :
    Prop where
  /-- Every directory can be listed. -/
  listed : ∀ base directory, .list base directory ∈ steps → refusal? directory = none
  /-- Every example can be read where its path comes first. -/
  read : ∀ before file s after, steps = before ++ .take file s :: after → s.isExample = true →
    s.path ∉ seen → s.path ∉ takenPaths before → refusal? file = none

theorem unhindered_nil : Unhindered refusal? seen [] :=
  ⟨nofun, fun before file s after h => absurd h.symm (by simp)⟩

/-- The more paths came before, the fewer have to be read. -/
theorem Unhindered.mono {seen' : List String} (free : Unhindered refusal? seen steps)
    (h : seen ⊆ seen') : Unhindered refusal? seen' steps :=
  ⟨free.listed, fun before file s after hsteps hexample hseen hbefore =>
    free.read before file s after hsteps hexample (fun hmem => hseen (h hmem)) hbefore⟩

/-- The first step is free to be taken, and the others are when its path is among those that came
before. -/
theorem unhindered_cons {step : Step} :
    Unhindered refusal? seen (step :: rest) ↔
      (∀ base directory, .list base directory = step → refusal? directory = none) ∧
      (∀ file s, .take file s = step → s.isExample = true → s.path ∉ seen → refusal? file = none) ∧
      Unhindered refusal? (takenPaths [step] ++ seen) rest := by
  have hpaths : ∀ before, takenPaths (step :: before) = takenPaths [step] ++ takenPaths before :=
    fun before => takenPaths_append [step] before
  constructor
  · intro free
    refine ⟨?_, ?_, fun b d h => free.listed b d (List.mem_cons_of_mem _ h), ?_⟩
    · rintro base directory rfl
      exact free.listed base directory List.mem_cons_self
    · rintro file s rfl hexample hseen
      exact free.read [] file s rest rfl hexample hseen List.not_mem_nil
    · intro before file s after hrest hexample hseen hbefore
      rw [List.mem_append, not_or] at hseen
      refine free.read (step :: before) file s after (by rw [hrest]; rfl) hexample hseen.2 ?_
      rw [hpaths, List.mem_append, not_or]
      exact ⟨hseen.1, hbefore⟩
  · rintro ⟨hlisted, hread, free⟩
    refine ⟨fun b d h => ?_, fun before file s after hsteps hexample hseen hbefore => ?_⟩
    · rcases List.mem_cons.1 h with h | h
      · exact hlisted b d h
      · exact free.listed b d h
    · rcases List.cons_eq_append_iff.1 hsteps with ⟨-, h⟩ | ⟨before', rfl, hrest⟩
      · injection h with h _
        exact hread file s h hexample hseen
      · rw [hpaths, List.mem_append, not_or] at hbefore
        refine free.read before' file s after hrest hexample ?_ hbefore.2
        rw [List.mem_append, not_or]
        exact ⟨hbefore.1, hseen⟩

theorem unhindered_list {base directory : Path} :
    Unhindered refusal? seen (.list base directory :: rest) ↔
      refusal? directory = none ∧ Unhindered refusal? seen rest := by
  rw [unhindered_cons]
  constructor
  · rintro ⟨hlisted, -, free⟩
    exact ⟨hlisted base directory rfl, free⟩
  · rintro ⟨hlisted, free⟩
    refine ⟨fun b d h => ?_, nofun, free⟩
    cases h
    exact hlisted

section Take

variable {file : Path} {s : Source}

theorem unhindered_take :
    Unhindered refusal? seen (.take file s :: rest) ↔
      (s.isExample = true → s.path ∉ seen → refusal? file = none) ∧
        Unhindered refusal? (s.path :: seen) rest := by
  rw [unhindered_cons]
  constructor
  · rintro ⟨-, hread, free⟩
    exact ⟨hread file s rfl, free⟩
  · rintro ⟨hread, free⟩
    refine ⟨nofun, fun other s' h => ?_, free⟩
    cases h
    exact hread

/-- A path that came before is not looked at. -/
theorem unhindered_of_mem (hseen : s.path ∈ seen) :
    Unhindered refusal? seen (.take file s :: rest) ↔ Unhindered refusal? seen rest := by
  rw [unhindered_take]
  constructor
  · rintro ⟨-, free⟩
    exact free.mono (List.cons_subset.2 ⟨hseen, List.Subset.refl _⟩)
  · intro free
    exact ⟨fun _ hfresh => absurd hseen hfresh, free.mono (List.subset_cons_self _ _)⟩

/-- A path that is new is looked at if it is that of an example. -/
theorem unhindered_of_not_mem (hfresh : s.path ∉ seen) :
    Unhindered refusal? seen (.take file s :: rest) ↔
      (s.isExample = true → refusal? file = none) ∧ Unhindered refusal? (s.path :: seen) rest := by
  rw [unhindered_take]
  exact and_congr_left fun _ => forall_congr' fun _ => forall_prop_of_true hfresh

end Take

/-! ## What a search finds -/

/-- A search gets through if nothing on its way is refused, and then it has taken the first source of
each path. -/
theorem takeSteps_eq_ok_iff {sources : List Source} :
    takeSteps refusal? seen steps = .ok sources ↔
      Unhindered refusal? seen steps ∧
        sources = withoutRepeats seen (steps.filterMap Step.source?) := by
  induction steps generalizing seen sources with
  | nil =>
    refine ⟨fun h => ?_, fun h => by rw [h.2]; rfl⟩
    injection h with h
    exact ⟨unhindered_nil, h.symm⟩
  | cons step rest ih =>
    cases step with
    | list base directory =>
      rw [takeSteps, unhindered_list, List.filterMap_cons_none rfl]
      cases hrefusal : refusal? directory with
      | some cause => exact ⟨nofun, fun h => nomatch h.1.1⟩
      | none => exact ih.trans ⟨fun h => ⟨⟨rfl, h.1⟩, h.2⟩, fun h => ⟨h.1.2, h.2⟩⟩
    | take file s =>
      rw [takeSteps, show (Step.take file s :: rest).filterMap Step.source? =
        s :: rest.filterMap Step.source? from rfl, withoutRepeats]
      by_cases hseen : s.path ∈ seen
      · rw [if_pos hseen, if_pos hseen, unhindered_of_mem hseen]
        exact ih
      rw [if_neg hseen, if_neg hseen, unhindered_of_not_mem hseen]
      cases hrefusal : if s.isExample then refusal? file else none with
      | some cause =>
        refine ⟨nofun, fun h => ?_⟩
        split at hrefusal
        · next hexample => rw [h.1.1 hexample] at hrefusal; cases hrefusal
        · cases hrefusal
      | none =>
        have hread : s.isExample = true → refusal? file = none := fun h => by
          rwa [if_pos h] at hrefusal
        dsimp only
        cases hrest : takeSteps refusal? (s.path :: seen) rest with
        | error failure =>
          refine ⟨nofun, fun h => ?_⟩
          rw [ih.2 ⟨h.1.2, rfl⟩] at hrest
          cases hrest
        | ok found =>
          obtain ⟨free, rfl⟩ := ih.1 hrest
          refine ⟨fun h => ?_, fun h => by rw [h.2]; rfl⟩
          injection h with h
          exact ⟨⟨hread, free⟩, h.symm⟩

/-- A failure of a search names a directory or an example on the way, with the cause of the refusal. -/
inductive Arises (refusal? : Path → Option Trouble) (steps : List Step) : SearchFailure → Prop
  | walk {base directory : Path} {cause : Trouble} (step : .list base directory ∈ steps)
      (refused : refusal? directory = some cause) : Arises refusal? steps (.walk base directory cause)
  | read {file : Path} {s : Source} {cause : Trouble} (step : .take file s ∈ steps)
      (isExample : s.isExample = true) (refused : refusal? file = some cause) :
      Arises refusal? steps (.read file cause)

theorem Arises.cons {failure : SearchFailure} (arises : Arises refusal? rest failure) (step : Step) :
    Arises refusal? (step :: rest) failure := by
  cases arises with
  | walk hstep refused => exact .walk (List.mem_cons_of_mem _ hstep) refused
  | read hstep isExample refused => exact .read (List.mem_cons_of_mem _ hstep) isExample refused

theorem arises_of_takeSteps {failure : SearchFailure}
    (h : takeSteps refusal? seen steps = .error failure) : Arises refusal? steps failure := by
  induction steps generalizing seen with
  | nil => cases h
  | cons step rest ih =>
    cases step with
    | list base directory =>
      rw [takeSteps] at h
      cases hrefusal : refusal? directory with
      | some cause =>
        rw [hrefusal] at h
        cases h
        exact .walk List.mem_cons_self hrefusal
      | none =>
        rw [hrefusal] at h
        exact (ih h).cons _
    | take file s =>
      rw [takeSteps] at h
      split at h
      · exact (ih h).cons _
      split at h
      · next cause hrefusal =>
        cases h
        split at hrefusal
        · next isExample => exact .read List.mem_cons_self isExample hrefusal
        · cases hrefusal
      · cases hrest : takeSteps refusal? (s.path :: seen) rest with
        | error other =>
          rw [hrest] at h
          cases h
          exact (ih hrest).cons _
        | ok found =>
          rw [hrest] at h
          cases h

/-! ## The sources of a project -/

variable {t : Tree} {root : Path} {settings : Settings} {scanBuild : Bool}

theorem stepsBelow_eq (t : Tree) (root : Path) (settings : Settings) (scanBuild : Bool) (d : Path) :
    stepsBelow t root settings scanBuild d =
      match t.directory? (root.join d) with
      | none => []
      | some location => .list (root.join d) (root.join d) ::
          (t.below location).filterMap (stepOf settings scanBuild root (root.join d)) := rfl

theorem source?_of_stepOf (base : Path) (e : List String × Node) :
    (stepOf settings scanBuild root base e).bind Step.source? =
      (foundOf root base e).bind (·.source? settings scanBuild) := by
  obtain ⟨names, node⟩ := e
  have hmap : ∀ (path : Path) (source : Option Source),
      (source.map (Step.take path)).bind Step.source? = source := by
    intro path source
    cases source <;> rfl
  cases node with
  | directory => rfl
  | file content => exact hmap _ _
  | link target => rfl

/-- The walk of a source directory takes the files that are sources. -/
theorem filterMap_stepsBelow (d : Path) :
    (stepsBelow t root settings scanBuild d).filterMap Step.source? =
      (filesBelow t root d).filterMap (·.source? settings scanBuild) := by
  rw [stepsBelow_eq, filesBelow]
  cases t.directory? (root.join d) with
  | none => rfl
  | some location =>
    dsimp only
    rw [List.filterMap_cons_none rfl, List.filterMap_filterMap, List.filterMap_filterMap]
    exact List.filterMap_congr fun e _ => source?_of_stepOf _ e

/-- A project is searched with success if nothing on the way is refused, and then its sources are
found. -/
theorem findSources_eq_ok_iff {sources : List Source} :
    findSources refusal? t root settings scanBuild = .ok sources ↔
      Unhindered refusal? [] (settings.sourceDirs.flatMap (stepsBelow t root settings scanBuild)) ∧
        sources = collectSources t root settings scanBuild := by
  have hsources : (settings.sourceDirs.flatMap (stepsBelow t root settings scanBuild)).filterMap
      Step.source? = (settings.sourceDirs.flatMap (filesBelow t root)).filterMap
        (·.source? settings scanBuild) := by
    rw [List.filterMap_flatMap, List.filterMap_flatMap]
    simp only [filterMap_stepsBelow]
  rw [findSources, takeSteps_eq_ok_iff, hsources]
  rfl

/-- With one source directory the search takes the steps of one walk. -/
theorem findSources_single {d : Path} (hdirs : settings.sourceDirs = [d])
    (hsteps : stepsBelow t root settings scanBuild d = steps) :
    findSources refusal? t root settings scanBuild = takeSteps refusal? [] steps := by
  rw [findSources, hdirs, List.flatMap_singleton, hsteps]

/-- What is found are the sources of the project. -/
theorem eq_collectSources {sources : List Source}
    (h : findSources refusal? t root settings scanBuild = .ok sources) :
    sources = collectSources t root settings scanBuild :=
  (findSources_eq_ok_iff.1 h).2

end BuildMatrix
