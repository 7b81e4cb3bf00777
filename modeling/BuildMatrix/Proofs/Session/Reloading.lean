import BuildMatrix.Proofs.Tree.Reading
import BuildMatrix.Proofs.Variant.Plan
import BuildMatrix.Proofs.Variant.Questions

/-!
# Saving a cache and loading it again

A cache that is saved under a path and loaded from there for the same compiler is the
same cache, unless it holds a verdict on the flag set of one empty token
(`load_of_save`).  That set shares its text with the set without tokens, and only the
latter is read from the file.  So a verdict on it is lost, and the set without tokens
gets this verdict, in place of its own if it has one (`load_merges`).  All other flag
sets keep their verdicts, and no set gets a new one.  The plan of the variants never asks
about the set in question, so what a run knows after it is always kept (`load_of_plan`).

What is saved can be loaded under every path, with the exception that
`Tree.locate_of_replaced` tells: a path that the new file blocks leads nowhere, and a
session that looks there finds no cache.
-/

namespace BuildMatrix.Cache

open FlagSet (encode decode Blank)

/-! ## Sets that share a text -/

theorem encode_nil : encode [] = "" := rfl

theorem encode_single : encode [""] = "" := FlagSet.encode_eq_empty_iff.2 (.inr rfl)

/-- In a file the verdict on the set of one empty token counts before that on the empty set, since it
is written later. -/
theorem get?_toFile_empty (c : Cache) :
    c.toFile.flags.get? "" = (c.get? [""]).or (c.get? []) := by
  cases hsingle : c.get? [""] with
  | some verdict =>
    rw [Option.some_or, ← encode_single]
    refine SortedMap.get?_ofList_map_last encode hsingle fun flags _ _ hlater hencode => ?_
    rw [encode_single] at hencode
    rcases FlagSet.encode_eq_empty_iff.1 hencode with rfl | rfl
    · exact absurd hlater (by decide)
    · exact KeyOrder.irrefl _ hlater
  | none =>
    rw [Option.none_or, ← encode_nil]
    refine SortedMap.get?_ofList_map encode c.verdicts [] fun flags verdict hflags hencode => ?_
    rcases FlagSet.encode_eq_empty_iff.1 hencode with rfl | rfl
    · rfl
    · have hflags : c.get? [""] = some verdict := hflags
      rw [hsingle] at hflags
      cases hflags

/-- What becomes of a cache in its file. -/
structure Reloaded (c loaded : Cache) : Prop where
  /-- It is for the same compiler. -/
  compiler : loaded.compiler = c.compiler
  /-- A set with a text of its own has the verdict that it had, or none as before. -/
  own : ∀ flags, ¬ Blank flags → loaded.get? flags = c.get? flags
  /-- The set without tokens has the verdict of the set of one empty token, if there was one. -/
  nil : loaded.get? [] = (c.get? [""]).or (c.get? [])
  /-- The set of one empty token has none. -/
  single : loaded.get? [""] = none

theorem reloaded_reread (c : Cache) : Reloaded c c.reread := by
  refine ⟨rfl, fun flags hflags => c.get?_reread hflags, ?_, get?_ofFile_single _⟩
  have hread : c.reread.get? (decode "") = c.toFile.flags.get? "" := by
    refine SortedMap.get?_ofList_map decode c.toFile.flags "" fun text verdict htext heq => ?_
    obtain ⟨flags, rfl, -⟩ := exists_of_get?_toFile htext
    by_cases hblank : Blank flags
    · exact FlagSet.encode_eq_empty_iff.2 hblank
    · rw [FlagSet.decode_encode hblank] at heq
      exact absurd (.inl heq) hblank
  rw [← get?_toFile_empty, ← hread]
  rfl

theorem Reloaded.eq_iff {c loaded : Cache} (reloaded : Reloaded c loaded) :
    loaded = c ↔ c.get? [""] = none := by
  constructor
  · rintro rfl
    exact reloaded.single
  · intro hnone
    have hverdicts : loaded.verdicts = c.verdicts := SortedMap.ext_get? fun flags => by
      by_cases hblank : Blank flags
      · rcases hblank with rfl | rfl
        · have hnil := reloaded.nil
          rw [hnone, Option.none_or] at hnil
          exact hnil
        · exact reloaded.single.trans hnone.symm
      · exact reloaded.own flags hblank
    obtain ⟨key, verdicts⟩ := c
    obtain ⟨key', verdicts'⟩ := loaded
    have hkey : key' = key := reloaded.compiler
    have hverdicts : verdicts' = verdicts := hverdicts
    rw [hkey, hverdicts]

/-! ## Loading what was saved -/

theorem load_of_reached {t t' : Tree} {p : Path} {c : Cache} (wf : t.WellFormed)
    (saved : c.save p t = .ok () t') (hreached : t'.reaches p = true) :
    (load t' p c.compiler).1 = c.reread := by
  have hlocate : ∃ location, t'.locate .node p =
      .ok (.taken location (.file c.toFile.render.toUTF8)) := by
    refine (Tree.locate_of_replaced wf saved).resolve_right fun hblocked => ?_
    rw [Tree.reaches, Tree.find?, hblocked] at hreached
    cases hreached
  obtain ⟨location, hlocate⟩ := hlocate
  rw [load_of_locate hlocate]
  exact ofText_render c

/-- A cache that was saved is loaded as it was, exactly if it holds no verdict on the set of one
empty token; else that verdict is read as one on the set without tokens.  Where the path leads to
nothing any more, the cache without verdicts is loaded. -/
theorem load_of_save {t t' : Tree} {p : Path} {c : Cache} (wf : t.WellFormed)
    (saved : c.save p t = .ok () t') :
    (t'.reaches p = true →
      Reloaded c (load t' p c.compiler).1 ∧
        ((load t' p c.compiler).1 = c ↔ c.get? [""] = none)) ∧
    (t'.reaches p = false → (load t' p c.compiler).1 = empty c.compiler) := by
  refine ⟨fun hreached => ?_, fun hunreached => load_of_unreached hunreached _⟩
  have reloaded : Reloaded c (load t' p c.compiler).1 := by
    rw [load_of_reached wf saved hreached]
    exact reloaded_reread c
  exact ⟨reloaded, reloaded.eq_iff⟩

/-! ## In a bare build root -/

theorem exists_save_bareProject (c : Cache) :
    ∃ t', c.save (Path.child ⟨"b"⟩ cacheFileName) bareProject = .ok () t' ∧
      t'.reaches (Path.child ⟨"b"⟩ cacheFileName) = true := by
  have clear : Clear ⟨"b"⟩ ["b"] bareProject cacheFileName := clear_bareProject (by decide)
  exact ⟨_, clear.replaceText room_bareProject _, clear.reaches_put room_bareProject _⟩

/-- Verdicts on sets with bars, backslashes and empty tokens are all there again. -/
theorem load_of_save_bareProject :
    ∃ t', (((empty "MSVC:cl").insert ["-a|b", ""] true).insert ["\\", "|"] false).save
        (Path.child ⟨"b"⟩ cacheFileName) bareProject = .ok () t' ∧
      (load t' (Path.child ⟨"b"⟩ cacheFileName) "MSVC:cl").1 =
        ((empty "MSVC:cl").insert ["-a|b", ""] true).insert ["\\", "|"] false := by
  obtain ⟨t', saved, hreached⟩ := exists_save_bareProject
    (((empty "MSVC:cl").insert ["-a|b", ""] true).insert ["\\", "|"] false)
  obtain ⟨-, heq⟩ := (load_of_save room_bareProject.wf saved).1 hreached
  exact ⟨t', saved, heq.2 (by decide +kernel)⟩

/-- Of two verdicts one is lost, and the other one answers for the wrong set. -/
theorem load_merges :
    ∃ t', (((empty "MSVC:cl").insert [] true).insert [""] false).save
        (Path.child ⟨"b"⟩ cacheFileName) bareProject = .ok () t' ∧
      (load t' (Path.child ⟨"b"⟩ cacheFileName) "MSVC:cl").1 = (empty "MSVC:cl").insert [] false := by
  obtain ⟨t', saved, hreached⟩ := exists_save_bareProject
    (((empty "MSVC:cl").insert [] true).insert [""] false)
  refine ⟨t', saved, (load_of_reached room_bareProject.wf saved hreached).trans ?_⟩
  decide +kernel

/-! ## After a plan -/

section Plans

variable {o : Options} {settings : Settings} {env : Environment} {host : Host} {runner : Runner}
  {w opened : World} {session : Session} {made : Baseline × VariantSet} {planned : Probing}

/-- No session starts with a verdict on the set of one empty token. -/
theorem get?_single_of_start (start : Session.start o settings env runner w = .ok session opened) :
    session.cache.get? [""] = none := by
  rw [(opened_of_start start).cache]
  split
  · rfl
  · exact get?_load_single _ _ _

/-- Nor has it one when it has found out the variants: the plan asks about no set that shares the
empty text. -/
theorem get?_single_of_plan (start : Session.start o settings env runner w = .ok session opened)
    (plan : (session.prober runner).plan settings env host
      { cache := session.cache, world := opened } = .ok made planned) :
    planned.cache.get? [""] = none := by
  obtain ⟨checks, carried⟩ := carryOut_eq_ok_iff.1 plan
  refine (carried.get?_of_not_checked fun c hc hsingle => ?_).trans (get?_single_of_start start)
  have hquestion : [""] ∈ (planVariants session.toolchain (session.prober runner).exe settings env
      host).questions planned.cache.verdict := by
    rw [← hsingle]
    exact carried.questions ▸ List.mem_map_of_mem hc
  exact NeverBlank.planVariants _ _ _ _ _ _ hquestion (.inr rfl)

/-- A cache without a verdict on the set of one empty token is loaded as it was saved. -/
theorem load_of_single {t t' : Tree} {p : Path} {c : Cache} (hsingle : c.get? [""] = none)
    (wf : t.WellFormed) (saved : c.save p t = .ok () t') (hreached : t'.reaches p = true) :
    (load t' p c.compiler).1 = c :=
  (load_of_reached wf saved hreached).trans ((reloaded_reread c).eq_iff.2 hsingle)

/-- What a session knows when it has found out the variants is loaded as it was: neither the file that
it started from nor the plan brings in the set of one empty token. -/
theorem load_of_plan (start : Session.start o settings env runner w = .ok session opened)
    (plan : (session.prober runner).plan settings env host
      { cache := session.cache, world := opened } = .ok made planned)
    {t t' : Tree} {p : Path} (wf : t.WellFormed) (saved : planned.cache.save p t = .ok () t')
    (hreached : t'.reaches p = true) :
    (load t' p planned.cache.compiler).1 = planned.cache :=
  load_of_single (get?_single_of_plan start plan) wf saved hreached

end Plans

end BuildMatrix.Cache
