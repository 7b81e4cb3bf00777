import BuildMatrix.Proofs.Session.Progress
import BuildMatrix.Variant.Matrix

/-!
# Plans depend on verdicts

Finding out the baseline and the variants is an inquiry: each question may hang on the
verdicts before it.  `Prober.asked` lists the questions that a prober really puts, whether
its cache or its compiler answers them.

An inquiry looks at the verdicts on its questions and at nothing else
(`Inquiry.congr_verdict`).  A verdict once remembered stays, so the cache in the end
tells all verdicts of a run.  Where the final caches of two runs agree on the questions
of the first, the second therefore puts the same questions and comes to the same result
(`Carried.inStep`).  The caches at the start and the commands in between do not matter.

Two cases are worth a name.  A compiler that is *steady* accepts by a fixed rule, so all
caches that hold only its verdicts lead to the answer under this rule
(`Carried.steady`).  And a run over the final cache of an earlier one finds all answers
there, whatever its compiler would say (`Carried.recarry`).
-/

namespace BuildMatrix

/-! ## Questions -/

/-- The flag sets that a prober asks about when it carries out an inquiry, in order.  A question that
fails is the last one. -/
def Prober.asked {α : Type} (p : Prober) : Inquiry α → Probing → List FlagSet
  | .done _, _ => []
  | .ask flags next, s =>
      flags :: match p.check flags s with
        | .ok verdict u => p.asked (next verdict) u
        | .error _ _ => []
termination_by structural inquiry => inquiry

section InStep

variable {p q : Prober} {α : Type} {inquiry : Inquiry α} {s s' t t' : Probing}
  {checks checks' : List Check} {result result' : α}

/-- Verdicts that agree on the questions under one of them give the same questions and the same
answer. -/
theorem Inquiry.congr_verdict {v w : FlagSet → Bool}
    (agree : ∀ flags ∈ inquiry.questions v, w flags = v flags) :
    inquiry.questions w = inquiry.questions v ∧ inquiry.answer w = inquiry.answer v := by
  induction inquiry with
  | done result => exact ⟨rfl, rfl⟩
  | ask flags next ih =>
    rw [questions, questions, answer, answer, agree flags List.mem_cons_self]
    obtain ⟨hquestions, hanswer⟩ :=
      ih (v flags) fun other hother => agree other (List.mem_cons_of_mem _ hother)
    exact ⟨congrArg (flags :: ·) hquestions, hanswer⟩

/-- What is asked is what is checked. -/
theorem Carried.asked (carried : Carried p inquiry s checks result s') :
    p.asked inquiry s = checks.map Check.flags := by
  induction carried with
  | done result s => rfl
  | @ask flags next s u s' verdict ran checks result check calls rest ih =>
    rw [Prober.asked, check, List.map_cons]
    exact congrArg (flags :: ·) ih

theorem Carried.asked_eq (carried : Carried p inquiry s checks result s') :
    p.asked inquiry s = inquiry.questions s'.cache.verdict :=
  carried.asked.trans carried.questions

/-- Two runs whose caches agree in the end on the questions of the first put the same questions and
come to the same result. -/
theorem Carried.inStep (first : Carried p inquiry s checks result s')
    (second : Carried q inquiry t checks' result' t')
    (agree : ∀ flags ∈ p.asked inquiry s, t'.cache.get? flags = s'.cache.get? flags) :
    q.asked inquiry t = p.asked inquiry s ∧ result' = result := by
  have hverdict : ∀ flags ∈ inquiry.questions s'.cache.verdict,
      t'.cache.verdict flags = s'.cache.verdict flags := by
    intro flags hflags
    rw [Cache.verdict, Cache.verdict, agree flags (first.asked_eq ▸ hflags)]
  obtain ⟨hquestions, hanswer⟩ := Inquiry.congr_verdict hverdict
  rw [first.asked_eq, second.asked_eq, first.answer.1, second.answer.1]
  exact ⟨hquestions, hanswer⟩

/-- Over the final cache of a run any prober carries out the inquiry again without doing anything,
and asks the same. -/
theorem Carried.recarry (carried : Carried p inquiry s checks result s') (q : Prober)
    (again : Probing) (hcache : again.cache = s'.cache) :
    q.carryOut inquiry again = .ok result again ∧ q.asked inquiry again = p.asked inquiry s := by
  obtain ⟨hresult, hknown⟩ := carried.answer
  have hagain : q.carryOut inquiry again = .ok result again := by
    rw [hresult]
    refine carryOut_of_known fun flags hflags => ?_
    rw [hcache]
    exact hknown flags hflags
  obtain ⟨checks', second⟩ := carryOut_eq_ok_iff.1 hagain
  exact ⟨hagain, (carried.inStep second fun flags _ => by rw [hcache]).1⟩

end InStep

/-! ## Steady compilers -/

/-- The compiler accepts by a fixed rule, whatever was run before. -/
def Prober.Steady (p : Prober) (accepts : FlagSet → Bool) : Prop :=
  ∀ calls flags, (p.runner.ask calls (p.command flags)).1.any Output.success = accepts flags

/-- A cache holds no verdicts but those of the rule. -/
def Cache.Truthful (c : Cache) (accepts : FlagSet → Bool) : Prop :=
  ∀ flags verdict, c.get? flags = some verdict → verdict = accepts flags

namespace Cache.Truthful

variable {accepts : FlagSet → Bool}

theorem empty (compiler : String) : (Cache.empty compiler).Truthful accepts :=
  fun _ _ h => by cases h

theorem insert {c : Cache} (truthful : c.Truthful accepts) {flags : FlagSet} {verdict : Bool}
    (h : verdict = accepts flags) : (c.insert flags verdict).Truthful accepts := by
  intro other known hknown
  change (c.verdicts.insert flags verdict).get? other = some known at hknown
  rw [SortedMap.get?_insert] at hknown
  split at hknown
  · next heq =>
    rw [← Option.some.inj hknown, heq]
    exact h
  · exact truthful other known hknown

end Cache.Truthful

section Steady

variable {p : Prober} {accepts : FlagSet → Bool} {s s' u : Probing}

/-- A check of a steady compiler keeps the cache truthful. -/
theorem Prober.Steady.check (steady : p.Steady accepts) (truthful : s.cache.Truthful accepts)
    {flags : FlagSet} {verdict : Bool} (h : p.check flags s = .ok verdict u) :
    u.cache.Truthful accepts := by
  have hverdict : s.cache.get? flags = none → verdict = accepts flags := by
    intro hget
    unfold Prober.check at h
    rw [Task.get_bind, hget] at h
    obtain ⟨_, written, -, h⟩ := Task.bind_eq_ok.1 h
    have hprobe : (p.probe flags written).1 = verdict := congrArg Prod.fst (Task.step_eq_ok.1 h)
    rw [← hprobe]
    exact steady written.world.calls flags
  rcases check_cases h with ⟨-, rfl⟩ | ⟨hget, hcache, -, -⟩
  · exact truthful
  · rw [hcache]
    exact truthful.insert (hverdict hget)

variable {α : Type} {inquiry : Inquiry α} {checks : List Check} {result : α}

theorem Carried.truthful (carried : Carried p inquiry s checks result s') (steady : p.Steady accepts)
    (truthful : s.cache.Truthful accepts) : s'.cache.Truthful accepts := by
  induction carried with
  | done result s => exact truthful
  | ask check calls rest ih => exact ih (steady.check truthful check)

/-- From a truthful cache, a steady compiler is asked and answers by its rule. -/
theorem Carried.steady (carried : Carried p inquiry s checks result s') (steady : p.Steady accepts)
    (truthful : s.cache.Truthful accepts) :
    p.asked inquiry s = inquiry.questions accepts ∧ result = inquiry.answer accepts := by
  obtain ⟨hresult, hknown⟩ := carried.answer
  have final := carried.truthful steady truthful
  have hverdict : ∀ flags ∈ inquiry.questions s'.cache.verdict,
      accepts flags = s'.cache.verdict flags :=
    fun flags hflags => (final flags _ (hknown flags hflags)).symm
  obtain ⟨hquestions, hanswer⟩ := Inquiry.congr_verdict hverdict
  rw [carried.asked_eq, hresult]
  exact ⟨hquestions.symm, hanswer.symm⟩

end Steady

/-! ## The plan -/

namespace Prober

/-- Find out the baseline and the variants with a prober. -/
def plan (p : Prober) (settings : Settings) (env : Environment) (host : Host) :
    Task Failure Probing (Baseline × VariantSet) :=
  p.carryOut (planVariants p.toolchain p.exe settings env host)

/-- The flag sets that a prober asks about on the way, in order. -/
def planQuestions (p : Prober) (settings : Settings) (env : Environment) (host : Host) :
    Probing → List FlagSet :=
  p.asked (planVariants p.toolchain p.exe settings env host)

/-- The prober with another way to run the same compiler. -/
def withRunner (p : Prober) (runner : Runner) : Prober := { p with runner }

/-- The plan depends only on verdicts.  Of two runs that both come to an end, with any runners and from
any caches, the second asks what the first asked and makes the same plan as soon as the final caches
agree on these questions.  In particular this holds for all caches that hold only verdicts of a
compiler that accepts by a fixed rule, the empty cache among them.  And over the final cache of a run
the plan is made again with no change of any kind: nothing is run, written or remembered. -/
theorem plan_depends_on_verdicts (p : Prober) (runner : Runner) (settings : Settings)
    (env : Environment) (host : Host) {s s' t t' : Probing} {made made' : Baseline × VariantSet}
    (first : p.plan settings env host s = .ok made s')
    (second : (p.withRunner runner).plan settings env host t = .ok made' t') :
    ((∀ flags ∈ p.planQuestions settings env host s,
        t'.cache.get? flags = s'.cache.get? flags) →
      (p.withRunner runner).planQuestions settings env host t =
          p.planQuestions settings env host s ∧ made' = made) ∧
    (∀ accepts, p.Steady accepts → (p.withRunner runner).Steady accepts →
      s.cache.Truthful accepts → t.cache.Truthful accepts →
        (p.withRunner runner).planQuestions settings env host t =
          p.planQuestions settings env host s ∧ made' = made) ∧
    ∀ (other : Runner) (again : Probing), again.cache = s'.cache →
      (p.withRunner other).plan settings env host again = .ok made again ∧
        (p.withRunner other).planQuestions settings env host again =
          p.planQuestions settings env host s := by
  obtain ⟨checks, carried⟩ := carryOut_eq_ok_iff.1 first
  obtain ⟨checks', carried'⟩ := carryOut_eq_ok_iff.1 second
  refine ⟨carried.inStep carried', fun accepts steady steady' hs ht => ?_,
    fun other => carried.recarry (p.withRunner other)⟩
  obtain ⟨hasked, hmade⟩ := carried.steady steady hs
  obtain ⟨hasked', hmade'⟩ := carried'.steady steady' ht
  exact ⟨hasked'.trans hasked.symm, hmade'.trans hmade.symm⟩

/-- A runner whose compiler accepts everything. -/
def lenientRunner : Runner := ⟨fun name => some ⟨name⟩, fun _ _ => .ok ⟨some 0, "", ""⟩⟩

/-- A prober of a compiler that refuses everything. -/
def refusing : Prober := ⟨⟨⟨.msvc, "cl", ⟨"cl"⟩⟩⟩, idleRunner, ⟨"b"⟩⟩

/-- Probing in an empty build root over a cache. -/
def inBareProject (cache : Cache) : Probing := { cache, world := { tree := bareProject } }

/-- A compiler that refuses everything makes a plan.  Over the cache that is left, one that would
accept everything does nothing, asks the same and makes the same plan.  So does the first compiler
over any cache in which everything is refused. -/
theorem plan_of_other_compiler :
    ∃ (s' : Probing) (made : Baseline × VariantSet),
      refusing.plan {} {} {} (inBareProject (Cache.empty "MSVC:cl")) = .ok made s' ∧
        (refusing.withRunner lenientRunner).plan {} {} {} (inBareProject s'.cache) =
          .ok made (inBareProject s'.cache) ∧
        (refusing.withRunner lenientRunner).planQuestions {} {} {} (inBareProject s'.cache) =
          refusing.planQuestions {} {} {} (inBareProject (Cache.empty "MSVC:cl")) ∧
        ∀ (t t' : Probing) (made' : Baseline × VariantSet), (t.cache.Truthful fun _ => false) →
          refusing.plan {} {} {} t = .ok made' t' → made' = made := by
  obtain ⟨checks, made, s', carried, -⟩ := exists_prepared (p := refusing)
    (planVariants refusing.toolchain refusing.exe {} {} {})
    (s := inBareProject (Cache.empty "MSVC:cl"))
    room_bareProject (clear_bareProject List.mem_cons_self)
  have first := carryOut_eq_ok_iff.2 ⟨checks, carried⟩
  have second : (refusing.withRunner lenientRunner).plan {} {} {} (inBareProject s'.cache) =
      .ok made (inBareProject s'.cache) :=
    (carried.recarry (refusing.withRunner lenientRunner) (inBareProject s'.cache) rfl).1
  have asked := (plan_depends_on_verdicts refusing lenientRunner {} {} {} first second).1
    fun _ _ => rfl
  have steady : refusing.Steady fun _ => false := fun _ _ => rfl
  refine ⟨s', made, first, second, asked.1, fun t t' made' truthful other => ?_⟩
  exact ((plan_depends_on_verdicts refusing idleRunner {} {} {} first other).2.1 _ steady steady
    (.empty _) truthful).2

end Prober

end BuildMatrix
