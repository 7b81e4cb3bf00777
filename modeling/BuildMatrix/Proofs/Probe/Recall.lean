import BuildMatrix.Proofs.Probe.Memo
import BuildMatrix.Proofs.Probe.Persistence

/-!
# Inquiries from memory

A prober that knows the answers to all questions of an inquiry carries it out without
a command and without touching a file (`carryOut_of_known`).  After an inquiry was
carried out its questions are known, and its result is the answer under the verdicts
that are known then (`Carried.answer`).  So the same inquiry has the same result
again, also from a cache that was kept in a file in between (`carryOut_reread`).
-/

namespace BuildMatrix

open FlagSet (Blank)

section Recall

variable {p : Prober} {α : Type} {inquiry : Inquiry α} {s s' : Probing} {checks : List Check}
  {result : α}

theorem get?_of_check {flags other : FlagSet} {u : Probing} {verdict v : Bool}
    (h : p.check flags s = .ok verdict u) (hother : s.cache.get? other = some v) :
    u.cache.get? other = some v := by
  rcases check_cases h with ⟨-, rfl⟩ | ⟨hnew, hcache, -, -⟩
  · exact hother
  · rw [hcache]
    show (s.cache.verdicts.insert flags verdict).get? other = some v
    rw [SortedMap.get?_insert, if_neg]
    · exact hother
    · rintro rfl
      rw [hnew] at hother
      cases hother

theorem Carried.get? (carried : Carried p inquiry s checks result s') {flags : FlagSet} {v : Bool}
    (h : s.cache.get? flags = some v) : s'.cache.get? flags = some v := by
  induction carried with
  | done result s => exact h
  | ask check calls rest ih => exact ih (get?_of_check check h)

/-- What was not checked is known or unknown as before. -/
theorem Carried.get?_of_not_checked (carried : Carried p inquiry s checks result s')
    {other : FlagSet} (h : ∀ c ∈ checks, c.flags ≠ other) :
    s'.cache.get? other = s.cache.get? other := by
  induction carried with
  | done result s => rfl
  | @ask flags next s u s' verdict ran checks result check calls rest ih =>
    rw [ih fun c hc => h c (List.mem_cons_of_mem _ hc)]
    rcases check_cases check with ⟨-, rfl⟩ | ⟨-, hcache, -⟩
    · rfl
    · rw [hcache]
      exact SortedMap.get?_insert_of_ne _ _ (h _ List.mem_cons_self).symm

theorem get?_of_verdict {flags : FlagSet} {u : Probing} {verdict : Bool}
    (h : p.check flags s = .ok verdict u) : u.cache.get? flags = some verdict := by
  rcases check_cases h with ⟨hknown, rfl⟩ | ⟨-, hcache, -, -⟩
  · exact hknown
  · rw [hcache]
    exact SortedMap.get?_insert_self _ _ _

/-- The verdicts that a cache knows; what it does not know counts as not accepted. -/
def Cache.verdict (c : Cache) (flags : FlagSet) : Bool := (c.get? flags).getD false

theorem Cache.verdict_eq {c : Cache} {flags : FlagSet} {v : Bool} (h : c.get? flags = some v) :
    c.verdict flags = v := by
  rw [verdict, h, Option.getD_some]

/-- The result of an inquiry is its answer under the verdicts known in the end, and all that was asked
is known then. -/
theorem Carried.answer (carried : Carried p inquiry s checks result s') :
    result = inquiry.answer s'.cache.verdict ∧
      ∀ flags ∈ inquiry.questions s'.cache.verdict,
        s'.cache.get? flags = some (s'.cache.verdict flags) := by
  induction carried with
  | done result s => exact ⟨rfl, fun _ h => by cases h⟩
  | @ask flags next s u s' verdict ran checks result check calls rest ih =>
    have hknown : s'.cache.get? flags = some verdict := rest.get? (get?_of_verdict check)
    have hverdict := Cache.verdict_eq hknown
    rw [Inquiry.answer, Inquiry.questions, hverdict]
    refine ⟨ih.1, fun other hother => ?_⟩
    rcases List.mem_cons.1 hother with rfl | hother
    · rw [hknown, hverdict]
    · exact ih.2 other hother

/-- The flag sets that are checked are the questions under the verdicts known in the end. -/
theorem Carried.questions (carried : Carried p inquiry s checks result s') :
    checks.map Check.flags = inquiry.questions s'.cache.verdict := by
  induction carried with
  | done result s => rfl
  | @ask flags next s u s' verdict ran checks result check calls rest ih =>
    have hverdict := Cache.verdict_eq (rest.get? (get?_of_verdict check))
    rw [Inquiry.questions, hverdict, ← ih]
    rfl

/-- A known verdict is given without doing anything. -/
theorem check_of_get? {flags : FlagSet} {verdict : Bool} (h : s.cache.get? flags = some verdict) :
    p.check flags s = .ok verdict s := by
  unfold Prober.check
  rw [Task.get_bind, h]
  rfl

/-- With all answers known an inquiry is carried out without doing anything. -/
theorem carryOut_of_known {verdict : FlagSet → Bool}
    (h : ∀ flags ∈ inquiry.questions verdict, s.cache.get? flags = some (verdict flags)) :
    p.carryOut inquiry s = .ok (inquiry.answer verdict) s := by
  induction inquiry with
  | done result => rfl
  | ask flags next ih =>
    have hcheck : p.check flags s = .ok (verdict flags) s :=
      check_of_get? (h flags List.mem_cons_self)
    show (p.check flags >>= fun v => (next v).perform p.check) s = _
    rw [Task.bind_of_ok hcheck]
    exact ih _ fun other hother => h other (List.mem_cons_of_mem _ hother)

/-- After an inquiry was carried out and its cache was kept, the same inquiry comes to the same result
without doing anything. -/
theorem carryOut_reread (carried : Carried p inquiry s checks result s')
    (askable : ∀ verdict, ∀ flags ∈ inquiry.questions verdict, ¬ Blank flags) {q : Prober}
    {again : Probing} (hcache : again.cache = s'.cache.reread) :
    q.carryOut inquiry again = .ok result again := by
  obtain ⟨hresult, hknown⟩ := carried.answer
  rw [hresult]
  refine carryOut_of_known fun flags hflags => ?_
  rw [hcache, Cache.get?_reread _ (askable _ flags hflags)]
  exact hknown flags hflags

end Recall

end BuildMatrix
