import BuildMatrix.Proofs.Flag.Codec
import BuildMatrix.Proofs.Probe.Program

/-!
# What a prober remembers

A *check* is one question to a prober, with the commands that were run for it and
the verdict.  `Carried` says which checks an inquiry makes when it is carried out.

The cache *agrees* with the checks made so far if it holds the first verdict on each
flag set and nothing else.  A prober over such a cache runs a command exactly for
the flag sets that are new, repeats the first verdict on all others, and leaves a
cache that agrees with the checks made then (`Carried.lawful`).

The two flag sets that share the empty text are left out everywhere, since a cache
that was kept in a file does not tell them apart.
-/

namespace BuildMatrix

open FlagSet (Blank)

/-! ## One check -/

/-- A question to a prober. -/
structure Check where
  /-- The flag set in question. -/
  flags : FlagSet
  /-- The commands that were run. -/
  ran : List Command
  /-- The verdict. -/
  verdict : Bool
  deriving DecidableEq

section OneCheck

variable {p : Prober} {flags : FlagSet} {s u : Probing} {verdict : Bool}

/-- A verdict is found in the cache, or one command is run and its verdict is remembered. -/
theorem check_cases (h : p.check flags s = .ok verdict u) :
    (s.cache.get? flags = some verdict ∧ u = s) ∨
      s.cache.get? flags = none ∧ u.cache = s.cache.insert flags verdict ∧
        u.world.calls = s.world.calls ++ [p.command flags] ∧
        p.Wrote s.world.tree u.world.tree := by
  unfold Prober.check at h
  rw [Task.get_bind] at h
  cases hget : s.cache.get? flags with
  | some known =>
    rw [hget] at h
    obtain ⟨rfl, rfl⟩ := Task.pure_eq_ok.1 h
    exact .inl ⟨rfl, rfl⟩
  | none =>
    rw [hget] at h
    obtain ⟨_, written, hsource, h⟩ := Task.bind_eq_ok.1 h
    have hstep := Task.step_eq_ok.1 h
    injection hstep with hverdict hu
    subst hu
    rw [← hverdict]
    rcases Prober.ensureSource_eq_ok.1 hsource with ⟨-, rfl⟩ | ⟨-, t, htree, rfl⟩
    · exact .inr ⟨rfl, rfl, rfl, .inl rfl⟩
    · exact .inr ⟨rfl, rfl, rfl, .inr htree⟩

/-- A check that finds no verdict in the cache leaves the program written: before it, or by it. -/
theorem check_writes (h : p.check flags s = .ok verdict u) (hget : s.cache.get? flags = none) :
    u.sourceWritten = true ∧
      (s.sourceWritten = true ∧ u.world.tree = s.world.tree ∨
        s.sourceWritten = false ∧
          Tree.writeText p.source probeSource s.world.tree = .ok () u.world.tree) := by
  unfold Prober.check at h
  rw [Task.get_bind, hget] at h
  obtain ⟨_, written, hsource, h⟩ := Task.bind_eq_ok.1 h
  have hstep := Task.step_eq_ok.1 h
  injection hstep with _ hu
  subst hu
  rcases Prober.ensureSource_eq_ok.1 hsource with ⟨hwritten, rfl⟩ | ⟨hnot, t, htree, rfl⟩
  · exact ⟨hwritten, .inl ⟨hwritten, rfl⟩⟩
  · exact ⟨rfl, .inr ⟨hnot, htree⟩⟩

end OneCheck

/-! ## Inquiries -/

/-- An inquiry is carried out from one state to another, making some checks. -/
inductive Carried (p : Prober) {α : Type} : Inquiry α → Probing → List Check → α → Probing → Prop
  | done (result : α) (s : Probing) : Carried p (.done result) s [] result s
  | ask {flags : FlagSet} {next : Bool → Inquiry α} {s u s' : Probing} {verdict : Bool}
      {ran : List Command} {checks : List Check} {result : α}
      (check : p.check flags s = .ok verdict u) (calls : u.world.calls = s.world.calls ++ ran)
      (rest : Carried p (next verdict) u checks result s') :
      Carried p (.ask flags next) s (⟨flags, ran, verdict⟩ :: checks) result s'

theorem perform_ask {α : Type} {m : Type → Type} [Monad m] (put : FlagSet → m Bool)
    (flags : FlagSet) (next : Bool → Inquiry α) :
    (Inquiry.ask flags next).perform put = put flags >>= fun verdict => (next verdict).perform put :=
  rfl

/-- The checks are those of the prober at work. -/
theorem carryOut_eq_ok_iff {p : Prober} {α : Type} {inquiry : Inquiry α} {s s' : Probing}
    {result : α} :
    p.carryOut inquiry s = .ok result s' ↔ ∃ checks, Carried p inquiry s checks result s' := by
  unfold Prober.carryOut
  induction inquiry generalizing s with
  | done value =>
    constructor
    · intro h
      obtain ⟨rfl, rfl⟩ := Task.pure_eq_ok.1 h
      exact ⟨[], .done value s⟩
    · rintro ⟨_, ⟨⟩⟩
      rfl
  | ask flags next ih =>
    rw [perform_ask, Task.bind_eq_ok]
    constructor
    · rintro ⟨verdict, u, hcheck, h⟩
      obtain ⟨checks, hrest⟩ := (ih verdict).1 h
      rcases check_cases hcheck with ⟨-, rfl⟩ | ⟨-, -, hcalls, -⟩
      · exact ⟨_, .ask hcheck (List.append_nil _).symm hrest⟩
      · exact ⟨_, .ask hcheck hcalls hrest⟩
    · rintro ⟨_, hcarried⟩
      cases hcarried with
      | ask check calls rest => exact ⟨_, _, check, (ih _).2 ⟨_, rest⟩⟩

/-! ## Agreement -/

/-- The first of some checks that was about a flag set. -/
def firstOn (flags : FlagSet) (checks : List Check) : Option Check :=
  checks.find? fun c => c.flags = flags

/-- The cache holds the first verdicts of the checks. -/
def Agrees (cache : Cache) (checks : List Check) : Prop :=
  ∀ flags, ¬ Blank flags → cache.get? flags = (firstOn flags checks).map Check.verdict

/-- A check runs the compiler for a flag set that is new, and only repeats the first verdict else. -/
def Lawful (p : Prober) (before : List Check) (c : Check) : Prop :=
  (c.ran = [p.command c.flags] ↔ ∀ earlier ∈ before, earlier.flags ≠ c.flags) ∧
    ∀ first, firstOn c.flags before = some first → c.ran = [] ∧ c.verdict = first.verdict

theorem firstOn_eq_none_iff {flags : FlagSet} {checks : List Check} :
    firstOn flags checks = none ↔ ∀ c ∈ checks, c.flags ≠ flags := by
  unfold firstOn
  rw [List.find?_eq_none]
  simp only [decide_eq_true_eq]

theorem firstOn_append (flags : FlagSet) (before : List Check) (c : Check) :
    firstOn flags (before ++ [c]) =
      (firstOn flags before).or (if c.flags = flags then some c else none) := by
  unfold firstOn
  rw [List.find?_append, List.find?_singleton]
  simp only [decide_eq_true_eq]

theorem Agrees.get?_eq_none {cache : Cache} {before : List Check} (agrees : Agrees cache before)
    {flags : FlagSet} (hflags : ¬ Blank flags) (h : cache.get? flags = none) :
    firstOn flags before = none := by
  rw [agrees flags hflags] at h
  exact Option.map_eq_none_iff.1 h

/-- A check leaves a cache that agrees. -/
theorem Agrees.check {p : Prober} {flags : FlagSet} {s u : Probing} {verdict : Bool}
    {before : List Check} (agrees : Agrees s.cache before)
    (h : p.check flags s = .ok verdict u) (ran : List Command) :
    Agrees u.cache (before ++ [⟨flags, ran, verdict⟩]) := by
  intro other hother
  rw [firstOn_append]
  rcases check_cases h with ⟨hknown, rfl⟩ | ⟨hnew, hcache, -, -⟩
  · rw [agrees other hother]
    by_cases heq : flags = other
    · subst heq
      rw [agrees flags hother] at hknown
      cases hfirst : firstOn flags before with
      | some first => rfl
      | none =>
        rw [hfirst] at hknown
        cases hknown
    · rw [if_neg heq, Option.or_none]
  · rw [hcache]
    show (s.cache.verdicts.insert flags verdict).get? other = _
    rw [SortedMap.get?_insert]
    by_cases heq : flags = other
    · subst heq
      rw [if_pos rfl, if_pos rfl, agrees.get?_eq_none hother hnew]
      rfl
    · rw [if_neg (fun h => heq h.symm), if_neg heq, Option.or_none]
      exact agrees other hother

/-- A check over a cache that agrees is lawful. -/
theorem Agrees.lawful {p : Prober} {flags : FlagSet} {s u : Probing} {verdict : Bool}
    {before : List Check} (agrees : Agrees s.cache before) (hflags : ¬ Blank flags)
    (h : p.check flags s = .ok verdict u) {ran : List Command}
    (calls : u.world.calls = s.world.calls ++ ran) : Lawful p before ⟨flags, ran, verdict⟩ := by
  unfold Lawful
  rw [← firstOn_eq_none_iff]
  rcases check_cases h with ⟨hknown, rfl⟩ | ⟨hnew, -, hcalls, -⟩
  · have hran : ran = [] := List.self_eq_append_right.1 calls
    rw [agrees flags hflags] at hknown
    cases hfirst : firstOn flags before with
    | none =>
      rw [hfirst] at hknown
      cases hknown
    | some first =>
      rw [hfirst] at hknown
      refine ⟨⟨fun h => (by rw [hran] at h; cases h), fun h => (by cases h)⟩, fun _ heq => ⟨hran, ?_⟩⟩
      injection hknown with hverdict
      injection heq with heq
      rw [← hverdict, heq]
  · rw [hcalls] at calls
    have hran : ran = [p.command flags] := (List.append_cancel_left calls).symm
    rw [agrees.get?_eq_none hflags hnew]
    exact ⟨⟨fun _ => rfl, fun _ => hran⟩, fun _ heq => (by cases heq)⟩

/-- From a cache that agrees, an inquiry is carried out with lawful checks, and the cache agrees in
the end. -/
theorem Carried.lawful {p : Prober} {α : Type} {inquiry : Inquiry α} {s s' : Probing}
    {checks : List Check} {result : α} (carried : Carried p inquiry s checks result s') :
    ∀ before, Agrees s.cache before →
      Agrees s'.cache (before ++ checks) ∧
        ∀ done c rest, checks = done ++ c :: rest → ¬ Blank c.flags → Lawful p (before ++ done) c := by
  induction carried with
  | done result s =>
    intro before agrees
    refine ⟨by rw [List.append_nil]; exact agrees, fun done c rest hsplit => ?_⟩
    cases (List.append_eq_nil_iff.1 hsplit.symm).2
  | @ask flags next s u s' verdict ran checks result check calls _ ih =>
    intro before agrees
    obtain ⟨hagrees, hlawful⟩ := ih _ (agrees.check check ran)
    rw [List.append_assoc] at hagrees
    refine ⟨hagrees, fun done c rest hsplit hflags => ?_⟩
    cases done with
    | nil =>
      injection hsplit with hc _
      subst hc
      rw [List.append_nil]
      exact agrees.lawful hflags check calls
    | cons first done =>
      injection hsplit with hfirst hsplit
      subst hfirst
      have h := hlawful done c rest hsplit hflags
      rwa [List.append_assoc] at h

/-! ## What else stays -/

theorem Carried.compiler {p : Prober} {α : Type} {inquiry : Inquiry α} {s s' : Probing}
    {checks : List Check} {result : α} (carried : Carried p inquiry s checks result s') :
    s'.cache.compiler = s.cache.compiler := by
  induction carried with
  | done result s => rfl
  | ask check calls rest ih =>
    rw [ih]
    rcases check_cases check with ⟨-, rfl⟩ | ⟨-, hcache, -, -⟩
    · rfl
    · rw [hcache]
      rfl

theorem Carried.changes {p : Prober} {α : Type} {inquiry : Inquiry α} {s s' : Probing}
    {checks : List Check} {result : α} (carried : Carried p inquiry s checks result s') :
    Tree.Changes s.world.tree s'.world.tree := by
  induction carried with
  | done result s => exact .refl _
  | ask check calls rest ih =>
    rcases check_cases check with ⟨-, rfl⟩ | ⟨-, -, -, wrote⟩
    · exact ih
    · exact wrote.changes.trans ih

/-- Once the program is written, no file is touched. -/
theorem Carried.tree_of_written {p : Prober} {α : Type} {inquiry : Inquiry α} {s s' : Probing}
    {checks : List Check} {result : α} (carried : Carried p inquiry s checks result s')
    (written : s.sourceWritten = true) : s'.world.tree = s.world.tree := by
  induction carried with
  | done result s => rfl
  | ask check calls rest ih =>
    rcases check_cases check with ⟨-, rfl⟩ | ⟨hget, -⟩
    · exact ih written
    · obtain ⟨hwritten, ⟨-, htree⟩ | ⟨hnot, -⟩⟩ := check_writes check hget
      · exact (ih hwritten).trans htree
      · rw [written] at hnot
        cases hnot

/-- An inquiry to a fresh prober leaves everything as it was, or the program in the tree. -/
theorem Carried.same_or_written {p : Prober} {α : Type} {inquiry : Inquiry α} {s s' : Probing}
    {checks : List Check} {result : α} (carried : Carried p inquiry s checks result s')
    (fresh : s.sourceWritten = false) :
    s' = s ∨ Tree.writeText p.source probeSource s.world.tree = .ok () s'.world.tree := by
  induction carried with
  | done result s => exact .inl rfl
  | ask check calls rest ih =>
    rcases check_cases check with ⟨-, rfl⟩ | ⟨hget, -⟩
    · exact ih fresh
    · obtain ⟨hwritten, ⟨hbefore, -⟩ | ⟨-, hwrite⟩⟩ := check_writes check hget
      · rw [fresh] at hbefore
        cases hbefore
      · rw [← rest.tree_of_written hwritten] at hwrite
        exact .inr hwrite

/-- Where the directory of the program is there, no directory and no link comes or goes. -/
theorem Carried.same {p : Prober} {α : Type} {inquiry : Inquiry α} {s s' : Probing}
    {checks : List Check} {result : α} (carried : Carried p inquiry s checks result s')
    (wf : s.world.tree.WellFormed)
    (there : p.scratch.text = "" ∨ s.world.tree.reaches p.scratch = true) :
    Tree.Same s.world.tree s'.world.tree := by
  induction carried with
  | done result s => exact .refl _
  | ask check calls rest ih =>
    rcases check_cases check with ⟨-, rfl⟩ | ⟨-, -, -, wrote⟩
    · exact ih wf there
    · exact (wrote.same wf there).trans
        (ih (wrote.changes.2 wf) (there.imp_right wrote.changes.1.reaches))

end BuildMatrix
