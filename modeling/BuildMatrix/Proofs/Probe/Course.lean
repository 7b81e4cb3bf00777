import BuildMatrix.Proofs.Session.Interruption
import BuildMatrix.Proofs.Tree.Filling

/-!
# The calls of a session

A prober is asked in two ways, for a verdict and for flags if they are accepted, and a session is any
sequence of such calls.  Between two calls anything may happen to the files, but that what was written
for probing is still read.  `Response` says what a call can do: it recalls a verdict, or puts the flag
set to the compiler, or is hindered from writing the program.

From one point of a session to a later one `Tally` keeps the books: the commands that were run in
between are those of the flag sets that have become known, each once, and as many as the counter and
the cache have grown by.  Tallies of successive stretches add up (`Tally.trans`), so what holds of one
call holds of the session (`course_lawful`).
-/

namespace BuildMatrix

/-! ## Calls -/

/-- A call of a prober. -/
inductive Call where
  /-- Ask for the verdict on a flag set. -/
  | check (flags : FlagSet)
  /-- Ask for the flags if they are accepted. -/
  | ifSupported (flags : FlagSet)
  deriving DecidableEq

/-- What a call gives. -/
inductive Reply where
  /-- A verdict. -/
  | verdict (accepted : Bool)
  /-- Flags to use. -/
  | flags (kept : List String)
  deriving DecidableEq

namespace Call

/-- The flag set that a call is about. -/
def flags : Call → FlagSet
  | .check flags => flags
  | .ifSupported flags => flags

/-- The reply to a call under a verdict. -/
def reply : Call → Bool → Reply
  | .check _, verdict => .verdict verdict
  | .ifSupported flags, verdict => .flags (if verdict then flags else [])

end Call

/-- Call a prober. -/
def Prober.call (p : Prober) : Call → Task Failure Probing Reply
  | .check flags => do return .verdict (← p.check flags)
  | .ifSupported flags => do return .flags (← p.ifSupported flags)

/-- A call checks its flag set and replies accordingly. -/
theorem Prober.call_eq (p : Prober) (c : Call) :
    p.call c = p.check c.flags >>= fun verdict => pure (c.reply verdict) := by
  cases c with
  | check flags => rfl
  | ifSupported flags =>
    show (p.check flags >>= fun verdict => pure (if verdict = true then flags else [])) >>=
      (fun kept => pure (Reply.flags kept)) = _
    rw [bind_assoc]
    simp only [pure_bind]
    rfl

/-! ## What a call can do -/

/-- The program cannot be written exactly if it was not before and its file cannot be filled. -/
theorem ensureSource_eq_error {p : Prober} {s u : Probing} {f : Failure} :
    p.ensureSource s = .error f u ↔ p.Hindered s f u := by
  refine ⟨ensureSource_error, ?_⟩
  rintro ⟨hnot, failure, t, hwrite, rfl, rfl⟩
  cases hsource : p.ensureSource s with
  | ok _ u =>
    rcases Prober.ensureSource_eq_ok.1 hsource with ⟨hwritten, -⟩ | ⟨-, t', hwrite', -⟩
    · exact absurd hwritten (Bool.eq_false_iff.1 hnot)
    · rw [hwrite] at hwrite'
      cases hwrite'
  | error f' u =>
    obtain ⟨-, failure', t', hwrite', rfl, rfl⟩ := ensureSource_error hsource
    rw [hwrite] at hwrite'
    cases hwrite'
    rfl

/-- Putting the program in place runs nothing and teaches nothing. -/
theorem frame_of_ready {p : Prober} {s u : Probing} (h : p.ensureSource s = .ok () u) :
    u.world.calls = s.world.calls ∧ u.invocations = s.invocations ∧ u.cache = s.cache := by
  rcases Prober.ensureSource_eq_ok.1 h with ⟨-, rfl⟩ | ⟨-, t, -, rfl⟩
  · exact ⟨rfl, rfl, rfl⟩
  · exact ⟨rfl, rfl, rfl⟩

theorem frame_of_hindered {p : Prober} {s u : Probing} {f : Failure} (h : p.Hindered s f u) :
    u.world.calls = s.world.calls ∧ u.invocations = s.invocations ∧ u.cache = s.cache := by
  obtain ⟨-, failure, t, -, -, rfl⟩ := h
  exact ⟨rfl, rfl, rfl⟩

/-- What a call does in a state. -/
inductive Response (p : Prober) (c : Call) (s : Probing) : Except Failure Reply → Probing → Prop
  /-- The verdict is known, and nothing is done. -/
  | recalled {verdict : Bool} (known : s.cache.get? c.flags = some verdict) :
      Response p c s (.ok (c.reply verdict)) s
  /-- The program is in place, and the command is run. -/
  | probed {u : Probing} (new : s.cache.get? c.flags = none) (ready : p.ensureSource s = .ok () u) :
      Response p c s (.ok (c.reply (p.probe c.flags u).1)) (p.probe c.flags u).2
  /-- The program cannot be written. -/
  | hindered {f : Failure} {u : Probing} (new : s.cache.get? c.flags = none)
      (hindered : p.Hindered s f u) : Response p c s (.error f) u

theorem check_of_unknown {p : Prober} {flags : FlagSet} {s : Probing}
    (h : s.cache.get? flags = none) :
    p.check flags s = (p.ensureSource >>= fun _ => Task.step (p.probe flags)) s := by
  rw [Prober.check, Task.get_bind, h]

/-- A call gives what it gives by recalling a verdict, by running a command or for want of the program. -/
theorem outcome_call {p : Prober} {c : Call} {s u : Probing} {r : Except Failure Reply} :
    (p.call c).outcome s = (r, u) ↔ Response p c s r u := by
  rw [p.call_eq, Task.outcome]
  constructor
  · intro h
    cases hget : s.cache.get? c.flags with
    | some verdict =>
      rw [Task.bind_of_ok (check_of_get? hget)] at h
      cases h
      exact .recalled hget
    | none =>
      have hcheck := check_of_unknown (p := p) hget
      cases hsource : p.ensureSource s with
      | ok _ ready =>
        rw [Task.bind_of_ok hsource] at hcheck
        rw [Task.bind_of_ok hcheck] at h
        cases h
        exact .probed hget hsource
      | error f ready =>
        rw [Task.bind_eq_error.2 (.inl hsource)] at hcheck
        rw [Task.bind_eq_error.2 (.inl hcheck)] at h
        cases h
        exact .hindered hget (ensureSource_error hsource)
  · intro response
    cases response with
    | recalled known =>
      rw [Task.bind_of_ok (check_of_get? known)]
      rfl
    | probed new ready =>
      have hcheck := check_of_unknown (p := p) new
      rw [Task.bind_of_ok ready] at hcheck
      rw [Task.bind_of_ok hcheck]
      rfl
    | hindered new hindered =>
      have hcheck := check_of_unknown (p := p) new
      rw [Task.bind_eq_error.2 (.inl (ensureSource_eq_error.2 hindered))] at hcheck
      rw [Task.bind_eq_error.2 (.inl hcheck)]

/-! ## Keeping the books -/

/-- The state over another tree. -/
def Probing.withTree (s : Probing) (t : Tree) : Probing := { s with world := { s.world with tree := t } }

/-- The flag set can be read off the command. -/
theorem Prober.command_inj {p : Prober} {flags other : FlagSet}
    (h : p.command flags = p.command other) : flags = other := by
  unfold Prober.command Toolchain.probeCommand at h
  split at h
  all_goals
    injection h with _ harguments
    exact List.append_cancel_left (List.append_cancel_right harguments)

/-- What was run from one state to another, and what came of it. -/
structure Tally (p : Prober) (s u : Probing) (ran : List Command) : Prop where
  /-- The commands were handed to the runner in this order. -/
  calls : u.world.calls = s.world.calls ++ ran
  /-- The counter has counted them. -/
  invocations : u.invocations = s.invocations + ran.length
  /-- The cache has grown by as many entries. -/
  size : u.cache.size = s.cache.size + ran.length
  /-- None was run twice. -/
  once : ran.Nodup
  /-- Each puts a flag set to the compiler. -/
  own : ∀ command ∈ ran, ∃ flags, command = p.command flags
  /-- These flag sets were unknown and have become known, and no others have. -/
  learned : ∀ flags, p.command flags ∈ ran ↔
    s.cache.get? flags = none ∧ u.cache.get? flags ≠ none
  /-- The verdicts that were known are what they were. -/
  kept : ∀ flags verdict, s.cache.get? flags = some verdict → u.cache.get? flags = some verdict

namespace Tally

variable {p : Prober} {s u v : Probing} {ran later : List Command}

/-- Nothing was run, and nothing was learned. -/
theorem still (h : u.world.calls = s.world.calls ∧ u.invocations = s.invocations ∧
    u.cache = s.cache) : Tally p s u [] where
  calls := by rw [h.1, List.append_nil]
  invocations := h.2.1
  size := by rw [h.2.2, List.length_nil, Nat.add_zero]
  once := List.nodup_nil
  own := fun _ hmem => by cases hmem
  learned := fun flags => by
    rw [h.2.2]
    exact iff_of_false List.not_mem_nil fun h => h.2 h.1
  kept := fun _ _ hget => by rwa [h.2.2]

/-- At one point nothing happens. -/
theorem refl (s : Probing) : Tally p s s [] := still ⟨rfl, rfl, rfl⟩

/-- Nothing was run while the files were changed. -/
theorem withTree (s : Probing) (t : Tree) : Tally p s (s.withTree t) [] := still ⟨rfl, rfl, rfl⟩

/-- The books of two stretches are added up. -/
theorem trans (first : Tally p s u ran) (second : Tally p u v later) :
    Tally p s v (ran ++ later) where
  calls := by rw [second.calls, first.calls, List.append_assoc]
  invocations := by
    rw [second.invocations, first.invocations, List.length_append, Nat.add_assoc]
  size := by rw [second.size, first.size, List.length_append, Nat.add_assoc]
  once := by
    refine List.nodup_append.2 ⟨first.once, second.once, fun command hran other hlater heq => ?_⟩
    subst heq
    -- what was run first is known, and known flag sets are not put again
    obtain ⟨flags, rfl⟩ := first.own command hran
    exact ((first.learned flags).1 hran).2 ((second.learned flags).1 hlater).1
  own := fun command h => (List.mem_append.1 h).elim (first.own command) (second.own command)
  learned := fun flags => by
    rw [List.mem_append, first.learned, second.learned]
    cases hs : s.cache.get? flags with
    | some verdict => simp [first.kept flags verdict hs]
    | none =>
      cases hu : u.cache.get? flags with
      | some verdict => simp [second.kept flags verdict hu]
      | none => simp
  kept := fun flags verdict h => second.kept flags verdict (first.kept flags verdict h)

/-- One flag set was put to the compiler. -/
theorem probe {flags : FlagSet} (new : s.cache.get? flags = none) :
    Tally p s (p.probe flags s).2 [p.command flags] where
  calls := rfl
  invocations := rfl
  size := SortedMap.size_insert new
  once := List.nodup_singleton _
  own := fun command h => ⟨flags, List.mem_singleton.1 h⟩
  learned := fun other => by
    show _ ↔ _ ∧ (s.cache.verdicts.insert flags _).get? other ≠ none
    rw [List.mem_singleton, SortedMap.get?_insert]
    by_cases heq : other = flags
    · subst heq
      simp [new]
    · rw [if_neg heq]
      exact iff_of_false (fun h => heq (Prober.command_inj h)) fun h => h.2 h.1
  kept := fun other verdict h => by
    show (s.cache.verdicts.insert flags _).get? other = some verdict
    rw [SortedMap.get?_insert_of_ne]
    · exact h
    · rintro rfl
      rw [new] at h
      cases h

end Tally

/-! ## The program -/

/-- If the program was written, it is read at its path. -/
def Prober.Sourced (p : Prober) (s : Probing) : Prop :=
  s.sourceWritten = true → s.world.tree.readText p.source = .ok probeSource

/-- A text that was written is read. -/
theorem Tree.readText_of_writeText {t t' : Tree} {path : Path} {text : String}
    (h : writeText path text t = .ok () t') : t'.readText path = .ok text := by
  obtain ⟨location, hlocate⟩ := locate_of_writeText h
  exact readText_of_locate hlocate

namespace Response

variable {p : Prober} {c : Call} {s u : Probing} {r : Except Failure Reply}

/-- A call runs one command or none, and keeps the books. -/
theorem tally (response : Response p c s r u) : ∃ ran, Tally p s u ran := by
  cases response with
  | recalled known => exact ⟨[], .refl s⟩
  | probed new ready =>
    have frame := frame_of_ready ready
    rw [← frame.2.2] at new
    exact ⟨_, (Tally.still frame).trans (.probe new)⟩
  | hindered new hindered => exact ⟨[], .still (frame_of_hindered hindered)⟩

/-- The program is read once it is in place. -/
theorem readText_of_ready (ready : p.ensureSource s = .ok () u) (sourced : p.Sourced s) :
    u.world.tree.readText p.source = .ok probeSource := by
  rcases Prober.ensureSource_eq_ok.1 ready with ⟨hwritten, rfl⟩ | ⟨-, t, hwrite, rfl⟩
  · exact sourced hwritten
  · exact Tree.readText_of_writeText hwrite

theorem sourced (response : Response p c s r u) (sourced : p.Sourced s) : p.Sourced u := by
  cases response with
  | recalled known => exact sourced
  | probed new ready =>
    have hread := readText_of_ready ready sourced
    exact fun _ => hread
  | hindered new hindered =>
    obtain ⟨hnot, failure, t, -, -, rfl⟩ := hindered
    intro hwritten
    exact absurd hwritten (Bool.eq_false_iff.1 hnot)

/-- A reply is that under a verdict which is known then. -/
theorem replied {reply : Reply} (response : Response p c s (.ok reply) u) :
    ∃ verdict, u.cache.get? c.flags = some verdict ∧ reply = c.reply verdict := by
  cases response with
  | recalled known => exact ⟨_, known, rfl⟩
  | probed new ready => exact ⟨_, SortedMap.get?_insert_self _ _ _, rfl⟩

/-- If a command was run, its flag set was unknown, the program was read, and the verdict is whether
the command could be run and succeeded. -/
theorem ran (response : Response p c s r u) (sourced : p.Sourced s)
    (h : u.world.calls ≠ s.world.calls) :
    s.cache.get? c.flags = none ∧
      u.world.calls = s.world.calls ++ [p.command c.flags] ∧
      u.world.tree.readText p.source = .ok probeSource ∧
      u.cache.get? c.flags =
        some ((p.runner.answer s.world.calls (p.command c.flags)).toOption.any Output.success) := by
  cases response with
  | recalled known => exact absurd rfl h
  | probed new ready =>
    have hcalls := (frame_of_ready ready).1
    have hread := readText_of_ready ready sourced
    refine ⟨new, congrArg (· ++ [p.command c.flags]) hcalls, hread, ?_⟩
    rw [← hcalls]
    exact SortedMap.get?_insert_self _ _ _
  | hindered new hindered => exact absurd (frame_of_hindered hindered).1 h

/-- A call fails exactly if its flag set is unknown and the program cannot be written. -/
theorem failed_iff (response : Response p c s r u) (f : Failure) :
    r = .error f ↔ s.cache.get? c.flags = none ∧ ∃ u', p.Hindered s f u' := by
  constructor
  · rintro rfl
    cases response with
    | hindered new hindered => exact ⟨new, u, hindered⟩
  · rintro ⟨new, u', hindered⟩
    -- the state settles what a call does
    have houtcome := outcome_call.2 response
    rw [outcome_call.2 (.hindered new hindered)] at houtcome
    injection houtcome with hr
    exact hr.symm

/-- A call that fails leaves no trace in the books. -/
theorem frame {f : Failure} (response : Response p c s (.error f) u) :
    u.world.calls = s.world.calls ∧ u.invocations = s.invocations ∧ u.cache = s.cache := by
  cases response with
  | hindered new hindered => exact frame_of_hindered hindered

end Response

/-! ## Sessions -/

/-- A call that was made, and what came of it. -/
structure Exchange where
  call : Call
  /-- The state before the call. -/
  before : Probing
  outcome : Except Failure Reply
  /-- The state that the call left, whether or not it failed. -/
  after : Probing

/-- A session of a prober, from one state to another.  The files may change between two calls, but not
what is read at the path of the program after it was written. -/
inductive Course (p : Prober) : Probing → List Exchange → Probing → Prop
  | done (s : Probing) : Course p s [] s
  | call {c : Call} {s u e : Probing} {r : Except Failure Reply} {exchanges : List Exchange}
      (outcome : (p.call c).outcome s = (r, u)) (rest : Course p u exchanges e) :
      Course p s (⟨c, s, r, u⟩ :: exchanges) e
  | meanwhile {s e : Probing} {t : Tree} {exchanges : List Exchange}
      (source : s.sourceWritten = true →
        t.readText p.source = s.world.tree.readText p.source)
      (rest : Course p (s.withTree t) exchanges e) :
      Course p s exchanges e

/-- Where a call stands in a session: what was run before it and after it, and what it has done. -/
structure Exchange.Stands (p : Prober) (s e : Probing) (x : Exchange) : Prop where
  before : ∃ ran, Tally p s x.before ran
  sourced : p.Sourced x.before
  response : Response p x.call x.before x.outcome x.after
  after : ∃ ran, Tally p x.after e ran

/-- What was run earlier is added to what was run before a call. -/
theorem Exchange.Stands.prepend {p : Prober} {s u e : Probing} {x : Exchange} {ran : List Command}
    (first : Tally p s u ran) (stands : x.Stands p u e) : x.Stands p s e where
  before := by
    obtain ⟨later, second⟩ := stands.before
    exact ⟨ran ++ later, first.trans second⟩
  sourced := stands.sourced
  response := stands.response
  after := stands.after

namespace Course

variable {p : Prober} {s e : Probing} {exchanges : List Exchange}

theorem tally (course : Course p s exchanges e) : ∃ ran, Tally p s e ran := by
  induction course with
  | done s => exact ⟨[], .refl _⟩
  | call outcome rest ih =>
    obtain ⟨ran, first⟩ := (outcome_call.1 outcome).tally
    obtain ⟨later, second⟩ := ih
    exact ⟨ran ++ later, first.trans second⟩
  | meanwhile source rest ih =>
    obtain ⟨ran, second⟩ := ih
    exact ⟨ran, (Tally.withTree _ _).trans second⟩

theorem stands (course : Course p s exchanges e) (sourced : p.Sourced s) :
    ∀ x ∈ exchanges, x.Stands p s e := by
  induction course with
  | done s => exact fun x hx => by cases hx
  | call outcome rest ih =>
    have response := outcome_call.1 outcome
    intro x hx
    rcases List.mem_cons.1 hx with rfl | hx
    · exact ⟨⟨[], .refl _⟩, sourced, response, rest.tally⟩
    · obtain ⟨ran, first⟩ := response.tally
      exact (ih (response.sourced sourced) x hx).prepend first
  | meanwhile source rest ih =>
    intro x hx
    have sourced' := fun hwritten => (source hwritten).trans (sourced hwritten)
    exact (ih sourced' x hx).prepend (.withTree _ _)

end Course

/-- Any calls make a session. -/
theorem exists_course (p : Prober) (calls : List Call) (s : Probing) :
    ∃ exchanges e, Course p s exchanges e ∧ exchanges.map Exchange.call = calls := by
  induction calls generalizing s with
  | nil => exact ⟨[], s, .done s, rfl⟩
  | cons c calls ih =>
    obtain ⟨exchanges, e, rest, hcalls⟩ := ih ((p.call c).outcome s).2
    exact ⟨_, e, .call rfl rest, congrArg (c :: ·) hcalls⟩

/-! ## The law of a session -/

/-- What a call keeps to in a session that starts over a cache and a world and comes to a state. -/
structure Exchange.Lawful (p : Prober) (c : Cache) (w : World) (e : Probing) (x : Exchange) : Prop where
  /-- The counter stands at the number of commands that were run since the start. -/
  counted : ∃ ran, Tally p { cache := c, world := w } x.after ran ∧
    x.after.invocations = ran.length
  /-- What is known after the call stays known. -/
  kept : ∀ flags verdict, x.after.cache.get? flags = some verdict →
    e.cache.get? flags = some verdict
  /-- A reply is that under the verdict which is known in the end. -/
  replied : ∀ reply, x.outcome = .ok reply →
    ∃ verdict, e.cache.get? x.call.flags = some verdict ∧ reply = x.call.reply verdict
  /-- A command is run for an unknown flag set and with the program in place.  The verdict is whether
  it could be run and succeeded. -/
  ran : x.after.world.calls ≠ x.before.world.calls →
    x.before.cache.get? x.call.flags = none ∧
      x.after.world.calls = x.before.world.calls ++ [p.command x.call.flags] ∧
      x.after.world.tree.readText p.source = .ok probeSource ∧
      e.cache.get? x.call.flags =
        some ((p.runner.answer x.before.world.calls (p.command x.call.flags)).toOption.any
          Output.success)
  /-- The call fails exactly if its flag set is unknown and the program cannot be written. -/
  failed : ∀ f, x.outcome = .error f ↔
    x.before.cache.get? x.call.flags = none ∧ ∃ u, p.Hindered x.before f u
  /-- A call that fails leaves no trace in the books. -/
  unchanged : ∀ f, x.outcome = .error f →
    x.after.world.calls = x.before.world.calls ∧ x.after.invocations = x.before.invocations ∧
      x.after.cache = x.before.cache

section Law

variable {p : Prober} {c : Cache} {w : World} {e : Probing} {x : Exchange}

/-- What was seen and done at a call, and what was run before it and after it, make it lawful. -/
theorem Exchange.Stands.lawful (stands : x.Stands p { cache := c, world := w } e) :
    x.Lawful p c w e := by
  obtain ⟨⟨ran, before⟩, sourced, response, ⟨later, after⟩⟩ := stands
  obtain ⟨now, tally⟩ := response.tally
  have upto := before.trans tally
  refine ⟨⟨_, upto, upto.invocations.trans (Nat.zero_add _)⟩, after.kept, fun reply hreply => ?_,
    fun hran => ?_, response.failed_iff, fun f hf => ?_⟩
  · rw [hreply] at response
    obtain ⟨verdict, hknown, hverdict⟩ := response.replied
    exact ⟨verdict, after.kept _ _ hknown, hverdict⟩
  · obtain ⟨new, hcalls, hread, hknown⟩ := response.ran sourced hran
    exact ⟨new, hcalls, hread, after.kept _ _ hknown⟩
  · rw [hf] at response
    exact response.frame

end Law

/-- Over any cache, with any runner, and whatever the calls are: from the start to the end the books are
kept, every call is lawful, and calls for one flag set get replies under one verdict. -/
theorem course_lawful {p : Prober} {c : Cache} {w : World} {exchanges : List Exchange} {e : Probing}
    (course : Course p { cache := c, world := w } exchanges e) :
    (∃ ran, Tally p { cache := c, world := w } e ran ∧ e.invocations = ran.length) ∧
      (∀ x ∈ exchanges, x.Lawful p c w e) ∧
      ∀ x ∈ exchanges, ∀ again ∈ exchanges, x.call.flags = again.call.flags →
        ∀ reply reply', x.outcome = .ok reply → again.outcome = .ok reply' →
          ∃ verdict, reply = x.call.reply verdict ∧ reply' = again.call.reply verdict := by
  have lawful : ∀ x ∈ exchanges, x.Lawful p c w e := fun x hx =>
    (course.stands (fun hwritten => by cases hwritten) x hx).lawful
  obtain ⟨ran, tally⟩ := course.tally
  refine ⟨⟨ran, tally, tally.invocations.trans (Nat.zero_add _)⟩, lawful, ?_⟩
  intro x hx again hagain hflags reply reply' hreply hreply'
  obtain ⟨verdict, hknown, hverdict⟩ := (lawful x hx).replied reply hreply
  obtain ⟨verdict', hknown', hverdict'⟩ := (lawful again hagain).replied reply' hreply'
  rw [← hflags, hknown] at hknown'
  cases hknown'
  exact ⟨verdict, hverdict, hverdict'⟩

/-! ## A session with obstacles -/

/-- A build root where a directory has the name of the program. -/
def obstructed : Tree := bareProject.put (["b"] ++ [sourceName]) .directory

theorem writeText_obstructed (text : String) :
    Tree.writeText (Path.child ⟨"b"⟩ sourceName) text obstructed =
      .error (.writeFile (Path.child ⟨"b"⟩ sourceName) .isDirectory) obstructed := by
  have clear : Clear ⟨"b"⟩ ["b"] bareProject sourceName := clear_bareProject List.mem_cons_self
  obtain ⟨front, entry⟩ := clear.entry room_bareProject
  have vacant : (Place.vacant ["b"] sourceName).Holds bareProject :=
    ⟨entry.directory, node?_bareProject sourceName⟩
  have extended : Tree.Extends bareProject obstructed :=
    Tree.extends_put_of_vacant vacant fun _ h => by cases h
  exact (entry.within extended.keeps.within).writeText_of_directory
    (Tree.node?_put_self (List.concat_ne_nil _ _) _) text

/-- A prober whose compiler cannot be run at first and accepts everything later. -/
def fickle : Prober :=
  ⟨⟨⟨.msvc, "cl", ⟨"cl"⟩⟩⟩,
    ⟨fun name => some ⟨name⟩, fun calls _ =>
      if calls = [] then .error .notFound else .ok ⟨some 0, "", ""⟩⟩,
    ⟨"b"⟩⟩

/-- The program cannot be written at first, and that is tried again after the obstacle was removed.
Then the compiler cannot be run for one flag set, and this flag set is not put to it again when it
has accepted another one. -/
theorem lawful_of_fickle :
    ∃ exchanges e,
      Course fickle { cache := Cache.empty "MSVC:cl", world := { tree := obstructed } } exchanges e ∧
      exchanges.map Exchange.call =
        [.check ["/GL"], .ifSupported ["/GL"], .ifSupported ["/Gw"], .check ["/GL"]] ∧
      exchanges.map Exchange.outcome =
        [.error (.write (.writeFile (Path.child ⟨"b"⟩ sourceName) .isDirectory)),
          .ok (.flags []), .ok (.flags ["/Gw"]), .ok (.verdict false)] ∧
      (∀ x ∈ exchanges, x.Lawful fickle (Cache.empty "MSVC:cl") { tree := obstructed } e) ∧
      e.invocations = 2 := by
  let start : Probing := { cache := Cache.empty "MSVC:cl", world := { tree := obstructed } }
  have clear : Clear ⟨"b"⟩ ["b"] bareProject sourceName := clear_bareProject List.mem_cons_self
  have write := clear.writeText room_bareProject probeSource
  let ready : Probing :=
    { start.withTree (bareProject.put (["b"] ++ [sourceName]) (.file probeSource.toUTF8)) with
      sourceWritten := true }
  have hready : fickle.ensureSource (start.withTree bareProject) = .ok () ready :=
    Prober.ensureSource_eq_ok.2 (.inr ⟨rfl, _, write, rfl⟩)
  let one : Probing := (fickle.probe ["/GL"] ready).2
  have hone : fickle.ensureSource one = .ok () one :=
    Prober.ensureSource_eq_ok.2 (.inl ⟨rfl, rfl⟩)
  have first : Response fickle (.check ["/GL"]) start _ start :=
    .hindered rfl ⟨rfl, _, obstructed, writeText_obstructed probeSource, rfl, rfl⟩
  have second : Response fickle (.ifSupported ["/GL"]) (start.withTree bareProject) _ one :=
    .probed rfl hready
  have third : Response fickle (.ifSupported ["/Gw"]) one _ (fickle.probe ["/Gw"] one).2 :=
    .probed rfl hone
  have fourth : Response fickle (.check ["/GL"]) (fickle.probe ["/Gw"] one).2 _ _ :=
    .recalled rfl
  have course := Course.call (outcome_call.2 first) <|
    .meanwhile (fun h => by cases h) <|
    .call (outcome_call.2 second) <| .call (outcome_call.2 third) <|
    .call (outcome_call.2 fourth) (.done _)
  exact ⟨_, _, course, rfl, rfl, (course_lawful course).2.1, rfl⟩

end BuildMatrix
