import BuildMatrix.Proofs.Session.Progress

/-!
# Histories of a build root

Sessions follow each other on a build root, with different compilers, with and
without the cache, with work that succeeds or fails.  Between two of them anything
may happen to the files but to the cache file.

A session belongs to the *epoch* of the session before it, unless it passes the
cache over or its compiler has another key.  Within an epoch the cache is one table
that is carried along in the file: at the end of every session the file holds the
first verdicts of the epoch (`History.settled`).  So a flag set is put to the
compiler once in an epoch, and every later check repeats the first verdict
(`History.checks_lawful`).

After a cache was saved the cache path leads to the file, or it has become its own
obstacle, when the path goes through what the file has replaced.  No session can
save its cache then, so no session runs any more.
-/

namespace BuildMatrix

open FlagSet (Blank)

/-! ## The cache file -/

/-- Where the cache of a build root is kept. -/
def cacheFile (root : Path) : Path := root.child cacheFileName

theorem plain_cacheFileName : Plain cacheFileName :=
  ⟨by decide, by decide, by decide⟩

theorem endsIn_cacheFile (root : Path) : ∃ front, EndsIn (cacheFile root) front cacheFileName := by
  obtain ⟨front, hpieces, -⟩ := root.pieces_child plain_cacheFileName.single
  exact ⟨front, hpieces, plain_cacheFileName⟩

/-- The cache path leads to a text that describes the cache, or it cannot be followed any more. -/
def Kept (root : Path) (cache : Cache) (t : Tree) : Prop :=
  (∃ location, t.locate .entry (cacheFile root) =
    .ok (.taken location (.file cache.toFile.render.toUTF8))) ∨
  t.locate .entry (cacheFile root) = .error .notDirectory

/-- A text is still read after directories were created. -/
theorem load_of_text {t t' : Tree} {p : Path} {front : List String} {name : String}
    (ends : EndsIn p front name) (grown : Tree.Extends t t') {location : Location} {text : String}
    (h : t.locate .entry p = .ok (.taken location (.file text.toUTF8))) (key : String) :
    (Cache.load t' p key).1 = Cache.ofText key (some text) := by
  obtain ⟨dir, entry, hplace⟩ := Tree.entryAt_of_locate ends h
  have hnode := Tree.node?_of_placeOf hplace.symm
  have hlocate := (entry.within grown.keeps.within).locate_file (grown.nodes _ _ hnode) .node
  exact load_of_locate hlocate key

/-! ## Agreement from session to session -/

theorem agrees_empty (key : String) : Agrees (Cache.empty key) [] := fun _ _ => rfl

theorem Agrees.reread {cache : Cache} {checks : List Check} (agrees : Agrees cache checks) :
    Agrees cache.reread checks := fun flags hflags => by
  rw [cache.get?_reread hflags]
  exact agrees flags hflags

/-- The cache that a session starts with when its build root is there. -/
def startOn (root : Path) (r : Record) (t : Tree) : Cache :=
  if r.noCache then Cache.empty r.key else (Cache.load t (cacheFile root) r.key).1

theorem compiler_startOn (root : Path) (r : Record) (t : Tree) :
    (startOn root r t).compiler = r.key := by
  unfold startOn
  split
  · rfl
  · exact compiler_load _ _ _

/-- What holds after a session of a compiler, with some checks made in its epoch. -/
structure Settled (root : Path) (key : String) (checks : List Check) (t : Tree) : Prop where
  /-- The tree is well formed. -/
  wf : t.WellFormed
  /-- The checks are kept for the compiler. -/
  kept : ∃ cache, cache.compiler = key ∧ Agrees cache checks ∧ Kept root cache t

section OneSession

variable {root : Path} {e : Episode} {w w' : World} {r : Record} {result : Except Failure Unit}

/-- A session over a cache that agrees makes lawful checks and keeps them. -/
theorem Episode.Runs.settled (runs : e.Runs w r result w') (wf : w.tree.WellFormed)
    (hroot : e.options.buildRoot e.settings = root) {before : List Check}
    (starts : ∀ t, Tree.ensureDirectory root w.tree = .ok () t → Agrees (startOn root r t) before) :
    Settled root r.key (before ++ r.checks) w'.tree ∧
      ∀ done c rest, r.checks = done ++ c :: rest → ¬ Blank c.flags →
        Lawful r.prober (before ++ done) c := by
  cases runs with
  | @intro session opened checks result s s' start work save =>
    obtain ⟨hsession, hensure, hcache⟩ := opened_of_start start
    rw [hroot] at hsession
    rw [hsession] at hensure
    have hstart : session.cache =
        startOn root ⟨session.prober e.runner, e.options.noCache, checks⟩ opened.tree := by
      rw [hcache, Session.cachePath, hsession]
      rfl
    obtain ⟨agrees, lawful⟩ := work.lawful before (by rw [hstart]; exact starts _ hensure)
    refine ⟨?_, lawful⟩
    obtain ⟨tree, htree, rfl⟩ := saveCache_eq_ok.1 save
    rw [Session.cachePath, hsession] at htree
    obtain ⟨front, ends⟩ := endsIn_cacheFile root
    have hwf : s.world.tree.WellFormed :=
      work.changes.2 ((Tree.grows_ensureDirectory hensure).2 wf)
    refine ⟨Tree.wellFormed_of_replaceText ends hwf htree, s.cache, ?_, agrees, ?_⟩
    · rw [work.compiler, hstart, compiler_startOn]
    · exact Tree.locate_of_replaceText ends hwf htree

/-- No session runs where the cache path cannot be followed. -/
theorem Episode.Runs.not_blocked (runs : e.Runs w r result w') (wf : w.tree.WellFormed)
    (hroot : e.options.buildRoot e.settings = root) :
    w.tree.locate .entry (cacheFile root) ≠ .error .notDirectory := by
  intro hblocked
  cases runs with
  | @intro session opened checks result s s' start work save =>
    obtain ⟨hsession, hensure, -⟩ := opened_of_start start
    rw [hroot] at hsession
    obtain ⟨tree, htree, rfl⟩ := saveCache_eq_ok.1 save
    rw [Session.cachePath, hsession] at htree
    obtain ⟨front, ends⟩ := endsIn_cacheFile root
    have grown := (Tree.grows_ensureDirectory hensure).changes.trans work.changes
    obtain ⟨u, dir, hholder, entry, -, -⟩ := Tree.replaceText_ok ends (grown.2 wf) htree
    have changes := grown.trans (Tree.grows_ensureDirectory hholder).changes
    have herror := changes.1.locate_error wf (fun h => by cases h) hblocked
    have hlocate := entry.locate (.inl rfl)
    rw [herror] at hlocate
    cases hlocate

/-- The next session starts with what was kept, if it is of the same epoch, and with nothing else. -/
theorem Settled.starts {key : String} {checks : List Check} {t : Tree}
    (settled : Settled root key checks t) (runs : e.Runs w r result w') (wf : w.tree.WellFormed)
    (hroot : e.options.buildRoot e.settings = root)
    (untouched : w.tree.locate .entry (cacheFile root) = t.locate .entry (cacheFile root)) (t' : Tree)
    (hensure : Tree.ensureDirectory root w.tree = .ok () t') :
    Agrees (startOn root r t') (if r.noCache ∨ key ≠ r.key then [] else checks) := by
  obtain ⟨cache, hkey, agrees, ⟨location, hkept⟩ | hblocked⟩ := settled.kept
  · rw [← untouched] at hkept
    obtain ⟨front, ends⟩ := endsIn_cacheFile root
    have hload := load_of_text ends (Tree.grows_ensureDirectory hensure).1 hkept r.key
    unfold startOn
    by_cases hnoCache : r.noCache = true
    · rw [if_pos hnoCache, if_pos (.inl hnoCache)]
      exact agrees_empty _
    rw [if_neg hnoCache, hload]
    by_cases hsame : key = r.key
    · rw [if_neg (not_or.2 ⟨hnoCache, not_not.2 hsame⟩), ← hsame, ← hkey, Cache.ofText_render]
      exact agrees.reread
    · rw [if_pos (.inr hsame), Cache.ofText_render_of_ne (by rw [hkey]; exact hsame)]
      exact agrees_empty _
  · exact absurd (untouched.trans hblocked) (runs.not_blocked wf hroot)

end OneSession

/-! ## Histories -/

/-- The sessions that were run on a build root, newest first, and the world after them.  There was no
cache file in the build root at first, and nobody else touches it. -/
inductive History (root : Path) : List Record → World → Prop
  | first {e : Episode} {w w' : World} {r : Record} {result : Except Failure Unit}
      (wf : w.tree.WellFormed)
      (fresh : ∀ t, Tree.ensureDirectory root w.tree = .ok () t → t.reaches (cacheFile root) = false)
      (there : e.options.buildRoot e.settings = root) (runs : e.Runs w r result w') :
      History root [r] w'
  | next {e : Episode} {w w₁ w' : World} {last r : Record} {older : List Record}
      {result : Except Failure Unit} (history : History root (last :: older) w)
      (wf : w₁.tree.WellFormed)
      (untouched : w₁.tree.locate .entry (cacheFile root) = w.tree.locate .entry (cacheFile root))
      (there : e.options.buildRoot e.settings = root) (runs : e.Runs w₁ r result w') :
      History root (r :: last :: older) w'

/-- The sessions before a session that are of its epoch, newest first. -/
def epochBefore (r : Record) : List Record → List Record
  | [] => []
  | last :: older =>
      if r.noCache ∨ last.key ≠ r.key then [] else last :: epochBefore last older

/-- The checks that were made in the epoch of a session before it, in order. -/
def checksBefore (r : Record) (older : List Record) : List Check :=
  (epochBefore r older).reverse.flatMap Record.checks

theorem checksBefore_cons (r last : Record) (older : List Record) :
    checksBefore r (last :: older) =
      if r.noCache ∨ last.key ≠ r.key then [] else checksBefore last older ++ last.checks := by
  unfold checksBefore
  rw [epochBefore]
  split
  · rfl
  · rw [List.reverse_cons, List.flatMap_append, List.flatMap_singleton]

/-- After every session its checks are kept, with those before it in the epoch, and they were all
lawful. -/
theorem History.settled {root : Path} {records : List Record} {w : World}
    (history : History root records w) :
    ∀ r older, records = r :: older →
      Settled root r.key (checksBefore r older ++ r.checks) w.tree ∧
        ∀ done c rest, r.checks = done ++ c :: rest → ¬ Blank c.flags →
          Lawful r.prober (checksBefore r older ++ done) c := by
  induction history with
  | first wf fresh there runs =>
    rintro r older ⟨⟩
    refine runs.settled wf there fun t hensure => ?_
    unfold startOn
    rw [load_of_unreached (fresh t hensure), ite_self]
    exact agrees_empty _
  | next history wf untouched there runs ih =>
    rintro r older ⟨⟩
    obtain ⟨settled, -⟩ := ih _ _ rfl
    refine runs.settled wf there fun t hensure => ?_
    rw [checksBefore_cons]
    exact settled.starts runs wf there untouched t hensure

theorem History.of_suffix {root : Path} {records : List Record} {w : World}
    (history : History root records w) {r : Record} {older : List Record}
    (h : r :: older <:+ records) : ∃ w', History root (r :: older) w' := by
  induction history with
  | first wf fresh there runs =>
    rcases List.suffix_cons_iff.1 h with heq | hshort
    · rw [heq]
      exact ⟨_, .first wf fresh there runs⟩
    · cases List.suffix_nil.1 hshort
  | next history wf untouched there runs ih =>
    rcases List.suffix_cons_iff.1 h with heq | hshort
    · rw [heq]
      exact ⟨_, .next history wf untouched there runs⟩
    · exact ih hshort

/-- In every session of a history, a check runs the compiler exactly for a flag set that was not
checked before in the epoch, and otherwise runs nothing and gives the first verdict of the epoch. -/
theorem History.checks_lawful {root : Path} {records : List Record} {w : World}
    (history : History root records w) {r : Record} {older : List Record}
    (hsession : r :: older <:+ records) {done rest : List Check} {c : Check}
    (hcheck : r.checks = done ++ c :: rest) (hempty : c.flags ≠ []) (hblank : c.flags ≠ [""]) :
    (c.ran = [r.prober.command c.flags] ↔
        ∀ earlier ∈ checksBefore r older ++ done, earlier.flags ≠ c.flags) ∧
      ∀ first, firstOn c.flags (checksBefore r older ++ done) = some first →
        c.ran = [] ∧ c.verdict = first.verdict := by
  obtain ⟨w', history⟩ := history.of_suffix hsession
  obtain ⟨-, lawful⟩ := history.settled r older rfl
  exact lawful done c rest hcheck (not_or.2 ⟨hempty, hblank⟩)

/-- A session that checks one flag set. -/
def checkOnce : Episode where
  options := { buildDir := some ⟨"b"⟩, cc := some "cl" }
  settings := {}
  env := {}
  runner := idleRunner
  plan := .ask ["-a"] fun _ => .done (.ok ())

/-- When two sessions check the same flag set, only the first one runs the compiler. -/
theorem History.second_check_recalls :
    ∃ (r₁ r₂ : Record) (c₁ c₂ : Check) (w : World), History ⟨"b"⟩ [r₂, r₁] w ∧
      r₁.checks = [c₁] ∧ r₂.checks = [c₂] ∧ c₁.flags = ["-a"] ∧ c₂.flags = ["-a"] ∧
      c₁.ran = [r₁.prober.command ["-a"]] ∧ c₂.ran = [] ∧ c₂.verdict = c₁.verdict := by
  have hroot : checkOnce.options.buildRoot checkOnce.settings = ⟨"b"⟩ := by decide +kernel
  have hcheck : ∀ {w w' r result}, checkOnce.Runs w r result w' →
      ∃ c, r.checks = [c] ∧ c.flags = ["-a"] := by
    rintro _ _ _ _ ⟨-, work, -⟩
    exact List.map_eq_singleton_iff.1 work.questions
  obtain ⟨found₁, detected₁⟩ := detect_idleRunner ⟨bareProject, [], []⟩
  obtain ⟨r₁, result₁, w₁, runs₁, prober₁, -, room₁, source₁, cache₁⟩ :=
    Episode.exists_runs hroot detected₁ room_bareProject (clear_bareProject (by decide))
      (clear_bareProject (by decide))
  obtain ⟨found₂, detected₂⟩ := detect_idleRunner w₁
  obtain ⟨r₂, result₂, w₂, runs₂, prober₂, hnoCache, -⟩ :=
    Episode.exists_runs hroot detected₂ room₁ source₁ cache₁
  obtain ⟨c₁, hchecks₁, hflags₁⟩ := hcheck runs₁
  obtain ⟨c₂, hchecks₂, hflags₂⟩ := hcheck runs₂
  have first : History ⟨"b"⟩ [r₁] w₁ := by
    refine .first room_bareProject.wf (fun t hensure => ?_) hroot runs₁
    rw [room_bareProject.ensureDirectory] at hensure
    injection hensure with _ ht
    rw [← ht]
    exact (clear_bareProject (by decide)).not_reaches room_bareProject (node?_bareProject _)
  have history : History ⟨"b"⟩ [r₂, r₁] w₂ := .next first room₁.wf rfl hroot runs₂
  have lawful₁ := history.checks_lawful (List.suffix_cons r₂ [r₁])
    (show r₁.checks = [] ++ c₁ :: [] from hchecks₁) (by rw [hflags₁]; decide)
    (by rw [hflags₁]; decide)
  have lawful₂ := history.checks_lawful List.suffix_rfl
    (show r₂.checks = [] ++ c₂ :: [] from hchecks₂) (by rw [hflags₂]; decide)
    (by rw [hflags₂]; decide)
  -- the second session belongs to the epoch of the first
  have hbefore : checksBefore r₂ [r₁] = [c₁] := by
    have hkey : r₁.key = r₂.key := by rw [Record.key, Record.key, prober₁, prober₂]
    rw [checksBefore_cons, if_neg, hchecks₁]
    · rfl
    · rw [hnoCache, hkey]
      exact fun h => h.elim (fun h => by cases h) fun h => h rfl
  rw [hbefore, hflags₂] at lawful₂
  have hfirst : firstOn ["-a"] [c₁] = some c₁ := List.find?_cons_of_pos (decide_eq_true hflags₁)
  obtain ⟨hran, hverdict⟩ := lawful₂.2 c₁ hfirst
  have hnew := lawful₁.1.2 fun earlier h => by cases h
  rw [hflags₁] at hnew
  exact ⟨r₁, r₂, c₁, c₂, w₂, history, hchecks₁, hchecks₂, hflags₁, hflags₂, hnew, hran, hverdict⟩

end BuildMatrix
