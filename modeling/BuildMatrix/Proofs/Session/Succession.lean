import BuildMatrix.Proofs.Session.History
import BuildMatrix.Proofs.Tree.Reading

/-!
# Who inherits a cache

A cache file is meant for one compiler, and the compiler is told by a key.  The key
holds the family and the name under which the compiler was chosen, and these two can
be read off it (`Identity.cacheKey_eq_iff`).  The executable is not in it.

So the next session on a build root drops the cache if its compiler is of another
family or was chosen under another name.  A compiler of the same family and name
inherits all verdicts, wherever its executable is, and they are given for its own
without running it (`start_after_save`).  Along a history of sessions, verdicts are
passed on among such namesakes only (`namesakes_of_mem_epochBefore`).
-/

namespace BuildMatrix

open FlagSet (Blank)

/-! ## Keys -/

theorem Family.mem_all (family : Family) : family ∈ Family.all := by
  cases family <;> decide

theorem Family.name_inj {family other : Family} (h : family.name = other.name) : family = other :=
  List.inj_on_of_nodup_map (by decide : (Family.all.map Family.name).Nodup)
    family.mem_all other.mem_all h

theorem Family.colon_not_mem_name (family : Family) : ':' ∉ family.name.toList := by
  have hall : ∀ family ∈ Family.all, ':' ∉ family.name.toList := by decide
  exact hall family family.mem_all

/-- Two compilers of one family that were chosen under one name, wherever their executables are. -/
def Identity.Namesakes (i j : Identity) : Prop := i.family = j.family ∧ i.cc = j.cc

instance (i j : Identity) : Decidable (i.Namesakes j) :=
  inferInstanceAs (Decidable (i.family = j.family ∧ i.cc = j.cc))

/-- Family and name can be read off a key, since no family has a colon in its name. -/
theorem Identity.cacheKey_eq_iff {i j : Identity} : i.cacheKey = j.cacheKey ↔ i.Namesakes j := by
  constructor
  · intro h
    have hparts : ∀ i : Identity, i.cacheKey.toList.splitOn ':' =
        i.family.name.toList :: i.cc.toList.splitOn ':' := by
      intro i
      have hlist : i.cacheKey.toList = i.family.name.toList ++ ':' :: i.cc.toList := by
        rw [cacheKey, String.toList_append, String.toList_append, List.append_assoc]
        rfl
      rw [hlist, List.splitOn_append_cons_self,
        List.splitOn_eq_singleton i.family.colon_not_mem_name]
      rfl
    have heq := hparts i
    rw [h, hparts j] at heq
    injection heq with hname _
    have hfamily : i.family = j.family := Family.name_inj (String.toList_inj.1 hname.symm)
    refine ⟨hfamily, ?_⟩
    rw [cacheKey, cacheKey, hfamily] at h
    exact String.append_right_inj _ |>.1 h
  · rintro ⟨hfamily, hcc⟩
    rw [cacheKey, cacheKey, hfamily, hcc]

/-! ## The next session -/

/-- From a file that was kept the cache is loaded, unless nothing is found at its path. -/
theorem load_of_kept {root : Path} {cache : Cache} {t t' : Tree} (wf : t.WellFormed)
    (kept : Kept root cache t) (grown : Tree.Extends t t') (key : String) :
    (Cache.load t' (cacheFile root) key).1 = Cache.ofText key (some cache.toFile.render) ∨
      t'.reaches (cacheFile root) = false := by
  obtain ⟨front, ends⟩ := endsIn_cacheFile root
  rcases kept with ⟨location, hlocate⟩ | hblocked
  · exact .inl (load_of_text ends grown hlocate key)
  · have hblocked' := grown.keeps.locate_error wf (fun h => by cases h) hblocked
    exact .inr (Tree.unreached_of_blocked ends hblocked')

section Succession

variable {root : Path} {first : Identity} {s s' : Probing} {o : Options} {settings : Settings}
  {env : Environment} {runner : Runner} {w opened : World} {session : Session}

theorem kept_of_save (wf : s.world.tree.WellFormed)
    (save : Session.saveCache (cacheFile root) s = .ok () s') :
    Kept root s.cache s'.world.tree := by
  obtain ⟨front, ends⟩ := endsIn_cacheFile root
  obtain ⟨t, ht, rfl⟩ := saveCache_eq_ok.1 save
  exact Tree.locate_of_replaceText ends wf ht

theorem starting_of_start (hroot : o.buildRoot settings = root)
    (start : Session.start o settings env runner w = .ok session opened) :
    Tree.Extends w.tree opened.tree ∧
      session.cache = if o.noCache then Cache.empty session.toolchain.identity.cacheKey
        else (Cache.load opened.tree (cacheFile root) session.toolchain.identity.cacheKey).1 := by
  obtain ⟨hsession, hensure, hcache⟩ := opened_of_start start
  have hpath : session.cachePath = cacheFile root := by
    rw [Session.cachePath, hsession, hroot]
    rfl
  rw [hpath] at hcache
  exact ⟨(Tree.grows_ensureDirectory hensure).1, hcache⟩

/-- The next session takes over what was kept: its compiler is a namesake of the one before, nobody
asked to pass the cache over, and the cache path still leads to something. -/
structure Inherits (root : Path) (first : Identity) (o : Options) (session : Session)
    (opened : World) : Prop where
  /-- The compiler is of the same family and was chosen under the same name. -/
  namesakes : first.Namesakes session.toolchain.identity
  /-- The cache is not passed over. -/
  used : o.noCache = false
  /-- Its path leads to something. -/
  reached : opened.tree.reaches (cacheFile root) = true

theorem start_without_inheritance {cache : Cache} (hkey : cache.compiler = first.cacheKey)
    (wf : w.tree.WellFormed) (kept : Kept root cache w.tree) (hroot : o.buildRoot settings = root)
    (start : Session.start o settings env runner w = .ok session opened)
    (hnot : ¬ Inherits root first o session opened) :
    session.cache = Cache.empty session.toolchain.identity.cacheKey := by
  obtain ⟨grown, hcache⟩ := starting_of_start hroot start
  rw [hcache]
  by_cases hnoCache : o.noCache = true
  · exact if_pos hnoCache
  rw [if_neg hnoCache]
  cases hreached : opened.tree.reaches (cacheFile root) with
  | false => exact load_of_unreached hreached _
  | true =>
    have hne : cache.compiler ≠ session.toolchain.identity.cacheKey := by
      rw [hkey]
      exact fun heq =>
        hnot ⟨Identity.cacheKey_eq_iff.1 heq, Bool.eq_false_iff.2 hnoCache, hreached⟩
    rcases load_of_kept wf kept grown session.toolchain.identity.cacheKey with hload | hunreached
    · exact hload.trans (Cache.ofText_render_of_ne hne)
    · exact load_of_unreached hunreached _

theorem start_with_inheritance {cache : Cache} (hkey : cache.compiler = first.cacheKey)
    (wf : w.tree.WellFormed) (kept : Kept root cache w.tree) (hroot : o.buildRoot settings = root)
    (start : Session.start o settings env runner w = .ok session opened)
    (inherits : Inherits root first o session opened) : session.cache = cache.reread := by
  obtain ⟨grown, hcache⟩ := starting_of_start hroot start
  have heq : cache.compiler = session.toolchain.identity.cacheKey :=
    hkey.trans (Identity.cacheKey_eq_iff.2 inherits.namesakes)
  rw [hcache, inherits.used, if_neg Bool.false_ne_true]
  rcases load_of_kept wf kept grown session.toolchain.identity.cacheKey with hload | hunreached
  · rw [hload, ← heq]
    exact cache.ofText_render
  · rw [inherits.reached] at hunreached
    cases hunreached

/-- After a cache was saved for a compiler, the next session on the build root starts without any
verdict unless it inherits, in particular if its compiler is no namesake of the first one.  If it
inherits, it starts with what the cache says and gives these verdicts without running anything,
although the executable may be another one. -/
theorem start_after_save (hkey : s.cache.compiler = first.cacheKey) (wf : s.world.tree.WellFormed)
    (save : Session.saveCache (cacheFile root) s = .ok () s') (wf' : w.tree.WellFormed)
    (hroot : o.buildRoot settings = root)
    (untouched : w.tree.locate .entry (cacheFile root) =
      s'.world.tree.locate .entry (cacheFile root))
    (start : Session.start o settings env runner w = .ok session opened) :
    (¬ Inherits root first o session opened →
      session.cache = Cache.empty session.toolchain.identity.cacheKey) ∧
    (Inherits root first o session opened →
      session.cache = s.cache.reread ∧
        ∀ flags verdict, ¬ Blank flags → s.cache.get? flags = some verdict →
          (session.prober runner).check flags { cache := session.cache, world := opened } =
            .ok verdict { cache := session.cache, world := opened }) := by
  have kept : Kept root s.cache w.tree := by
    unfold Kept
    rw [untouched]
    exact kept_of_save wf save
  refine ⟨start_without_inheritance hkey wf' kept hroot start, fun inherits => ?_⟩
  have hreread := start_with_inheritance hkey wf' kept hroot start inherits
  refine ⟨hreread, fun flags verdict hflags hverdict => check_of_get? ?_⟩
  show session.cache.get? flags = some verdict
  rw [hreread, s.cache.get?_reread hflags, hverdict]

end Succession

/-! ## Two sessions in a bare build root -/

/-- After a first session saved one verdict of Visual C++ in the bare project. -/
def savedOnce : Probing :=
  { cache := (Cache.empty "MSVC:cl").insert ["/GL"] true, world := ⟨bareProject, [], []⟩ }

/-- The tree that it left. -/
def savedTree : Tree :=
  bareProject.put (["b"] ++ [cacheFileName]) (.file savedOnce.cache.toFile.render.toUTF8)

/-- What the second session is asked to do. -/
def askedFor (cc : String) : Options := { buildDir := some ⟨"b"⟩, cc := some cc }

theorem exists_second_session {runner : Runner} {cc : String} {tc : Toolchain} {found : World}
    (hdetect : World.detect runner (some cc) ⟨savedTree, [], []⟩ = .ok tc found) :
    Session.saveCache (cacheFile ⟨"b"⟩) savedOnce =
        .ok () { savedOnce with world := ⟨savedTree, [], []⟩ } ∧
      savedTree.WellFormed ∧ (askedFor cc).buildRoot {} = ⟨"b"⟩ ∧
      ∃ session opened,
        Session.start (askedFor cc) {} {} runner ⟨savedTree, [], []⟩ = .ok session opened ∧
        session.toolchain = tc ∧ opened.tree.reaches (cacheFile ⟨"b"⟩) = true := by
  have clear : Clear ⟨"b"⟩ ["b"] bareProject cacheFileName := clear_bareProject (by decide)
  have room : Room ⟨"b"⟩ ["b"] savedTree := clear.room_put room_bareProject _
  have hroot : (askedFor cc).buildRoot {} = ⟨"b"⟩ := by
    show Path.join ⟨""⟩ ⟨"b"⟩ = ⟨"b"⟩
    decide
  have hensure : Tree.ensureDirectory ((askedFor cc).buildRoot {}) savedTree =
      .ok () savedTree := by
    rw [hroot]
    exact room.ensureDirectory
  obtain ⟨session, opened, start, htoolchain, htree, -⟩ :
      ∃ session opened,
        Session.start (askedFor cc) {} {} runner ⟨savedTree, [], []⟩ = .ok session opened ∧
        session.toolchain = tc ∧ opened.tree = savedTree ∧ opened.calls = found.calls :=
    exists_session hdetect hensure
  refine ⟨saveCache_eq_ok.2 ⟨_, clear.replaceText room_bareProject _, rfl⟩, room.wf, hroot, session,
    opened, start, htoolchain, ?_⟩
  rw [htree]
  exact clear.reaches_put room_bareProject _

/-- A compiler of another name starts without verdicts. -/
theorem start_after_save_forgets :
    ∃ session opened,
      Session.start (askedFor "8cc") {} {} idleRunner ⟨savedTree, [], []⟩ = .ok session opened ∧
      session.cache = Cache.empty "8cc:8cc" := by
  obtain ⟨found, hdetect⟩ : ∃ found, World.detect idleRunner (some "8cc") ⟨savedTree, [], []⟩ =
      .ok ⟨⟨.eightCc, "8cc", ⟨"8cc"⟩⟩⟩ found :=
    exists_detect rfl (by decide +kernel) _
  obtain ⟨save, wf, hroot, session, opened, start, htoolchain, -⟩ := exists_second_session hdetect
  have hkey : savedOnce.cache.compiler = Identity.cacheKey ⟨.msvc, "cl", ⟨"cl"⟩⟩ := by decide +kernel
  have hforgets := (start_after_save hkey room_bareProject.wf save wf hroot rfl start).1
  refine ⟨session, opened, start, (hforgets fun inherits => ?_).trans (by rw [htoolchain]; rfl)⟩
  have hsame := inherits.namesakes
  rw [htoolchain] at hsame
  exact absurd hsame (by decide)

/-- A runner that finds every program at one place and runs none. -/
def runnerAt (path : Path) : Runner := ⟨fun _ => some path, fun _ _ => .error .notFound⟩

/-- Another executable under the name of the first one gives a verdict that it was never asked for. -/
theorem start_after_save_inherits :
    ∃ session opened,
      Session.start (askedFor "cl") {} {} (runnerAt ⟨"/other/cl"⟩) ⟨savedTree, [], []⟩ =
        .ok session opened ∧
      savedOnce.cache.compiler = Identity.cacheKey ⟨.msvc, "cl", ⟨"/first/cl"⟩⟩ ∧
      session.toolchain.identity = ⟨.msvc, "cl", ⟨"/other/cl"⟩⟩ ∧
      session.cache.get? ["/GL"] = some true := by
  obtain ⟨found, hdetect⟩ : ∃ found, World.detect (runnerAt ⟨"/other/cl"⟩) (some "cl")
      ⟨savedTree, [], []⟩ = .ok ⟨⟨.msvc, "cl", ⟨"/other/cl"⟩⟩⟩ found :=
    exists_detect rfl (by decide +kernel) _
  obtain ⟨save, wf, hroot, session, opened, start, htoolchain, hreached⟩ :=
    exists_second_session hdetect
  have hkey : savedOnce.cache.compiler = Identity.cacheKey ⟨.msvc, "cl", ⟨"/first/cl"⟩⟩ := by
    decide +kernel
  have hreread := start_with_inheritance hkey wf (kept_of_save room_bareProject.wf save) hroot start
    ⟨by rw [htoolchain]; decide, rfl, hreached⟩
  refine ⟨session, opened, start, hkey, by rw [htoolchain], ?_⟩
  rw [hreread, savedOnce.cache.get?_reread (by decide)]
  decide +kernel

/-! ## Along a history -/

/-- Within an epoch all compilers are namesakes. -/
theorem namesakes_of_mem_epochBefore {r : Record} {older : List Record} {earlier : Record}
    (h : earlier ∈ epochBefore r older) :
    earlier.prober.toolchain.identity.Namesakes r.prober.toolchain.identity := by
  induction older generalizing r with
  | nil => cases h
  | cons last older ih =>
    rw [epochBefore] at h
    split at h
    · cases h
    · next hepoch =>
      have hlast : last.prober.toolchain.identity.Namesakes r.prober.toolchain.identity :=
        Identity.cacheKey_eq_iff.1 (not_not.1 (not_or.1 hepoch).2)
      rcases List.mem_cons.1 h with rfl | h
      · exact hlast
      · exact ⟨(ih h).1.trans hlast.1, (ih h).2.trans hlast.2⟩

end BuildMatrix
