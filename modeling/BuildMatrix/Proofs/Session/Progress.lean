import BuildMatrix.Proofs.Probe.Recall
import BuildMatrix.Proofs.Session.Episode

/-!
# Sessions that get through

Work in a build root fails only where a file cannot be written.  If the program for
probing can be written, every inquiry is carried out (`exists_carried`), and if the
cache can be saved as well, the session runs (`Episode.exists_runs`).
-/

namespace BuildMatrix

open BuildMatrix.Tree (EntryAt Followable)

/-! ## Carrying out inquiries -/

theorem exists_check {p : Prober} {s : Probing} {t : Tree}
    (h : s.sourceWritten = true ∨
      Tree.writeText p.source probeSource s.world.tree = .ok () t) (flags : FlagSet) :
    ∃ verdict u, p.check flags s = .ok verdict u ∧
      (u.sourceWritten = s.sourceWritten ∧ u.world.tree = s.world.tree ∨
        s.sourceWritten = false ∧ u.sourceWritten = true ∧ u.world.tree = t) := by
  unfold Prober.check
  rw [Task.get_bind]
  cases s.cache.get? flags with
  | some verdict => exact ⟨verdict, s, rfl, .inl ⟨rfl, rfl⟩⟩
  | none =>
    dsimp only
    by_cases hwritten : s.sourceWritten = true
    · rw [Task.bind_of_ok (Prober.ensureSource_eq_ok.2 (.inl ⟨hwritten, rfl⟩))]
      exact ⟨_, _, rfl, .inl ⟨rfl, rfl⟩⟩
    · have hnot : s.sourceWritten = false := Bool.eq_false_iff.2 hwritten
      rw [Task.bind_of_ok
        (Prober.ensureSource_eq_ok.2 (.inr ⟨hnot, t, h.resolve_left hwritten, rfl⟩))]
      exact ⟨_, _, rfl, .inr ⟨hnot, rfl, rfl⟩⟩

/-- Every inquiry is carried out if the program is written or can be written. -/
theorem exists_carried {p : Prober} {α : Type} (inquiry : Inquiry α) {s : Probing} {t : Tree}
    (h : s.sourceWritten = true ∨
      Tree.writeText p.source probeSource s.world.tree = .ok () t) :
    ∃ checks result u, Carried p inquiry s checks result u ∧
      (u.world.tree = s.world.tree ∨ s.sourceWritten = false ∧ u.world.tree = t) := by
  induction inquiry generalizing s with
  | done result => exact ⟨[], result, s, .done result s, .inl rfl⟩
  | ask flags next ih =>
    obtain ⟨verdict, u, hcheck, hu⟩ := exists_check h flags
    have hcalls : ∃ ran, u.world.calls = s.world.calls ++ ran := by
      rcases check_cases hcheck with ⟨-, rfl⟩ | ⟨-, -, hcalls, -⟩
      · exact ⟨[], (List.append_nil _).symm⟩
      · exact ⟨_, hcalls⟩
    obtain ⟨ran, hran⟩ := hcalls
    have hnext : u.sourceWritten = true ∨
        Tree.writeText p.source probeSource u.world.tree = .ok () t := by
      rcases hu with ⟨hwritten, htree⟩ | ⟨-, hwritten, -⟩
      · rw [hwritten, htree]
        exact h
      · exact .inl hwritten
    obtain ⟨checks, result, u', rest, hu'⟩ := ih verdict hnext
    refine ⟨_, result, u', .ask hcheck hran rest, ?_⟩
    rcases hu with ⟨hwritten, htree⟩ | ⟨hbefore, hwritten, htree⟩
    · rw [htree, hwritten] at hu'
      exact hu'
    · refine .inr ⟨hbefore, ?_⟩
      rcases hu' with hsame | ⟨hnot, -⟩
      · rw [hsame, htree]
      · rw [hwritten] at hnot
        cases hnot

/-! ## Running -/

/-- The tree with the program for probing, or without it if it was not needed. -/
def Prepared (dir : Location) (t u : Tree) : Prop :=
  u = t ∨ u = t.put (dir ++ [sourceName]) (.file probeSource.toUTF8)

section Prepared

variable {root : Path} {dir : Location} {t u : Tree} {name : String}

theorem Prepared.room (prepared : Prepared dir t u) (room : Room root dir t)
    (source : Clear root dir t sourceName) : Room root dir u := by
  rcases prepared with rfl | rfl
  · exact room
  · exact source.room_put room _

theorem Prepared.writable (prepared : Prepared dir t u) (writable : Writable root dir t name) :
    Writable root dir u name := by
  rcases prepared with rfl | rfl
  · exact writable
  · exact writable.put _ _

theorem Prepared.clear (prepared : Prepared dir t u) (clear : Clear root dir t name) :
    Clear root dir u name := by
  rcases prepared with rfl | rfl
  · exact clear
  · exact clear.put _ _

theorem Prepared.here (prepared : Prepared dir t u) : u.here = t.here := by
  rcases prepared with rfl | rfl
  · rfl
  · rfl

theorem Prepared.outside (prepared : Prepared dir t u) {location : Location}
    (h : ∀ name, location ≠ dir ++ [name]) : u.node? location = t.node? location := by
  rcases prepared with rfl | rfl
  · rfl
  · exact Tree.node?_put_of_ne (List.concat_ne_nil _ _) _ (h _)

/-- In a session with room for the program, every inquiry is carried out. -/
theorem exists_prepared {p : Prober} {α : Type} (inquiry : Inquiry α) {s : Probing}
    (room : Room p.scratch dir s.world.tree) (source : Clear p.scratch dir s.world.tree sourceName) :
    ∃ checks result u, Carried p inquiry s checks result u ∧
      Prepared dir s.world.tree u.world.tree := by
  obtain ⟨checks, result, u, carried, htree⟩ :=
    exists_carried inquiry (.inr (source.writeText room probeSource))
  exact ⟨checks, result, u, carried, htree.imp_right And.right⟩

end Prepared

/-- A session runs if the program for probing and the cache can be written, and the next one can be
run then. -/
theorem Episode.exists_runs {e : Episode} {w found : World} {tc : Toolchain} {root : Path}
    {dir : Location} (hroot : e.options.buildRoot e.settings = root)
    (detected : World.detect e.runner (e.options.cc <|> e.env.cc) w = .ok tc found)
    (room : Room root dir w.tree) (source : Clear root dir w.tree sourceName)
    (cache : Clear root dir w.tree cacheFileName) :
    ∃ r result w', e.Runs w r result w' ∧ r.prober = ⟨tc, e.runner, root⟩ ∧
      r.noCache = e.options.noCache ∧ Room root dir w'.tree ∧
      Clear root dir w'.tree sourceName ∧ Clear root dir w'.tree cacheFileName := by
  subst hroot
  obtain ⟨session, opened, start, rfl, htree, -⟩ := exists_session detected room.ensureDirectory
  have hsession := (opened_of_start start).root
  rw [← htree] at room source cache
  rw [← hsession] at room source cache ⊢
  obtain ⟨checks, result, s, carried, prepared⟩ :=
    exists_prepared (p := session.prober e.runner) e.plan
      (s := { cache := session.cache, world := opened }) room source
  have room' := prepared.room room source
  have cache' := prepared.clear cache
  have save := saveCache_eq_ok.2 ⟨_, cache'.replaceText room' s.cache.toFile.render, rfl⟩
  exact ⟨_, result, _, .intro start carried save, rfl, rfl, cache'.room_put room' _,
    (prepared.clear source).put _ _, cache'.put _ _⟩

/-! ## A bare build root -/

/-- A project with an empty build root and nothing else. -/
def bareProject : Tree := Tree.empty.put ["b"] .directory

theorem node?_bareProject (name : String) : bareProject.node? (["b"] ++ [name]) = none := by
  have hne : ["b"] ++ [name] ≠ ["b"] := fun h => by cases h
  rw [bareProject, Tree.node?_put_of_ne (List.cons_ne_nil _ _) _ hne]
  rfl

theorem room_bareProject : Room ⟨"b"⟩ ["b"] bareProject := by
  have fits : Tree.empty.Fits ["b"] := ⟨by decide, rfl, fun h => by cases h⟩
  have hnode : bareProject.node? ([] ++ ["b"]) = some .directory :=
    Tree.node?_put_self (List.cons_ne_nil _ _) _
  have entry : EntryAt bareProject ⟨"b"⟩ [] [] "b" := by
    refine ⟨⟨by decide, by decide⟩, by decide, by decide, ?_⟩
    rw [Tree.resolve_nil]
    rfl
  refine ⟨fits.wellFormed Tree.wellFormed_empty _, .inl (Tree.find?_eq_some_iff.2 ?_)⟩
  rw [entry.locate (.inr fun target hlink => by rw [hnode] at hlink; cases hlink),
    Tree.placeOf_of_node hnode]
  rfl

theorem clear_bareProject {name : String}
    (h : name ∈ [sourceName, "build.ninja", "help", cacheFileName]) :
    Clear ⟨"b"⟩ ["b"] bareProject name := by
  have hnames : ∀ name ∈ [sourceName, "build.ninja", "help", cacheFileName],
      Plain name ∧ ¬ Tree.nameLimit < name.utf8ByteSize ∧
        Followable (Path.child ⟨"b"⟩ name) ∧ bareProject.Roomy (Path.child ⟨"b"⟩ name) := by
    decide
  exact clear_of_vacant (hnames name h) (node?_bareProject name)

/-- A runner that finds a compiler but runs no command. -/
def idleRunner : Runner := ⟨fun name => some ⟨name⟩, fun _ _ => .error .notFound⟩

/-- A compiler with the name `cl` is known by it. -/
theorem detect_cl {runner : Runner} (hfind : runner.find? "cl" = some ⟨"cl"⟩) (w : World) :
    ∃ found, World.detect runner (some "cl") w = .ok ⟨⟨.msvc, "cl", ⟨"cl"⟩⟩⟩ found := by
  have hchosen : chooseName runner (some "cl") = "cl" := rfl
  have hfamily : familyOfName? "cl" = some .msvc := by decide +kernel
  rw [← hchosen] at hfind hfamily
  exact exists_detect hfind hfamily w

theorem detect_idleRunner (w : World) :
    ∃ found, World.detect idleRunner (some "cl") w = .ok ⟨⟨.msvc, "cl", ⟨"cl"⟩⟩⟩ found :=
  detect_cl rfl w

end BuildMatrix
