import BuildMatrix.Proofs.Tree.Interruption
import BuildMatrix.Proofs.Tree.Reading

/-!
# A text is replaced as a whole or not at all

Replacing a text takes several steps, and each of them can fail.  Whatever happens, at most
directories above the path are created, and only those that were missing (`Opened`).  If the
text is replaced, then besides this there is one change: the text stands in the place that the
path names, whether there was nothing, a file or a link.  If it is not replaced, nothing else
has changed, and no temporary file is left (`replaceText_atomic`).

A text that was replaced is read back through the path, unless the path ran through a link
that stood in this very place.  Then the link is gone, and the path leads nowhere
(`replaceText_blocks`).
-/

namespace BuildMatrix.Tree

open BuildMatrix.Path (Proper)

/-! ## Directories that are opened -/

/-- The directories above a path: the one that holds it, and those above that. -/
def above (p : Path) : List Path := holder p :: (holder p).ancestors

/-- The second tree is the first one with some new directories.  To each of them one of the paths
leads that led nowhere before. -/
structure Opened (paths : List Path) (t u : Tree) : Prop where
  /-- The working directory is the same. -/
  here : u.here = t.here
  /-- A place holds what it held, or it held nothing and is the directory of a path. -/
  places : ∀ location, u.node? location = t.node? location ∨
    t.node? location = none ∧
      ∃ q ∈ paths, t.reaches q = false ∧ u.directory? q = some location
  /-- The tree is still well formed. -/
  wf : t.WellFormed → u.WellFormed

/-- If a path leads to a place that was not there, it led nowhere. -/
theorem Extends.not_reaches {t u : Tree} (extends_ : Extends t u) {q : Path} {location : Location}
    (h : u.directory? q = some location) (hnone : t.node? location = none) : t.reaches q = false := by
  refine Bool.eq_false_iff.2 fun hreaches => ?_
  obtain ⟨other, node, hfind⟩ := reaches_iff.1 hreaches
  obtain ⟨node', hfind', -⟩ := extends_.keeps.find? hfind
  rw [directory?_eq_some_iff] at h
  have hnode : t.node? other = some node :=
    holds_of_resolve (resolve_of_follow (find?_eq_some_iff.1 hfind))
  cases h.symm.trans hfind'
  rw [hnone] at hnode
  cases hnode

namespace Opened

variable {paths : List Path} {t u v : Tree}

theorem refl (paths : List Path) (t : Tree) : Opened paths t t := ⟨rfl, fun _ => .inl rfl, id⟩

/-- What was there is still there, and no link is new. -/
theorem extends_ (h : Opened paths t u) : Extends t u := by
  refine ⟨h.here, fun location node hnode => ?_, fun location target hlink => ?_⟩
  · rcases h.places location with hu | ⟨hnone, -⟩
    · exact hu.trans hnode
    · rw [hnode] at hnone
      cases hnone
  · rcases h.places location with hu | ⟨-, q, -, -, hdir⟩
    · exact hu.symm.trans hlink
    · have hdirectory : u.node? location = some .directory :=
        holds_of_resolve (resolve_of_follow (find?_eq_some_iff.1 (directory?_eq_some_iff.1 hdir)))
      rw [hlink] at hdirectory
      cases hdirectory

theorem trans (h : Opened paths t u) (h' : Opened paths u v) : Opened paths t v := by
  have hv := h.extends_.trans h'.extends_
  refine ⟨h'.here.trans h.here, fun location => ?_, fun wf => h'.wf (h.wf wf)⟩
  rcases h'.places location with hsame | ⟨hnone, q, hq, -, hdir⟩
  · rcases h.places location with hu | ⟨hnone, q, hq, hmissing, hdir⟩
    · exact .inl (hsame.trans hu)
    · -- a path that led to a new directory still leads there
      refine .inr ⟨hnone, q, hq, hmissing, ?_⟩
      rw [directory?_eq_some_iff] at hdir ⊢
      obtain ⟨node, hfind, rfl | ⟨⟨_, ⟨⟩⟩, -⟩⟩ := h'.extends_.keeps.find? hdir
      exact hfind
  · have hnone' : t.node? location = none := by
      rcases h.places location with hu | ⟨hnone', -⟩
      · exact hu.symm.trans hnone
      · exact hnone'
    exact .inr ⟨hnone', q, hq, hv.not_reaches hdir hnone', hdir⟩

end Opened

theorem opened_makeDirectory {paths : List Path} {t u : Tree} {p : Path} (hp : p ∈ paths)
    (h : t.makeDirectory p = .ok u) : Opened paths t u := by
  have grows := grows_makeDirectory h
  obtain ⟨location, hroot, hnone, rfl, hfind⟩ := find?_of_makeDirectory h
  have hdir := directory?_eq_some_iff.2 hfind
  refine ⟨rfl, fun other => ?_, grows.2⟩
  by_cases hother : other = location
  · rw [hother]
    exact .inr ⟨hnone, p, hp, grows.1.not_reaches hdir hnone, hdir⟩
  · exact .inl (node?_put_of_ne hroot _ hother)

/-- Ensuring a directory, also in vain, opens at most this directory and those above it. -/
theorem opened_ensureDirectory (p : Path) (t : Tree) :
    Opened (p :: p.ancestors) t ((ensureDirectory p).after t) :=
  after_ensureDirectory (Opened.refl _) Opened.trans p (fun _ hq _ _ => opened_makeDirectory hq) t

/-! ## Replacing -/

/-- If a text is replaced, directories above it may be opened, and it stands in the place that the
path names.  It is read back, unless the path ran through a link in this place.  If a text is not
replaced, at most directories above it are opened. -/
theorem replaceText_atomic {t : Tree} (wf : t.WellFormed) (p : Path) (text : String) :
    (∀ t', replaceText p text t = .ok () t' →
      ∃ u place, Opened (above p) t u ∧ u.locate .entry p = .ok place ∧
        u.node? place.location ≠ some .directory ∧
        t' = u.put place.location (.file text.toUTF8) ∧
        (t'.read p = .ok text.toUTF8 ∨
          (∃ target, t.node? place.location = some (.link target)) ∧
            t'.directory? (holder p) = none ∧ t'.read p = .error .notDirectory)) ∧
    ∀ failure t', replaceText p text t = .error failure t' → Opened (above p) t t' := by
  have opened := opened_ensureDirectory (holder p) t
  refine ⟨fun t' h => ?_, fun failure t' h => replaceText_error wf h ▸ opened⟩
  obtain ⟨u, front, dir, name, hensure, named, hfree, rfl⟩ := exists_named_of_replaceText wf h
  rw [Task.after_of_ok hensure] at opened
  refine ⟨u, u.placeOf dir name, opened, named.locate (.inl rfl), ?_⟩
  rw [location_placeOf]
  refine ⟨hfree, rfl, ?_⟩
  rcases named.locate_put_file hfree text.toUTF8 with hfound | ⟨⟨target, hlink⟩, hholder, hblocked⟩
  · exact .inl (by rw [read, hfound])
  · exact .inr ⟨⟨target, opened.extends_.links _ _ hlink⟩, hholder, by rw [read, hblocked]⟩

/-! ## A directory with a link to itself -/

/-- A file, and a link to the directory that holds both. -/
def loopedTree : Tree := (Tree.empty.put ["d"] (.link ⟨"."⟩)).put ["f"] (.file "old".toUTF8)

theorem wellFormed_loopedTree : loopedTree.WellFormed := by
  have fits : Tree.empty.Fits ["d"] := ⟨by decide, rfl, by decide⟩
  have fits' : (Tree.empty.put ["d"] (.link ⟨"."⟩)).Fits ["f"] := ⟨by decide, rfl, by decide⟩
  exact fits'.wellFormed (fits.wellFormed wellFormed_empty _) _

/-- Through the link both are found. -/
theorem named_loopedTree : ∀ name ∈ ["d", "f"],
    NamedIn loopedTree ⟨"d/" ++ name⟩ ["d"] [] name := by
  have hlink : loopedTree.node? ([] ++ ["d"]) = some (.link ⟨"."⟩) := by decide
  have hfront : loopedTree.resolve .node linkLimit [] ["d"] = .ok (.taken [] .directory) := by
    rw [resolve_named (by decide) (by decide) loopedTree.node?_nil, hlink]
    show loopedTree.resolve .node 39 [] ["."] = _
    exact (resolve_idle (.inr rfl) []).2 (by rw [resolve_nil, node?_nil])
  have hpieces : ∀ name ∈ ["d", "f"], (Path.mk ("d/" ++ name)).pieces = ["d"] ++ [name] ∧
      Proper name ∧ ¬ nameLimit < name.utf8ByteSize ∧ Followable ⟨"d/" ++ name⟩ ∧
      loopedTree.startOf ⟨"d/" ++ name⟩ = [] := by decide
  intro name hname
  obtain ⟨pieces, proper, short, followable, start⟩ := hpieces name hname
  exact ⟨pieces, proper, short, followable, by rw [start, hfront]⟩

/-- Behind the link the file is replaced and read back. -/
theorem replaceText_reads : loopedTree.WellFormed ∧
    ∃ t', replaceText ⟨"d/f"⟩ "new" loopedTree = .ok () t' ∧ t'.read ⟨"d/f"⟩ = .ok "new".toUTF8 := by
  have named : NamedIn loopedTree ⟨"d/f"⟩ ["d"] [] "f" := named_loopedTree "f" (by decide)
  have hnode : loopedTree.node? ([] ++ ["f"]) = some (.file "old".toUTF8) := by decide +kernel
  have hfree : loopedTree.node? ([] ++ ["f"]) ≠ some .directory := by decide +kernel
  have replaced : replaceText ⟨"d/f"⟩ "new" loopedTree = .ok () _ :=
    (named.replaceText_iff wellFormed_loopedTree hnode).2 ⟨by decide, by decide +kernel, rfl⟩
  refine ⟨wellFormed_loopedTree, _, replaced, ?_⟩
  obtain ⟨u, place, -, -, -, -, hread | ⟨-, hholder, -⟩⟩ :=
    (replaceText_atomic wellFormed_loopedTree ⟨"d/f"⟩ "new").1 _ replaced
  · exact hread
  · -- no link stands in the place of the file, so the path to it is still there
    have named' := named.put_file hfree (fun directory ⟨target, _, _, hlink, _⟩ => by
      cases hnode.symm.trans hlink) "new".toUTF8
    rw [directory?_eq_some_iff.2 named'.find?_holder] at hholder
    cases hholder

/-- In the place of the link the text is written, but nothing is read through it any more. -/
theorem replaceText_blocks : loopedTree.WellFormed ∧
    ∃ t', replaceText ⟨"d/d"⟩ "new" loopedTree = .ok () t' ∧
      t'.node? ["d"] = some (.file "new".toUTF8) ∧ t'.read ⟨"d/d"⟩ = .error .notDirectory := by
  have named : NamedIn loopedTree ⟨"d/d"⟩ ["d"] [] "d" := named_loopedTree "d" (by decide)
  have hnode : loopedTree.node? ([] ++ ["d"]) = some (.link ⟨"."⟩) := by decide +kernel
  have replaced : replaceText ⟨"d/d"⟩ "new" loopedTree = .ok () _ :=
    (named.replaceText_iff wellFormed_loopedTree hnode).2 ⟨by decide, by decide +kernel, rfl⟩
  have hfile : (loopedTree.put ["d"] (.file "new".toUTF8)).node? ["d"] = some (.file "new".toUTF8) :=
    node?_put_self (by decide) _
  have hblocked : (loopedTree.put ["d"] (.file "new".toUTF8)).locate .node ⟨"d/d"⟩ =
      .error .notDirectory := by
    rw [locate, follow_of_followable (by decide), named.pieces,
      show startOf _ _ = [] from rfl, List.cons_append, List.nil_append,
      resolve_named (by decide) (by decide) (node?_nil _), List.nil_append, hfile]
    show resolve _ .node linkLimit ["d"] ["d"] = _
    rw [resolve_cons, turn_of_not_directory fun h => by cases hfile.symm.trans h]
    rfl
  exact ⟨wellFormed_loopedTree, _, replaced, hfile, by rw [read, List.nil_append, hblocked]⟩

end BuildMatrix.Tree
