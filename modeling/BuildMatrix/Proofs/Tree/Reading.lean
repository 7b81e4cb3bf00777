import BuildMatrix.Proofs.Tree.Overwriting

/-!
# Reading what was replaced

A text that replaces what a path leads to is read back through this path, whatever the
path is.  It may end in any piece, and it may lead through links
(`locate_of_replaced`).  There is one exception.  A replacement takes the place of a
link and not of what the link leads to, so a path that runs through the link at its
own end runs into the new file, and nothing is read through it.
-/

namespace BuildMatrix

namespace Tree

/-! ## Following a path after its end was replaced -/

/-- A file in the place of what a path names is found through the path, or the path ran through a link
in this place and is blocked by the file. -/
theorem NamedIn.locate_put_file {t : Tree} {p : Path} {front : List String} {dir : Location}
    {name : String} (named : NamedIn t p front dir name)
    (hfree : t.node? (dir ++ [name]) ≠ some .directory) (c : ByteArray) :
    (t.put (dir ++ [name]) (.file c)).locate .node p = .ok (.taken (dir ++ [name]) (.file c)) ∨
      (∃ target, t.node? (dir ++ [name]) = some (.link target)) ∧
        (t.put (dir ++ [name]) (.file c)).directory? (holder p) = none ∧
        (t.put (dir ++ [name]) (.file c)).locate .node p = .error .notDirectory := by
  have hself := node?_put_self (t := t) (List.concat_ne_nil name dir) (.file c)
  rcases resolve_put_directory hfree c named.front with hfront | ⟨hled, hblocked⟩
  · have named' : NamedIn (t.put (dir ++ [name]) (.file c)) p front dir name :=
      ⟨named.pieces, named.proper, named.short, named.followable, hfront⟩
    refine .inl ?_
    rw [named'.locate (.inr fun target hlink => ?_), placeOf_of_node hself]
    rw [hself] at hlink
    cases hlink
  · obtain ⟨target, -, -, hlink, -⟩ := hled
    have hblocked : (∃ location c', (t.put (dir ++ [name]) (.file c)).resolve .node linkLimit
          (t.startOf p) front = .ok (.taken location (.file c'))) ∨
        (t.put (dir ++ [name]) (.file c)).resolve .node linkLimit (t.startOf p) front =
          .error .notDirectory := hblocked.imp_left fun h => ⟨dir ++ [name], h⟩
    refine .inr ⟨⟨target, hlink⟩, ?_, ?_⟩
    · -- the directory of the path is where the pieces before the name lead, and they lead to none
      have begins := begins_holder named.pieces named.proper.not_idle
      refine Option.eq_none_iff_forall_not_mem.2 fun d hd => ?_
      rw [Option.mem_def, directory?_eq_some_iff, find?_eq_some_iff, Tree.locate,
        follow_of_followable (followable_of_begins begins named.followable), startOf_of_begins begins,
        resolve_of_sameWay begins.way] at hd
      rcases hblocked with ⟨location, c', h⟩ | h
      · cases hd.symm.trans h
      · cases hd.symm.trans h
    · rw [Tree.locate, follow_of_followable named.followable, named.pieces]
      exact resolve_concat_of_blocked named.proper hblocked

/-! ## Where the file is put -/

/-- A text that is replaced is put in the place of what its path names. -/
theorem exists_named_of_replaceText {t t' : Tree} {p : Path} {text : String} (wf : t.WellFormed)
    (h : replaceText p text t = .ok () t') :
    ∃ u front dir name, ensureDirectory (holder p) t = .ok () u ∧ NamedIn u p front dir name ∧
      u.node? (dir ++ [name]) ≠ some .directory ∧ t' = u.put (dir ++ [name]) (.file text.toUTF8) := by
  obtain ⟨u, directory, place, hensure, hdirectory, hlocate, hfree, rfl⟩ :=
    exists_place_of_replaceText wf h
  have hsource : directory ++ [u.freshName] ≠ [] := List.concat_ne_nil _ _
  have fits : u.Fits (directory ++ [u.freshName]) :=
    fits_of_vacant ⟨holds_of_resolve (resolve_of_follow (find?_eq_some_iff.1 hdirectory)),
      u.node?_freshName directory⟩
  have wf' := fits.wellFormed ((grows_ensureDirectory hensure).2 wf) (.file text.toUTF8)
  obtain ⟨front, dir, name, named, hlocation⟩ := exists_named_of_entry wf' hlocate hfree
  refine ⟨u, front, dir, name, hensure, named.within (put_within hsource _), ?_, by rw [hlocation]⟩
  -- the temporary file is in nobody's way
  rw [hlocation, node?_put hsource] at hfree
  split at hfree
  · next htemporary =>
    rw [htemporary, u.node?_freshName directory]
    exact fun h => by cases h
  · exact hfree

/-- A text that was replaced through a path is found through it, or the path has become its own
obstacle. -/
theorem locate_of_replaced {t t' : Tree} {p : Path} {text : String} (wf : t.WellFormed)
    (h : replaceText p text t = .ok () t') :
    (∃ location, t'.locate .node p = .ok (.taken location (.file text.toUTF8))) ∨
      t'.locate .node p = .error .notDirectory := by
  obtain ⟨u, front, dir, name, -, named, hfree, rfl⟩ := exists_named_of_replaceText wf h
  exact (named.locate_put_file hfree text.toUTF8).imp (fun h => ⟨_, h⟩) fun h => h.2.2

/-! ## Paths that are blocked -/

/-- A path whose entry is out of reach leads to nothing. -/
theorem unreached_of_blocked {t : Tree} {p : Path} {front : List String} {name : String}
    (ends : EndsIn p front name) (h : t.locate .entry p = .error .notDirectory) :
    t.reaches p = false := by
  refine Bool.eq_false_iff.2 fun hreaches => ?_
  unfold reaches find? at hreaches
  cases hlocate : t.locate .node p with
  | error trouble =>
    rw [hlocate] at hreaches
    cases hreaches
  | ok place =>
    have hfollow := followable_of_ok hlocate
    rw [locate, follow_of_followable hfollow, ends.pieces] at h hlocate
    obtain ⟨dir, hdir⟩ := exists_directory_of_append (further_of_plain ends.plain) hlocate
    rw [resolve_concat (Path.proper_of_plain ends.plain) (.inl rfl) hdir, last] at h
    split at h
    · cases h
    · cases h

end Tree

end BuildMatrix
