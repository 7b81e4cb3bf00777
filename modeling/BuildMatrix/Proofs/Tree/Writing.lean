import BuildMatrix.Tree.Write
import BuildMatrix.Proofs.Task
import BuildMatrix.Proofs.Tree.Entry

/-!
# What writing does to a tree

Creating directories only adds to a tree (`Grows`).  Filling a file changes the file,
or adds it where its place was vacant, and keeps everything else (`Changes`).  A text
that is replaced stands in the entry of its path afterwards, since the temporary file
is gone as if it had never been there (`replaceText_ok`).

Each operation is taken apart once, by the lemma that ends in `_ok`; what else holds of
it is read off the parts.
-/

namespace BuildMatrix.Tree

/-! ## Creating directories -/

/-- A growth of a tree that leaves it well formed. -/
def Grows (t t' : Tree) : Prop := Extends t t' ∧ (t.WellFormed → t'.WellFormed)

theorem Grows.trans {t u v : Tree} (h : Grows t u) (h' : Grows u v) : Grows t v :=
  ⟨h.1.trans h'.1, fun wf => h'.2 (h.2 wf)⟩

theorem grows_makeDirectory {t t' : Tree} {p : Path} (h : t.makeDirectory p = .ok t') :
    Grows t t' := by
  unfold makeDirectory at h
  split at h
  · next dir name hfollow =>
    injection h with h
    subst h
    have holds := holds_of_resolve (resolve_of_follow hfollow)
    exact ⟨extends_put_of_vacant holds fun _ h => (by cases h),
      fun wf => (fits_of_vacant holds).wellFormed wf _⟩
  · cases h
  · cases h

theorem Grows.refl (t : Tree) : Grows t t := ⟨Extends.refl t, id⟩

theorem excused_ok {t t' : Tree} {p : Path} {trouble : Trouble}
    (h : (do if (← get).isDirectory p then return else throw trouble : Task Trouble Tree Unit) t =
      .ok () t') : t.isDirectory p = true ∧ t' = t := by
  rw [Task.get_bind] at h
  split at h
  · next hdir => exact ⟨hdir, (Task.pure_eq_ok.1 h).2.symm⟩
  · exact absurd h Task.throw_ne_ok

/-- A directory is made, perhaps after those above it, unless it is there or needs none. -/
theorem makeDirectories_ok {t t' : Tree} {p : Path} {above : List Path}
    (h : makeDirectories (p :: above) t = .ok () t') :
    p.text = "" ∧ t' = t ∨
      ∃ u, (u = t ∨ makeDirectories above t = .ok () u) ∧
        (u.makeDirectory p = .ok t' ∨ u.isDirectory p = true ∧ t' = u) := by
  unfold makeDirectories at h
  split at h
  · next hempty => exact .inl ⟨hempty, (Task.pure_eq_ok.1 h).2.symm⟩
  refine .inr ?_
  rw [Task.get_bind] at h
  cases hmade : t.makeDirectory p with
  | ok made =>
    rw [hmade] at h
    exact ⟨t, .inl rfl, .inl (by rw [hmade, Task.set_eq_ok.1 h])⟩
  | error trouble =>
    rw [hmade] at h
    by_cases htrouble : trouble = .notFound
    · subst htrouble
      obtain ⟨_, u, habove, h⟩ := Task.bind_eq_ok.1 h
      refine ⟨u, .inr habove, ?_⟩
      rw [Task.get_bind] at h
      cases hagain : u.makeDirectory p with
      | ok made =>
        rw [hagain] at h
        exact .inl (by rw [Task.set_eq_ok.1 h])
      | error trouble =>
        rw [hagain] at h
        exact .inr (excused_ok h)
    · refine ⟨t, .inl rfl, .inr ?_⟩
      cases trouble with
      | notFound => exact absurd rfl htrouble
      | _ => exact excused_ok h

theorem grows_makeDirectories {t t' : Tree} {paths : List Path}
    (h : makeDirectories paths t = .ok () t') : Grows t t' := by
  induction paths generalizing t t' with
  | nil => cases h
  | cons p above ih =>
    obtain ⟨-, rfl⟩ | ⟨u, habove, hmade⟩ := makeDirectories_ok h
    · exact .refl t'
    have hgrown : Grows t u := by
      rcases habove with rfl | habove
      · exact .refl u
      · exact ih habove
    rcases hmade with hmade | ⟨-, rfl⟩
    · exact hgrown.trans (grows_makeDirectory hmade)
    · exact hgrown

theorem grows_ensureDirectory {t t' : Tree} {p : Path} (h : ensureDirectory p t = .ok () t') :
    Grows t t' := by
  unfold ensureDirectory at h
  rw [Task.get_bind] at h
  split at h
  · rw [(Task.pure_eq_ok.1 h).2]
    exact .refl t'
  · obtain ⟨u, hmade, rfl⟩ := Task.within_eq_ok.1 h
    exact grows_makeDirectories hmade

/-! ## Filling files -/

/-- A change of files and additions to a tree that leave it well formed. -/
def Changes (t t' : Tree) : Prop := Keeps t t' ∧ (t.WellFormed → t'.WellFormed)

theorem Grows.changes {t t' : Tree} (h : Grows t t') : Changes t t' := ⟨h.1.keeps, h.2⟩

theorem Changes.refl (t : Tree) : Changes t t := ⟨Keeps.refl t, id⟩

theorem Changes.trans {t u v : Tree} (h : Changes t u) (h' : Changes u v) : Changes t v :=
  ⟨h.1.trans h'.1, fun wf => h'.2 (h.2 wf)⟩

/-- A file is filled where neither a directory nor a link stands. -/
theorem fill_ok {t t' : Tree} {p : Path} {content : ByteArray} (h : t.fill p content = .ok t') :
    ∃ place location, t.locate .file p = .ok place ∧ location ≠ [] ∧
      t.node? location ≠ some .directory ∧ (∀ target, t.node? location ≠ some (.link target)) ∧
      (t.WellFormed → t.Fits location) ∧ t' = t.put location (.file content) := by
  unfold fill at h
  split at h
  · next location c hlocate =>
    injection h with h
    have holds : t.node? location = some (.file c) := holds_of_resolve (resolve_of_follow hlocate)
    refine ⟨_, location, hlocate, ne_nil_of_node holds fun h => (by cases h), ?_, ?_,
      fun wf => fits_of_taken wf holds fun h => (by cases h), h.symm⟩
    · rw [holds]
      exact fun h => by cases h
    · rw [holds]
      exact fun _ h => by cases h
  · cases h
  · next dir name hlocate =>
    injection h with h
    have holds := holds_of_resolve (resolve_of_follow hlocate)
    refine ⟨_, dir ++ [name], hlocate, List.concat_ne_nil _ _, ?_, ?_,
      fun _ => fits_of_vacant holds, h.symm⟩
    · rw [holds.2]
      exact fun h => by cases h
    · rw [holds.2]
      exact fun _ h => by cases h
  · cases h

theorem changes_fill {t t' : Tree} {p : Path} {content : ByteArray}
    (h : t.fill p content = .ok t') : Changes t t' := by
  obtain ⟨-, location, -, hroot, hdir, hlink, fits, rfl⟩ := fill_ok h
  exact ⟨keeps_put hroot hdir hlink content, fun wf => (fits wf).wellFormed wf _⟩

/-- A text is written by filling a file, after the directory above it was ensured. -/
theorem writeText_ok {t t' : Tree} {p : Path} {text : String} (h : writeText p text t = .ok () t') :
    ∃ u, (p.parent? = none ∧ u = t ∨
        ∃ above, p.parent? = some above ∧ ensureDirectory above t = .ok () u) ∧
      u.fill p text.toUTF8 = .ok t' := by
  unfold writeText at h
  cases hparent : p.parent? with
  | none =>
    rw [hparent] at h
    dsimp only at h
    rw [Task.get_bind] at h
    cases hfill : t.fill p text.toUTF8 with
    | error trouble =>
      rw [hfill] at h
      exact absurd h Task.throw_ne_ok
    | ok filled =>
      rw [hfill] at h
      exact ⟨t, .inl ⟨rfl, rfl⟩, by rw [hfill, Task.set_eq_ok.1 h]⟩
  | some above =>
    rw [hparent] at h
    obtain ⟨_, u, habove, h⟩ := Task.bind_eq_ok.1 h
    dsimp only at h
    rw [Task.get_bind] at h
    cases hfill : u.fill p text.toUTF8 with
    | error trouble =>
      rw [hfill] at h
      exact absurd h Task.throw_ne_ok
    | ok filled =>
      rw [hfill] at h
      exact ⟨u, .inr ⟨above, rfl, habove⟩, by rw [hfill, Task.set_eq_ok.1 h]⟩

theorem changes_writeText {t t' : Tree} {p : Path} {text : String}
    (h : writeText p text t = .ok () t') : Changes t t' := by
  obtain ⟨u, ⟨-, rfl⟩ | ⟨above, -, habove⟩, hfill⟩ := writeText_ok h
  · exact changes_fill hfill
  · exact (grows_ensureDirectory habove).changes.trans (changes_fill hfill)

/-! ## Temporary files -/

/-- Whatever is below a node is below a directory. -/
theorem WellFormed.directory_above {t : Tree} (wf : t.WellFormed) {location below : Location}
    (hbelow : below ≠ []) {node : Node} (h : t.node? (location ++ below) = some node) :
    t.node? location = some .directory := by
  induction below using List.reverseRecOn generalizing node with
  | nil => exact absurd rfl hbelow
  | append_singleton below name ih =>
    have hdir := wf.above _ node h
    rw [← List.append_assoc, List.dropLast_concat] at hdir
    cases below with
    | nil =>
      rw [List.append_nil] at hdir
      exact hdir
    | cons first below => exact ih (List.cons_ne_nil _ _) hdir

theorem le_foldl_max {β : Type} (f : β → Nat) (l : List β) :
    ∀ n, n ≤ l.foldl (fun n b => max n (f b)) n ∧
      ∀ b ∈ l, f b ≤ l.foldl (fun n b => max n (f b)) n := by
  induction l with
  | nil => exact fun n => ⟨Nat.le_refl n, fun b h => by cases h⟩
  | cons c l ih =>
    intro n
    obtain ⟨hstart, hall⟩ := ih (max n (f c))
    refine ⟨Nat.le_trans (Nat.le_max_left _ _) hstart, fun b hb => ?_⟩
    rcases List.mem_cons.1 hb with rfl | hb
    · exact Nat.le_trans (Nat.le_max_right _ _) hstart
    · exact hall b hb

/-- No node has the name of a temporary file. -/
theorem node?_freshName (t : Tree) (dir : Location) : t.node? (dir ++ [t.freshName]) = none := by
  cases h : t.node? (dir ++ [t.freshName]) with
  | none => rfl
  | some node =>
    unfold node? at h
    rw [if_neg (List.concat_ne_nil _ _)] at h
    have hkey : dir ++ [t.freshName] ∈ t.nodes.keys :=
      List.mem_map_of_mem (SortedMap.mem_entries_iff.2 h)
    have hle := (le_foldl_max (fun key : Location => (key.getLast?.getD "").length) t.nodes.keys 0).2
      _ hkey
    have hlast : ((dir ++ [t.freshName]).getLast?.getD "") = t.freshName := by
      rw [List.getLast?_concat, Option.getD_some]
    have hlength : t.freshName.length = 4 +
        t.nodes.keys.foldl (fun n key => max n ((key.getLast?.getD "").length)) 0 := by
      simp only [freshName, String.length_append, String.length_ofList, List.length_replicate]
      rfl
    rw [hlast] at hle
    omega

theorem erase_put_fresh {t : Tree} (wf : t.WellFormed) (dir : Location) (node : Node) :
    (t.put (dir ++ [t.freshName]) node).erase (dir ++ [t.freshName]) = t := by
  have hnodes : (t.nodes.insert (dir ++ [t.freshName]) node).filterKeys
      (fun key => !(dir ++ [t.freshName]).isPrefixOf key) = t.nodes := by
    refine SortedMap.ext_get? fun key => ?_
    rw [SortedMap.get?_filterKeys, SortedMap.get?_insert]
    by_cases hbegins : (dir ++ [t.freshName]) <+: key
    · obtain ⟨below, rfl⟩ := hbegins
      have hnone : t.node? (dir ++ [t.freshName] ++ below) = none := by
        by_cases hbelow : below = []
        · rw [hbelow, List.append_nil]
          exact t.node?_freshName dir
        · cases h : t.node? (dir ++ [t.freshName] ++ below) with
          | none => rfl
          | some found =>
            have hdir := wf.directory_above hbelow h
            rw [t.node?_freshName dir] at hdir
            cases hdir
      have hne : dir ++ [t.freshName] ++ below ≠ [] := by simp
      rw [node?, if_neg hne] at hnone
      rw [if_neg (by simp), hnone]
    · have hne : key ≠ dir ++ [t.freshName] := by
        rintro rfl
        exact hbegins (List.prefix_refl _)
      have hkeep : (!(dir ++ [t.freshName]).isPrefixOf key) = true := by
        rw [Bool.not_eq_true', ← Bool.not_eq_true, List.isPrefixOf_iff_prefix]
        exact hbegins
      rw [if_pos hkeep, if_neg hne]
  unfold put erase
  rw [hnodes]

theorem ne_freshName {t : Tree} {name : String} (plain : Plain name) : name ≠ t.freshName := by
  rintro rfl
  refine plain.not_dotted ?_
  rw [freshName, String.toList_append]
  rfl

/-! ## Replacing files -/

/-- What is moved to a path takes the place to which the path leads, unless that is a directory. -/
theorem rename_of_locate {t : Tree} {source : Location} {p : Path} {node : Node} {place : Place}
    (hsource : t.node? source = some node) (hlocate : t.locate .entry p = .ok place) :
    t.rename source p =
      if t.node? place.location = some .directory then .error .isDirectory
      else .ok ((t.erase source).put place.location node) := by
  have holds := holds_of_resolve (resolve_of_follow hlocate)
  unfold rename
  rw [hsource, hlocate]
  cases place with
  | vacant dir name =>
    have hvacant : t.node? (dir ++ [name]) = none := holds.2
    rw [Place.location, hvacant, if_neg (fun h => by cases h)]
  | taken location found =>
    have hfound : t.node? location = some found := holds
    rw [Place.location, hfound]
    cases found with
    | directory => rfl
    | file c => rw [if_neg (fun h => by cases h)]
    | link target => rw [if_neg (fun h => by cases h)]

theorem rename_eq_ok {t t' : Tree} {source : Location} {p : Path} {node : Node}
    (hsource : t.node? source = some node) (h : t.rename source p = .ok t') :
    ∃ place, t.locate .entry p = .ok place ∧ t.node? place.location ≠ some .directory ∧
      t' = (t.erase source).put place.location node := by
  cases hlocate : t.locate .entry p with
  | error trouble =>
    unfold rename at h
    rw [hsource, hlocate] at h
    cases h
  | ok place =>
    rw [rename_of_locate hsource hlocate] at h
    split at h
    · cases h
    · next hfree =>
      injection h with h
      exact ⟨place, rfl, hfree, h.symm⟩

theorem temporary_ok {t : Tree} {directory : Path} {source : Location}
    (h : t.temporary directory = .ok source) :
    ∃ dir, t.find? directory = some (dir, .directory) ∧ source = dir ++ [t.freshName] := by
  unfold temporary at h
  split at h
  · cases h
  split at h
  · next dir hfind =>
    injection h with h
    exact ⟨dir, hfind, h.symm⟩
  · cases h
  · cases h

/-- A text that is replaced is put where its path leads once the temporary file is there, and nothing
else has changed but for directories that were created before. -/
theorem exists_place_of_replaceText {t t' : Tree} {p : Path} (wf : t.WellFormed) {text : String}
    (h : replaceText p text t = .ok () t') :
    ∃ u directory place, ensureDirectory (holder p) t = .ok () u ∧
      u.find? (holder p) = some (directory, .directory) ∧
      (u.put (directory ++ [u.freshName]) (.file text.toUTF8)).locate .entry p = .ok place ∧
      (u.put (directory ++ [u.freshName]) (.file text.toUTF8)).node? place.location ≠
        some .directory ∧
      t' = u.put place.location (.file text.toUTF8) := by
  unfold replaceText at h
  obtain ⟨_, u, hensure, h⟩ := Task.bind_eq_ok.1 h
  rw [Task.get_bind] at h
  cases htemporary : u.temporary (holder p) with
  | error trouble =>
    rw [htemporary] at h
    exact absurd h Task.throw_ne_ok
  | ok source =>
    rw [htemporary] at h
    obtain ⟨directory, hdirectory, rfl⟩ := temporary_ok htemporary
    obtain ⟨_, filled, hfill, h⟩ := Task.bind_eq_ok.1 h
    rw [← Task.modify_eq_ok.1 hfill, Task.get_bind] at h
    cases hrename : (u.put (directory ++ [u.freshName]) (.file text.toUTF8)).rename
        (directory ++ [u.freshName]) p with
    | error trouble =>
      rw [hrename] at h
      obtain ⟨_, _, _, h⟩ := Task.bind_eq_ok.1 h
      exact absurd h Task.throw_ne_ok
    | ok renamed =>
      rw [hrename] at h
      obtain ⟨place, hlocate, hfree, hrenamed⟩ :=
        rename_eq_ok (node?_put_self (List.concat_ne_nil _ _) _) hrename
      rw [erase_put_fresh ((grows_ensureDirectory hensure).2 wf)] at hrenamed
      exact ⟨u, directory, place, hensure, hdirectory, hlocate, hfree, (Task.set_eq_ok.1 h).symm.trans hrenamed⟩

/-- A text that is replaced stands in the entry of the path's last name afterwards. -/
theorem replaceText_ok {t t' : Tree} {p : Path} {front : List String} {name : String}
    (ends : EndsIn p front name) (wf : t.WellFormed) {text : String}
    (h : replaceText p text t = .ok () t') :
    ∃ u dir, ensureDirectory (holder p) t = .ok () u ∧ EntryAt u p front dir name ∧
      u.node? (dir ++ [name]) ≠ some .directory ∧
      t' = u.put (dir ++ [name]) (.file text.toUTF8) := by
  obtain ⟨u, directory, place, hensure, -, hlocate, hfree, rfl⟩ := exists_place_of_replaceText wf h
  obtain ⟨dir, entry, rfl⟩ := entryAt_of_locate ends hlocate
  rw [location_placeOf] at hfree ⊢
  have hne : dir ++ [name] ≠ directory ++ [u.freshName] := by
    intro heq
    exact ne_freshName ends.plain (List.cons.inj (List.append_inj' heq rfl).2).1
  rw [node?_put_of_ne (List.concat_ne_nil _ _) _ hne] at hfree
  exact ⟨u, dir, hensure, entry.within (put_within (List.concat_ne_nil _ _) _), hfree, rfl⟩

theorem wellFormed_of_replaceText {t t' : Tree} {p : Path} {front : List String} {name : String}
    (ends : EndsIn p front name) (wf : t.WellFormed) {text : String}
    (h : replaceText p text t = .ok () t') : t'.WellFormed := by
  obtain ⟨u, dir, hensure, entry, hnode, rfl⟩ := replaceText_ok ends wf h
  exact (entry.fits hnode).wellFormed ((grows_ensureDirectory hensure).2 wf) _

/-- Where a text was replaced it is found, or the path has become its own obstacle. -/
theorem locate_of_replaceText {t t' : Tree} {p : Path} {front : List String} {name : String}
    (ends : EndsIn p front name) (wf : t.WellFormed) {text : String}
    (h : replaceText p text t = .ok () t') :
    (∃ location, t'.locate .entry p = .ok (.taken location (.file text.toUTF8))) ∨
      t'.locate .entry p = .error .notDirectory := by
  obtain ⟨u, dir, -, entry, hnode, rfl⟩ := replaceText_ok ends wf h
  have hroot : dir ++ [name] ≠ [] := List.concat_ne_nil _ _
  refine (entry.put_file hnode text.toUTF8).imp_left fun entry => ?_
  exact ⟨_, entry.locate_file (node?_put_self hroot _) .entry⟩

end BuildMatrix.Tree
