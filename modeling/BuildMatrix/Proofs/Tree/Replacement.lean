import BuildMatrix.Proofs.Tree.Beginning

/-!
# Replacing the entry of a path

Where a path has an entry, a text is replaced there and nothing else happens
(`EntryAt.replaceText_iff`).  If no link stands there, a text is also written there
(`EntryAt.writeText`).

A file that is put where no directory and no link stands, or that is written below a
directory that is there, leaves every path to a directory as it was (`Same`).
-/

namespace BuildMatrix.Tree

/-! ## Replacing -/

theorem put_eq_self {t : Tree} {location : Location} {node : Node} (hroot : location ≠ [])
    (h : t.node? location = some node) : t.put location node = t := by
  unfold node? at h
  rw [if_neg hroot] at h
  unfold put
  rw [SortedMap.insert_eq_self h]

/-- The path of a temporary file beside an entry is not too long. -/
def Roomy (t : Tree) (p : Path) : Prop :=
  ¬ pathLimit < (t.temporaryPath (holder p)).text.utf8ByteSize

instance (t : Tree) (p : Path) : Decidable (t.Roomy p) :=
  inferInstanceAs (Decidable (¬ pathLimit < (t.temporaryPath (holder p)).text.utf8ByteSize))

theorem Roomy.of_here {t t' : Tree} {p : Path} (h : t.Roomy p) (here : t'.here = t.here) :
    t'.Roomy p := by
  unfold Roomy temporaryPath fromRoot at h ⊢
  rw [here]
  exact h

/-- Where a path leads to a place with a temporary file in the directory that holds the path, a text is
replaced there and nothing else changes, unless the place is a directory; and only there. -/
theorem replaceText_iff_of_holder {t : Tree} {p : Path} {dir : Location} {text : String}
    {place : Place} (wf : t.WellFormed) (hholder : t.find? (holder p) = some (dir, .directory))
    (hlocate : (t.put (dir ++ [t.freshName]) (.file text.toUTF8)).locate .entry p = .ok place)
    (hne : place.location ≠ dir ++ [t.freshName]) (t' : Tree) :
    replaceText p text t = .ok () t' ↔
      t.node? place.location ≠ some .directory ∧ t.Roomy p ∧
        t' = t.put place.location (.file text.toUTF8) := by
  have hroot : dir ++ [t.freshName] ≠ [] := List.concat_ne_nil _ _
  have hensure : ensureDirectory (holder p) t = .ok () t :=
    ensureDirectory_of_reaches (.inr (reaches_iff.2 ⟨_, _, hholder⟩))
  unfold replaceText
  rw [Task.bind_of_ok hensure, Task.get_bind]
  by_cases roomy : t.Roomy p
  swap
  · have htemporary : t.temporary (holder p) = .error .nameTooLong := if_pos (not_not.1 roomy)
    rw [htemporary]
    exact iff_of_false Task.throw_ne_ok fun h => roomy h.2.1
  have htemporary : t.temporary (holder p) = .ok (dir ++ [t.freshName]) := by
    unfold temporary
    rw [if_neg roomy, hholder]
  have hfill : (modify (·.put (dir ++ [t.freshName]) (.file text.toUTF8)) :
      Task WriteFailure Tree Unit) t =
        .ok () (t.put (dir ++ [t.freshName]) (.file text.toUTF8)) := rfl
  have hrename := rename_of_locate (node?_put_self hroot _) hlocate
  rw [erase_put_fresh wf, node?_put_of_ne hroot _ hne] at hrename
  rw [htemporary]
  dsimp only
  rw [Task.bind_of_ok hfill, Task.get_bind, hrename]
  by_cases hdirectory : t.node? place.location = some .directory
  · rw [if_pos hdirectory]
    refine iff_of_false (fun h => ?_) fun h => h.1 hdirectory
    obtain ⟨_, _, _, h⟩ := Task.bind_eq_ok.1 h
    exact Task.throw_ne_ok h
  · rw [if_neg hdirectory]
    dsimp only
    rw [Task.set_eq_ok]
    exact ⟨fun h => ⟨hdirectory, roomy, h.symm⟩, fun h => h.2.2.symm⟩

namespace EntryAt

variable {t : Tree} {p : Path} {front : List String} {dir : Location} {name : String}

/-- A file at a fresh name beside the entry does not change the place of the entry. -/
theorem put_fresh (entry : EntryAt t p front dir name) (content : ByteArray) :
    EntryAt (t.put (dir ++ [t.freshName]) (.file content)) p front dir name ∧
      (t.put (dir ++ [t.freshName]) (.file content)).placeOf dir name = t.placeOf dir name := by
  have hroot : dir ++ [t.freshName] ≠ [] := List.concat_ne_nil _ _
  have hvacant := t.node?_freshName dir
  have within : Within t (t.put (dir ++ [t.freshName]) (.file content)) := by
    refine within_put hroot ?_ ?_ content
    · rw [hvacant]
      exact fun h => by cases h
    · rw [hvacant]
      exact fun _ h => by cases h
  refine ⟨entry.within within, ?_⟩
  have hne : dir ++ [name] ≠ dir ++ [t.freshName] := fun heq =>
    ne_freshName entry.ends.plain (List.cons.inj (List.append_inj' heq rfl).2).1
  rw [placeOf, placeOf, node?_put_of_ne hroot _ hne]

/-- Where a path has an entry that is no directory, a text is replaced there and nothing else
changes; and only there. -/
theorem replaceText_iff (entry : EntryAt t p front dir name) (wf : t.WellFormed) {text : String}
    {t' : Tree} :
    replaceText p text t = .ok () t' ↔
      t.node? (dir ++ [name]) ≠ some .directory ∧ t.Roomy p ∧
        t' = t.put (dir ++ [name]) (.file text.toUTF8) := by
  obtain ⟨fresh, hplace⟩ := entry.put_fresh text.toUTF8
  have hlocate := fresh.locate (.inl rfl)
  rw [hplace] at hlocate
  have hne : (t.placeOf dir name).location ≠ dir ++ [t.freshName] := by
    rw [location_placeOf]
    exact fun heq => ne_freshName entry.ends.plain (List.cons.inj (List.append_inj' heq rfl).2).1
  have hiff := replaceText_iff_of_holder wf (find?_holder entry) hlocate hne t'
  rwa [location_placeOf] at hiff

theorem ensureDirectory_parent (entry : EntryAt t p front dir name) {above : Path}
    (hparent : p.parent? = some above) : ensureDirectory above t = .ok () t := by
  refine ensureDirectory_of_reaches ?_
  have hholder := find?_holder entry
  rw [holder, hparent] at hholder
  dsimp only at hholder
  split at hholder
  · next hempty => exact .inl hempty
  · exact .inr (reaches_iff.2 ⟨_, _, hholder⟩)

/-- A text is written to the entry if no directory and no link has the name. -/
theorem writeText (entry : EntryAt t p front dir name)
    (hdir : t.node? (dir ++ [name]) ≠ some .directory)
    (hlink : ∀ target, t.node? (dir ++ [name]) ≠ some (.link target)) (text : String) :
    writeText p text t = .ok () (t.put (dir ++ [name]) (.file text.toUTF8)) := by
  have hfill : t.fill p text.toUTF8 = .ok (t.put (dir ++ [name]) (.file text.toUTF8)) := by
    unfold fill
    rw [entry.locate (.inr hlink), placeOf]
    cases hnode : t.node? (dir ++ [name]) with
    | none => rfl
    | some node =>
      cases node with
      | directory => exact absurd hnode hdir
      | link target => exact absurd hnode (hlink target)
      | file c => rfl
  unfold Tree.writeText
  cases hparent : p.parent? with
  | none =>
    dsimp only
    rw [Task.get_bind, hfill]
    rfl
  | some above =>
    dsimp only
    rw [Task.bind_of_ok (entry.ensureDirectory_parent hparent), Task.get_bind, hfill]
    rfl

end EntryAt

/-! ## Files beside directories -/

/-- Two trees with the same directories and links. -/
def Same (t t' : Tree) : Prop := Within t t' ∧ Within t' t

namespace Same

variable {t t' u : Tree}

theorem refl (t : Tree) : Same t t := ⟨.refl t, .refl t⟩

theorem trans (h : Same t t') (h' : Same t' u) : Same t u := ⟨h.1.trans h'.1, h'.2.trans h.2⟩

theorem directory? (h : Same t t') (q : Path) : t'.directory? q = t.directory? q :=
  Option.ext fun _ => ⟨h.2.directory?, h.1.directory?⟩

end Same

theorem same_put {t : Tree} {location : Location} (hroot : location ≠ [])
    (hdir : t.node? location ≠ some .directory)
    (hlink : ∀ target, t.node? location ≠ some (.link target)) (c : ByteArray) :
    Same t (t.put location (.file c)) :=
  ⟨within_put hroot hdir hlink c, put_within hroot c⟩

theorem same_fill {t t' : Tree} {p : Path} {content : ByteArray}
    (h : t.fill p content = .ok t') : Same t t' := by
  obtain ⟨-, location, -, hroot, hdir, hlink, -, rfl⟩ := fill_ok h
  exact same_put hroot hdir hlink content

/-- A text that is written below a directory that is there adds no directory and no link. -/
theorem same_writeText {t t' : Tree} {d : Path} {name text : String} (plain : Plain name)
    (short : ¬ nameLimit < name.utf8ByteSize) (wf : t.WellFormed)
    (there : d.text = "" ∨ t.reaches d = true)
    (h : Tree.writeText (d.child name) text t = .ok () t') : Same t t' := by
  obtain ⟨u, habove, hfill⟩ := writeText_ok h
  have grown : Grows t u := by
    rcases habove with ⟨-, rfl⟩ | ⟨above, -, habove⟩
    · exact .refl u
    · exact grows_ensureDirectory habove
  obtain ⟨front, ends, -⟩ := begins_child d plain
  have entry : ∃ dir, EntryAt u (d.child name) front dir name := by
    obtain ⟨place, -, hlocate, -⟩ := fill_ok hfill
    have hresolve := resolve_of_follow hlocate
    rw [ends.pieces] at hresolve
    obtain ⟨dir, hdir⟩ := exists_directory_of_append (further_of_plain plain) hresolve
    exact ⟨dir, ends, short, followable_of_ok hlocate, hdir⟩
  obtain ⟨dir, entry⟩ := entry
  -- the directory above was there already, so nothing was created
  have hsame : u = t := by
    rcases habove with ⟨-, hu⟩ | ⟨above, hparent, habove⟩
    · exact hu
    · have hthere :=
        (entry.before grown.1.keeps wf there).ensureDirectory_parent hparent
      rw [hthere] at habove
      injection habove with _ hu
      exact hu.symm
  rw [hsame] at hfill
  exact same_fill hfill

end BuildMatrix.Tree
