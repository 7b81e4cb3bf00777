import BuildMatrix.Proofs.Tree.Replacement

/-!
# Room for files

A path has *room* for files below it if it leads to a directory of a well-formed tree.
A name is `Writable` there if no directory has the name and no path to it is too long.
At such names, and only there, a text below the path is replaced, and nothing else
happens (`Room.replaceText_iff`).

A name is `Clear` if no link has it either.  A file at a clear name leaves room for
others, since the path cannot lead through what the file has replaced.
-/

namespace BuildMatrix

open BuildMatrix.Tree (EntryAt Followable)

/-- A path leads to a directory of a well-formed tree. -/
structure Room (root : Path) (dir : Location) (t : Tree) : Prop where
  /-- The tree is well formed. -/
  wf : t.WellFormed
  /-- The path leads to the directory. -/
  leads : t.LeadsTo root dir

/-- A file can be put at a name below a path. -/
structure Writable (root : Path) (dir : Location) (t : Tree) (name : String) : Prop where
  /-- It is the name of an entry. -/
  plain : Plain name
  /-- It is not too long. -/
  short : ¬ Tree.nameLimit < name.utf8ByteSize
  /-- Neither is the path to it, nor is this path refused for another reason. -/
  followable : Followable (root.child name)
  /-- There is room for a temporary file. -/
  roomy : t.Roomy (root.child name)
  /-- No directory has the name. -/
  free : t.node? (dir ++ [name]) ≠ some .directory

/-- Neither a directory nor a link stands at the name. -/
structure Clear (root : Path) (dir : Location) (t : Tree) (name : String) : Prop
    extends Writable root dir t name where
  /-- No link has the name. -/
  unlinked : ∀ target, t.node? (dir ++ [name]) ≠ some (.link target)

section Rooms

variable {root : Path} {dir : Location} {t u : Tree} {name : String}

theorem Room.ensureDirectory (room : Room root dir t) : Tree.ensureDirectory root t = .ok () t :=
  Tree.ensureDirectory_of_reaches room.leads.there

theorem Writable.entry (writable : Writable root dir t name) (room : Room root dir t) :
    ∃ front, EntryAt t (root.child name) front dir name := by
  obtain ⟨front, ends, -⟩ := begins_child root writable.plain
  exact ⟨front, room.leads.entryAt room.wf ends writable.short writable.followable⟩

/-! ## Replacing texts -/

/-- A text that is replaced below a path has found room there, if the path led anywhere. -/
theorem exists_room (wf : t.WellFormed) (there : root.text = "" ∨ t.reaches root = true)
    (plain : Plain name) {text : String} (h : Tree.replaceText (root.child name) text t = .ok () u) :
    ∃ dir, Room root dir t := by
  obtain ⟨front, ends, -⟩ := begins_child root plain
  obtain ⟨v, dir, hensure, entry, -, -⟩ := Tree.replaceText_ok ends wf h
  exact ⟨dir, wf, entry.leadsTo.before (Tree.grows_ensureDirectory hensure).1.keeps there⟩

/-- With room, a text is replaced exactly at a writable name, and nothing else happens. -/
theorem Room.replaceText_iff (room : Room root dir t) (plain : Plain name) {text : String} :
    Tree.replaceText (root.child name) text t = .ok () u ↔
      Writable root dir t name ∧ u = t.put (dir ++ [name]) (.file text.toUTF8) := by
  constructor
  · intro h
    obtain ⟨front, ends, -⟩ := begins_child root plain
    obtain ⟨v, dir', hensure, entry', -, -⟩ := Tree.replaceText_ok ends room.wf h
    have entry := entry'.before (Tree.grows_ensureDirectory hensure).1.keeps room.wf room.leads.there
    obtain rfl := room.leads.unique entry.leadsTo
    obtain ⟨hfree, roomy, hu⟩ := (entry.replaceText_iff room.wf).1 h
    exact ⟨⟨plain, entry.short, entry.followable, roomy, hfree⟩, hu⟩
  · rintro ⟨writable, rfl⟩
    obtain ⟨front, entry⟩ := writable.entry room
    exact (entry.replaceText_iff room.wf).2 ⟨writable.free, writable.roomy, rfl⟩

theorem Writable.replaceText (writable : Writable root dir t name) (room : Room root dir t)
    (text : String) :
    Tree.replaceText (root.child name) text t = .ok () (t.put (dir ++ [name]) (.file text.toUTF8)) :=
  (room.replaceText_iff writable.plain).2 ⟨writable, rfl⟩

theorem Writable.wellFormed_put (writable : Writable root dir t name) (room : Room root dir t)
    (c : ByteArray) : (t.put (dir ++ [name]) (.file c)).WellFormed := by
  obtain ⟨front, entry⟩ := writable.entry room
  exact (entry.fits writable.free).wellFormed room.wf _

theorem Writable.put (writable : Writable root dir t name) (other : String) (c : ByteArray) :
    Writable root dir (t.put (dir ++ [other]) (.file c)) name := by
  refine ⟨writable.plain, writable.short, writable.followable, writable.roomy.of_here rfl, ?_⟩
  rw [Tree.node?_put (List.concat_ne_nil _ _)]
  split
  · exact fun h => by cases h
  · exact writable.free

/-! ## Clear names -/

theorem Clear.put (clear : Clear root dir t name) (other : String) (c : ByteArray) :
    Clear root dir (t.put (dir ++ [other]) (.file c)) name := by
  refine ⟨clear.toWritable.put other c, fun target => ?_⟩
  rw [Tree.node?_put (List.concat_ne_nil _ _)]
  split
  · exact fun h => by cases h
  · exact clear.unlinked target

theorem Clear.writeText (clear : Clear root dir t name) (room : Room root dir t) (text : String) :
    Tree.writeText (root.child name) text t = .ok () (t.put (dir ++ [name]) (.file text.toUTF8)) := by
  obtain ⟨front, entry⟩ := clear.entry room
  exact entry.writeText clear.free clear.unlinked text

theorem Clear.room_put (clear : Clear root dir t name) (room : Room root dir t) (c : ByteArray) :
    Room root dir (t.put (dir ++ [name]) (.file c)) :=
  ⟨clear.wellFormed_put room c,
    room.leads.within (Tree.within_put (List.concat_ne_nil _ _) clear.free clear.unlinked c)⟩

theorem Clear.not_reaches (clear : Clear root dir t name) (room : Room root dir t)
    (hvacant : t.node? (dir ++ [name]) = none) : t.reaches (root.child name) = false := by
  obtain ⟨front, entry⟩ := clear.entry room
  refine Bool.eq_false_iff.2 fun hreaches => ?_
  obtain ⟨location, node, hfind⟩ := Tree.reaches_iff.1 hreaches
  rw [Tree.find?_eq_some_iff, entry.locate (.inr clear.unlinked), Tree.placeOf, hvacant] at hfind
  cases hfind

/-- A name that nothing has is clear, if it is fit for a path. -/
theorem clear_of_vacant (hname : Plain name ∧ ¬ Tree.nameLimit < name.utf8ByteSize ∧
      Followable (root.child name) ∧ t.Roomy (root.child name))
    (hvacant : t.node? (dir ++ [name]) = none) : Clear root dir t name := by
  obtain ⟨plain, short, followable, roomy⟩ := hname
  refine ⟨⟨plain, short, followable, roomy, ?_⟩, fun target => ?_⟩
  · rw [hvacant]
    exact fun h => by cases h
  · rw [hvacant]
    exact fun h => by cases h

/-! ## Texts that stand -/

/-- A text stands at a name below a path, and it can be replaced. -/
structure Stands (root : Path) (dir : Location) (t : Tree) (name text : String) : Prop
    extends Writable root dir t name where
  /-- The text is there. -/
  node : t.node? (dir ++ [name]) = some (.file text.toUTF8)

theorem Writable.stands (writable : Writable root dir t name) (text : String) :
    Stands root dir (t.put (dir ++ [name]) (.file text.toUTF8)) name text :=
  ⟨writable.put name _, Tree.node?_put_self (List.concat_ne_nil _ _) _⟩

theorem Stands.put {text : String} (stands : Stands root dir t name text) {other : String}
    (hne : name ≠ other) (c : ByteArray) :
    Stands root dir (t.put (dir ++ [other]) (.file c)) name text := by
  refine ⟨stands.toWritable.put other c, ?_⟩
  have hlocation : dir ++ [name] ≠ dir ++ [other] := fun heq =>
    hne (List.cons.inj (List.append_inj' heq rfl).2).1
  rw [Tree.node?_put_of_ne (List.concat_ne_nil _ _) _ hlocation]
  exact stands.node

/-- A text that stands is replaced by itself, and nothing changes. -/
theorem Stands.again {text : String} (stands : Stands root dir t name text) (room : Room root dir t) :
    Tree.replaceText (root.child name) text t = .ok () t := by
  have h := stands.replaceText room text
  rw [Tree.put_eq_self (List.concat_ne_nil _ _) stands.node] at h
  exact h

theorem Stands.locate {text : String} (stands : Stands root dir t name text)
    (room : Room root dir t) :
    t.locate .entry (root.child name) = .ok (.taken (dir ++ [name]) (.file text.toUTF8)) := by
  obtain ⟨front, entry⟩ := stands.entry room
  exact entry.locate_file stands.node .entry

/-- A text that was put at a clear name is found there. -/
theorem Clear.reaches_put (clear : Clear root dir t name) (room : Room root dir t) (text : String) :
    (t.put (dir ++ [name]) (.file text.toUTF8)).reaches (root.child name) = true := by
  have stands := clear.stands text
  obtain ⟨front, entry⟩ := stands.entry (clear.room_put room _)
  exact Tree.reaches_iff.2 ⟨_, _, Tree.find?_eq_some_iff.2 (entry.locate_file stands.node .node)⟩

end Rooms

end BuildMatrix
