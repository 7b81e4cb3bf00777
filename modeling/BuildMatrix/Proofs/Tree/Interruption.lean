import BuildMatrix.Proofs.Tree.Room

/-!
# Writing that fails

A change of a tree may fail half-way, and what was done before stays.  Creating
directories, also if it fails, adds at most directories where nothing was, and they have
the names on the path (`Sprouts`).  A text that cannot be written or replaced leaves no
more than that: a file is filled in one step, and a temporary file that cannot be renamed
is removed again (`writeText_error`, `replaceText_error`).

For a file below a path that leads to a directory, nothing need be created.  What stands
above the file is this directory, however it is spelled, unless the path is too long to be
followed; and then nothing is created either (`after_ensureDirectory_of_begins`).  So a
file that cannot be written there leaves no trace at all.
-/

namespace BuildMatrix

open BuildMatrix.Path (Begins)

namespace Tree

/-! ## New directories -/

/-- A path to an entry goes on with the pieces behind the one that was taken, after those of a link
that is not the last one. -/
theorem pieces_of_turn_entry {t : Tree} {links links' : Nat} {dir dir' : Location} {piece : String}
    {rest pieces : List String}
    (h : t.turn .entry links dir piece rest = .onward links' dir' pieces) :
    pieces = rest ∨ rest ≠ [] ∧ ∃ target : Path, pieces = target.pieces ++ rest := by
  rcases t.turn_cases .entry links dir piece rest with
    ⟨-, hturn⟩ | ⟨-, ⟨turn, hearly, hturn⟩ | ⟨-, hturn⟩⟩
  · simp [hturn] at h
  · rw [hturn] at h
    exact .inl (measure_of_earlyTurn (hearly.trans (congrArg some h))).2
  · rw [hturn] at h
    cases hnode : t.node? (dir ++ [piece]) with
    | none => simp [hnode, nodeTurn] at h
    | some node =>
      cases node with
      | directory => simp_all [nodeTurn]
      | file content => simp_all [nodeTurn]
      | link target =>
        by_cases hrest : rest = []
        · simp [hnode, nodeTurn, hrest] at h
        · cases links with
          | zero => simp [hnode, nodeTurn, hrest] at h
          | succ links =>
            simp only [hnode, nodeTurn, hrest, false_and, if_false, Turn.onward.injEq] at h
            exact .inr ⟨hrest, target, h.2.2.symm⟩

theorem nodeTurn_vacant {links : Nat} {at_ dir : Location} {piece name : String}
    {rest : List String} {node : Option Node}
    (h : nodeTurn .entry links at_ piece rest node = .ended (.ok (.vacant dir name))) :
    rest = [] ∧ name = piece := by
  cases node with
  | none =>
    by_cases hrest : rest = []
    · simp only [nodeTurn, hrest, if_true, Turn.ended.injEq, Except.ok.injEq,
        Place.vacant.injEq] at h
      exact ⟨hrest, h.2.symm⟩
    · simp [nodeTurn, hrest] at h
  | some node =>
    cases node with
    | directory => simp [nodeTurn] at h
    | file content => simp [nodeTurn] at h
    | link target =>
      by_cases hrest : rest = []
      · simp [nodeTurn, hrest] at h
      · cases links <;> simp [nodeTurn, hrest] at h

/-- Where a path to an entry leads to a vacant place, the name there is the last piece. -/
theorem getLast?_of_vacant {t : Tree} {links : Nat} {at_ dir : Location} {pieces : List String}
    {name : String} :
    t.resolve .entry links at_ pieces = .ok (.vacant dir name) →
      name ≠ "" ∧ pieces.getLast? = some name := by
  induction links, at_, pieces using resolve_ind t .entry with
  | nil links at_ =>
    intro h
    rw [resolve_nil] at h
    split at h
    · cases h
    · cases h
  | cons links at_ piece rest ih =>
    intro h
    rw [resolve_cons] at h
    cases hturn : t.turn .entry links at_ piece rest with
    | onward links' dir' pieces =>
      rw [hturn] at h
      obtain ⟨hne, hlast⟩ := ih links' dir' pieces hturn h
      -- a link in last place is not followed, so the last piece stays the last one
      have hrest : rest.getLast? = some name := by
        rcases pieces_of_turn_entry hturn with rfl | ⟨hrest, target, rfl⟩
        · exact hlast
        · rw [List.getLast?_append, List.getLast?_eq_some_getLast hrest, Option.some_or] at hlast
          rw [List.getLast?_eq_some_getLast hrest, hlast]
      exact ⟨hne, by rw [List.getLast?_cons, hrest, Option.getD_some]⟩
    | ended outcome =>
      rw [hturn] at h
      have h : outcome = .ok (.vacant dir name) := h
      rcases t.turn_cases .entry links at_ piece rest with
        ⟨-, hnow⟩ | ⟨-, ⟨turn, hearly, hnow⟩ | ⟨hearly, hnow⟩⟩
      · rw [hturn, h] at hnow
        cases hnow
      · rw [← hnow, hturn, h] at hearly
        exact absurd hearly earlyTurn_ended
      · rw [hturn, h] at hnow
        obtain ⟨rfl, rfl⟩ := nodeTurn_vacant hnow.symm
        refine ⟨?_, rfl⟩
        rintro rfl
        rw [earlyTurn, if_pos (.inl rfl)] at hearly
        cases hearly

/-- The second tree is the first one with some new directories where nothing was.  Their names are
among the given ones. -/
structure Sprouts (names : List String) (t u : Tree) : Prop where
  /-- The working directory is the same. -/
  here : u.here = t.here
  /-- A place holds what it held, or a new directory. -/
  places : ∀ location, u.node? location = t.node? location ∨
    (t.node? location = none ∧ u.node? location = some .directory) ∧
      ∃ name ∈ names, name ≠ "" ∧ location.getLast? = some name
  /-- The tree is still well formed. -/
  wf : t.WellFormed → u.WellFormed

namespace Sprouts

variable {names names' : List String} {t u v : Tree}

theorem refl (names : List String) (t : Tree) : Sprouts names t t := ⟨rfl, fun _ => .inl rfl, id⟩

theorem trans (h : Sprouts names t u) (h' : Sprouts names u v) : Sprouts names t v := by
  refine ⟨h'.here.trans h.here, fun location => ?_, fun wf => h'.wf (h.wf wf)⟩
  rcases h'.places location with hv | ⟨⟨hu, hv⟩, hname⟩
  · rw [hv]
    exact h.places location
  · rcases h.places location with ht | ⟨⟨ht, -⟩, -⟩
    · exact .inr ⟨⟨ht.symm.trans hu, hv⟩, hname⟩
    · exact .inr ⟨⟨ht, hv⟩, hname⟩

theorem mono (h : Sprouts names t u) (hnames : ∀ name ∈ names, name ≠ "" → name ∈ names') :
    Sprouts names' t u :=
  ⟨h.here, fun location => (h.places location).imp_right fun ⟨hnew, name, hname, hne, hlast⟩ =>
    ⟨hnew, name, hnames name hname hne, hne, hlast⟩, h.wf⟩

theorem grows (h : Sprouts names t u) : Grows t u := by
  refine ⟨⟨h.here, fun location node hnode => ?_, fun location target hlink => ?_⟩, h.wf⟩
  · rcases h.places location with hu | ⟨⟨hnone, -⟩, -⟩
    · exact hu.trans hnode
    · rw [hnode] at hnone
      cases hnone
  · rcases h.places location with hu | ⟨⟨-, hu⟩, -⟩
    · exact hu.symm.trans hlink
    · rw [hlink] at hu
      cases hu

/-- At other names nothing is new. -/
theorem node?_concat (h : Sprouts names t u) {name : String} (hname : name ∉ names)
    (dir : Location) : u.node? (dir ++ [name]) = t.node? (dir ++ [name]) := by
  rcases h.places (dir ++ [name]) with hu | ⟨-, other, hother, -, hlast⟩
  · exact hu
  · rw [List.getLast?_concat] at hlast
    injection hlast with hlast
    exact absurd (hlast ▸ hother) hname

end Sprouts

theorem sprouts_makeDirectory {t u : Tree} {p : Path} (h : t.makeDirectory p = .ok u) :
    Sprouts p.pieces t u := by
  have grows := grows_makeDirectory h
  rw [makeDirectory] at h
  split at h
  · next dir name hfollow =>
    injection h with h
    subst h
    have hresolve := resolve_of_follow hfollow
    obtain ⟨hne, hlast⟩ := getLast?_of_vacant hresolve
    have hname : name ∈ p.pieces := List.mem_reverse.1
      ((List.dropWhile_suffix _).subset (List.mem_reverse.1 (List.mem_of_getLast? hlast)))
    refine ⟨rfl, fun location => ?_, grows.2⟩
    rw [node?_put (List.concat_ne_nil _ _)]
    split
    · next hlocation =>
      subst hlocation
      exact .inr ⟨⟨(holds_of_resolve hresolve).2, rfl⟩, name, hname, hne, List.getLast?_concat⟩
    · exact .inl rfl
  · cases h
  · cases h

/-- A directory that cannot be made is there, or this is the end. -/
theorem after_excused (t : Tree) (p : Path) (trouble : Trouble) :
    Task.after (do
      if (← get).isDirectory p then return else throw trouble : Task Trouble Tree Unit) t = t := by
  rw [Task.after_get_bind]
  split <;> rfl

/-- What making one of the directories does, making them all does, also in vain. -/
theorem after_makeDirectories {R : Tree → Tree → Prop} (refl : ∀ t, R t t)
    (trans : ∀ {t u v}, R t u → R u v → R t v) (paths : List Path)
    (made : ∀ p ∈ paths, ∀ {t u : Tree}, t.makeDirectory p = .ok u → R t u) (t : Tree) :
    R t ((makeDirectories paths).after t) := by
  induction paths generalizing t with
  | nil => exact refl t
  | cons p above ih =>
    have first : ∀ {u v : Tree}, u.makeDirectory p = .ok v → R u v := made p List.mem_cons_self
    rw [makeDirectories]
    split
    · exact refl t
    rw [Task.after_get_bind]
    cases hmade : t.makeDirectory p with
    | ok u => exact first hmade
    | error trouble =>
      by_cases htrouble : trouble = .notFound
      · subst htrouble
        refine Task.after_bind (R := R) trans
          (ih (fun q hq => made q (List.mem_cons_of_mem _ hq)) t) fun _ u _ => ?_
        rw [Task.after_get_bind]
        cases hagain : u.makeDirectory p with
        | ok v => exact first hagain
        | error trouble =>
          dsimp only
          rw [after_excused]
          exact refl u
      · have hexcused : R t (Task.after (do
            if (← get).isDirectory p then return else throw trouble : Task Trouble Tree Unit) t) := by
          rw [after_excused]
          exact refl t
        cases trouble with
        | notFound => exact absurd rfl htrouble
        | _ => exact hexcused

theorem after_ensureDirectory {R : Tree → Tree → Prop} (refl : ∀ t, R t t)
    (trans : ∀ {t u v}, R t u → R u v → R t v) (p : Path)
    (made : ∀ q ∈ p :: p.ancestors, ∀ {t u : Tree}, t.makeDirectory q = .ok u → R t u) (t : Tree) :
    R t ((ensureDirectory p).after t) := by
  rw [ensureDirectory, Task.after_get_bind]
  split
  · exact refl t
  · rw [Task.after_within]
    exact after_makeDirectories refl trans (p :: p.ancestors) made t

/-- Ensuring a directory, also in vain, adds at most directories on the way to it. -/
theorem sprouts_ensureDirectory (p : Path) (t : Tree) :
    Sprouts p.pieces t ((ensureDirectory p).after t) := by
  refine after_ensureDirectory (Sprouts.refl _) Sprouts.trans p (fun q hq _ _ hmade => ?_) t
  refine (sprouts_makeDirectory hmade).mono fun name hname hne => ?_
  rcases List.mem_cons.1 hq with rfl | hq
  · exact hname
  · exact Path.mem_pieces_of_mem_places (List.mem_of_mem_drop hq) hname hne

/-! ## Paths above a file -/

/-- A path that is refused before it is followed is not refused because something is missing. -/
theorem makeDirectory_of_not_followable {p : Path} (h : ¬ Followable p) (hne : p.text ≠ "")
    (t : Tree) : ∃ trouble, trouble ≠ .notFound ∧ t.makeDirectory p = .error trouble := by
  by_cases hnul : p.text.toList.contains '\x00' = true
  · exact ⟨.badName, by simp, by simp only [makeDirectory, follow, hne, hnul, if_true, if_false]⟩
  · have hlong : pathLimit < p.text.utf8ByteSize :=
      Nat.lt_of_not_le fun hshort => h ⟨hne, hnul, hshort⟩
    exact ⟨.nameTooLong, by simp,
      by simp only [makeDirectory, follow, hne, hnul, hlong, Bool.false_eq_true, if_true, if_false]⟩

theorem after_ensureDirectory_of_not_followable {p : Path} (h : ¬ Followable p) (t : Tree) :
    (ensureDirectory p).after t = t := by
  rw [ensureDirectory, Task.after_get_bind]
  split
  · rfl
  rw [Task.after_within]
  show (makeDirectories (p :: p.ancestors)).after t = t
  rw [makeDirectories]
  split
  · rfl
  next hne =>
  obtain ⟨trouble, htrouble, hmade⟩ := makeDirectory_of_not_followable h hne t
  rw [Task.after_get_bind, hmade]
  cases trouble with
  | notFound => exact absurd rfl htrouble
  | _ => exact after_excused t p _

section Above

variable {t u : Tree} {p q d : Path} {front : List String} {dir : Location} {name text : String}

/-- A path with which another one begins leads to the directory of that one's name, or it is too
long.  In both cases nothing is created for it. -/
theorem after_ensureDirectory_of_begins (begins : Begins q p front)
    (hfront : t.resolve .node linkLimit (t.startOf p) front = .ok (.taken dir .directory)) :
    (ensureDirectory q).after t = t := by
  by_cases followable : Followable q
  · have hfind := find?_of_begins begins followable hfront
    exact Task.after_of_ok (ensureDirectory_of_reaches (.inr (reaches_iff.2 ⟨_, _, hfind⟩)))
  · exact after_ensureDirectory_of_not_followable followable t

/-- For a file below a directory that is there, no directory is created. -/
theorem LeadsTo.after_ensureDirectory (leads : t.LeadsTo d dir) (wf : t.WellFormed)
    (plain : Plain name) : (ensureDirectory (holder (d.child name))).after t = t := by
  obtain ⟨front, ends, -⟩ := begins_child d plain
  exact after_ensureDirectory_of_begins (begins_holder ends.pieces ends.plain.not_idle)
    (leads.resolve_front wf ends)

theorem LeadsTo.after_ensureDirectory_parent (leads : t.LeadsTo d dir) (wf : t.WellFormed)
    (plain : Plain name) {above : Path} (hparent : (d.child name).parent? = some above) :
    (ensureDirectory above).after t = t := by
  by_cases hempty : above.text = ""
  · exact Task.after_of_ok (ensureDirectory_of_reaches (.inl hempty))
  · have hholder := leads.after_ensureDirectory wf plain
    rw [holder, hparent] at hholder
    dsimp only at hholder
    rwa [if_neg hempty] at hholder

/-! ## Files that cannot be written -/

/-- Writing a text fails while directories are created, or when the file cannot be filled. -/
theorem writeText_error {failure : WriteFailure} (h : writeText p text t = .error failure u) :
    u = t ∨ ∃ above, p.parent? = some above ∧ u = (ensureDirectory above).after t := by
  rw [writeText] at h
  cases hparent : p.parent? with
  | none =>
    rw [hparent] at h
    dsimp only at h
    rw [Task.get_bind] at h
    cases hfill : t.fill p text.toUTF8 with
    | ok filled =>
      rw [hfill] at h
      cases h
    | error trouble =>
      rw [hfill] at h
      cases h
      exact .inl rfl
  | some above =>
    rw [hparent] at h
    refine .inr ⟨above, rfl, ?_⟩
    rcases Task.bind_eq_error.1 h with h | ⟨_, v, hensure, h⟩
    · exact (Task.after_of_error h).symm
    rw [Task.after_of_ok hensure]
    dsimp only at h
    rw [Task.get_bind] at h
    cases hfill : v.fill p text.toUTF8 with
    | ok filled =>
      rw [hfill] at h
      cases h
    | error trouble =>
      rw [hfill] at h
      cases h
      rfl

theorem sprouts_of_writeText_error {failure : WriteFailure}
    (h : writeText p text t = .error failure u) : ∃ names, Sprouts names t u := by
  rcases writeText_error h with rfl | ⟨above, -, rfl⟩
  · exact ⟨[], .refl _ u⟩
  · exact ⟨_, sprouts_ensureDirectory above t⟩

/-- A text that cannot be written below a directory that is there leaves no trace. -/
theorem LeadsTo.writeText_error (leads : t.LeadsTo d dir) (wf : t.WellFormed) (plain : Plain name)
    {failure : WriteFailure} (h : writeText (d.child name) text t = .error failure u) : u = t := by
  rcases Tree.writeText_error h with hu | ⟨above, hparent, rfl⟩
  · exact hu
  · exact leads.after_ensureDirectory_parent wf plain hparent

/-- A text that cannot be replaced leaves no trace but the directories above it, since its temporary
file is removed. -/
theorem replaceText_error (wf : t.WellFormed) {failure : WriteFailure}
    (h : replaceText p text t = .error failure u) : u = (ensureDirectory (holder p)).after t := by
  rw [replaceText] at h
  rcases Task.bind_eq_error.1 h with hfails | ⟨_, v, hensure, hrest⟩
  · exact (Task.after_of_error hfails).symm
  rw [Task.after_of_ok hensure]
  have wf' : v.WellFormed := (grows_ensureDirectory hensure).2 wf
  rw [Task.get_bind] at hrest
  cases htemporary : v.temporary (holder p) with
  | error trouble =>
    rw [htemporary] at hrest
    cases hrest
    rfl
  | ok source =>
    rw [htemporary] at hrest
    obtain ⟨directory, -, rfl⟩ := temporary_ok htemporary
    rcases Task.bind_eq_error.1 hrest with hmodify | ⟨_, filled, hfill, hmoved⟩
    · cases hmodify
    rw [← Task.modify_eq_ok.1 hfill, Task.get_bind] at hmoved
    cases hrename : (v.put (directory ++ [v.freshName]) (.file text.toUTF8)).rename
        (directory ++ [v.freshName]) p with
    | ok renamed =>
      rw [hrename] at hmoved
      cases hmoved
    | error trouble =>
      rw [hrename] at hmoved
      cases hmoved
      exact erase_put_fresh wf' directory _

theorem sprouts_of_replaceText_error (wf : t.WellFormed) {failure : WriteFailure}
    (h : replaceText p text t = .error failure u) : ∃ names, Sprouts names t u := by
  rw [replaceText_error wf h]
  exact ⟨_, sprouts_ensureDirectory (holder p) t⟩

theorem LeadsTo.replaceText_error (leads : t.LeadsTo d dir) (wf : t.WellFormed) (plain : Plain name)
    {failure : WriteFailure} (h : replaceText (d.child name) text t = .error failure u) : u = t :=
  (Tree.replaceText_error wf h).trans (leads.after_ensureDirectory wf plain)

/-! ## Files that are written -/

/-- Where a text was written below a path that led anywhere, the path leads to a directory. -/
theorem exists_leadsTo (there : d.text = "" ∨ t.reaches d = true) (plain : Plain name)
    (short : ¬ nameLimit < name.utf8ByteSize) (h : writeText (d.child name) text t = .ok () u) :
    ∃ dir, t.LeadsTo d dir := by
  obtain ⟨front, ends, -⟩ := begins_child d plain
  obtain ⟨v, habove, hfill⟩ := writeText_ok h
  have keeps : Keeps t v := by
    rcases habove with ⟨-, rfl⟩ | ⟨above, -, hensure⟩
    · exact .refl v
    · exact (grows_ensureDirectory hensure).1.keeps
  obtain ⟨place, location, hlocate, -⟩ := fill_ok hfill
  have hresolve := resolve_of_follow hlocate
  rw [ends.pieces] at hresolve
  obtain ⟨dir, hdir⟩ := exists_directory_of_append (further_of_plain plain) hresolve
  have entry : EntryAt v (d.child name) front dir name :=
    ⟨ends, short, followable_of_ok hlocate, hdir⟩
  exact ⟨dir, entry.leadsTo.before keeps there⟩

end Above

end Tree

section Rooms

variable {root : Path} {dir : Location} {t u : Tree} {name text : String}

/-- A text is written below a directory where no link stands: into the file of this name. -/
theorem Room.writeText_ok (room : Room root dir t) (plain : Plain name)
    (short : ¬ Tree.nameLimit < name.utf8ByteSize)
    (unlinked : ∀ target, t.node? (dir ++ [name]) ≠ some (.link target))
    (h : Tree.writeText (root.child name) text t = .ok () u) :
    t.node? (dir ++ [name]) ≠ some .directory ∧ u = t.put (dir ++ [name]) (.file text.toUTF8) := by
  obtain ⟨front, ends, -⟩ := begins_child root plain
  obtain ⟨v, habove, hfill⟩ := Tree.writeText_ok h
  have hv : v = t := by
    rcases habove with ⟨-, hv⟩ | ⟨above, hparent, hensure⟩
    · exact hv
    · rw [← Task.after_of_ok hensure]
      exact room.leads.after_ensureDirectory_parent room.wf plain hparent
  subst hv
  obtain ⟨place, location, hlocate, -⟩ := Tree.fill_ok hfill
  have entry := room.leads.entryAt room.wf ends short (Tree.followable_of_ok hlocate)
  have hdir : v.node? (dir ++ [name]) ≠ some .directory := by
    intro hdir
    rw [Tree.fill, entry.locate (.inr unlinked), Tree.placeOf_of_node hdir] at hfill
    cases hfill
  refine ⟨hdir, ?_⟩
  have hwritten := (entry.writeText hdir unlinked text).symm.trans h
  injection hwritten with _ hu
  exact hu.symm

/-- What replacing a text leaves, also if it fails: the text, or the tree as it was. -/
theorem Room.after_replaceText (room : Room root dir t) (plain : Plain name) (text : String) :
    (Tree.replaceText (root.child name) text).after t = t ∨
      (Tree.replaceText (root.child name) text).after t =
        t.put (dir ++ [name]) (.file text.toUTF8) := by
  cases h : Tree.replaceText (root.child name) text t with
  | ok _ u =>
    rw [Task.after_of_ok h]
    exact .inr ((room.replaceText_iff plain).1 h).2
  | error failure u =>
    rw [Task.after_of_error h]
    exact .inl (room.leads.replaceText_error room.wf plain h)

/-- Below a path that leads to something else than a directory, no text is replaced. -/
theorem sprouts_after_replaceText (wf : t.WellFormed)
    (there : root.text = "" ∨ t.reaches root = true) (nowhere : ∀ dir, ¬ t.LeadsTo root dir)
    (plain : Plain name) (text : String) :
    ∃ names, Tree.Sprouts names t ((Tree.replaceText (root.child name) text).after t) := by
  cases h : Tree.replaceText (root.child name) text t with
  | ok _ u =>
    obtain ⟨dir, room⟩ := exists_room wf there plain h
    exact absurd room.leads (nowhere dir)
  | error failure u =>
    rw [Task.after_of_error h]
    exact Tree.sprouts_of_replaceText_error wf h

end Rooms

end BuildMatrix
