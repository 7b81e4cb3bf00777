import BuildMatrix.Proofs.Tree.Spelling
import BuildMatrix.Proofs.Tree.Writing

/-!
# Where the beginning of a path leads

Two spellings of a path lead to the same directory (`directory?_of_components`), and
idle pieces at the end do not count either.  So a path with which another one begins
leads to the directory of that one's entry (`find?_of_begins`).  The names below a path
stand in the directory to which the path leads (`LeadsTo`), and so they are entries of
this directory (`LeadsTo.entryAt`).

A directory that was ensured is there (`reaches_of_ensureDirectory`), and ensuring
what is there changes nothing.
-/

namespace BuildMatrix

open BuildMatrix.Path (Begins)

namespace Tree

/-! ## Beginnings of paths -/

theorem followable_of_begins {q p : Path} {front : List String} (begins : Begins q p front)
    (h : Followable p) : Followable q := by
  refine ⟨begins.not_empty, ?_, ?_⟩
  · rcases begins.text with ⟨rest, hrest⟩ | ⟨hhere, -⟩
    · intro hnul
      refine h.no_nul ?_
      rw [hrest, String.toList_append, List.contains_iff_mem]
      exact List.mem_append_left _ (List.contains_iff_mem.1 hnul)
    · rw [hhere]
      decide
  · rcases begins.text with ⟨rest, hrest⟩ | ⟨hhere, -⟩
    · have hshort := h.short
      rw [hrest, String.utf8ByteSize_append] at hshort
      omega
    · rw [hhere]
      decide

theorem startOf_of_begins {q p : Path} {front : List String} (begins : Begins q p front) (t : Tree) :
    t.startOf q = t.startOf p := by
  rw [startOf, startOf, begins.isAbsolute]

theorem find?_eq_some_iff {t : Tree} {q : Path} {location : Location} {node : Node} :
    t.find? q = some (location, node) ↔ t.locate .node q = .ok (.taken location node) := by
  unfold find?
  constructor
  · intro h
    split at h
    · next hlocate =>
      cases h
      exact hlocate
    · cases h
  · intro h
    rw [h]

section Entries

variable {t u : Tree} {q p : Path} {front : List String} {dir : Location} {name : String}

/-- The beginning of a path leads to the directory of its entry. -/
theorem find?_of_begins (begins : Begins q p front) (followable : Followable q)
    (hfront : t.resolve .node linkLimit (t.startOf p) front = .ok (.taken dir .directory)) :
    t.find? q = some (dir, .directory) := by
  rw [find?_eq_some_iff, locate, follow_of_followable followable, startOf_of_begins begins]
  exact (resolve_of_sameWay begins.way).2 hfront

theorem find?_holder (entry : EntryAt t p front dir name) :
    t.find? (holder p) = some (dir, .directory) :=
  have begins := begins_holder entry.ends.pieces entry.ends.plain.not_idle
  find?_of_begins begins (followable_of_begins begins entry.followable) entry.front

end Entries

/-- What a path leads to is kept, a file with any content. -/
theorem Keeps.find? {t u : Tree} (keeps : Keeps t u) {q : Path} {location : Location} {node : Node}
    (h : t.find? q = some (location, node)) :
    ∃ node', u.find? q = some (location, node') ∧ Alike node node' := by
  rw [find?_eq_some_iff] at h
  obtain ⟨node', -, halike, hresolve⟩ := keeps.resolve_taken (resolve_of_follow h)
  refine ⟨node', ?_, halike⟩
  rw [find?_eq_some_iff, locate, follow_of_followable (followable_of_ok h),
    startOf_of_here keeps.here]
  exact hresolve

theorem directory?_eq_some_iff {t : Tree} {q : Path} {dir : Location} :
    t.directory? q = some dir ↔ t.find? q = some (dir, .directory) := by
  unfold directory?
  constructor
  · intro h
    split at h
    · next location hfind =>
      injection h with h
      rw [hfind, h]
    · cases h
  · intro h
    rw [h]

/-- Two spellings of one path lead to the same directory. -/
theorem directory?_of_components (t : Tree) {p q : Path} (hp : Followable p) (hq : Followable q)
    (h : p.components = q.components) : t.directory? p = t.directory? q := by
  obtain ⟨hlead, hsteps⟩ := Path.components_eq_iff.1 h
  have hstart : t.startOf p = t.startOf q := by
    have habsolute : p.isAbsolute = true ↔ q.isAbsolute = true := by
      rw [Path.isAbsolute_iff, Path.isAbsolute_iff, hlead]
    rw [startOf, startOf, Bool.eq_iff_iff.2 habsolute]
  refine Option.ext fun dir => ?_
  rw [directory?_eq_some_iff, directory?_eq_some_iff, find?_eq_some_iff, find?_eq_some_iff, locate,
    locate, follow_of_followable hp, follow_of_followable hq, hstart]
  exact resolve_of_steps hsteps

/-- A path that is one name, from the root directory on, leads to the directory of this name. -/
theorem directory?_of_steps {t : Tree} {p : Path} {name : String} (followable : Followable p)
    (start : t.startOf p = []) (hsteps : p.steps = [.name name]) (proper : Path.Proper name)
    (short : ¬ nameLimit < name.utf8ByteSize) (hnode : t.node? [name] = some .directory) :
    t.directory? p = some [name] := by
  have hname : [name].filterMap Path.component? = [.name name] := by
    rw [List.filterMap_cons_some (Path.component?_of_proper proper), List.filterMap_nil]
  have hsame : p.pieces.filterMap Path.component? = [name].filterMap Path.component? :=
    hsteps.trans hname.symm
  rw [directory?_eq_some_iff, find?_eq_some_iff, locate, follow_of_followable followable, start,
    resolve_of_steps hsame, resolve_down proper short rfl hnode, resolve_nil, List.nil_append, hnode]

theorem Within.find? {t u : Tree} (within : Within t u) {q : Path} {dir : Location}
    (h : t.find? q = some (dir, .directory)) : u.find? q = some (dir, .directory) := by
  rw [find?_eq_some_iff] at h ⊢
  rw [locate, follow_of_followable (followable_of_ok h), startOf_of_here within.here]
  exact within.resolve (resolve_of_follow h)

theorem Within.directory? {t u : Tree} (within : Within t u) {q : Path} {dir : Location}
    (h : t.directory? q = some dir) : u.directory? q = some dir := by
  rw [directory?_eq_some_iff] at h ⊢
  exact within.find? h

/-- Between two trees in which a path leads to the same directory it leads there as well. -/
theorem Within.directory?_between {t u v : Tree} (lower : Within t u) (upper : Within u v) {q : Path}
    (h : t.directory? q = v.directory? q) : u.directory? q = v.directory? q := by
  refine Option.ext fun dir => ⟨upper.directory?, fun hdir => ?_⟩
  rw [← h] at hdir
  exact lower.directory? hdir

theorem reaches_iff {t : Tree} {q : Path} :
    t.reaches q = true ↔ ∃ location node, t.find? q = some (location, node) := by
  unfold reaches
  rw [Option.isSome_iff_exists]
  exact ⟨fun ⟨found, h⟩ => ⟨found.1, found.2, h⟩, fun ⟨location, node, h⟩ => ⟨(location, node), h⟩⟩

theorem Keeps.reaches {t u : Tree} (keeps : Keeps t u) {q : Path} (h : t.reaches q = true) :
    u.reaches q = true := by
  obtain ⟨location, node, hfind⟩ := reaches_iff.1 h
  obtain ⟨node', hfind', -⟩ := keeps.find? hfind
  exact reaches_iff.2 ⟨location, node', hfind'⟩

/-! ## Names below a path -/

/-- The names below a path stand in a directory.  Those below the empty path stand in the working
directory. -/
def LeadsTo (t : Tree) (d : Path) (dir : Location) : Prop :=
  t.find? d = some (dir, .directory) ∨ d.text = "" ∧ dir = t.here

theorem not_empty_of_find? {t : Tree} {d : Path} {location : Location} {node : Node}
    (h : t.find? d = some (location, node)) : d.text ≠ "" :=
  (followable_of_ok (find?_eq_some_iff.1 h)).not_empty

theorem startOf_child {t : Tree} {d : Path} {name : String} (plain : Plain name) (h : d.text = "") :
    t.startOf (d.child name) = t.here := by
  have htext : d.child name = ⟨name⟩ := by
    rw [Path.child, Path.join, if_neg (Path.not_isAbsolute_of_single plain.single),
      if_pos (.inl h), h, String.empty_append]
  rw [startOf, htext, if_neg (Path.not_isAbsolute_of_single plain.single)]

theorem EntryAt.leadsTo {t : Tree} {d : Path} {front : List String} {dir : Location} {name : String}
    (entry : EntryAt t (d.child name) front dir name) : t.LeadsTo d dir := by
  obtain ⟨front', ends, hfront⟩ := begins_child d entry.ends.plain
  have heq : front' = front :=
    (List.append_inj' (ends.pieces.symm.trans entry.ends.pieces) rfl).1
  subst heq
  rcases hfront with ⟨hempty, rfl⟩ | begins
  · -- nothing comes before the name, so the directory is where the path starts
    have hstart := entry.front
    rw [resolve_nil, startOf_child entry.ends.plain hempty] at hstart
    split at hstart
    · injection hstart with hstart
      injection hstart with hdir _
      exact .inr ⟨hempty, hdir.symm⟩
    · cases hstart
  · exact .inl (find?_of_begins begins (followable_of_begins begins entry.followable) entry.front)

namespace LeadsTo

variable {t u : Tree} {d : Path} {dir : Location}

/-- The pieces before a name below a path lead where the path leads. -/
theorem resolve_front (leads : t.LeadsTo d dir) (wf : t.WellFormed) {front : List String}
    {name : String} (ends : EndsIn (d.child name) front name) :
    t.resolve .node linkLimit (t.startOf (d.child name)) front = .ok (.taken dir .directory) := by
  obtain ⟨front', ends', hfront⟩ := begins_child d ends.plain
  have heq : front' = front := (List.append_inj' (ends'.pieces.symm.trans ends.pieces) rfl).1
  subst heq
  rcases hfront with ⟨hempty, rfl⟩ | begins
  · obtain hfind | ⟨-, rfl⟩ := leads
    · exact absurd hempty (not_empty_of_find? hfind)
    · rw [resolve_nil, startOf_child ends.plain hempty, wf.here]
  · obtain hfind | ⟨hempty, -⟩ := leads
    · have hresolve := resolve_of_follow (find?_eq_some_iff.1 hfind)
      rw [startOf_of_begins begins] at hresolve
      exact (resolve_of_sameWay begins.way).1 hresolve
    · exact absurd hempty begins.not_empty

theorem entryAt (leads : t.LeadsTo d dir) (wf : t.WellFormed) {front : List String} {name : String}
    (ends : EndsIn (d.child name) front name) (short : ¬ nameLimit < name.utf8ByteSize)
    (followable : Followable (d.child name)) : EntryAt t (d.child name) front dir name :=
  ⟨ends, short, followable, leads.resolve_front wf ends⟩

theorem within (leads : t.LeadsTo d dir) (within : Within t u) : u.LeadsTo d dir :=
  leads.imp within.find? fun ⟨hempty, hdir⟩ => ⟨hempty, hdir.trans within.here.symm⟩

theorem there (leads : t.LeadsTo d dir) : d.text = "" ∨ t.reaches d = true :=
  leads.elim (fun hfind => .inr (reaches_iff.2 ⟨_, _, hfind⟩)) fun hempty => .inl hempty.1

theorem unique {dir' : Location} (leads : t.LeadsTo d dir) (leads' : t.LeadsTo d dir') :
    dir' = dir := by
  rcases leads with hfind | ⟨hempty, rfl⟩
  · rcases leads' with hfind' | ⟨hempty, -⟩
    · rw [hfind] at hfind'
      cases hfind'
      rfl
    · exact absurd hempty (not_empty_of_find? hfind)
  · rcases leads' with hfind' | ⟨-, hdir⟩
    · exact absurd hempty (not_empty_of_find? hfind')
    · exact hdir

theorem before (leads : u.LeadsTo d dir) (keeps : Keeps t u)
    (h : d.text = "" ∨ t.reaches d = true) : t.LeadsTo d dir := by
  rcases leads with hfind | ⟨hempty, rfl⟩
  · obtain ⟨location, node, hbefore⟩ := reaches_iff.1 (h.resolve_left (not_empty_of_find? hfind))
    obtain ⟨node', hafter, halike⟩ := keeps.find? hbefore
    rw [hfind] at hafter
    cases hafter
    rcases halike with rfl | ⟨-, -, ⟨⟩⟩
    exact .inl hbefore
  · exact .inr ⟨hempty, keeps.here⟩

end LeadsTo

/-- A path below another one had its entry before, if the other one led anywhere. -/
theorem EntryAt.before {t u : Tree} {d : Path} {front : List String} {dir : Location} {name : String}
    (entry : EntryAt u (d.child name) front dir name) (keeps : Keeps t u) (wf : t.WellFormed)
    (h : d.text = "" ∨ t.reaches d = true) : EntryAt t (d.child name) front dir name :=
  (entry.leadsTo.before keeps h).entryAt wf entry.ends entry.short entry.followable

/-! ## Directories that were ensured -/

/-- A directory at the vacant place to which a path leads is found there. -/
theorem resolve_put_vacant {t : Tree} {dir : Location} {name : String} {links : Nat} {at_ : Location}
    {pieces : List String} :
    t.resolve .entry links at_ pieces = .ok (.vacant dir name) →
      (t.put (dir ++ [name]) .directory).resolve .node links at_ pieces =
        .ok (.taken (dir ++ [name]) .directory) := by
  have hroot : dir ++ [name] ≠ [] := List.concat_ne_nil _ _
  induction links, at_, pieces using resolve_ind t .entry with
  | nil links at_ =>
    intro h
    rw [resolve_nil] at h
    split at h
    · cases h
    · cases h
  | cons links at_ piece rest ih =>
    intro h
    have holds : (Place.vacant dir name).Holds t := holds_of_resolve h
    have extends_ : Extends t (t.put (dir ++ [name]) .directory) :=
      extends_put_of_vacant holds fun _ h => by cases h
    rw [resolve_cons] at h
    rw [resolve_cons]
    rcases t.turn_cases .entry links at_ piece rest with
      ⟨-, hturn⟩ | ⟨hdir, ⟨turn, hnow, hturn⟩ | ⟨hnow, hturn⟩⟩
    · rw [hturn] at h
      cases h
    · -- the piece names nothing, so both resolutions go on alike
      rw [hturn] at h
      rw [turn_of_directory (extends_.nodes _ _ hdir), earlyTurn_entry, hnow, Option.getD_some]
      cases turn with
      | ended outcome =>
        have h : outcome = .ok (.vacant dir name) := h
        subst h
        exact absurd hnow earlyTurn_ended
      | onward links' dir' pieces => exact ih links' dir' pieces hturn h
    · rw [turn_of_directory (extends_.nodes _ _ hdir), earlyTurn_entry, hnow, Option.getD_none]
      by_cases hhere : at_ ++ [piece] = dir ++ [name]
      · -- the place is reached, and nothing is left of the path
        have hnone : t.node? (at_ ++ [piece]) = none := hhere ▸ holds.2
        rw [hturn, hnone] at h
        have h : (if rest = [] then .ok (.vacant at_ piece) else .error .notFound :
          Except Trouble Place) = .ok (.vacant dir name) := h
        split at h
        · next hrest =>
          rw [hhere, node?_put_self hroot, hrest]
          show (t.put (dir ++ [name]) .directory).resolve .node links (at_ ++ [piece]) [] = _
          rw [hhere, resolve_nil, node?_put_self hroot]
        · cases h
      · rw [node?_put_of_ne hroot _ hhere]
        rcases nodeTurn_entry hturn.symm with
          ⟨outcome, hended, hends⟩ | ⟨links', dir', pieces, honward, hnode⟩
        · rw [hended] at h
          exact absurd (hends _ h).symm hhere
        · rw [honward] at h
          rw [hnode]
          exact ih links' dir' pieces honward h

/-- A directory that is made is put where nothing was, and its path leads to it. -/
theorem find?_of_makeDirectory {t t' : Tree} {p : Path} (h : t.makeDirectory p = .ok t') :
    ∃ location, location ≠ [] ∧ t.node? location = none ∧ t' = t.put location .directory ∧
      t'.find? p = some (location, .directory) := by
  unfold makeDirectory at h
  split at h
  · next dir name hfollow =>
    injection h with h
    subst h
    have hvacant := resolve_of_follow hfollow
    have holds : (Place.vacant dir name).Holds t := holds_of_resolve hvacant
    refine ⟨dir ++ [name], List.concat_ne_nil _ _, holds.2, rfl, ?_⟩
    rw [find?_eq_some_iff, locate, follow_of_followable (followable_of_ok hfollow)]
    have hresolve := resolve_put_vacant hvacant
    have hsplit := List.takeWhile_append_dropWhile (p := (· = "")) (l := p.pieces.reverse)
    have hpieces : p.pieces = (p.pieces.reverse.dropWhile (· = "")).reverse ++
        (p.pieces.reverse.takeWhile (· = "")).reverse := by
      rw [← List.reverse_append, hsplit, List.reverse_reverse]
    rw [hpieces, resolve_append_idle]
    · exact hresolve
    · intro i hi
      have hblank := List.all_eq_true.1 (List.all_takeWhile (p := (· = "")) (l := p.pieces.reverse)) i
        (List.mem_reverse.1 hi)
      exact .inl (of_decide_eq_true hblank)
  · cases h
  · cases h

theorem reaches_of_makeDirectory {t t' : Tree} {p : Path} (h : t.makeDirectory p = .ok t') :
    t'.reaches p = true := by
  obtain ⟨location, -, -, -, hfind⟩ := find?_of_makeDirectory h
  exact reaches_iff.2 ⟨location, .directory, hfind⟩

theorem reaches_of_isDirectory {t : Tree} {p : Path} (h : t.isDirectory p = true) :
    t.reaches p = true := by
  obtain ⟨dir, hdir⟩ := Option.isSome_iff_exists.1 h
  exact reaches_iff.2 ⟨dir, .directory, directory?_eq_some_iff.1 hdir⟩

theorem reaches_of_makeDirectories {t t' : Tree} {p : Path} {above : List Path}
    (h : makeDirectories (p :: above) t = .ok () t') : p.text = "" ∨ t'.reaches p = true := by
  obtain ⟨hempty, -⟩ | ⟨u, -, hmade | ⟨hdir, rfl⟩⟩ := makeDirectories_ok h
  · exact .inl hempty
  · exact .inr (reaches_of_makeDirectory hmade)
  · exact .inr (reaches_of_isDirectory hdir)

/-- A directory that was ensured is there, but for the empty path. -/
theorem reaches_of_ensureDirectory {t t' : Tree} {p : Path} (h : ensureDirectory p t = .ok () t') :
    p.text = "" ∨ t'.reaches p = true := by
  unfold ensureDirectory at h
  rw [Task.get_bind] at h
  split at h
  · next hreaches =>
    rw [← (Task.pure_eq_ok.1 h).2]
    exact .inr hreaches
  · obtain ⟨u, hmade, rfl⟩ := Task.within_eq_ok.1 h
    exact reaches_of_makeDirectories hmade

/-- Ensuring what is there changes nothing. -/
theorem ensureDirectory_of_reaches {t : Tree} {p : Path} (h : p.text = "" ∨ t.reaches p = true) :
    ensureDirectory p t = .ok () t := by
  unfold ensureDirectory
  rw [Task.get_bind]
  by_cases hreaches : t.reaches p = true
  · rw [if_pos hreaches]
    rfl
  · rw [if_neg hreaches]
    have hempty : p.text = "" := h.resolve_right hreaches
    have hmade : makeDirectories (p :: p.ancestors) t = .ok () t := by
      unfold makeDirectories
      rw [if_pos hempty]
      rfl
    exact Task.within_eq_ok.2 ⟨t, hmade, rfl⟩

end Tree

end BuildMatrix
