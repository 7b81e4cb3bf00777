import BuildMatrix.Proofs.Tree.Replacement

/-!
# Replacing what is read

A path that leads to something else than a directory ends in a name (`exists_named`).  A
replacement takes the place of a link and not of what the link leads to, so a path may
become its own obstacle.  A path that leads to a file does not.  If it ran through the link
at its own end, this link would lead to a directory, but it leads to the file, and no link
leads to both: where pieces lead does not depend on how many links may still be followed
(`resolve_unique`).

So a text that replaces the file to which a path leads is found there, and when it
replaces itself nothing changes (`replaceText_of_file`).
-/

namespace BuildMatrix.Tree

open BuildMatrix.Path (Proper piece_cases)

/-! ## More links to follow -/

/-- The turn with more links left to follow. -/
def Turn.allow (more : Nat) : Turn → Turn
  | .ended outcome => .ended outcome
  | .onward links dir pieces => .onward (links + more) dir pieces

section Links

variable {t : Tree} {aim : Aim} {links : Nat} {dir : Location} {piece : String} {rest : List String}

theorem earlyTurn_more (more : Nat) :
    earlyTurn aim (links + more) dir piece rest =
      (earlyTurn aim links dir piece rest).map (Turn.allow more) := by
  unfold earlyTurn
  split_ifs
  all_goals rfl

theorem nodeTurn_more (more : Nat) (node : Option Node) :
    nodeTurn aim links dir piece rest node = .ended (.error .tooManyLinks) ∨
      nodeTurn aim (links + more) dir piece rest node =
        (nodeTurn aim links dir piece rest node).allow more := by
  cases node with
  | none => exact .inr rfl
  | some node =>
    cases node with
    | directory => exact .inr rfl
    | file c => exact .inr rfl
    | link target =>
      by_cases hlast : rest = [] ∧ aim = .entry
      · obtain ⟨rfl, rfl⟩ := hlast
        exact .inr rfl
      · rw [nodeTurn_link hlast, nodeTurn_link hlast]
        cases links with
        | zero => exact .inl rfl
        | succ links =>
          rw [Nat.succ_add]
          exact .inr rfl

/-- A turn is the same with more links left, unless there are too many. -/
theorem turn_more (more : Nat) :
    t.turn aim links dir piece rest = .ended (.error .tooManyLinks) ∨
      t.turn aim (links + more) dir piece rest =
        (t.turn aim links dir piece rest).allow more := by
  by_cases hdir : t.node? dir = some .directory
  · rw [turn_of_directory hdir, turn_of_directory hdir, earlyTurn_more more]
    cases earlyTurn aim links dir piece rest with
    | some turn => exact .inr rfl
    | none => exact nodeTurn_more more _
  · rw [turn_of_not_directory hdir, turn_of_not_directory hdir]
    exact .inr rfl

theorem resolve_more (more : Nat) {pieces : List String} {place : Place} :
    t.resolve aim links dir pieces = .ok place →
      t.resolve aim (links + more) dir pieces = .ok place := by
  induction links, dir, pieces using resolve_ind t aim with
  | nil links dir =>
    intro h
    rw [resolve_nil] at h ⊢
    exact h
  | cons links dir piece rest ih =>
    intro h
    rw [resolve_cons] at h
    rw [resolve_cons]
    rcases turn_more (t := t) more with hmany | hmore
    · rw [hmany] at h
      cases h
    · rw [hmore]
      cases hturn : t.turn aim links dir piece rest with
      | ended outcome =>
        rw [hturn] at h
        exact h
      | onward links' dir' pieces =>
        rw [hturn] at h
        exact ih links' dir' pieces hturn h

/-- Pieces lead to one place, however many links may be followed. -/
theorem resolve_unique {links' : Nat} {pieces : List String} {place place' : Place}
    (h : t.resolve aim links dir pieces = .ok place)
    (h' : t.resolve aim links' dir pieces = .ok place') : place = place' := by
  have hmore := resolve_more links' h
  have hmore' := resolve_more links h'
  rw [Nat.add_comm, hmore] at hmore'
  injection hmore'

end Links

/-! ## Paths that end in a name -/

/-- The path ends in a name, which unlike that of an entry may start with a dot, and the pieces before it
lead to a directory. -/
structure NamedIn (t : Tree) (p : Path) (front : List String) (dir : Location) (name : String) :
    Prop where
  /-- The name comes last. -/
  pieces : p.pieces = front ++ [name]
  /-- It is a name. -/
  proper : Proper name
  /-- It is not too long. -/
  short : ¬ nameLimit < name.utf8ByteSize
  /-- Neither is the path, nor is it refused for another reason. -/
  followable : Followable p
  /-- The pieces before the name lead to the directory. -/
  front : t.resolve .node linkLimit (t.startOf p) front = .ok (.taken dir .directory)

namespace NamedIn

variable {t t' : Tree} {p : Path} {front : List String} {dir : Location} {name text : String}

theorem directory (named : NamedIn t p front dir name) : t.node? dir = some .directory :=
  holds_of_resolve named.front

theorem locate (named : NamedIn t p front dir name) {aim : Aim}
    (h : aim = .entry ∨ ∀ target, t.node? (dir ++ [name]) ≠ some (.link target)) :
    t.locate aim p = .ok (t.placeOf dir name) := by
  rw [Tree.locate, follow_of_followable named.followable, named.pieces,
    resolve_concat named.proper h named.front, last, if_neg named.short]

theorem find?_holder (named : NamedIn t p front dir name) :
    t.find? (holder p) = some (dir, .directory) :=
  have begins := begins_holder named.pieces named.proper.not_idle
  find?_of_begins begins (followable_of_begins begins named.followable) named.front

theorem within (named : NamedIn t p front dir name) (h : Within t t') :
    NamedIn t' p front dir name := by
  refine ⟨named.pieces, named.proper, named.short, named.followable, ?_⟩
  rw [startOf_of_here h.here]
  exact h.resolve named.front

/-- A text is replaced where something has the name, unless it is a directory; and only there. -/
theorem replaceText_iff (named : NamedIn t p front dir name) (wf : t.WellFormed) {node : Node}
    (hnode : t.node? (dir ++ [name]) = some node) :
    replaceText p text t = .ok () t' ↔
      node ≠ .directory ∧ t.Roomy p ∧ t' = t.put (dir ++ [name]) (.file text.toUTF8) := by
  have hplace := named.locate (.inl rfl)
  rw [placeOf_of_node hnode, Tree.locate, follow_of_followable named.followable] at hplace
  have keeps : Keeps t (t.put (dir ++ [t.freshName]) (.file text.toUTF8)) :=
    (extends_put_of_vacant ⟨named.directory, t.node?_freshName dir⟩ fun _ h => by cases h).keeps
  obtain ⟨node', -, -, hfilled⟩ := keeps.resolve_taken hplace
  rw [← startOf_of_here keeps.here, ← follow_of_followable named.followable] at hfilled
  have hne : dir ++ [name] ≠ dir ++ [t.freshName] := fun heq => by
    rw [heq, t.node?_freshName] at hnode
    cases hnode
  have hiff := replaceText_iff_of_holder wf named.find?_holder hfilled hne t'
  rw [Place.location, hnode] at hiff
  exact hiff.trans (and_congr_left fun _ => not_congr ⟨Option.some.inj, congrArg some⟩)

/-- A path that no link with its own name has led on to a directory finds a file in the place of this
name. -/
theorem put_file (named : NamedIn t p front dir name)
    (hfree : t.node? (dir ++ [name]) ≠ some .directory)
    (hled : ∀ directory, ¬ t.LedBy (dir ++ [name]) directory) (c : ByteArray) :
    NamedIn (t.put (dir ++ [name]) (.file c)) p front dir name := by
  refine ⟨named.pieces, named.proper, named.short, named.followable, ?_⟩
  exact (resolve_put_directory hfree c named.front).resolve_right fun h => hled _ h.1

end NamedIn

/-! ## Paths that lead to something else than a directory -/

section Ends

variable {t : Tree} {aim : Aim} {links : Nat} {start : Location} {piece : String} {place : Place}

/-- The last piece on the way to something else than a directory is a name. -/
theorem proper_of_place (wf : t.WellFormed) (hstart : t.node? start = some .directory)
    (h : t.resolve aim links start [piece] = .ok place)
    (hfree : t.node? place.location ≠ some .directory) : Proper piece := by
  have ends : ∀ dir, t.node? dir = some .directory → t.resolve aim links dir [] ≠ .ok place := by
    intro dir hdir h
    rw [resolve_nil, hdir] at h
    cases h
    exact hfree hdir
  rcases piece_cases piece with idle | rfl | proper
  · have idle : piece = "" ∨ piece = "." := idle
    rw [resolve_cons, turn_of_directory hstart, earlyTurn, if_pos idle] at h
    exact absurd h (ends start hstart)
  · rw [resolve_up hstart] at h
    exact absurd h (ends _ (wf.above start _ hstart))
  · exact proper

theorem short_of_ok (hstart : t.node? start = some .directory) (proper : Proper piece)
    (h : t.resolve aim links start [piece] = .ok place) : ¬ nameLimit < piece.utf8ByteSize := by
  intro hlong
  have hidle : ¬ (piece = "" ∨ piece = ".") := proper.not_idle
  rw [resolve_cons, turn_of_directory hstart, earlyTurn, if_neg hidle, if_neg proper.not_up,
    if_neg (fun h => h.2.1 rfl), if_pos hlong] at h
  cases h

/-- A path that leads to something else than a directory ends in a name. -/
theorem exists_named {p : Path} (wf : t.WellFormed) (haim : aim ≠ .file)
    (h : t.locate aim p = .ok place) (hfree : t.node? place.location ≠ some .directory) :
    ∃ front dir name left, NamedIn t p front dir name ∧
      t.resolve aim left dir [name] = .ok place := by
  have followable := followable_of_ok h
  rw [locate, follow_of_followable followable] at h
  obtain ⟨front, name, hpieces⟩ := p.exists_last_piece
  have further : Further aim [name] := further_of_not_file haim (List.cons_ne_nil _ _)
  rw [hpieces] at h
  obtain ⟨dir, hfront⟩ := exists_directory_of_append further h
  have hdir : t.node? dir = some .directory := holds_of_resolve hfront
  obtain ⟨left, hleft⟩ := resolve_append hfront
  rw [hleft further] at h
  have proper := proper_of_place wf hdir h hfree
  exact ⟨front, dir, name, left,
    ⟨hpieces, proper, short_of_ok hdir proper h, followable, hfront⟩, h⟩

/-- What a path names is the entry to which it leads, unless that is a directory. -/
theorem exists_named_of_entry {p : Path} (wf : t.WellFormed) (h : t.locate .entry p = .ok place)
    (hfree : t.node? place.location ≠ some .directory) :
    ∃ front dir name, NamedIn t p front dir name ∧ place.location = dir ++ [name] := by
  obtain ⟨front, dir, name, left, named, hlast⟩ := exists_named wf (by decide) h hfree
  rw [resolve_name named.proper named.directory (.inl rfl), last, if_neg named.short] at hlast
  refine ⟨front, dir, name, named, ?_⟩
  rw [← Except.ok.inj hlast, location_placeOf]

end Ends

/-! ## Paths that lead to a file -/

section Files

variable {t t' : Tree} {links : Nat} {start location : Location} {c : ByteArray}

/-- A link that leads to a file leads no path on to a directory. -/
theorem not_ledBy_of_file {target : Path} (hlink : t.node? location = some (.link target))
    {place : Location}
    (h : t.resolve .node links (linkStart location target) target.pieces =
      .ok (.taken place (.file c))) (directory : Location) : ¬ t.LedBy location directory := by
  rintro ⟨target', links', more, hlink', hled⟩
  rw [hlink] at hlink'
  injection hlink' with htarget
  injection htarget with htarget
  subst htarget
  have hdirectory : ∃ d, t.resolve .node links' (linkStart location target) target.pieces =
      .ok (.taken d .directory) := by
    by_cases hmore : more = []
    · rw [hmore, List.append_nil] at hled
      exact ⟨directory, hled⟩
    · exact exists_directory_of_append (further_of_not_file (fun h => by cases h) hmore) hled
  obtain ⟨d, hd⟩ := hdirectory
  cases resolve_unique h hd

/-- A path that leads to a file ends in a name, and what has the name can be replaced. -/
theorem exists_named_of_file {p : Path} (wf : t.WellFormed)
    (h : t.locate .node p = .ok (.taken location (.file c))) :
    ∃ front dir name node, NamedIn t p front dir name ∧ t.node? (dir ++ [name]) = some node ∧
      node ≠ .directory ∧ ∀ directory, ¬ t.LedBy (dir ++ [name]) directory := by
  have hfile : t.node? location = some (.file c) := holds_of_resolve (resolve_of_follow h)
  have hfree : t.node? location ≠ some .directory := by
    rw [hfile]
    exact fun h => by cases h
  obtain ⟨front, dir, name, left, named, hturn⟩ := exists_named wf (by decide) h hfree
  rw [resolve_named named.proper named.short named.directory] at hturn
  cases hnode : t.node? (dir ++ [name]) with
  | none =>
    rw [hnode] at hturn
    cases hturn
  | some node =>
    refine ⟨front, dir, name, node, named, hnode, ?_⟩
    have unled : (∀ target, node ≠ .link target) → ∀ directory, ¬ t.LedBy (dir ++ [name]) directory := by
      rintro hne directory ⟨target, _, _, hlink, -⟩
      rw [hnode] at hlink
      exact hne target (Option.some.inj hlink)
    rw [hnode] at hturn
    cases node with
    | directory =>
      have hturn : t.resolve .node left (dir ++ [name]) [] = .ok (.taken location (.file c)) := hturn
      rw [resolve_nil, hnode] at hturn
      cases hturn
    | file content => exact ⟨fun h => (by cases h), unled fun _ h => by cases h⟩
    | link target =>
      rw [nodeTurn_node_link] at hturn
      cases left with
      | zero => cases hturn
      | succ left =>
        have hlead : t.resolve .node left (linkStart (dir ++ [name]) target) target.pieces =
            .ok (.taken location (.file c)) := by
          rw [linkStart, List.dropLast_concat, ← List.append_nil target.pieces]
          exact hturn
        exact ⟨fun h => (by cases h), not_ledBy_of_file hnode hlead⟩

/-- Where a path leads to a file, a text can be replaced, if there is room for a temporary file. -/
theorem exists_replaceText_of_file {p : Path} (wf : t.WellFormed)
    (h : t.locate .node p = .ok (.taken location (.file c))) (roomy : t.Roomy p) (text : String) :
    ∃ t', replaceText p text t = .ok () t' := by
  obtain ⟨front, dir, name, node, named, hnode, hne, -⟩ := exists_named_of_file wf h
  exact ⟨_, (named.replaceText_iff wf hnode).2 ⟨hne, roomy, rfl⟩⟩

/-- A text that replaces the file to which a path leads is found there, and if it replaces itself,
nothing changes. -/
theorem replaceText_of_file {p : Path} (wf : t.WellFormed)
    (h : t.locate .node p = .ok (.taken location (.file c))) {text : String}
    (replaced : replaceText p text t = .ok () t') :
    (∃ place, t'.locate .node p = .ok (.taken place (.file text.toUTF8))) ∧
      replaceText p text t' = .ok () t' := by
  obtain ⟨front, dir, name, node, named, hnode, hne, hled⟩ := exists_named_of_file wf h
  obtain ⟨-, roomy, rfl⟩ := (named.replaceText_iff wf hnode).1 replaced
  have fits := fits_of_taken wf hnode hne
  have hself := node?_put_self (t := t) fits.not_root (.file text.toUTF8)
  have named' := named.put_file fits.free hled text.toUTF8
  constructor
  · refine ⟨dir ++ [name], ?_⟩
    rw [named'.locate (.inr fun target hlink => ?_), placeOf_of_node hself]
    rw [hself] at hlink
    cases hlink
  · refine (named'.replaceText_iff (fits.wellFormed wf _) hself).2
      ⟨fun h => (by cases h), roomy.of_here rfl, ?_⟩
    exact (put_eq_self fits.not_root hself).symm

end Files

end BuildMatrix.Tree
