import BuildMatrix.Proofs.Path.Lexical
import BuildMatrix.Proofs.Tree.Growth

/-!
# The last name of a path

A path that ends in a name leads to the entry of this name in a directory, the
directory to which the pieces before the name lead.  So what is done to the entry
can be said of a location (`resolve_concat`, `exists_directory_of_append`).
-/

namespace BuildMatrix

open BuildMatrix.Path (Proper proper_of_plain)

namespace Tree

/-- The place of a name in a directory. -/
def placeOf (t : Tree) (dir : Location) (name : String) : Place :=
  match t.node? (dir ++ [name]) with
  | none => .vacant dir name
  | some node => .taken (dir ++ [name]) node

@[simp] theorem location_placeOf (t : Tree) (dir : Location) (name : String) :
    (t.placeOf dir name).location = dir ++ [name] := by
  unfold placeOf
  split
  · rfl
  · rfl

theorem placeOf_of_node {t : Tree} {dir : Location} {name : String} {node : Node}
    (h : t.node? (dir ++ [name]) = some node) :
    t.placeOf dir name = .taken (dir ++ [name]) node := by
  rw [placeOf, h]

theorem node?_of_placeOf {t : Tree} {dir location : Location} {name : String} {node : Node}
    (h : t.placeOf dir name = .taken location node) : t.node? (dir ++ [name]) = some node := by
  unfold placeOf at h
  split at h
  · cases h
  · next found hfound =>
    injection h with _ hnode
    rw [hfound, hnode]

/-- The place of a name in a directory, if the name is not too long. -/
def last (t : Tree) (dir : Location) (name : String) : Except Trouble Place :=
  if nameLimit < name.utf8ByteSize then .error .nameTooLong else .ok (t.placeOf dir name)

section Concat

variable {t : Tree} {aim : Aim} {links : Nat} {dir : Location} {piece : String} {rest : List String}
  {name : String}

theorem resolve_up (hdir : t.node? dir = some .directory) :
    t.resolve aim links dir (".." :: rest) = t.resolve aim links dir.dropLast rest := by
  have hearly : earlyTurn aim links dir ".." rest = some (.onward links dir.dropLast rest) := by
    rw [earlyTurn, if_neg (by decide), if_pos rfl]
  rw [resolve_cons, turn_of_directory hdir, hearly]
  rfl

theorem resolve_named (proper : Proper name) (short : ¬ nameLimit < name.utf8ByteSize)
    (hdir : t.node? dir = some .directory) :
    t.resolve .node links dir (name :: rest) =
      (nodeTurn .node links dir name rest (t.node? (dir ++ [name]))).outcome t .node := by
  have hidle : ¬ (name = "" ∨ name = ".") := proper.not_idle
  have hearly : earlyTurn .node links dir name rest = none := by
    rw [earlyTurn, if_neg hidle, if_neg proper.not_up, if_neg (fun h => by cases h.1), if_neg short]
  rw [resolve_cons, turn_of_directory hdir, hearly]
  rfl

/-- A piece that names a directory leads into it. -/
theorem resolve_down (proper : Proper name) (short : ¬ nameLimit < name.utf8ByteSize)
    (hdir : t.node? dir = some .directory) (hnode : t.node? (dir ++ [name]) = some .directory) :
    t.resolve .node links dir (name :: rest) = t.resolve .node links (dir ++ [name]) rest := by
  rw [resolve_named proper short hdir, hnode]
  rfl

theorem resolve_name (proper : Proper name) (hdir : t.node? dir = some .directory)
    (h : aim = .entry ∨ ∀ target, t.node? (dir ++ [name]) ≠ some (.link target)) :
    t.resolve aim links dir [name] = t.last dir name := by
  have hidle : ¬ (name = "" ∨ name = ".") := proper.not_idle
  have hslash : ¬ (aim = .file ∧ ([] : List String) ≠ [] ∧
      ([] : List String).all (· = "")) := fun h => h.2.1 rfl
  rw [resolve_cons, turn_of_directory hdir, earlyTurn, if_neg hidle, if_neg proper.not_up,
    if_neg hslash, last]
  by_cases hlong : nameLimit < name.utf8ByteSize
  · rw [if_pos hlong, if_pos hlong]
    rfl
  rw [if_neg hlong, if_neg hlong, Option.getD_none, placeOf]
  cases hnode : t.node? (dir ++ [name]) with
  | none => rfl
  | some node =>
    have hresolve : t.resolve aim links (dir ++ [name]) [] = .ok (.taken (dir ++ [name]) node) := by
      rw [resolve_nil, hnode]
    cases node with
    | directory => exact hresolve
    | file content => exact hresolve
    | link target =>
      rcases h with rfl | hlink
      · rfl
      · exact absurd hnode (hlink target)

/-- What stands behind the pieces of a path, for any aim: something, and for a file to be written not
only slashes. -/
def Further (aim : Aim) (more : List String) : Prop :=
  more ≠ [] ∧ (aim = .file → ∃ piece ∈ more, piece ≠ "")

theorem further_of_not_file {more : List String} (haim : aim ≠ .file) (hmore : more ≠ []) :
    Further aim more :=
  ⟨hmore, fun h => absurd h haim⟩

theorem further_name (proper : Proper name) : Further aim [name] :=
  ⟨List.cons_ne_nil _ _,
    fun _ => ⟨name, List.mem_singleton_self name, fun h => proper.not_idle (.inl h)⟩⟩

theorem further_of_plain (plain : Plain name) : Further aim [name] :=
  further_name (proper_of_plain plain)

/-- A turn that goes on goes on in the same way with more behind the pieces. -/
theorem earlyTurn_append (links : Nat) (dir : Location) (piece : String) (rest : List String)
    {more : List String} (further : Further aim more) :
    (earlyTurn .node links dir piece rest = none ∧
        earlyTurn aim links dir piece (rest ++ more) = none) ∨
      (∃ trouble, earlyTurn .node links dir piece rest = some (.ended (.error trouble)) ∧
        earlyTurn aim links dir piece (rest ++ more) = some (.ended (.error trouble))) ∨
      ∃ dir', earlyTurn .node links dir piece rest = some (.onward links dir' rest) ∧
        earlyTurn aim links dir piece (rest ++ more) =
          some (.onward links dir' (rest ++ more)) := by
  have hnode : ¬ (Aim.node = .file ∧ rest ≠ [] ∧ rest.all (· = "")) := fun h => by cases h.1
  have hslash : ¬ (aim = .file ∧ rest ++ more ≠ [] ∧ (rest ++ more).all (· = "")) := by
    intro h
    obtain ⟨piece, hpiece, hne⟩ := further.2 h.1
    have hall := List.all_eq_true.1 h.2.2 piece (List.mem_append_right _ hpiece)
    exact hne (of_decide_eq_true hall)
  unfold earlyTurn
  by_cases hidle : piece = "" ∨ piece = "."
  · rw [if_pos hidle, if_pos hidle]
    exact .inr (.inr ⟨dir, rfl, rfl⟩)
  rw [if_neg hidle, if_neg hidle]
  by_cases hup : piece = ".."
  · rw [if_pos hup, if_pos hup]
    exact .inr (.inr ⟨dir.dropLast, rfl, rfl⟩)
  rw [if_neg hup, if_neg hup, if_neg hnode, if_neg hslash]
  by_cases hlong : nameLimit < piece.utf8ByteSize
  · rw [if_pos hlong]
    exact .inr (.inl ⟨.nameTooLong, rfl, rfl⟩)
  · rw [if_neg hlong]
    exact .inl ⟨rfl, rfl⟩

theorem nodeTurn_append {more : List String} (further : Further aim more) (node : Option Node) :
    (∃ outcome trouble, nodeTurn .node links dir piece rest node = .ended outcome ∧
        (outcome = .error trouble ∨ outcome = .ok (.vacant dir piece)) ∧
        nodeTurn aim links dir piece (rest ++ more) node = .ended (.error trouble)) ∨
      ∃ links' dir' pieces, nodeTurn .node links dir piece rest node = .onward links' dir' pieces ∧
        nodeTurn aim links dir piece (rest ++ more) node =
          .onward links' dir' (pieces ++ more) := by
  have hrest : rest ++ more ≠ [] := fun h => further.1 (List.append_eq_nil_iff.1 h).2
  cases node with
  | none =>
    refine .inl ⟨_, .notFound, rfl, ?_, by rw [nodeTurn, if_neg hrest]⟩
    split
    · exact .inr rfl
    · exact .inl rfl
  | some node =>
    cases node with
    | directory => exact .inr ⟨links, _, rest, rfl, rfl⟩
    | file content => exact .inr ⟨links, _, rest, rfl, rfl⟩
    | link target =>
      rw [nodeTurn_node_link, nodeTurn_link fun h : rest ++ more = [] ∧ aim = .entry => hrest h.1]
      cases links with
      | zero => exact .inl ⟨_, .tooManyLinks, rfl, .inl rfl, rfl⟩
      | succ links =>
        refine .inr ⟨links, _, _, rfl, ?_⟩
        dsimp only
        rw [List.append_assoc]

theorem turn_append (t : Tree) (links : Nat) (dir : Location) (piece : String) (rest : List String)
    {more : List String} (further : Further aim more) :
    (∃ outcome trouble, t.turn .node links dir piece rest = .ended outcome ∧
        (outcome = .error trouble ∨ outcome = .ok (.vacant dir piece)) ∧
        t.turn aim links dir piece (rest ++ more) = .ended (.error trouble)) ∨
      ∃ links' dir' pieces, t.turn .node links dir piece rest = .onward links' dir' pieces ∧
        t.turn aim links dir piece (rest ++ more) = .onward links' dir' (pieces ++ more) := by
  by_cases hdir : t.node? dir = some .directory
  · rw [turn_of_directory hdir, turn_of_directory hdir]
    rcases earlyTurn_append links dir piece rest further with
      ⟨h, h'⟩ | ⟨trouble, h, h'⟩ | ⟨dir', h, h'⟩
    · rw [h, h']
      exact nodeTurn_append further _
    · rw [h, h']
      exact .inl ⟨_, trouble, rfl, .inl rfl, rfl⟩
    · rw [h, h']
      exact .inr ⟨links, dir', rest, rfl, rfl⟩
  · rw [turn_of_not_directory hdir, turn_of_not_directory hdir]
    exact .inl ⟨_, .notDirectory, rfl, .inl rfl, rfl⟩

/-- Pieces that lead to a directory are followed first, and what stands behind them from there. -/
theorem resolve_append {pieces : List String} {directory : Location} :
    t.resolve .node links dir pieces = .ok (.taken directory .directory) →
      ∃ links', ∀ {aim : Aim} {more : List String}, Further aim more →
        t.resolve aim links dir (pieces ++ more) = t.resolve aim links' directory more := by
  induction links, dir, pieces using resolve_ind t .node with
  | nil links dir =>
    intro hdir
    rw [resolve_nil] at hdir
    split at hdir
    · injection hdir with hdir
      injection hdir with hdir _
      exact ⟨links, fun _ => by rw [hdir, List.nil_append]⟩
    · cases hdir
  | cons links dir piece rest ih =>
    intro hdir
    rw [resolve_cons] at hdir
    cases hturn : t.turn .node links dir piece rest with
    | ended outcome =>
      rw [hturn] at hdir
      have hdir : outcome = .ok (.taken directory .directory) := hdir
      subst hdir
      obtain ⟨target, hlink⟩ := link_of_turn_ended hturn
      cases hlink
    | onward links' dir' pieces =>
      rw [hturn] at hdir
      obtain ⟨left, hleft⟩ := ih links' dir' pieces hturn hdir
      refine ⟨left, fun {aim more} further => ?_⟩
      rw [List.cons_append, resolve_cons]
      rcases t.turn_append links dir piece rest further with
        ⟨outcome, trouble, hended, -, -⟩ | ⟨links'', dir'', pieces', honward, hmore⟩
      · rw [hturn] at hended
        cases hended
      · rw [hturn] at honward
        injection honward with hlinks hdir' hpieces
        subst hlinks hdir' hpieces
        rw [hmore]
        exact hleft further

/-- A path that ends in a name leads to the place of this name in the directory to which the pieces
before it lead. -/
theorem resolve_concat (proper : Proper name) {pieces : List String} {directory : Location}
    (h : aim = .entry ∨ ∀ target, t.node? (directory ++ [name]) ≠ some (.link target))
    (hdir : t.resolve .node links dir pieces = .ok (.taken directory .directory)) :
    t.resolve aim links dir (pieces ++ [name]) = t.last directory name := by
  obtain ⟨left, hleft⟩ := resolve_append hdir
  rw [hleft (further_name proper)]
  exact resolve_name proper (holds_of_resolve hdir) h

/-- If a path can be followed, any pieces before others lead to a directory. -/
theorem exists_directory_of_append {more : List String} (further : Further aim more)
    {pieces : List String} {place : Place} :
    t.resolve aim links dir (pieces ++ more) = .ok place →
      ∃ directory, t.resolve .node links dir pieces = .ok (.taken directory .directory) := by
  induction links, dir, pieces using resolve_ind t .node with
  | nil links dir =>
    intro h
    have hdir : t.node? dir = some .directory := by
      obtain ⟨first, others, hmore⟩ := List.exists_cons_of_ne_nil further.1
      by_contra hdir
      rw [List.nil_append, hmore, resolve_cons, turn_of_not_directory hdir] at h
      cases h
    exact ⟨dir, by rw [resolve_nil, hdir]⟩
  | cons links dir piece rest ih =>
    intro h
    rw [List.cons_append, resolve_cons] at h
    rw [resolve_cons]
    rcases t.turn_append links dir piece rest further with
      ⟨-, trouble, -, -, hturn⟩ | ⟨links', dir', pieces, hturn, hturn'⟩
    · rw [hturn] at h
      cases h
    · rw [hturn'] at h
      rw [hturn]
      exact ih links' dir' pieces hturn h

/-- If the pieces before the name lead to a file, the path cannot be followed. -/
theorem resolve_concat_of_blocked (proper : Proper name) {pieces : List String} :
    ((∃ location c, t.resolve .node links dir pieces = .ok (.taken location (.file c))) ∨
      t.resolve .node links dir pieces = .error .notDirectory) →
      t.resolve aim links dir (pieces ++ [name]) = .error .notDirectory := by
  induction links, dir, pieces using resolve_ind t .node with
  | nil links dir =>
    rw [resolve_nil]
    rintro (⟨location, c, h⟩ | h)
    · split at h
      · next node hnode =>
        injection h with h
        injection h with hlocation hfile
        subst hfile
        have hne : t.node? dir ≠ some .directory := by
          rw [hnode]
          exact fun h => by cases h
        rw [List.nil_append, resolve_cons, turn_of_not_directory hne]
        rfl
      · cases h
    · split at h
      · cases h
      · cases h
  | cons links dir piece rest ih =>
    rw [resolve_cons, List.cons_append, resolve_cons]
    rcases t.turn_append links dir piece rest (further_name proper) with
      ⟨outcome, trouble, hturn, houtcome, hturn'⟩ | ⟨links', dir', pieces, hturn, hturn'⟩
    · rw [hturn, hturn']
      show ((∃ location c, outcome = .ok (.taken location (.file c))) ∨
        outcome = .error .notDirectory) → (.error trouble : Except Trouble Place) = _
      rintro (⟨location, c, rfl⟩ | rfl)
      · rcases houtcome with h | h
        · cases h
        · cases h
      · rcases houtcome with h | h
        · exact h.symm
        · cases h
    · rw [hturn, hturn']
      exact ih links' dir' pieces hturn

end Concat

/-! ## Paths that end in a name -/

/-- There is no reason to refuse the path before it is followed. -/
structure Followable (p : Path) : Prop where
  /-- It is not empty. -/
  not_empty : p.text ≠ ""
  /-- It holds no U+0000. -/
  no_nul : ¬ p.text.toList.contains '\x00' = true
  /-- It is not too long. -/
  short : p.text.utf8ByteSize ≤ pathLimit

instance (p : Path) : Decidable (Followable p) :=
  decidable_of_iff
    (p.text ≠ "" ∧ ¬ p.text.toList.contains '\x00' = true ∧ p.text.utf8ByteSize ≤ pathLimit)
    ⟨fun ⟨hempty, hnul, hshort⟩ => ⟨hempty, hnul, hshort⟩,
      fun ⟨hempty, hnul, hshort⟩ => ⟨hempty, hnul, hshort⟩⟩

/-- Where a path starts. -/
def startOf (t : Tree) (p : Path) : Location := if p.isAbsolute then [] else t.here

theorem follow_of_followable {p : Path} (h : Followable p) (t : Tree) (aim : Aim)
    (pieces : List String) :
    t.follow aim p pieces = t.resolve aim linkLimit (t.startOf p) pieces := by
  rw [follow, if_neg h.not_empty, if_neg h.no_nul, if_neg (Nat.not_lt.2 h.short), startOf]

theorem followable_of_ok {t : Tree} {aim : Aim} {p : Path} {pieces : List String} {place : Place}
    (h : t.follow aim p pieces = .ok place) : Followable p := by
  unfold follow at h
  split at h
  · cases h
  next hempty =>
  split at h
  · cases h
  next hnul =>
  split at h
  · cases h
  next hlong => exact ⟨hempty, hnul, Nat.not_lt.1 hlong⟩

theorem resolve_of_follow {t : Tree} {aim : Aim} {p : Path} {pieces : List String} {place : Place}
    (h : t.follow aim p pieces = .ok place) :
    t.resolve aim linkLimit (t.startOf p) pieces = .ok place := by
  rw [← follow_of_followable (followable_of_ok h)]
  exact h

theorem WellFormed.startOf {t : Tree} (wf : t.WellFormed) (p : Path) :
    t.node? (t.startOf p) = some .directory := by
  unfold Tree.startOf
  split
  · exact t.node?_nil
  · exact wf.here

theorem startOf_of_here {t t' : Tree} (h : t'.here = t.here) (p : Path) :
    t'.startOf p = t.startOf p := by
  rw [startOf, startOf, h]

/-- The path can be followed to the entry of its last name in a directory. -/
structure EntryAt (t : Tree) (p : Path) (front : List String) (dir : Location) (name : String) :
    Prop where
  /-- The name comes last. -/
  ends : EndsIn p front name
  /-- It is not too long. -/
  short : ¬ nameLimit < name.utf8ByteSize
  /-- Neither is the path, nor is it refused for another reason. -/
  followable : Followable p
  /-- The pieces before the name lead to the directory. -/
  front : t.resolve .node linkLimit (t.startOf p) front = .ok (.taken dir .directory)

theorem Keeps.locate_error {t t' : Tree} (keeps : Keeps t t') (wf : t.WellFormed) {aim : Aim} {p : Path}
    {trouble : Trouble} (htrouble : trouble ≠ .notFound) (h : t.locate aim p = .error trouble) :
    t'.locate aim p = .error trouble := by
  have hstart : ∃ node, t.node? (t.startOf p) = some node := ⟨_, wf.startOf p⟩
  by_cases hfollow : Followable p
  · rw [locate, follow_of_followable hfollow] at h ⊢
    rw [startOf_of_here keeps.here]
    exact keeps.resolve_error wf htrouble hstart h
  · -- the path is refused before it is followed
    have hrefused : ∀ t t' : Tree, t.locate aim p = .error trouble →
        t'.locate aim p = .error trouble := by
      intro t t' h
      unfold locate follow at h ⊢
      split at h
      · next hempty => rwa [if_pos hempty]
      next hempty =>
      rw [if_neg hempty]
      split at h
      · next hnul => rwa [if_pos hnul]
      next hnul =>
      rw [if_neg hnul]
      split at h
      · next hlong => rwa [if_pos hlong]
      next hlong => exact absurd ⟨hempty, hnul, Nat.not_lt.1 hlong⟩ hfollow
    exact hrefused t t' h

section Entries

variable {t t' : Tree} {p : Path} {front : List String} {dir : Location} {name : String}

theorem entryAt_of_locate (ends : EndsIn p front name) {place : Place}
    (h : t.locate .entry p = .ok place) :
    ∃ dir, EntryAt t p front dir name ∧ place = t.placeOf dir name := by
  have hresolve := resolve_of_follow h
  rw [ends.pieces] at hresolve
  obtain ⟨dir, hdir⟩ := exists_directory_of_append (further_of_plain ends.plain) hresolve
  rw [resolve_concat (proper_of_plain ends.plain) (.inl rfl) hdir] at hresolve
  unfold last at hresolve
  split at hresolve
  · cases hresolve
  · next hshort =>
    injection hresolve with hplace
    exact ⟨dir, ⟨ends, hshort, followable_of_ok h, hdir⟩, hplace.symm⟩

namespace EntryAt

theorem locate (entry : EntryAt t p front dir name) {aim : Aim}
    (h : aim = .entry ∨ ∀ target, t.node? (dir ++ [name]) ≠ some (.link target)) :
    t.locate aim p = .ok (t.placeOf dir name) := by
  rw [Tree.locate, follow_of_followable entry.followable, entry.ends.pieces,
    resolve_concat (proper_of_plain entry.ends.plain) h entry.front, last, if_neg entry.short]

theorem locate_file (entry : EntryAt t p front dir name) {c : ByteArray}
    (h : t.node? (dir ++ [name]) = some (.file c)) (aim : Aim) :
    t.locate aim p = .ok (.taken (dir ++ [name]) (.file c)) := by
  rw [entry.locate (.inr fun target hlink => by rw [h] at hlink; cases hlink), placeOf_of_node h]

theorem directory (entry : EntryAt t p front dir name) : t.node? dir = some .directory :=
  holds_of_resolve entry.front

theorem fits (entry : EntryAt t p front dir name) (h : t.node? (dir ++ [name]) ≠ some .directory) :
    t.Fits (dir ++ [name]) :=
  ⟨List.concat_ne_nil _ _, by rw [List.dropLast_concat]; exact entry.directory, h⟩

theorem within (entry : EntryAt t p front dir name) (h : Within t t') :
    EntryAt t' p front dir name := by
  refine ⟨entry.ends, entry.short, entry.followable, ?_⟩
  rw [startOf_of_here h.here]
  exact h.resolve entry.front

/-- A file that is put into the entry is found there, or it is in its own way. -/
theorem put_file (entry : EntryAt t p front dir name) (h : t.node? (dir ++ [name]) ≠ some .directory)
    (c : ByteArray) :
    EntryAt (t.put (dir ++ [name]) (.file c)) p front dir name ∨
      (t.put (dir ++ [name]) (.file c)).locate .entry p = .error .notDirectory := by
  rcases resolve_put_directory h c entry.front with hsame | ⟨-, hblocked⟩
  · exact .inl ⟨entry.ends, entry.short, entry.followable, hsame⟩
  · refine .inr ?_
    rw [Tree.locate, follow_of_followable entry.followable, entry.ends.pieces]
    exact resolve_concat_of_blocked (proper_of_plain entry.ends.plain)
      (hblocked.imp_left fun h => ⟨_, h⟩)

end EntryAt

end Entries

end Tree

end BuildMatrix
