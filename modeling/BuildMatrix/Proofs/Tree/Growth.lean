import BuildMatrix.Proofs.Tree.Resolution

/-!
# Trees that grow

A tree is *well formed* if every node stands in a directory.  A tree *keeps*
another if all nodes are still there and are what they were, files with any
content.  It *extends* the other if the files have their content, too.

In a tree that keeps another, paths lead where they led (`Keeps.resolve_taken`).
What could not be followed still cannot be followed, unless something was missing
(`Keeps.resolve_error`).
-/

namespace BuildMatrix

/-- What a place says of the tree that it is in. -/
def Place.Holds (t : Tree) : Place → Prop
  | .taken location node => t.node? location = some node
  | .vacant dir name => t.node? dir = some .directory ∧ t.node? (dir ++ [name]) = none

namespace Tree

/-! ## Where a resolution ends -/

section Sound

variable {t : Tree} {aim : Aim} {links : Nat} {dir : Location} {piece : String} {rest : List String}

theorem nodeTurn_ended {node : Option Node} {place : Place} (hnode : t.node? (dir ++ [piece]) = node)
    (hdir : t.node? dir = some .directory)
    (h : nodeTurn aim links dir piece rest node = .ended (.ok place)) : place.Holds t := by
  unfold nodeTurn at h
  split at h
  · split at h
    · injection h with h
      injection h with h
      subst h
      exact ⟨hdir, hnode⟩
    · cases h
  · split at h
    · injection h with h
      injection h with h
      subst h
      exact hnode
    · split at h
      · cases h
      · cases h
  · cases h

theorem earlyTurn_ended {place : Place} :
    earlyTurn aim links dir piece rest ≠ some (.ended (.ok place)) := by
  unfold earlyTurn
  intro h
  split at h
  · cases h
  split at h
  · cases h
  split at h
  · cases h
  split at h
  · cases h
  · cases h

theorem turn_ended {place : Place} (h : t.turn aim links dir piece rest = .ended (.ok place)) :
    place.Holds t := by
  rcases t.turn_cases aim links dir piece rest with
    ⟨-, hturn⟩ | ⟨hdir, ⟨turn, hearly, hturn⟩ | ⟨-, hturn⟩⟩
  · rw [hturn] at h
    cases h
  · rw [hturn] at h
    exact absurd (hearly.trans (congrArg some h)) earlyTurn_ended
  · rw [hturn] at h
    exact nodeTurn_ended rfl hdir h

/-- A turn that ends at a node ends at a link that is not followed. -/
theorem link_of_turn_ended {location : Location} {node : Node}
    (h : t.turn aim links dir piece rest = .ended (.ok (.taken location node))) :
    ∃ target, node = .link target := by
  rcases t.turn_cases aim links dir piece rest with
    ⟨-, hturn⟩ | ⟨-, ⟨turn, hearly, hturn⟩ | ⟨-, hturn⟩⟩
  · rw [hturn] at h
    cases h
  · rw [hturn] at h
    exact absurd (hearly.trans (congrArg some h)) earlyTurn_ended
  · rw [hturn] at h
    unfold nodeTurn at h
    split at h
    · split at h
      · cases h
      · cases h
    · next target _ =>
      split at h
      · injection h with h
        injection h with h
        injection h with _ h
        exact ⟨target, h.symm⟩
      · split at h
        · cases h
        · cases h
    · cases h

/-- A resolution tells the truth of the place where it ends. -/
theorem holds_of_resolve {place : Place} {pieces : List String} :
    t.resolve aim links dir pieces = .ok place → place.Holds t := by
  induction links, dir, pieces using resolve_ind t aim with
  | nil links dir =>
    intro h
    rw [resolve_nil] at h
    split at h
    · next node hnode =>
      injection h with h
      subst h
      exact hnode
    · cases h
  | cons links dir piece rest ih =>
    intro h
    rw [resolve_cons] at h
    cases hturn : t.turn aim links dir piece rest with
    | ended outcome =>
      rw [hturn] at h
      exact turn_ended (hturn.trans (congrArg Turn.ended h))
    | onward links' dir' pieces =>
      rw [hturn] at h
      exact ih links' dir' pieces hturn h

end Sound

/-! ## Well-formed trees -/

/-- Every node stands in a directory, and so does the run. -/
structure WellFormed (t : Tree) : Prop where
  /-- The working directory is there. -/
  here : t.node? t.here = some .directory
  /-- Above every node there is a directory. -/
  above : ∀ location node, t.node? location = some node → t.node? location.dropLast = some .directory

theorem wellFormed_empty : Tree.empty.WellFormed := by
  refine ⟨rfl, fun location node h => ?_⟩
  by_cases hroot : location = []
  · rw [hroot]
    rfl
  · rw [node?, if_neg hroot] at h
    cases h

/-- A turn from something that is there goes on from something that is there. -/
theorem WellFormed.onward {t : Tree} (wf : t.WellFormed) {aim : Aim} {links links' : Nat}
    {dir dir' : Location} {piece : String} {rest pieces : List String}
    (h : t.turn aim links dir piece rest = .onward links' dir' pieces) :
    ∃ node, t.node? dir' = some node := by
  rcases t.turn_cases aim links dir piece rest with
    ⟨-, hturn⟩ | ⟨hdir, ⟨turn, hearly, hturn⟩ | ⟨-, hturn⟩⟩
  · rw [hturn] at h
    cases h
  · rw [hturn] at h
    subst h
    unfold earlyTurn at hearly
    split at hearly
    · injection hearly with h
      injection h with _ hdir' _
      exact ⟨_, hdir' ▸ hdir⟩
    split at hearly
    · injection hearly with h
      injection h with _ hdir' _
      exact ⟨_, hdir' ▸ wf.above dir _ hdir⟩
    split at hearly
    · cases hearly
    split at hearly
    · cases hearly
    · cases hearly
  · rw [hturn] at h
    unfold nodeTurn at h
    split at h
    · cases h
    · split at h
      · cases h
      · split at h
        · cases h
        · injection h with _ hdir' _
          subst hdir'
          split
          · exact ⟨_, node?_nil t⟩
          · exact ⟨_, hdir⟩
    · next node hnode =>
      injection h with _ hdir' _
      exact ⟨_, hdir' ▸ hnode⟩

/-! ## Keeping what is there -/

/-- Two nodes are the same, or both are files. -/
def Alike (a b : Node) : Prop := a = b ∨ (∃ c, a = .file c) ∧ ∃ c, b = .file c

/-- All nodes are still there, files with any content, and no link is new. -/
structure Keeps (t t' : Tree) : Prop where
  /-- The working directory is the same. -/
  here : t'.here = t.here
  /-- A node is still there, or both are files. -/
  nodes : ∀ location node, t.node? location = some node →
    ∃ node', t'.node? location = some node' ∧ Alike node node'
  /-- A link was there before. -/
  links : ∀ location target, t'.node? location = some (.link target) →
    t.node? location = some (.link target)

theorem Keeps.directory {t t' : Tree} (keeps : Keeps t t') {location : Location}
    (h : t.node? location = some .directory) : t'.node? location = some .directory := by
  obtain ⟨node', hnode', rfl | ⟨⟨_, ⟨⟩⟩, _⟩⟩ := keeps.nodes location _ h
  exact hnode'

theorem Keeps.not_directory {t t' : Tree} (keeps : Keeps t t') {location : Location} {node : Node}
    (h : t.node? location = some node) (hne : node ≠ .directory) :
    t'.node? location ≠ some .directory := by
  obtain ⟨node', hnode', heq | ⟨-, c, rfl⟩⟩ := keeps.nodes location _ h
  · rw [hnode', ← heq]
    exact fun h => hne (Option.some.inj h)
  · rw [hnode']
    exact fun h => by cases h

theorem nodeTurn_alike {aim : Aim} {links : Nat} {dir : Location} {piece : String}
    {rest : List String} {node node' : Node} (h : Alike node node') :
    nodeTurn aim links dir piece rest (some node') = nodeTurn aim links dir piece rest (some node) := by
  rcases h with rfl | ⟨⟨c, rfl⟩, ⟨c', rfl⟩⟩
  · rfl
  · rfl

/-- A turn is taken as before, unless it ended because something was missing. -/
theorem Keeps.turn {t t' : Tree} (keeps : Keeps t t') (aim : Aim) (links : Nat) {dir : Location}
    (piece : String) (rest : List String) {node : Node} (hdir : t.node? dir = some node) :
    t'.turn aim links dir piece rest = t.turn aim links dir piece rest ∨
      t.turn aim links dir piece rest =
        .ended (if rest = [] then .ok (.vacant dir piece) else .error .notFound) := by
  by_cases hdirectory : node = .directory
  · subst hdirectory
    rw [turn_of_directory hdir, turn_of_directory (keeps.directory hdir)]
    cases earlyTurn aim links dir piece rest with
    | some turn => exact .inl rfl
    | none =>
      rw [Option.getD_none, Option.getD_none]
      cases hnode : t.node? (dir ++ [piece]) with
      | none => exact .inr rfl
      | some node =>
        obtain ⟨node', hnode', halike⟩ := keeps.nodes _ node hnode
        rw [hnode', nodeTurn_alike halike]
        exact .inl rfl
  · have hne : t.node? dir ≠ some .directory := by
      rw [hdir]
      exact fun h => hdirectory (Option.some.inj h)
    rw [turn_of_not_directory hne, turn_of_not_directory (keeps.not_directory hdir hdirectory)]
    exact .inl rfl

/-- A path leads to the location to which it led. -/
theorem Keeps.resolve_taken {t t' : Tree} (keeps : Keeps t t') {aim : Aim} {links : Nat}
    {dir : Location} {pieces : List String} {location : Location} {node : Node} :
    t.resolve aim links dir pieces = .ok (.taken location node) →
      ∃ node', t'.node? location = some node' ∧ Alike node node' ∧
        t'.resolve aim links dir pieces = .ok (.taken location node') := by
  induction links, dir, pieces using resolve_ind t aim with
  | nil links dir =>
    intro h
    have hnode : t.node? location = some node := holds_of_resolve h
    obtain ⟨node', hnode', halike⟩ := keeps.nodes location node hnode
    refine ⟨node', hnode', halike, ?_⟩
    rw [resolve_nil] at h ⊢
    split at h
    · injection h with h
      injection h with hlocation _
      rw [hlocation, hnode']
    · cases h
  | cons links dir piece rest ih =>
    intro h
    have hresolve := h
    rw [resolve_cons] at h
    have hdir : t.node? dir = some .directory := by
      by_contra hdir
      rw [turn_of_not_directory hdir] at h
      cases h
    rcases keeps.turn aim links piece rest hdir with
      hsame | hmissing
    · rw [resolve_cons, hsame]
      cases hturn : t.turn aim links dir piece rest with
      | ended outcome =>
        rw [hturn] at h
        have h : outcome = .ok (.taken location node) := h
        subst h
        obtain ⟨target, rfl⟩ := link_of_turn_ended hturn
        obtain ⟨node', hnode', rfl | ⟨⟨_, ⟨⟩⟩, _⟩⟩ :=
          keeps.nodes location _ (holds_of_resolve hresolve)
        exact ⟨_, hnode', .inl rfl, rfl⟩
      | onward links' dir' pieces =>
        rw [hturn] at h
        exact ih links' dir' pieces hturn h
    · rw [hmissing] at h
      split at h
      · cases h
      · cases h

/-- What could not be followed for another reason than that something was missing still cannot. -/
theorem Keeps.resolve_error {t t' : Tree} (keeps : Keeps t t') (wf : t.WellFormed) {aim : Aim}
    {links : Nat} {dir : Location} {pieces : List String} {trouble : Trouble}
    (htrouble : trouble ≠ .notFound) :
    (∃ node, t.node? dir = some node) → t.resolve aim links dir pieces = .error trouble →
      t'.resolve aim links dir pieces = .error trouble := by
  induction links, dir, pieces using resolve_ind t aim with
  | nil links dir =>
    rintro ⟨node, hnode⟩ h
    rw [resolve_nil, hnode] at h
    cases h
  | cons links dir piece rest ih =>
    rintro ⟨node, hnode⟩ h
    rw [resolve_cons] at h
    rcases keeps.turn aim links piece rest hnode with
      hsame | hmissing
    · rw [resolve_cons, hsame]
      cases hturn : t.turn aim links dir piece rest with
      | ended outcome =>
        rw [hturn] at h
        exact h
      | onward links' dir' pieces =>
        rw [hturn] at h
        exact ih links' dir' pieces hturn (wf.onward hturn) h
    · rw [hmissing] at h
      split at h
      · cases h
      · injection h with h
        exact absurd h.symm htrouble

theorem Keeps.refl (t : Tree) : Keeps t t :=
  ⟨rfl, fun _ node h => ⟨node, h, .inl rfl⟩, fun _ _ h => h⟩

theorem Alike.trans {a b c : Node} (h : Alike a b) (h' : Alike b c) : Alike a c := by
  rcases h with rfl | ⟨ha, ⟨x, rfl⟩⟩
  · exact h'
  · rcases h' with rfl | ⟨-, hc⟩
    · exact .inr ⟨ha, x, rfl⟩
    · exact .inr ⟨ha, hc⟩

theorem Keeps.trans {t u v : Tree} (h : Keeps t u) (h' : Keeps u v) : Keeps t v := by
  refine ⟨h'.here.trans h.here, fun location node hnode => ?_, fun location target hlink =>
    h.links location target (h'.links location target hlink)⟩
  obtain ⟨node', hnode', halike⟩ := h.nodes location node hnode
  obtain ⟨node'', hnode'', halike'⟩ := h'.nodes location node' hnode'
  exact ⟨node'', hnode'', halike.trans halike'⟩

/-- All nodes are still there as they were, and no link is new. -/
structure Extends (t t' : Tree) : Prop where
  /-- The working directory is the same. -/
  here : t'.here = t.here
  /-- A node is still there. -/
  nodes : ∀ location node, t.node? location = some node → t'.node? location = some node
  /-- A link was there before. -/
  links : ∀ location target, t'.node? location = some (.link target) →
    t.node? location = some (.link target)

theorem Extends.keeps {t t' : Tree} (h : Extends t t') : Keeps t t' :=
  ⟨h.here, fun location node hnode => ⟨node, h.nodes location node hnode, .inl rfl⟩, h.links⟩

theorem Extends.refl (t : Tree) : Extends t t := ⟨rfl, fun _ _ h => h, fun _ _ h => h⟩

theorem Extends.trans {t u v : Tree} (h : Extends t u) (h' : Extends u v) : Extends t v :=
  ⟨h'.here.trans h.here,
    fun location node hnode => h'.nodes location node (h.nodes location node hnode),
    fun location target hlink => h.links location target (h'.links location target hlink)⟩

/-! ## Files in the place of links -/

theorem resolve_of_file {t : Tree} (aim : Aim) (links : Nat) {location : Location} {c : ByteArray}
    (h : t.node? location = some (.file c)) (pieces : List String) :
    t.resolve aim links location pieces = .ok (.taken location (.file c)) ∨
      t.resolve aim links location pieces = .error .notDirectory := by
  cases pieces with
  | nil =>
    rw [resolve_nil, h]
    exact .inl rfl
  | cons piece rest =>
    have hne : t.node? location ≠ some .directory := by
      rw [h]
      exact fun h => by cases h
    rw [resolve_cons, turn_of_not_directory hne]
    exact .inr rfl

/-- From where the target of a link is followed. -/
def linkStart (location : Location) (target : Path) : Location :=
  if target.isAbsolute then [] else location.dropLast

/-- A path that is led on by a link, through its target and whatever comes behind it, to a directory. -/
def LedBy (t : Tree) (location directory : Location) : Prop :=
  ∃ target links more, t.node? location = some (.link target) ∧
    t.resolve .node links (linkStart location target) (target.pieces ++ more) =
      .ok (.taken directory .directory)

/-- Where directories are kept and links are kept or become files, a path to a directory still leads
there, or it is blocked by such a file, where it was led on by a link before. -/
theorem resolve_directory {t t' : Tree} (Blocked : Location → Prop)
    (directories : ∀ location, t.node? location = some .directory →
      t'.node? location = some .directory)
    (links : ∀ location target, t.node? location = some (.link target) →
      t'.node? location = some (.link target) ∨
        Blocked location ∧ ∃ c, t'.node? location = some (.file c))
    {limit : Nat} {dir : Location} {pieces : List String} {directory : Location} :
    t.resolve .node limit dir pieces = .ok (.taken directory .directory) →
      t'.resolve .node limit dir pieces = .ok (.taken directory .directory) ∨
        ∃ location, Blocked location ∧ t.LedBy location directory ∧
          ((∃ c, t'.resolve .node limit dir pieces = .ok (.taken location (.file c))) ∨
            t'.resolve .node limit dir pieces = .error .notDirectory) := by
  induction limit, dir, pieces using resolve_ind t .node with
  | nil limit dir =>
    intro h
    have hnode : t'.node? directory = some .directory :=
      directories _ (holds_of_resolve h)
    rw [resolve_nil] at h
    split at h
    · injection h with h
      injection h with hdir _
      rw [hdir, resolve_nil, hnode]
      exact .inl rfl
    · cases h
  | cons limit dir piece rest ih =>
    intro h
    rw [resolve_cons] at h
    rw [resolve_cons]
    rcases t.turn_cases .node limit dir piece rest with
      ⟨-, hturn⟩ | ⟨hdir, ⟨turn, hearly, hturn⟩ | ⟨hearly, hturn⟩⟩
    · rw [hturn] at h
      cases h
    · -- the piece names nothing, so both trees take the same turn
      rw [hturn] at h
      rw [turn_of_directory (directories dir hdir), hearly, Option.getD_some]
      cases turn with
      | ended outcome =>
        have h : outcome = .ok (.taken directory .directory) := h
        subst h
        exact absurd hearly earlyTurn_ended
      | onward limit' dir' pieces => exact ih limit' dir' pieces hturn h
    · rw [turn_of_directory (directories dir hdir), hearly, Option.getD_none]
      rw [hturn] at h
      cases hnode : t.node? (dir ++ [piece]) with
      | none =>
        rw [hnode] at h
        have h : (if rest = [] then .ok (.vacant dir piece) else .error .notFound :
          Except Trouble Place) = .ok (.taken directory .directory) := h
        split at h
        · cases h
        · cases h
      | some node =>
        rw [hnode] at hturn h
        cases node with
        | directory =>
          rw [directories _ hnode]
          exact ih limit (dir ++ [piece]) rest hturn h
        | file c =>
          have h : t.resolve .node limit (dir ++ [piece]) rest =
            .ok (.taken directory .directory) := h
          rcases resolve_of_file .node limit hnode rest with hfile | hfile
          · rw [hfile] at h
            cases h
          · rw [hfile] at h
            cases h
        | link target =>
          rcases links _ target hnode with hsame | ⟨hblocked, c, hfile⟩
          · rw [hsame]
            rw [nodeTurn_node_link] at hturn h ⊢
            cases limit with
            | zero => cases h
            | succ limit => exact ih limit _ _ hturn h
          · have hled : t.LedBy (dir ++ [piece]) directory := by
              rw [nodeTurn_node_link] at h
              cases limit with
              | zero => cases h
              | succ limit =>
                refine ⟨target, limit, rest, hnode, ?_⟩
                rw [linkStart, List.dropLast_concat]
                exact h
            rw [hfile]
            refine .inr ⟨dir ++ [piece], hblocked, hled, ?_⟩
            exact (resolve_of_file _ _ hfile rest).imp_left fun h => ⟨c, h⟩

/-- The directories and links of a tree are all in another one. -/
structure Within (t t' : Tree) : Prop where
  /-- The working directory is the same. -/
  here : t'.here = t.here
  /-- The directories are there. -/
  directories : ∀ location, t.node? location = some .directory → t'.node? location = some .directory
  /-- The links are there. -/
  links : ∀ location target, t.node? location = some (.link target) →
    t'.node? location = some (.link target)

theorem Within.refl (t : Tree) : Within t t := ⟨rfl, fun _ h => h, fun _ _ h => h⟩

theorem Within.trans {t u v : Tree} (h : Within t u) (h' : Within u v) : Within t v :=
  ⟨h'.here.trans h.here, fun location hdir => h'.directories location (h.directories location hdir),
    fun location target hlink => h'.links location target (h.links location target hlink)⟩

theorem Keeps.within {t t' : Tree} (keeps : Keeps t t') : Within t t' := by
  refine ⟨keeps.here, fun location => keeps.directory, fun location target hlink => ?_⟩
  obtain ⟨node', hnode', rfl | ⟨⟨_, ⟨⟩⟩, _⟩⟩ := keeps.nodes location _ hlink
  exact hnode'

theorem Within.resolve {t t' : Tree} (within : Within t t') {limit : Nat} {dir directory : Location}
    {pieces : List String}
    (h : t.resolve .node limit dir pieces = .ok (.taken directory .directory)) :
    t'.resolve .node limit dir pieces = .ok (.taken directory .directory) := by
  rcases resolve_directory (fun _ => False) within.directories
    (fun location target hlink => .inl (within.links location target hlink)) h with
    hsame | ⟨_, hblocked, -⟩
  · exact hsame
  · exact hblocked.elim

/-! ## Putting nodes -/

/-- A node can be put at the location: a directory can hold it, and no directory is replaced. -/
structure Fits (t : Tree) (location : Location) : Prop where
  /-- It is not the root directory. -/
  not_root : location ≠ []
  /-- The directory is there. -/
  directory : t.node? location.dropLast = some .directory
  /-- There is no other one in its place. -/
  free : t.node? location ≠ some .directory

theorem Fits.wellFormed {t : Tree} {location : Location} (fits : t.Fits location)
    (wf : t.WellFormed) (node : Node) : (t.put location node).WellFormed := by
  -- what is a directory is not at the location, so it stays
  have hstays : ∀ other, t.node? other = some .directory →
      (t.put location node).node? other = some .directory := by
    intro other hother
    rw [node?_put_of_ne fits.not_root]
    · exact hother
    · rintro rfl
      exact fits.free hother
  refine ⟨hstays _ wf.here, fun other found hfound => hstays _ ?_⟩
  rw [node?_put fits.not_root] at hfound
  split at hfound
  · next heq =>
    rw [heq]
    exact fits.directory
  · exact wf.above other found hfound

theorem fits_of_vacant {t : Tree} {dir : Location} {name : String}
    (h : (Place.vacant dir name).Holds t) : t.Fits (dir ++ [name]) := by
  refine ⟨List.concat_ne_nil _ _, ?_, ?_⟩
  · rw [List.dropLast_concat]
    exact h.1
  · rw [h.2]
    exact fun h => by cases h

theorem ne_nil_of_node {t : Tree} {location : Location} {node : Node}
    (h : t.node? location = some node) (hne : node ≠ .directory) : location ≠ [] := by
  rintro rfl
  rw [node?_nil] at h
  injection h with h
  exact hne h.symm

theorem fits_of_taken {t : Tree} (wf : t.WellFormed) {location : Location} {node : Node}
    (h : t.node? location = some node) (hne : node ≠ .directory) : t.Fits location := by
  refine ⟨ne_nil_of_node h hne, wf.above location node h, ?_⟩
  rw [h]
  exact fun h => hne (Option.some.inj h)

theorem link_of_put {t : Tree} {location : Location} (hroot : location ≠ []) {node : Node}
    (hnode : ∀ target, node ≠ .link target) (other : Location) (target : Path)
    (h : (t.put location node).node? other = some (.link target)) :
    t.node? other = some (.link target) := by
  rw [node?_put hroot] at h
  split at h
  · exact absurd (Option.some.inj h) (hnode target)
  · exact h

/-- A path to a directory still leads there when a file has been put where no directory was, or it is
blocked by the file, where it was led on by a link before. -/
theorem resolve_put_directory {t : Tree} {location : Location}
    (hfree : t.node? location ≠ some .directory) (c : ByteArray) {limit : Nat} {dir : Location}
    {pieces : List String} {directory : Location}
    (h : t.resolve .node limit dir pieces = .ok (.taken directory .directory)) :
    (t.put location (.file c)).resolve .node limit dir pieces = .ok (.taken directory .directory) ∨
      t.LedBy location directory ∧
        ((∃ c', (t.put location (.file c)).resolve .node limit dir pieces =
            .ok (.taken location (.file c'))) ∨
          (t.put location (.file c)).resolve .node limit dir pieces = .error .notDirectory) := by
  have hroot : location ≠ [] := by
    rintro rfl
    exact hfree t.node?_nil
  have directories : ∀ other, t.node? other = some .directory →
      (t.put location (.file c)).node? other = some .directory := by
    intro other hdirectory
    rw [node?_put_of_ne hroot]
    · exact hdirectory
    · rintro rfl
      exact hfree hdirectory
  have links : ∀ other target, t.node? other = some (.link target) →
      (t.put location (.file c)).node? other = some (.link target) ∨
        other = location ∧ ∃ c', (t.put location (.file c)).node? other = some (.file c') := by
    intro other target hlink
    by_cases heq : other = location
    · exact .inr ⟨heq, c, by rw [heq, node?_put_self hroot]⟩
    · exact .inl (by rw [node?_put_of_ne hroot _ heq, hlink])
  rcases resolve_directory (· = location) directories links h with hsame | ⟨_, rfl, hled, hblocked⟩
  · exact .inl hsame
  · exact .inr ⟨hled, hblocked⟩

/-- A node at a vacant place changes nothing else. -/
theorem extends_put_of_vacant {t : Tree} {dir : Location} {name : String} {node : Node}
    (h : (Place.vacant dir name).Holds t) (hnode : ∀ target, node ≠ .link target) :
    Extends t (t.put (dir ++ [name]) node) := by
  have hroot := (fits_of_vacant h).not_root
  refine ⟨rfl, fun other found hfound => ?_, link_of_put hroot hnode⟩
  rw [node?_put_of_ne hroot]
  · exact hfound
  · rintro rfl
    rw [h.2] at hfound
    cases hfound

theorem keeps_put {t : Tree} {location : Location} (hroot : location ≠ [])
    (hdir : t.node? location ≠ some .directory)
    (hlink : ∀ target, t.node? location ≠ some (.link target)) (c : ByteArray) :
    Keeps t (t.put location (.file c)) := by
  refine ⟨rfl, fun other found hfound => ?_, link_of_put hroot fun _ h => by cases h⟩
  rw [node?_put hroot]
  by_cases heq : other = location
  · subst heq
    refine ⟨.file c, if_pos rfl, .inr ⟨?_, c, rfl⟩⟩
    cases found with
    | directory => exact absurd hfound hdir
    | link target => exact absurd hfound (hlink target)
    | file c' => exact ⟨c', rfl⟩
  · exact ⟨found, by rw [if_neg heq, hfound], .inl rfl⟩

/-- A file that takes no place of a directory or link leaves all of them. -/
theorem within_put {t : Tree} {location : Location} (hroot : location ≠ [])
    (hdir : t.node? location ≠ some .directory)
    (hlink : ∀ target, t.node? location ≠ some (.link target)) (c : ByteArray) :
    Within t (t.put location (.file c)) := (keeps_put hroot hdir hlink c).within

theorem put_within {t : Tree} {location : Location} (hroot : location ≠ []) (c : ByteArray) :
    Within (t.put location (.file c)) t := by
  refine ⟨rfl, fun other hdir => ?_, fun other target => ?_⟩
  · rw [node?_put hroot] at hdir
    split at hdir
    · cases hdir
    · exact hdir
  · exact link_of_put hroot (fun _ h => by cases h) other target

/-- A file at a place that a smaller tree leaves empty leaves the directories and links of that
tree. -/
theorem Within.put {s t : Tree} (within : Within s t) {location : Location} (hroot : location ≠ [])
    (hvacant : s.node? location = none) (c : ByteArray) : Within s (t.put location (.file c)) := by
  have hstays : ∀ {other node}, s.node? other = some node → t.node? other = some node →
      (t.put location (.file c)).node? other = some node := by
    intro other node hbelow habove
    rw [node?_put_of_ne hroot]
    · exact habove
    · rintro rfl
      rw [hvacant] at hbelow
      cases hbelow
  exact ⟨within.here, fun other hdir => hstays hdir (within.directories other hdir),
    fun other target hlink => hstays hlink (within.links other target hlink)⟩

end Tree

end BuildMatrix
