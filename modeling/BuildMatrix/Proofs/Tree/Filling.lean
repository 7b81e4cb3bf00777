import BuildMatrix.Proofs.Tree.Replacement

/-!
# Reading what was written

A text that is written to a path is read back through this path, wherever the path leads and through
whatever links (`locate_of_writeText`).  A file is written through all links, as it is read, so unlike
a replacement it never stands in the way of its own path.

Writing is stricter than reading: a path with slashes behind the name of a file can be followed, but
not for a file to be written.  So a path that can be followed for writing leads to the same place when
it is followed for reading (`resolve_node_of_file`).

Where a directory has the name of the file, nothing is written (`EntryAt.writeText_of_directory`).
-/

namespace BuildMatrix.Tree

section Following

variable {t : Tree} {links : Nat} {at_ : Location} {pieces : List String}

theorem earlyTurn_file (links : Nat) (at_ : Location) (piece : String) (rest : List String) :
    earlyTurn .file links at_ piece rest = some (.ended (.error .isDirectory)) ∨
      earlyTurn .file links at_ piece rest = earlyTurn .node links at_ piece rest := by
  have hnode : ¬ (Aim.node = .file ∧ rest ≠ [] ∧ rest.all (· = "")) := fun h => by cases h.1
  unfold earlyTurn
  by_cases hidle : piece = "" ∨ piece = "."
  · rw [if_pos hidle, if_pos hidle]
    exact .inr rfl
  rw [if_neg hidle, if_neg hidle]
  by_cases hup : piece = ".."
  · rw [if_pos hup, if_pos hup]
    exact .inr rfl
  rw [if_neg hup, if_neg hup, if_neg hnode]
  split
  · exact .inl rfl
  · exact .inr rfl

/-- Following a path for a file to be written takes the same turns, or gives up at slashes. -/
theorem turn_file (t : Tree) (links : Nat) (at_ : Location) (piece : String) (rest : List String) :
    t.turn .file links at_ piece rest = .ended (.error .isDirectory) ∨
      t.turn .file links at_ piece rest = t.turn .node links at_ piece rest := by
  have hnode : ∀ node, nodeTurn .file links at_ piece rest node =
      nodeTurn .node links at_ piece rest node := by
    intro node
    cases node with
    | none => rfl
    | some node =>
      cases node with
      | directory => rfl
      | file c => rfl
      | link target => rw [nodeTurn_node_link, nodeTurn_link fun h => by cases h.2]
  by_cases hdir : t.node? at_ = some .directory
  · rw [turn_of_directory hdir, turn_of_directory hdir, hnode]
    rcases earlyTurn_file links at_ piece rest with hended | hsame
    · rw [hended]
      exact .inl rfl
    · rw [hsame]
      exact .inr rfl
  · rw [turn_of_not_directory hdir, turn_of_not_directory hdir]
    exact .inr rfl

/-- What is found for writing is found for reading. -/
theorem resolve_node_of_file {place : Place} :
    t.resolve .file links at_ pieces = .ok place → t.resolve .node links at_ pieces = .ok place := by
  induction links, at_, pieces using resolve_ind t .file with
  | nil links at_ =>
    intro h
    rw [resolve_nil] at h ⊢
    exact h
  | cons links at_ piece rest ih =>
    intro h
    rw [resolve_cons] at h
    rw [resolve_cons]
    rcases t.turn_file links at_ piece rest with hended | hsame
    · rw [hended] at h
      cases h
    · rw [← hsame]
      cases hturn : t.turn .file links at_ piece rest with
      | ended outcome =>
        rw [hturn] at h
        exact h
      | onward links' at_' pieces =>
        rw [hturn] at h
        exact ih links' at_' pieces hturn h

/-- On the way to a node nothing that is there ends the resolution well. -/
theorem nodeTurn_node_ne {piece : String} {rest : List String} {node : Node} {place : Place} :
    nodeTurn .node links at_ piece rest (some node) ≠ .ended (.ok place) := by
  intro h
  cases node with
  | directory => cases h
  | file c => cases h
  | link target =>
    rw [nodeTurn_node_link] at h
    cases links with
    | zero => cases h
    | succ links => cases h

/-- A file at the vacant place to which a path leads is found there. -/
theorem resolve_put_file {dir : Location} {name : String} (c : ByteArray) :
    t.resolve .node links at_ pieces = .ok (.vacant dir name) →
      (t.put (dir ++ [name]) (.file c)).resolve .node links at_ pieces =
        .ok (.taken (dir ++ [name]) (.file c)) := by
  have hroot : dir ++ [name] ≠ [] := List.concat_ne_nil _ _
  have hself : (t.put (dir ++ [name]) (.file c)).node? (dir ++ [name]) = some (.file c) :=
    node?_put_self hroot _
  induction links, at_, pieces using resolve_ind t .node with
  | nil links at_ =>
    intro h
    rw [resolve_nil] at h
    split at h
    · cases h
    · cases h
  | cons links at_ piece rest ih =>
    intro h
    have holds : (Place.vacant dir name).Holds t := holds_of_resolve h
    have extended : Extends t (t.put (dir ++ [name]) (.file c)) :=
      extends_put_of_vacant holds fun _ h => by cases h
    have keeps := extended.keeps
    rw [resolve_cons] at h
    rw [resolve_cons]
    rcases t.turn_cases .node links at_ piece rest with
      ⟨-, hturn⟩ | ⟨hdir, ⟨turn, hearly, hturn⟩ | ⟨hearly, hturn⟩⟩
    · rw [hturn] at h
      cases h
    · -- the piece names nothing, so both resolutions go on alike
      rw [hturn] at h
      rw [turn_of_directory (keeps.directory hdir), hearly, Option.getD_some]
      cases turn with
      | ended outcome =>
        have h : outcome = .ok (.vacant dir name) := h
        subst h
        exact absurd hearly earlyTurn_ended
      | onward links' at_' pieces => exact ih links' at_' pieces hturn h
    · rw [turn_of_directory (keeps.directory hdir), hearly, Option.getD_none]
      cases hnode : t.node? (at_ ++ [piece]) with
      | none =>
        -- the place is reached, and nothing is left of the path
        rw [hturn, hnode] at h
        have h : (if rest = [] then .ok (.vacant at_ piece) else .error .notFound :
          Except Trouble Place) = .ok (.vacant dir name) := h
        split at h
        · next hrest =>
          injection h with h
          injection h with hat hpiece
          rw [hat, hpiece, hself, hrest]
          show (t.put (dir ++ [name]) (.file c)).resolve .node links (dir ++ [name]) [] = _
          rw [resolve_nil, hself]
        · cases h
      | some node =>
        have hne : at_ ++ [piece] ≠ dir ++ [name] := fun heq => by
          rw [heq, holds.2] at hnode
          cases hnode
        rw [node?_put_of_ne hroot _ hne, hnode]
        rw [hnode] at hturn
        rw [hturn] at h
        cases hnext : nodeTurn .node links at_ piece rest (some node) with
        | ended outcome =>
          rw [hnext] at h
          have h : outcome = .ok (.vacant dir name) := h
          subst h
          exact absurd hnext nodeTurn_node_ne
        | onward links' at_' pieces =>
          rw [hnext] at h hturn
          exact ih links' at_' pieces hturn h

end Following

/-- A file that was filled is found where its path leads, with what it was filled with. -/
theorem locate_of_fill {t t' : Tree} {p : Path} {content : ByteArray}
    (h : t.fill p content = .ok t') :
    ∃ location, t'.locate .node p = .ok (.taken location (.file content)) := by
  unfold fill at h
  split at h
  · next location c hlocate =>
    injection h with h
    have hresolve := resolve_of_follow hlocate
    have holds : t.node? location = some (.file c) := holds_of_resolve hresolve
    have hroot : location ≠ [] := ne_nil_of_node holds fun h => by cases h
    have keeps : Keeps t t' := h ▸ keeps_put hroot (by rw [holds]; exact fun h => by cases h)
      (fun _ => by rw [holds]; exact fun h => by cases h) content
    obtain ⟨node', hnode', -, hresolve'⟩ := keeps.resolve_taken (resolve_node_of_file hresolve)
    rw [← h, node?_put_self hroot] at hnode'
    rw [← Option.some.inj hnode'] at hresolve'
    refine ⟨location, ?_⟩
    rw [locate, follow_of_followable (followable_of_ok hlocate), startOf_of_here keeps.here]
    exact hresolve'
  · cases h
  · next dir name hlocate =>
    injection h with h
    refine ⟨dir ++ [name], ?_⟩
    rw [← h, locate, follow_of_followable (followable_of_ok hlocate)]
    exact resolve_put_file content (resolve_node_of_file (resolve_of_follow hlocate))
  · cases h

/-- A text that was written is found where its path leads. -/
theorem locate_of_writeText {t t' : Tree} {p : Path} {text : String}
    (h : writeText p text t = .ok () t') :
    ∃ location, t'.locate .node p = .ok (.taken location (.file text.toUTF8)) := by
  obtain ⟨u, -, hfill⟩ := writeText_ok h
  exact locate_of_fill hfill

/-- A text is not written to a directory. -/
theorem EntryAt.writeText_of_directory {t : Tree} {p : Path} {front : List String} {dir : Location}
    {name : String} (entry : EntryAt t p front dir name)
    (h : t.node? (dir ++ [name]) = some .directory) (text : String) :
    Tree.writeText p text t = .error (.writeFile p .isDirectory) t := by
  have hlink : ∀ target, t.node? (dir ++ [name]) ≠ some (.link target) := fun target hlink => by
    rw [h] at hlink
    cases hlink
  have hfill : t.fill p text.toUTF8 = .error .isDirectory := by
    unfold fill
    rw [entry.locate (.inr hlink), placeOf_of_node h]
  unfold Tree.writeText
  cases hparent : p.parent? with
  | none =>
    dsimp only
    rw [Task.get_bind, hfill]
    rfl
  | some above =>
    dsimp only
    rw [Task.bind_of_ok (entry.ensureDirectory_parent hparent), Task.get_bind, hfill]
    rfl

end BuildMatrix.Tree
