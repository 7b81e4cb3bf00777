import BuildMatrix.Proofs.Ninja.Distinct
import BuildMatrix.Proofs.Ninja.Expansion

/-!
# How a build line is split

An executor of a build file splits the line of an edge into paths.  A path ends at a space, a colon, a
bar or the end of the line.  A colon ends the targets, and a bar sets paths off that are no plain
inputs.  A dollar sign takes their meaning from the space, the colon and the dollar sign, and from
nothing else.

Paths are escaped when they are written, so spaces, colons and dollar signs do no harm wherever they
stand (`split_escapePath`).  A bar cannot be escaped, and neither can a character that no reader shows.
A path is *whole* if it has none of them.  A reader shows whole paths only, whatever it reads
(`whole_of_split`).  So an edge is read back from its line if its paths are whole and not empty, and
an edge with another path is lost (`readEdge_buildLine_iff`).
-/

namespace BuildMatrix.Ninja

/-! ## Splitting -/

/-- A part of a build line. -/
inductive Token where
  /-- A path or a name, with all dollar signs undone. -/
  | path (text : String)
  /-- The end of the targets. -/
  | colon
  /-- The beginning of paths that are no plain inputs. -/
  | bar
  deriving DecidableEq

/-- The characters that a dollar sign can stand before. -/
def escapable : List Char := ['$', ' ', ':']

/-- What a character says that ends a path on a line. -/
def marks? (c : Char) : Option (List Token) :=
  if c = ' ' then some [] else if c = ':' then some [.colon] else if c = '|' then some [.bar] else none

/-- The path of the characters that have been read.  Nothing is no path. -/
def ended (read : List Char) : List Token :=
  if read = [] then [] else [.path (String.ofList read)]

/-- The parts of a line and what stands behind it, where the given characters of a path have been read.
The flag says that a dollar sign comes before. -/
def split : Bool → List Char → List Char → Option (List Token × List Char)
  | _, _, [] => none
  | true, read, c :: rest => if c ∈ escapable then split false (read ++ [c]) rest else none
  | false, read, c :: rest =>
      if c = '$' then split true read rest
      else if c = '\n' then some (ended read, rest)
      else if c ∈ unshown then none
      else match marks? c with
        | some marks =>
            (split false [] rest).map fun line => (ended read ++ marks ++ line.1, line.2)
        | none => split false (read ++ [c]) rest
termination_by structural _ _ text => text

/-- The paths that a list is made of. -/
def paths? : List Token → Option (List String)
  | [] => some []
  | .path text :: rest => (paths? rest).map (text :: ·)
  | _ :: _ => none

/-- The parts of the line of an edge. -/
def edgeTokens (e : Edge) : List Token :=
  .path "build" :: .path e.target :: .colon :: .path e.rule :: e.inputs.map .path

/-- The edge with one target and plain inputs that a line declares. -/
def edgeOf? : List Token → Option Edge
  | .path keyword :: .path target :: .colon :: .path rule :: rest =>
      if keyword = "build" then (paths? rest).map fun inputs => { target, rule, inputs } else none
  | _ => none

/-- The edge that a text begins with, without its variables, and what stands behind its line. -/
def readEdge (text : String) : Option (Edge × String) :=
  (split false [] text.toList).bind fun line =>
    (edgeOf? line.1).map fun edge => (edge, String.ofList line.2)

example : readEdge "build o/a$ b.o: compile C$:/a$$b\n  flags = x\n" =
    some (⟨"o/a b.o", "compile", ["C:/a$b"], []⟩, "  flags = x\n") := by decide

section Tokens

variable {tokens : List Token} {edge : Edge}

theorem paths?_eq_some_iff {paths : List String} :
    paths? tokens = some paths ↔ tokens = paths.map .path := by
  induction tokens generalizing paths with
  | nil => cases paths <;> simp [paths?]
  | cons token tokens ih => cases token <;> cases paths <;> simp [paths?, ih, and_comm]

/-- An edge is read off the parts of its line and off no others. -/
theorem edgeOf?_eq_some_iff :
    edgeOf? tokens = some edge ↔ tokens = edgeTokens edge ∧ edge.bindings = [] := by
  constructor
  · intro h
    unfold edgeOf? at h
    split at h
    · split at h
      · next hkeyword =>
        obtain ⟨inputs, hinputs, rfl⟩ := Option.map_eq_some_iff.1 h
        rw [paths?_eq_some_iff.1 hinputs, hkeyword]
        exact ⟨rfl, rfl⟩
      · cases h
    · cases h
  · rintro ⟨rfl, hbindings⟩
    obtain ⟨target, rule, inputs, bindings⟩ := edge
    cases hbindings
    rw [edgeTokens, edgeOf?, if_pos rfl, paths?_eq_some_iff.2 rfl]
    rfl

end Tokens

/-! ## Steps -/

section Steps

variable {read rest : List Char} {c : Char} {marks : List Token}

theorem split_dollar : split false read ('$' :: rest) = split true read rest := by
  rw [split, if_pos rfl]

theorem split_escapable (h : c ∈ escapable) :
    split true read (c :: rest) = split false (read ++ [c]) rest := by rw [split, if_pos h]

theorem split_end : split false read ('\n' :: rest) = some (ended read, rest) := by
  rw [split, if_neg (by decide), if_pos rfl]

theorem marks?_space : marks? ' ' = some [] := rfl

theorem marks?_colon : marks? ':' = some [.colon] := rfl

theorem mem_of_marks? (h : marks? c = some marks) : c ∈ [' ', ':', '|'] := by
  unfold marks? at h
  grind

/-- At a character that ends it a path is shown, and then what the character says. -/
theorem split_marks (h : marks? c = some marks) :
    split false read (c :: rest) =
      (split false [] rest).map fun line => (ended read ++ marks ++ line.1, line.2) := by
  have others : ∀ c ∈ [' ', ':', '|'], c ≠ '$' ∧ c ≠ '\n' ∧ c ∉ unshown := by
    simp [unshown]
  obtain ⟨dollar, line, shown⟩ := others c (mem_of_marks? h)
  rw [split, if_neg dollar, if_neg line, if_neg shown, h]

/-- A character without a meaning belongs to the path. -/
theorem split_plain (dollar : c ≠ '$') (shown : c ∉ unshown) (h : marks? c = none) :
    split false read (c :: rest) = split false (read ++ [c]) rest := by
  have line : c ≠ '\n' := fun hc => shown (hc ▸ by decide)
  rw [split, if_neg dollar, if_neg line, if_neg shown, h]

end Steps

/-! ## Whole paths -/

/-- The characters that no path of a build line shows. -/
def unread : List Char := '|' :: unshown

/-- A path that can stand on a build line. -/
def Whole (path : String) : Prop := ∀ c ∈ unread, c ∉ path.toList

instance (path : String) : Decidable (Whole path) := List.decidableBAll _ unread

theorem whole_append {a b : String} : Whole (a ++ b) ↔ Whole a ∧ Whole b := by
  simp only [Whole, String.toList_append, List.mem_append, not_or, forall_and]

/-- The name of a rule: a word that has nothing to escape. -/
def Word (name : String) : Prop := name ≠ "" ∧ ∀ c ∈ name.toList, isNameChar c = true

instance (name : String) : Decidable (Word name) :=
  @instDecidableAnd _ _ _ (List.decidableBAll (isNameChar · = true) name.toList)

theorem Word.whole {name : String} (word : Word name) : Whole name := by
  intro c hc hmem
  have other : ∀ c ∈ unread, ¬ isNameChar c = true := by simp [unread, unshown, isNameChar]
  exact other c hc (word.2 c hmem)

theorem Word.escapePath {name : String} (word : Word name) : escapePath name = name := by
  have other : ∀ c ∈ escapable, ¬ isNameChar c = true := by simp [escapable, isNameChar]
  have plain : name.toList.flatMap pathChar = name.toList := by
    refine (List.flatMap_congr fun c hc => ?_).trans (List.flatMap_singleton' _)
    rcases escapes_pathChar.2 c with ⟨hc', -⟩ | ⟨-, hcode⟩
    · exact absurd (word.2 c hc) (other c hc')
    · exact hcode
  rw [Ninja.escapePath, plain, String.ofList_toList]

/-! ## Reading back -/

section Reading

variable {read back : List Char} {path : String} {paths : List String}

/-- A character that is escaped is taken as it was. -/
theorem split_pathChar {c : Char} (hc : c ∉ unread) :
    split false read (pathChar c ++ back) = split false (read ++ [c]) back := by
  rcases escapes_pathChar.2 c with ⟨hspecial, hcode⟩ | ⟨hspecial, hcode⟩
  · rw [hcode, List.cons_append, split_dollar, List.singleton_append, split_escapable hspecial]
  · simp only [List.mem_cons, List.not_mem_nil, or_false, not_or] at hspecial
    rw [unread, List.mem_cons, not_or] at hc
    have hmarks : marks? c = none := by
      rw [marks?, if_neg hspecial.2.1, if_neg hspecial.2.2, if_neg hc.1]
    rw [hcode, List.singleton_append, split_plain hspecial.1 hc.2 hmarks]

theorem split_escaped {text : List Char} (h : ∀ c ∈ text, c ∉ unread) :
    split false read (text.flatMap pathChar ++ back) = split false (read ++ text) back := by
  induction text generalizing read with
  | nil => rw [List.flatMap_nil, List.nil_append, List.append_nil]
  | cons c text ih =>
    rw [List.flatMap_cons, List.append_assoc, split_pathChar (h c List.mem_cons_self),
      ih fun d hd => h d (List.mem_cons_of_mem _ hd), List.append_assoc, List.singleton_append]

/-- A whole path is taken as it was before it was escaped, whatever comes before it and behind it. -/
theorem split_escapePath (whole : Whole path) :
    split false read ((escapePath path).toList ++ back) = split false (read ++ path.toList) back := by
  rw [escapePath, String.toList_ofList]
  exact split_escaped fun c hc hmem => whole c hmem hc

theorem ended_toList (hne : path ≠ "") : ended path.toList = [.path path] := by
  rw [ended, if_neg fun h => hne (String.toList_eq_nil_iff.1 h), String.ofList_toList]

/-- A whole path is shown where it ends. -/
theorem split_path (whole : Whole path) (hne : path ≠ "") {c : Char} {marks : List Token}
    (h : marks? c = some marks) :
    split false [] ((escapePath path).toList ++ c :: back) =
      (split false [] back).map fun line => (.path path :: (marks ++ line.1), line.2) := by
  rw [split_escapePath whole, List.nil_append, split_marks h, ended_toList hne]
  rfl

/-- Inputs that are whole are shown up to the end of the line. -/
theorem split_inputs (whole : ∀ path ∈ paths, Whole path) (hne : ∀ path ∈ paths, path ≠ "") :
    split false read (paths.flatMap (fun path => ' ' :: (escapePath path).toList) ++ '\n' :: back) =
      some (ended read ++ paths.map .path, back) := by
  induction paths generalizing read with
  | nil => rw [List.flatMap_nil, List.nil_append, split_end, List.map_nil, List.append_nil]
  | cons path paths ih =>
    rw [List.flatMap_cons, List.cons_append, List.cons_append, split_marks marks?_space,
      List.append_assoc, split_escapePath (whole path List.mem_cons_self), List.nil_append,
      ih (fun p hp => whole p (List.mem_cons_of_mem _ hp))
        fun p hp => hne p (List.mem_cons_of_mem _ hp),
      ended_toList (hne path List.mem_cons_self), Option.map_some, List.append_nil]
    rfl

theorem toList_buildLine (e : Edge) : (buildLine e).toList =
    "build".toList ++ ' ' :: ((escapePath e.target).toList ++ ':' :: ' ' :: (e.rule.toList ++
      (e.inputs.flatMap (fun path => ' ' :: (escapePath path).toList) ++ ['\n']))) := by
  have hinputs : (String.join (e.inputs.map fun input => " " ++ escapePath input)).toList =
      e.inputs.flatMap fun path => ' ' :: (escapePath path).toList := by
    rw [String.toList_join, List.flatMap_map]
    exact List.flatMap_congr fun path _ => by simp
  simp [buildLine, hinputs]

/-- The line of an edge with whole paths is split into its parts. -/
theorem split_buildLine {e : Edge} (rule : Word e.rule) (target : e.target ≠ "")
    (inputs : ∀ path ∈ e.inputs, path ≠ "") (whole : ∀ path ∈ e.target :: e.inputs, Whole path) :
    split false [] ((buildLine e).toList ++ back) = some (edgeTokens e, back) := by
  have keyword : Word "build" := by decide
  have hline : (buildLine e).toList ++ back =
      (escapePath "build").toList ++ ' ' :: ((escapePath e.target).toList ++ ':' :: ' ' ::
        ((escapePath e.rule).toList ++
          (e.inputs.flatMap (fun path => ' ' :: (escapePath path).toList) ++ '\n' :: back))) := by
    rw [toList_buildLine, rule.escapePath, keyword.escapePath]
    simp only [List.append_assoc, List.cons_append, List.nil_append]
  rw [hline, split_path keyword.whole keyword.1 marks?_space,
    split_path (whole _ List.mem_cons_self) target marks?_colon,
    split_marks marks?_space, split_escapePath rule.whole, List.nil_append,
    split_inputs (fun path hpath => whole path (List.mem_cons_of_mem _ hpath)) inputs,
    ended_toList rule.1]
  rfl

end Reading

/-! ## Nothing else is read -/

section Shown

variable {behind : Bool} {read text after : List Char} {tokens : List Token}

theorem whole_of_ended (hread : ∀ c ∈ unread, c ∉ read) {path : String}
    (h : Token.path path ∈ ended read) : Whole path := by
  unfold ended at h
  split at h
  · cases h
  · cases List.mem_singleton.1 h
    rwa [Whole, String.toList_ofList]

theorem not_path_of_marks? {c : Char} {marks : List Token} (h : marks? c = some marks)
    (path : String) : Token.path path ∉ marks := by
  unfold marks? at h
  grind

/-- A character that joins a path can be shown. -/
theorem forall_unread_append {c : Char} (hc : c ∉ unread) (hread : ∀ d ∈ unread, d ∉ read) :
    ∀ d ∈ unread, d ∉ read ++ [c] := by
  intro d hd hmem
  rcases List.mem_append.1 hmem with hmem | hmem
  · exact hread d hd hmem
  · exact hc (List.mem_singleton.1 hmem ▸ hd)

/-- All paths that are shown are whole. -/
theorem whole_of_split (hread : ∀ c ∈ unread, c ∉ read)
    (h : split behind read text = some (tokens, after)) {path : String}
    (hpath : Token.path path ∈ tokens) : Whole path := by
  induction text generalizing behind read tokens with
  | nil => cases behind <;> cases h
  | cons c rest ih =>
    cases behind with
    | true =>
      rw [split] at h
      split at h
      · next hc =>
        have escaped : ∀ c ∈ escapable, c ∉ unread := by simp [escapable, unread, unshown]
        exact ih (forall_unread_append (escaped c hc) hread) h hpath
      · cases h
    | false =>
      rw [split] at h
      split at h
      · exact ih hread h hpath
      split at h
      · cases h
        exact whole_of_ended hread hpath
      split at h
      · cases h
      next hdollar hline hshown =>
      split at h
      · next marks hmarks =>
        obtain ⟨⟨more, behind⟩, hmore, hline⟩ := Option.map_eq_some_iff.1 h
        cases hline
        rw [List.mem_append, List.mem_append] at hpath
        rcases hpath with (hpath | hpath) | hpath
        · exact whole_of_ended hread hpath
        · exact absurd hpath (not_path_of_marks? hmarks path)
        · exact ih (fun _ _ => List.not_mem_nil) hmore hpath
      · next hmarks =>
        have hc : c ∉ unread := by
          rw [unread, List.mem_cons, not_or]
          exact ⟨fun hbar => absurd (hbar ▸ hmarks) (by decide), hshown⟩
        exact ih (forall_unread_append hc hread) h hpath

end Shown

/-- An edge whose rule is a word and whose paths are not empty is read back from its line, whatever
comes behind it, if and only if its paths are whole. -/
theorem readEdge_buildLine_iff {e : Edge} (rule : Word e.rule) (target : e.target ≠ "")
    (inputs : ∀ path ∈ e.inputs, path ≠ "") (after : String) :
    readEdge (buildLine e ++ after) = some ({ e with bindings := [] }, after) ↔
      ∀ path ∈ e.target :: e.inputs, Whole path := by
  rw [readEdge, String.toList_append]
  constructor
  · intro h
    obtain ⟨⟨tokens, rest⟩, hsplit, hedge⟩ := Option.bind_eq_some_iff.1 h
    obtain ⟨edge, hread, heq⟩ := Option.map_eq_some_iff.1 hedge
    have htokens := (edgeOf?_eq_some_iff.1 (hread.trans (congrArg some (Prod.mk.inj heq).1))).1
    intro path hpath
    suffices hmem : Token.path path ∈ tokens from
      whole_of_split (fun _ _ => List.not_mem_nil) hsplit hmem
    rw [show tokens = _ from htokens, edgeTokens]
    rcases List.mem_cons.1 hpath with rfl | hpath
    · simp
    · simp [hpath]
  · intro whole
    have hedge : edgeOf? (edgeTokens e) = some { e with bindings := [] } :=
      edgeOf?_eq_some_iff.2 ⟨rfl, rfl⟩
    rw [split_buildLine rule target inputs whole, Option.bind_some, hedge, Option.map_some,
      String.ofList_toList]

/-! ## In a file -/

/-- The line of an edge stands in a text, and a reader who has come to it takes the target, the rule and
the inputs of the edge from it. -/
def ReadsBack (text : String) (e : Edge) : Prop :=
  ∃ before after, text = before ++ (buildLine e ++ after) ∧
    readEdge (buildLine e ++ after) = some ({ e with bindings := [] }, after)

theorem exists_line_of_append (afterPhony : Bool) (front : List Edge) (e : Edge) (back : List Edge) :
    ∃ before after, edgesText afterPhony (front ++ e :: back) = before ++ (buildLine e ++ after) := by
  induction front generalizing afterPhony with
  | nil =>
    rw [List.nil_append, edgesText, edgeText]
    exact ⟨"", _, by simp only [String.append_assoc, String.empty_append]; rfl⟩
  | cons first front ih =>
    obtain ⟨before, after, h⟩ := ih first.isPhony
    rw [List.cons_append, edgesText, h]
    exact ⟨_, after, String.append_assoc.symm⟩

/-- The line of each edge stands in the file of a graph. -/
theorem exists_line_of_mem {g : Graph} {e : Edge} (h : e ∈ g.edges) :
    ∃ before after, render g = before ++ (buildLine e ++ after) := by
  obtain ⟨front, back, hedges⟩ := List.append_of_mem h
  obtain ⟨before, after, hlines⟩ := exists_line_of_append false front e back
  refine ⟨header ++ String.join (g.globals.map globalLine) ++
      (if g.globals.isEmpty then "" else "\n") ++ String.join (g.rules.map ruleText) ++ before,
    after ++ defaultsText g.defaults, ?_⟩
  rw [render, hedges, hlines]
  simp only [String.append_assoc]

theorem readsBack_iff {g : Graph} {e : Edge} (h : e ∈ g.edges) (rule : Word e.rule)
    (target : e.target ≠ "") (inputs : ∀ path ∈ e.inputs, path ≠ "") :
    ReadsBack (render g) e ↔ ∀ path ∈ e.target :: e.inputs, Whole path := by
  constructor
  · rintro ⟨before, after, -, hread⟩
    exact (readEdge_buildLine_iff rule target inputs after).1 hread
  · intro whole
    obtain ⟨before, after, htext⟩ := exists_line_of_mem h
    exact ⟨before, after, htext, (readEdge_buildLine_iff rule target inputs after).2 whole⟩

end BuildMatrix.Ninja
