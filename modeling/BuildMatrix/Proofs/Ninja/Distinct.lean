import BuildMatrix.Ninja
import BuildMatrix.Proofs.Text.Delimited

/-!
# Build files tell graphs apart

The text of a build graph tells everything that is written of it.  If two graphs have the
same text, they have the same file-scope variables, rules, edges and defaults
(`render_inj`).  Nothing else of a graph is written: the sources that are declared, and
the index, which follows from the edges.

The text has no brackets, so all depends on what may stand where.  A graph is *legible* if
its names are names and its other texts are single lines.  Then each part is delimited: a
name by the blank or line end behind it, a path by a blank or colon that is not escaped, a
value by the end of its line, a list of variables by a line that is not indented, and a
rule by the blank line behind it.  Of the lines that begin a part, only those of variables
hold an equals sign on its own behind the first word (`not_globalLine_body`), so it is told
whether there are any.
-/

namespace BuildMatrix.Ninja

/-! ## Legible graphs -/

/-- A text without line ends. -/
def Line (text : String) : Prop := ∀ c ∈ text.toList, c ≠ '\n'

/-- A character that may stand in a name. -/
def NameChar (c : Char) : Prop := c ≠ ' ' ∧ c ≠ '\n' ∧ c ≠ '='

/-- The name of a rule or of a variable: a single word without an equals sign. -/
def Name (text : String) : Prop := ∀ c ∈ text.toList, NameChar c

instance (text : String) : Decidable (Line text) :=
  List.decidableBAll (fun c => c ≠ '\n') text.toList

instance (c : Char) : Decidable (NameChar c) :=
  inferInstanceAs (Decidable (c ≠ ' ' ∧ c ≠ '\n' ∧ c ≠ '='))

instance (text : String) : Decidable (Name text) :=
  List.decidableBAll NameChar text.toList

/-- A variable with its value. -/
def LegibleVariable (v : String × String) : Prop := Name v.1 ∧ Line v.2

structure LegibleRule (r : Rule) : Prop where
  name : Name r.name
  bindings : ∀ v ∈ r.bindings, LegibleVariable v

structure LegibleEdge (e : Edge) : Prop where
  target : Line e.target
  rule : Name e.rule
  inputs : ∀ input ∈ e.inputs, Line input
  bindings : ∀ v ∈ e.bindings, LegibleVariable v

/-- The rules and variables of a graph have names, and its other texts are single lines. -/
structure Legible (g : Graph) : Prop where
  globals : ∀ v ∈ g.globals, LegibleVariable v
  rules : ∀ r ∈ g.rules, LegibleRule r
  edges : ∀ e ∈ g.edges, LegibleEdge e
  defaults : ∀ target ∈ g.defaults, Line target

instance (v : String × String) : Decidable (LegibleVariable v) :=
  inferInstanceAs (Decidable (Name v.1 ∧ Line v.2))

instance (r : Rule) : Decidable (LegibleRule r) :=
  decidable_of_iff (Name r.name ∧ ∀ v ∈ r.bindings, LegibleVariable v)
    ⟨fun h => ⟨h.1, h.2⟩, fun h => ⟨h.name, h.bindings⟩⟩

instance (e : Edge) : Decidable (LegibleEdge e) :=
  decidable_of_iff (Line e.target ∧ Name e.rule ∧ (∀ input ∈ e.inputs, Line input) ∧
      ∀ v ∈ e.bindings, LegibleVariable v)
    ⟨fun h => ⟨h.1, h.2.1, h.2.2.1, h.2.2.2⟩, fun h => ⟨h.target, h.rule, h.inputs, h.bindings⟩⟩

instance (g : Graph) : Decidable (Legible g) :=
  decidable_of_iff ((∀ v ∈ g.globals, LegibleVariable v) ∧ (∀ r ∈ g.rules, LegibleRule r) ∧
      (∀ e ∈ g.edges, LegibleEdge e) ∧ ∀ target ∈ g.defaults, Line target)
    ⟨fun h => ⟨h.1, h.2.1, h.2.2.1, h.2.2.2⟩, fun h => ⟨h.globals, h.rules, h.edges, h.defaults⟩⟩

/-! ## Characters -/

/-- A code that puts a dollar sign before some characters, the dollar sign among them. -/
def Escapes (special : Char → Prop) (code : Char → List Char) : Prop :=
  special '$' ∧ ∀ c, special c ∧ code c = ['$', c] ∨ ¬ special c ∧ code c = [c]

theorem Escapes.delimited {special : Char → Prop} {code : Char → List Char}
    (escapes : Escapes special code) : Delimited (fun _ => True) (fun _ => True) code := by
  intro a b s t _ _ _ _ h
  rcases escapes.2 a with ⟨ha, hcode⟩ | ⟨ha, hcode⟩
  · rcases escapes.2 b with ⟨hb, hcode'⟩ | ⟨hb, hcode'⟩
    · simpa [hcode, hcode'] using h
    · simp only [hcode, hcode', List.cons_append, List.nil_append, List.cons.injEq] at h
      exact absurd escapes.1 (h.1 ▸ hb)
  · rcases escapes.2 b with ⟨hb, hcode'⟩ | ⟨hb, hcode'⟩
    · simp only [hcode, hcode', List.cons_append, List.nil_append, List.cons.injEq] at h
      exact absurd escapes.1 (h.1 ▸ ha)
    · simpa [hcode, hcode'] using h

theorem escapes_pathChar : Escapes (· ∈ ['$', ' ', ':']) pathChar := by
  refine ⟨by decide, fun c => ?_⟩
  unfold pathChar
  grind

theorem escapes_valueChar : Escapes (· = '$') valueChar := by
  refine ⟨rfl, fun c => ?_⟩
  unfold valueChar
  grind

/-! ## Words and lines -/

/-- What stands behind a name. -/
def AfterName (c : Option Char) : Prop := c = some ' ' ∨ c = some '\n'

/-- What stands behind a path. -/
def AfterPath (c : Option Char) : Prop := c = some ' ' ∨ c = some ':' ∨ c = some '\n'

theorem delimited_name : Delimited Name AfterName String.toList := by
  refine .plain fun c hc hstop => ?_
  simp [AfterName, hc.1, hc.2.1] at hstop

theorem delimited_path : Delimited Line AfterPath fun path => (escapePath path).toList := by
  have escaped : (fun path => (escapePath path).toList) =
      fun path => path.toList.flatMap pathChar := by
    funext path
    simp [escapePath]
  rw [escaped]
  refine .text escapes_pathChar.delimited fun c hc => ?_
  rcases escapes_pathChar.2 c with ⟨-, hcode⟩ | ⟨hplain, hcode⟩
  · exact ⟨'$', [c], hcode, by simp [AfterPath]⟩
  · refine ⟨c, [], hcode, ?_⟩
    simp at hplain
    simp [AfterPath, hplain, hc]

theorem delimited_value :
    Delimited Line (· = some '\n') fun value => (escapeValue value).toList := by
  have escaped :
      (fun value => (escapeValue value).toList) = fun value => value.toList.flatMap valueChar := by
    funext value
    simp [escapeValue]
  rw [escaped]
  refine .text escapes_valueChar.delimited fun c hc => ?_
  rcases escapes_valueChar.2 c with ⟨-, hcode⟩ | ⟨-, hcode⟩
  · exact ⟨'$', [c], hcode, by decide⟩
  · exact ⟨c, [], hcode, by simpa using hc⟩

theorem delimited_line : Delimited Line (· = some '\n') String.toList :=
  .plain fun c hc => by simpa using hc

/-! ## Variables, rules and edges -/

theorem toList_bindingLine (key value : String) :
    (bindingLine key value).toList =
      ' ' :: ' ' :: (key.toList ++ ' ' :: '=' :: ' ' :: (value.toList ++ ['\n'])) := by
  simp [bindingLine]

/-- An indented variable is delimited by its line end, in whatever way its value is written. -/
theorem delimited_bindingLine {written : String → String}
    (value : Delimited Line (· = some '\n') fun text => (written text).toList) :
    Delimited LegibleVariable (fun _ => True) fun v => (bindingLine v.1 (written v.2)).toList := by
  rintro ⟨key, text⟩ ⟨key', text'⟩ s t ⟨hkey, htext⟩ ⟨hkey', htext'⟩ - - h
  simp only [toList_bindingLine, List.cons_append, List.append_assoc, List.cons.injEq, true_and,
    List.nil_append] at h
  obtain ⟨rfl, hvalue⟩ := delimited_name hkey hkey' (.inl rfl) (.inl rfl) h
  simp only [List.cons.injEq, true_and] at hvalue
  obtain ⟨rfl, hrest⟩ := value htext htext' rfl rfl hvalue
  exact ⟨rfl, by simpa using hrest⟩

/-- Variables that follow each other are delimited by a line that is not indented. -/
theorem delimited_bindings {written : String → String}
    (value : Delimited Line (· = some '\n') fun text => (written text).toList) :
    Delimited (fun l : List (String × String) => ∀ v ∈ l, LegibleVariable v) (· ≠ some ' ')
      fun l => l.flatMap fun v => (bindingLine v.1 (written v.2)).toList := by
  refine (delimited_bindingLine value).flatMap (fun v _ => ?_) fun _ _ => trivial
  exact ⟨' ', _, toList_bindingLine _ _, trivial, by simp⟩

theorem toList_ruleText (r : Rule) :
    (ruleText r).toList = "rule ".toList ++ (r.name.toList ++ '\n' ::
      ((r.bindings.flatMap fun v => (bindingLine v.1 v.2).toList) ++ ['\n'])) := by
  simp [ruleText, List.flatMap_map]

/-- A rule is delimited by the blank line behind it. -/
theorem delimited_rule : Delimited LegibleRule (fun _ => True) fun r => (ruleText r).toList := by
  rintro ⟨name, bindings⟩ ⟨name', bindings'⟩ s t ⟨hname, hbindings⟩ ⟨hname', hbindings'⟩ - - h
  simp only [toList_ruleText, List.append_assoc, List.cons_append, List.nil_append] at h
  obtain ⟨rfl, hlines⟩ :=
    delimited_name hname hname' (.inr rfl) (.inr rfl) (List.append_cancel_left h)
  simp only [List.cons.injEq, true_and] at hlines
  have lines := delimited_bindings
    (show Delimited Line _ fun text => (id text).toList from delimited_line)
  obtain ⟨rfl, hrest⟩ := lines hbindings hbindings' (by simp) (by simp) hlines
  exact ⟨rfl, by simpa using hrest⟩

/-- Paths on a line, each with a blank before it, are delimited by the line end. -/
theorem delimited_paths :
    Delimited (fun l : List String => ∀ path ∈ l, Line path) (· = some '\n')
      fun l => l.flatMap fun path => ' ' :: (escapePath path).toList := by
  have each : Delimited Line AfterPath fun path => ' ' :: (escapePath path).toList := by
    intro a b s t ha hb hs ht h
    simp only [List.cons_append, List.cons.injEq, true_and] at h
    exact delimited_path ha hb hs ht h
  refine each.flatMap (fun path _ => ⟨' ', _, rfl, .inl rfl, by simp⟩) ?_
  rintro _ rfl
  exact .inr (.inr rfl)

theorem toList_edgeText (e : Edge) :
    (edgeText e).toList = "build ".toList ++ ((escapePath e.target).toList ++ ':' :: ' ' ::
      (e.rule.toList ++ ((e.inputs.flatMap fun input => ' ' :: (escapePath input).toList) ++ '\n' ::
        (e.bindings.flatMap fun v => (bindingLine v.1 (escapeValue v.2)).toList)))) := by
  simp [edgeText, buildLine, List.flatMap_map]

/-- An edge is delimited by a line that is not indented. -/
theorem delimited_edge : Delimited LegibleEdge (· ≠ some ' ') fun e => (edgeText e).toList := by
  rintro ⟨target, rule, inputs, bindings⟩ ⟨target', rule', inputs', bindings'⟩ s t
    ⟨htarget, hname, hinputs, hbindings⟩ ⟨htarget', hname', hinputs', hbindings'⟩ hs ht h
  simp only [toList_edgeText, List.append_assoc, List.cons_append] at h
  obtain ⟨rfl, hrule⟩ := delimited_path htarget htarget' (.inr (.inl rfl)) (.inr (.inl rfl))
    (List.append_cancel_left h)
  simp only [List.cons.injEq, true_and] at hrule
  -- the rule ends where the first input begins, or the line ends
  have after : ∀ (l : List String) (u : List Char), AfterName
      ((l.flatMap fun input => ' ' :: (escapePath input).toList) ++ '\n' :: u).head? := by
    intro l u
    cases l with
    | nil => exact .inr rfl
    | cons input l => exact .inl rfl
  obtain ⟨rfl, hpaths⟩ := delimited_name hname hname' (after _ _) (after _ _) hrule
  obtain ⟨rfl, hlines⟩ := delimited_paths hinputs hinputs' rfl rfl hpaths
  simp only [List.cons.injEq, true_and] at hlines
  obtain ⟨rfl, hrest⟩ := delimited_bindings delimited_value hbindings hbindings' hs ht hlines
  exact ⟨rfl, hrest⟩

/-- What stands behind the edges: the blank line before the defaults, or nothing. -/
def AfterEdges (c : Option Char) : Prop := c = none ∨ c = some '\n'

theorem edgesText_first (afterPhony : Bool) (e : Edge) (l : List Edge) :
    ∃ rest, (edgesText afterPhony (e :: l)).toList = 'b' :: rest := by
  rw [edgesText, String.toList_append, String.toList_append, toList_edgeText]
  exact ⟨_, rfl⟩

/-- All edges.  Whether a blank line follows an edge is told by the edges up to it. -/
theorem delimited_edges (afterPhony : Bool) :
    Delimited (fun l : List Edge => ∀ e ∈ l, LegibleEdge e) AfterEdges
      fun l => (edgesText afterPhony l).toList := by
  have onward : ∀ (blank : String) (after : Bool) (l : List Edge) (s : List Char),
      blank = "" ∨ blank = "\n" → AfterEdges s.head? →
      (blank.toList ++ ((edgesText after l).toList ++ s)).head? ≠ some ' ' := by
    rintro blank after l s (rfl | rfl) hs
    · cases l with
      | nil => rcases hs with hs | hs <;> simp [edgesText, hs]
      | cons e l =>
        obtain ⟨rest, hfirst⟩ := edgesText_first after e l
        simp [hfirst]
    · simp
  have ends : ∀ (after : Bool) (e : Edge) (l : List Edge) (s t : List Char), AfterEdges s.head? →
      s ≠ (edgesText after (e :: l)).toList ++ t := by
    intro after e l s t hs h
    obtain ⟨rest, hfirst⟩ := edgesText_first after e l
    simp [h, hfirst, AfterEdges] at hs
  intro l m s t hl hm hs ht h
  induction l generalizing m afterPhony with
  | nil =>
    cases m with
    | nil => exact ⟨rfl, by simpa [edgesText] using h⟩
    | cons e m => exact absurd (by simpa [edgesText] using h) (ends afterPhony e m s t hs)
  | cons e l ih =>
    cases m with
    | nil => exact absurd (by simpa [edgesText] using h.symm) (ends afterPhony e l t s ht)
    | cons e' m =>
      simp only [edgesText, String.toList_append, List.append_assoc] at h
      have blank : ∀ b : Bool, (if b then "\n" else "") = "" ∨ (if b then "\n" else "") = "\n" := by
        decide
      obtain ⟨rfl, hrest⟩ := delimited_edge (hl e List.mem_cons_self) (hm e' List.mem_cons_self)
        (onward _ _ _ _ (blank _) hs) (onward _ _ _ _ (blank _) ht) h
      obtain ⟨rfl, rfl⟩ := ih e.isPhony (fun e he => hl e (List.mem_cons_of_mem _ he))
        (fun e he => hm e (List.mem_cons_of_mem _ he)) (List.append_cancel_left hrest)
      exact ⟨rfl, rfl⟩

/-! ## Sections of the file -/

/-- The value of a file-scope variable with the blank before it, or nothing if it is empty. -/
def assigned (value : String) : List Char := if value = "" then [] else ' ' :: value.toList

theorem delimited_assigned : Delimited Line (· = some '\n') assigned := by
  intro a b s t ha hb hs ht h
  by_cases hempty : a = ""
  · by_cases hempty' : b = ""
    · exact ⟨hempty.trans hempty'.symm, by simpa [assigned, hempty, hempty'] using h⟩
    · simp [assigned, hempty, hempty'] at h
      simp [h] at hs
  · by_cases hempty' : b = ""
    · simp [assigned, hempty, hempty'] at h
      simp [← h] at ht
    · simp only [assigned, hempty, hempty', if_false, List.cons_append, List.cons.injEq,
        true_and] at h
      exact delimited_line ha hb hs ht h

theorem afterName_assigned (value : String) (rest : List Char) :
    AfterName (assigned value ++ '\n' :: rest).head? := by
  by_cases hempty : value = "" <;> simp [assigned, hempty, AfterName]

theorem toList_globalLine (v : String × String) :
    (globalLine v).toList = v.1.toList ++ ' ' :: '=' :: (assigned v.2 ++ ['\n']) := by
  by_cases hempty : v.2 = "" <;> simp [globalLine, assigned, hempty]

/-- A file-scope variable is delimited by its line end. -/
theorem delimited_globalLine :
    Delimited LegibleVariable (fun _ => True) fun v => (globalLine v).toList := by
  rintro ⟨key, value⟩ ⟨key', value'⟩ s t ⟨hkey, hvalue⟩ ⟨hkey', hvalue'⟩ - - h
  simp only [toList_globalLine, List.append_assoc, List.cons_append, List.nil_append] at h
  obtain ⟨rfl, hassigned⟩ := delimited_name hkey hkey' (.inl rfl) (.inl rfl) h
  simp only [List.cons.injEq, true_and] at hassigned
  obtain ⟨rfl, hrest⟩ := delimited_assigned hvalue hvalue' rfl rfl hassigned
  exact ⟨rfl, by simpa using hrest⟩

/-- The line of a file-scope variable is not blank. -/
theorem globalLine_first (v : String × String) (h : LegibleVariable v) :
    ∃ c rest, (globalLine v).toList = c :: rest ∧ c ≠ '\n' := by
  rw [toList_globalLine]
  cases hkey : v.1.toList with
  | nil => exact ⟨' ', _, rfl, by decide⟩
  | cons c rest => exact ⟨c, _, rfl, (h.1 c (by simp [hkey])).2.1⟩

/-- The file-scope variables of a file that has some are delimited by a blank line. -/
theorem delimited_globals :
    Delimited (fun l : List (String × String) => ∀ v ∈ l, LegibleVariable v) (· = some '\n')
      fun l => l.flatMap fun v => (globalLine v).toList := by
  refine delimited_globalLine.flatMap (fun v hv => ?_) fun _ _ => trivial
  obtain ⟨c, rest, hfirst, hc⟩ := globalLine_first v hv
  exact ⟨c, rest, hfirst, trivial, by simpa using hc⟩

/-- All rules are delimited by what does not begin as a rule does. -/
theorem delimited_rules :
    Delimited (fun l : List Rule => ∀ r ∈ l, LegibleRule r) (· ≠ some 'r')
      fun l => l.flatMap fun r => (ruleText r).toList := by
  refine delimited_rule.flatMap (fun r _ => ?_) fun _ _ => trivial
  exact ⟨'r', _, toList_ruleText r, trivial, by simp⟩

/-- Texts with blanks between them, and one before the first. -/
theorem blank_intercalate {l : List (List Char)} (h : l ≠ []) :
    ' ' :: [' '].intercalate l = l.flatMap (' ' :: ·) := by
  induction l with
  | nil => exact absurd rfl h
  | cons a l ih =>
    cases l with
    | nil => simp
    | cons b l => simp [← ih (List.cons_ne_nil b l)]

theorem toList_defaultsText {defaults : List String} (h : defaults ≠ []) :
    (defaultsText defaults).toList = "\ndefault".toList ++
      ((defaults.flatMap fun path => ' ' :: (escapePath path).toList) ++ ['\n']) := by
  have blanks := blank_intercalate (l := defaults.map fun path => (escapePath path).toList) (by simpa)
  rw [List.flatMap_map] at blanks
  rw [← blanks]
  simp [defaultsText, h, String.toList_intercalate, Function.comp_def]

theorem defaultsText_first {defaults : List String} (h : defaults ≠ []) :
    ∃ rest, (defaultsText defaults).toList = '\n' :: rest :=
  ⟨_, toList_defaultsText h⟩

theorem afterEdges_defaultsText (defaults : List String) :
    AfterEdges (defaultsText defaults).toList.head? := by
  cases defaults with
  | nil => exact .inl rfl
  | cons path defaults =>
    obtain ⟨rest, hfirst⟩ := defaultsText_first (List.cons_ne_nil path defaults)
    exact .inr (by rw [hfirst]; rfl)

theorem defaultsText_eq_empty_iff {defaults : List String} :
    defaultsText defaults = "" ↔ defaults = [] := by
  constructor
  · intro h
    by_contra hne
    obtain ⟨rest, hfirst⟩ := defaultsText_first hne
    simp [h] at hfirst
  · rintro rfl
    rfl

theorem defaultsText_inj {l m : List String} (hl : ∀ path ∈ l, Line path)
    (hm : ∀ path ∈ m, Line path) (h : defaultsText l = defaultsText m) : l = m := by
  by_cases hempty : l = []
  · rw [hempty, defaultsText_eq_empty_iff.2 rfl] at h
    rw [hempty, defaultsText_eq_empty_iff.1 h.symm]
  · have hempty' : m ≠ [] := by
      rintro rfl
      exact hempty (defaultsText_eq_empty_iff.1 h)
    have hpaths := congrArg String.toList h
    rw [toList_defaultsText hempty, toList_defaultsText hempty'] at hpaths
    exact (delimited_paths hl hm rfl rfl (List.append_cancel_left hpaths)).1

/-! ## The whole file -/

/-- What is written behind the file-scope variables. -/
def body (g : Graph) : List Char :=
  (g.rules.flatMap fun r => (ruleText r).toList) ++
    ((edgesText false g.edges).toList ++ (defaultsText g.defaults).toList)

theorem toList_render (g : Graph) :
    (render g).toList = header.toList ++ ((g.globals.flatMap fun v => (globalLine v).toList) ++
      ((if g.globals = [] then [] else ['\n']) ++ body g)) := by
  cases hglobals : g.globals <;>
    simp [render, body, hglobals, String.toList_join, List.flatMap_map]

/-- What stands behind the rules does not begin as a rule does. -/
theorem not_rule_edges (edges : List Edge) (defaults : List String) :
    ((edgesText false edges).toList ++ (defaultsText defaults).toList).head? ≠ some 'r' := by
  cases edges with
  | nil => rcases afterEdges_defaultsText defaults with h | h <;> simp [edgesText, h]
  | cons e edges =>
    obtain ⟨rest, hfirst⟩ := edgesText_first false e edges
    simp [hfirst]

theorem body_inj {g h : Graph} (hg : Legible g) (hh : Legible h) (heq : body g = body h) :
    g.rules = h.rules ∧ g.edges = h.edges ∧ g.defaults = h.defaults := by
  obtain ⟨hrules, hrest⟩ := delimited_rules hg.rules hh.rules (not_rule_edges _ _)
    (not_rule_edges _ _) heq
  obtain ⟨hedges, hdefaults⟩ := delimited_edges false hg.edges hh.edges
    (afterEdges_defaultsText _) (afterEdges_defaultsText _) hrest
  exact ⟨hrules, hedges, defaultsText_inj hg.defaults hh.defaults (String.toList_inj.1 hdefaults)⟩

/-- Behind the word `rule` stands a name and behind the word `build` a path, where a variable has an
equals sign on its own. -/
theorem not_globalLine_body {g : Graph} (hg : Legible g) {v : String × String}
    (hv : LegibleVariable v) (rest : List Char) : body g ≠ (globalLine v).toList ++ rest := by
  intro h
  cases hrules : g.rules with
  | cons r rules =>
    have hr : LegibleRule r := hg.rules r (by simp [hrules])
    have word : "rule ".toList = "rule".toList ++ [' '] := rfl
    simp only [body, hrules, List.flatMap_cons, toList_ruleText, toList_globalLine, word,
      List.append_assoc, List.cons_append, List.nil_append] at h
    have hname := (delimited_name (by decide) hv.1 (.inl rfl) (.inl rfl) h).2
    cases hchars : r.name.toList with
    | nil => simp [hchars] at hname
    | cons c rest =>
      have hc : c ≠ '=' := (hr.name c (by simp [hchars])).2.2
      simp [hchars, hc] at hname
  | nil =>
    cases hedges : g.edges with
    | cons e edges =>
      have he : LegibleEdge e := hg.edges e (by simp [hedges])
      have word : "build ".toList = "build".toList ++ [' '] := rfl
      simp only [body, hrules, hedges, edgesText, String.toList_append, toList_edgeText,
        toList_globalLine, word, List.flatMap_nil, List.append_assoc, List.cons_append,
        List.nil_append] at h
      have htarget := (delimited_name (by decide) hv.1 (.inl rfl) (.inl rfl) h).2
      simp only [List.cons.injEq, true_and] at htarget
      -- the equals sign would be the target, and the colon behind it a blank or a line end
      have hafter := afterName_assigned v.2 rest
      obtain ⟨-, hcolon⟩ := delimited_path he.target (b := "=") (by decide) (.inr (.inl rfl))
        (hafter.imp_right .inr) htarget
      rw [← hcolon] at hafter
      simp [AfterName] at hafter
    | nil =>
      obtain ⟨c, rest', hfirst, hc⟩ := globalLine_first v hv
      have hhead := congrArg List.head? h
      rcases afterEdges_defaultsText g.defaults with hend | hend <;>
        simp [body, hrules, hedges, edgesText, hfirst, hend] at hhead
      exact hc hhead.symm

/-- The text of a graph tells its variables, rules, edges and defaults. -/
theorem render_inj {g h : Graph} (hg : Legible g) (hh : Legible h) (heq : render g = render h) :
    g.globals = h.globals ∧ g.rules = h.rules ∧ g.edges = h.edges ∧ g.defaults = h.defaults := by
  have htext := congrArg String.toList heq
  rw [toList_render, toList_render] at htext
  replace htext := List.append_cancel_left htext
  cases hglobals : g.globals with
  | nil =>
    cases hglobals' : h.globals with
    | nil =>
      simp only [hglobals, hglobals', List.flatMap_nil, if_true, List.nil_append] at htext
      exact ⟨rfl, body_inj hg hh htext⟩
    | cons v globals =>
      have hv : LegibleVariable v := hh.globals v (by simp [hglobals'])
      simp only [hglobals, hglobals', List.flatMap_nil, List.flatMap_cons, if_true,
        List.nil_append, List.append_assoc] at htext
      exact absurd htext (not_globalLine_body hg hv _)
  | cons v globals =>
    cases hglobals' : h.globals with
    | nil =>
      have hv : LegibleVariable v := hg.globals v (by simp [hglobals])
      simp only [hglobals, hglobals', List.flatMap_nil, List.flatMap_cons, if_true,
        List.nil_append, List.append_assoc] at htext
      exact absurd htext.symm (not_globalLine_body hh hv _)
    | cons v' globals' =>
      simp only [hglobals, hglobals', List.cons_ne_nil, if_false] at htext
      obtain ⟨hvariables, hbody⟩ := delimited_globals (hglobals ▸ hg.globals)
        (hglobals' ▸ hh.globals) (by simp) (by simp) htext
      exact ⟨hvariables, body_inj hg hh (List.append_cancel_left hbody)⟩

/-- A graph with something in each section. -/
def sample : Graph :=
  { globals := [("cc", "gcc"), ("run_wrapper", "")]
    rules := [{ name := "compile", bindings := [("command", "$cc $flags -c $in -o $out")] }]
    edges :=
      [{ target := "a b.o", rule := "compile", inputs := ["a b.c"], bindings := [("flags", "-O2")] },
        Edge.alias "all" ["a b.o"]]
    defaults := ["all"] }

/-- Declaring a source changes the graph, not its text and so nothing that is written. -/
theorem sample_of_render_addSource :
    sample.addSource "a b.c" ≠ sample ∧ render (sample.addSource "a b.c") = render sample ∧
      (sample.addSource "a b.c").edges = sample.edges :=
  ⟨by decide, rfl, (render_inj (by decide) (by decide) rfl).2.2.1⟩

end BuildMatrix.Ninja
