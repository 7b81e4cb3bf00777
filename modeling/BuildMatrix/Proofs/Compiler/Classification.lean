import BuildMatrix.Compiler.Detect
import Mathlib.Data.List.Forall2

/-!
# What a compiler is taken for

There are three kinds of evidence: the name of the compiler (`NameTells`), what it replies when it is
asked for its version (`VersionTells`), and what it replies when it is asked to be verbose
(`VerboseTells`).  A family follows from the first evidence that is decisive, and no question is asked
beyond it (`Classified`).  So a compiler is asked twice at most (`classify_iff`).

Only a reply is evidence.  A compiler that could not be run, or did not exit with status zero, has not
replied, whatever it wrote (`Runner.reply?`).
-/

namespace BuildMatrix

open Text

/-! ## Questions and replies -/

def versionQuestion (path : Path) : Command := ⟨path, ["--version"]⟩

def verboseQuestion (path : Path) : Command := ⟨path, ["-v"]⟩

/-- What a compiler replies to a question after other commands.  It has not replied if it could not be
run, or did not exit with status zero. -/
def Runner.reply? (runner : Runner) (calls : List Command) (question : Command) : Option Output :=
  match runner.answer calls question with
  | .ok output => if output.status = some 0 then some output else none
  | .error _ => none

/-! ## Evidence -/

/-- The text is the word, with small or capital letters. -/
def AnyCase (word text : String) : Prop :=
  List.Forall₂ (fun letter c => c = letter ∨ c = letter.toUpper) word.toList text.toList

/-- The compiler goes by the name of Visual C++. -/
def Launches (cc : String) : Prop := AnyCase "cl" cc ∨ AnyCase "cl.exe" cc

/-- The file name of the compiler, or all of its name if that has none, ends like this. -/
def Ends (cc ending : String) : Prop := ending.toList <:+ ((Path.mk cc).fileName?.getD cc).toList

/-- The name of a compiler tells its family. -/
inductive NameTells (cc : String) : Family → Prop where
  | msvc (launches : Launches cc) : NameTells cc .msvc
  | cproc (other : ¬ Launches cc) (ends : Ends cc "cproc") : NameTells cc .cproc
  | chibicc (other : ¬ Launches cc) (cproc : ¬ Ends cc "cproc") (ends : Ends cc "chibicc") :
      NameTells cc .chibicc
  | eightCc (other : ¬ Launches cc) (cproc : ¬ Ends cc "cproc") (chibicc : ¬ Ends cc "chibicc")
      (ends : Ends cc "8cc") : NameTells cc .eightCc

/-- The reply to the question for the version tells the family. -/
inductive VersionTells (reply : Output) : Family → Prop where
  | cparser (begins : "cparser ".toList <+: reply.stdout.toList) : VersionTells reply .cparser
  | clang (other : ¬ "cparser ".toList <+: reply.stdout.toList)
      (mentions : "clang".toList <:+: reply.stdout.toList) : VersionTells reply .clang

/-- The family that a line begins with. -/
inductive LineTells (line : String) : Family → Prop where
  | tinyCc (begins : "tcc ".toList <+: line.toList) : LineTells line .tinyCc
  | gcc (begins : "gcc ".toList <+: line.toList) : LineTells line .gcc

/-- A verbose reply tells the family: of its lines, those of standard output before those of standard
error, it is the first that tells one. -/
def VerboseTells (reply : Output) (family : Family) : Prop :=
  ∃ before line after, lines reply.stdout ++ lines reply.stderr = before ++ line :: after ∧
    LineTells line family ∧ ∀ other ∈ before, ∀ f, ¬ LineTells other f

section Deciding

variable (runner : Runner) (cc : String) (path : Path) (calls : List Command)

/-- The compiler has replied to the question for its version, and that tells its family. -/
def TellsVersion (family : Family) : Prop :=
  ∃ reply, runner.reply? calls (versionQuestion path) = some reply ∧ VersionTells reply family

/-- The compiler, asked for its version before, has replied verbosely, and that tells its family. -/
def TellsVerbosely (family : Family) : Prop :=
  ∃ reply, runner.reply? (calls ++ [versionQuestion path]) (verboseQuestion path) = some reply ∧
    VerboseTells reply family

/-- The family that follows from the first decisive evidence, and the questions that are asked. -/
inductive Classified : Family → List Command → Prop where
  | named {family : Family} (tells : NameTells cc family) : Classified family []
  | version {family : Family} (unnamed : ∀ f, ¬ NameTells cc f)
      (tells : TellsVersion runner path calls family) : Classified family [versionQuestion path]
  | verbose {family : Family} (unnamed : ∀ f, ¬ NameTells cc f)
      (mute : ∀ f, ¬ TellsVersion runner path calls f)
      (tells : TellsVerbosely runner path calls family) :
      Classified family [versionQuestion path, verboseQuestion path]
  | unknown (unnamed : ∀ f, ¬ NameTells cc f) (mute : ∀ f, ¬ TellsVersion runner path calls f)
      (quiet : ∀ f, ¬ TellsVerbosely runner path calls f) :
      Classified .unknown [versionQuestion path, verboseQuestion path]

end Deciding

/-! ## Names -/

theorem toNat_toLower (c : Char) :
    c.toLower.toNat = if 65 ≤ c.toNat ∧ c.toNat ≤ 90 then c.toNat + 32 else c.toNat := by
  have small : ∀ n : UInt32, n.toNat ≤ 90 → (n + 32).toNat = n.toNat + 32 := by
    intro n hn
    rw [UInt32.toNat_add]
    exact Nat.mod_eq_of_lt (by simp; omega)
  delta Char.toLower
  simp only [Char.toNat]
  split
  next h =>
    rw [if_pos (by simpa [UInt32.le_iff_toNat_le] using h)]
    exact small _ h.2
  next h => rw [if_neg (by simpa [UInt32.le_iff_toNat_le] using h)]

theorem toLower_eq_iff {letter : Char} (h : letter ∈ msvcLauncher.toList) (c : Char) :
    c.toLower = letter ↔ c = letter ∨ c = letter.toUpper := by
  have hletter : letter ∈ ['c', 'l', '.', 'e', 'x', 'e'] := by simpa [msvcLauncher] using h
  simp only [List.mem_cons, List.not_mem_nil, or_false] at hletter
  simp only [← Char.toNat_inj, toNat_toLower]
  obtain rfl | rfl | rfl | rfl | rfl | rfl := hletter <;> simp <;> split <;> omega

theorem lowerCase_eq_iff {word : String} (h : word.toList ⊆ msvcLauncher.toList) (text : String) :
    lowerCase text = word ↔ AnyCase word text := by
  rw [← String.toList_inj, lowerCase, String.toList_map, AnyCase]
  generalize text.toList = chars
  generalize word.toList = letters at h
  induction letters generalizing chars with
  | nil => simp
  | cons letter letters ih =>
    rw [List.cons_subset] at h
    cases chars with
    | nil => simp
    | cons c chars => simp [toLower_eq_iff h.1, ih chars h.2]

theorem launches_iff (cc : String) : lowerCase cc = "cl" ∨ lowerCase cc = msvcLauncher ↔ Launches cc :=
  or_congr (lowerCase_eq_iff (by decide) cc) (lowerCase_eq_iff (List.Subset.refl _) cc)

instance (cc : String) : Decidable (Launches cc) := decidable_of_iff _ (launches_iff cc)

instance (cc ending : String) : Decidable (Ends cc ending) := inferInstanceAs (Decidable (_ <:+ _))

theorem familyOfName?_eq_some_iff {cc : String} {family : Family} :
    familyOfName? cc = some family ↔ NameTells cc family := by
  have ends (ending : String) :
      endsWith ending ((Path.mk cc).fileName?.getD cc) = decide (Ends cc ending) :=
    Bool.eq_iff_iff.2 (endsWith_iff.trans decide_eq_true_iff.symm)
  simp only [familyOfName?, launches_iff, smallCompilers, List.find?, ends]
  constructor
  · intro h
    by_cases launches : Launches cc
    · obtain rfl : .msvc = family := by simpa [launches] using h
      exact .msvc launches
    by_cases cproc : Ends cc "cproc"
    · obtain rfl : .cproc = family := by simpa [launches, cproc] using h
      exact .cproc launches cproc
    by_cases chibicc : Ends cc "chibicc"
    · obtain rfl : .chibicc = family := by simpa [launches, cproc, chibicc] using h
      exact .chibicc launches cproc chibicc
    by_cases eightCc : Ends cc "8cc"
    · obtain rfl : .eightCc = family := by simpa [launches, cproc, chibicc, eightCc] using h
      exact .eightCc launches cproc chibicc eightCc
    · simp [launches, cproc, chibicc, eightCc] at h
  · rintro (launches | ⟨launches, cproc⟩ | ⟨launches, cproc, chibicc⟩ |
      ⟨launches, cproc, chibicc, eightCc⟩) <;> simp [*]

/-! ## Replies -/

variable {runner : Runner} {calls : List Command} {question : Command}

theorem success_of_reply? {reply : Output} (h : runner.reply? calls question = some reply) :
    reply.success = true := by
  simp only [Runner.reply?] at h
  split at h
  next => grind [Output.success]
  next => cases h

/-- What counts only if the compiler has succeeded is said of its replies. -/
theorem bind_ask {tell : Output → Option Family} (h : ∀ o : Output, o.success = false → tell o = none) :
    (runner.ask calls question).1.bind tell = (runner.reply? calls question).bind tell := by
  simp only [Runner.ask, Runner.reply?]
  cases runner.answer calls question with
  | error trouble => rfl
  | ok output => grind [Output.success, Except.toOption]

theorem familyOfVersion?_eq_some_iff {reply : Output} (h : reply.success = true) {family : Family} :
    familyOfVersion? reply = some family ↔ VersionTells reply family := by
  simp only [familyOfVersion?, h, Bool.not_true, Bool.false_eq_true, if_false, beginsWith_iff,
    occursIn_iff]
  constructor
  · intro tells
    split_ifs at tells with begins mentions
    · cases tells
      exact .cparser begins
    · cases tells
      exact .clang begins mentions
  · rintro (begins | ⟨other, mentions⟩)
    · exact if_pos begins
    · rw [if_neg other, if_pos mentions]

/-! ## Lines -/

theorem familyOfLine?_eq_some_iff {line : String} {family : Family} :
    familyOfLine? line = some family ↔ LineTells line family := by
  simp only [familyOfLine?, beginsWith_iff]
  constructor
  · intro tells
    split_ifs at tells with tcc gcc
    · cases tells
      exact .tinyCc tcc
    · cases tells
      exact .gcc gcc
  · rintro (tcc | gcc)
    · exact if_pos tcc
    · have other : ¬ "tcc ".toList <+: line.toList := fun tcc =>
        absurd (List.prefix_of_prefix_length_le tcc gcc (by decide)) (by decide)
      rw [if_neg other, if_pos gcc]

/-- What a line begins with does not depend on a carriage return at its end. -/
theorem isPrefix_dropReturn_iff {part line : List Char} (h : '\r' ∉ part) :
    part <+: dropReturn line ↔ part <+: line := by
  rw [dropReturn]
  split
  next returns =>
    obtain ⟨line, rfl⟩ := List.getLast?_eq_some_iff.1 returns
    rw [List.dropLast_concat, List.prefix_concat_iff]
    exact ⟨.inr, fun begins => begins.resolve_left fun whole => h (by simp [whole])⟩
  next => rfl

theorem familyOfLine?_dropReturn (line : List Char) :
    familyOfLine? (String.ofList (dropReturn line)) = familyOfLine? (String.ofList line) := by
  have begins {part : String} (h : '\r' ∉ part.toList) :
      beginsWith part (String.ofList (dropReturn line)) = beginsWith part (String.ofList line) :=
    Bool.eq_iff_iff.2 (by simpa using isPrefix_dropReturn_iff h)
  rw [familyOfLine?, familyOfLine?, begins (by decide), begins (by decide)]

/-- What the lines of a text tell is what the pieces between its line feeds tell. -/
theorem findSome?_lines (text : String) : (lines text).findSome? familyOfLine? =
    (text.toList.splitOn '\n').findSome? fun piece => familyOfLine? (String.ofList piece) := by
  obtain ⟨cut, last, hcut⟩ : ∃ cut last, text.toList.splitOn '\n' = cut ++ [last] :=
    ⟨_, _, (List.dropLast_concat_getLast (by simp)).symm⟩
  have hlast : (([last].filter fun l => !l.isEmpty).findSome? fun piece =>
      familyOfLine? (String.ofList piece)) = familyOfLine? (String.ofList last) := by
    cases last with
    | nil => decide
    | cons c last => simp
  simp only [lines, linesOfPieces, hcut, List.dropLast_concat, List.getLast?_concat, Option.toList_some,
    List.findSome?_map, List.findSome?_append, Function.comp_def, familyOfLine?_dropReturn, hlast]
  simp

/-- The lines of standard output count before those of standard error, although the two texts are
joined before they are cut into lines. -/
theorem findSome?_lines_append (a b : String) : (lines (a ++ "\n" ++ b)).findSome? familyOfLine? =
    (lines a ++ lines b).findSome? familyOfLine? := by
  have hjoined : (a ++ "\n" ++ b).toList = a.toList ++ '\n' :: b.toList := by simp
  rw [findSome?_lines, hjoined, List.splitOn_append_cons_self, List.findSome?_append,
    List.findSome?_append, findSome?_lines, findSome?_lines]

theorem familyOfVerbose?_eq_some_iff {reply : Output} (h : reply.success = true) {family : Family} :
    familyOfVerbose? reply = some family ↔ VerboseTells reply family := by
  simp only [familyOfVerbose?, h, Bool.not_true, Bool.false_eq_true, if_false, findSome?_lines_append,
    List.findSome?_eq_some_iff, Option.eq_none_iff_forall_ne_some, ne_eq, familyOfLine?_eq_some_iff]
  rfl

/-! ## Classification -/

section Deciding

variable (runner : Runner) (cc : String) (path : Path) (calls : List Command)

/-- The family that the reply to the question for the version tells. -/
def ofVersion? : Option Family :=
  (runner.reply? calls (versionQuestion path)).bind familyOfVersion?

/-- The family that the verbose reply tells. -/
def ofVerbose? : Option Family :=
  (runner.reply? (calls ++ [versionQuestion path]) (verboseQuestion path)).bind familyOfVerbose?

theorem ofVersion?_eq_some_iff {family : Family} :
    ofVersion? runner path calls = some family ↔ TellsVersion runner path calls family := by
  rw [ofVersion?, Option.bind_eq_some_iff]
  exact exists_congr fun reply => and_congr_right fun replied =>
    familyOfVersion?_eq_some_iff (success_of_reply? replied)

theorem ofVerbose?_eq_some_iff {family : Family} :
    ofVerbose? runner path calls = some family ↔ TellsVerbosely runner path calls family := by
  rw [ofVerbose?, Option.bind_eq_some_iff]
  exact exists_congr fun reply => and_congr_right fun replied =>
    familyOfVerbose?_eq_some_iff (success_of_reply? replied)

/-- Classification depends on the name and on the replies to the two questions, and on nothing else. -/
theorem classify_eq : classify runner cc path calls =
    match familyOfName? cc with
    | some family => (family, calls)
    | none =>
        match ofVersion? runner path calls with
        | some family => (family, calls ++ [versionQuestion path])
        | none => ((ofVerbose? runner path calls).getD .unknown,
            calls ++ [versionQuestion path, verboseQuestion path]) := by
  have version : (runner.ask calls (versionQuestion path)).1.bind familyOfVersion? =
      ofVersion? runner path calls := bind_ask fun o ho => by simp [familyOfVersion?, ho]
  have verbose : (runner.ask (calls ++ [versionQuestion path]) (verboseQuestion path)).1.bind
      familyOfVerbose? = ofVerbose? runner path calls :=
    bind_ask fun o ho => by simp [familyOfVerbose?, ho]
  rw [classify]
  cases familyOfName? cc with
  | some family => rfl
  | none =>
    rw [← version, ← verbose]
    simp only [Runner.ask, List.append_assoc, List.cons_append, List.nil_append]
    rfl

/-- A compiler is taken for what the first decisive evidence tells, and is asked no question beyond
it. -/
theorem classify_iff {family : Family} {asked : List Command} :
    classify runner cc path calls = (family, calls ++ asked) ↔
      Classified runner cc path calls family asked := by
  have hname : familyOfName? cc = none ↔ ∀ f, ¬ NameTells cc f := by
    simp [Option.eq_none_iff_forall_ne_some, familyOfName?_eq_some_iff]
  have hversion : ofVersion? runner path calls = none ↔ ∀ f, ¬ TellsVersion runner path calls f := by
    simp [Option.eq_none_iff_forall_ne_some, ofVersion?_eq_some_iff]
  have hverbose : ofVerbose? runner path calls = none ↔
      ∀ f, ¬ TellsVerbosely runner path calls f := by
    simp [Option.eq_none_iff_forall_ne_some, ofVerbose?_eq_some_iff]
  rw [classify_eq]
  constructor
  · intro h
    cases name : familyOfName? cc with
    | some f =>
      obtain ⟨rfl, rfl⟩ : f = family ∧ asked = [] := by simpa [name] using h
      exact .named (familyOfName?_eq_some_iff.1 name)
    | none =>
      cases version : ofVersion? runner path calls with
      | some f =>
        obtain ⟨rfl, rfl⟩ : f = family ∧ [versionQuestion path] = asked := by
          simpa [name, version] using h
        exact .version (hname.1 name) ((ofVersion?_eq_some_iff ..).1 version)
      | none =>
        obtain ⟨rfl, rfl⟩ : (ofVerbose? runner path calls).getD .unknown = family ∧
            [versionQuestion path, verboseQuestion path] = asked := by
          simpa [name, version] using h
        cases verbose : ofVerbose? runner path calls with
        | some f =>
          exact .verbose (hname.1 name) (hversion.1 version) ((ofVerbose?_eq_some_iff ..).1 verbose)
        | none => exact .unknown (hname.1 name) (hversion.1 version) (hverbose.1 verbose)
  · intro h
    cases h with
    | named tells => simp [familyOfName?_eq_some_iff.2 tells]
    | version unnamed tells =>
      simp [hname.2 unnamed, (ofVersion?_eq_some_iff ..).2 tells]
    | verbose unnamed mute tells =>
      simp [hname.2 unnamed, hversion.2 mute, (ofVerbose?_eq_some_iff ..).2 tells]
    | unknown unnamed mute quiet =>
      simp [hname.2 unnamed, hversion.2 mute, hverbose.2 quiet]

/-- The family of a compiler follows from the first decisive evidence, and the compiler is not asked
beyond it, so it is asked twice at most.  Two ways of answering that agree in the replies come to the
same end, whatever a compiler writes that does not succeed. -/
theorem classify_decides :
    (∃ family asked, classify runner cc path calls = (family, calls ++ asked) ∧ asked.length ≤ 2) ∧
      (∀ family asked, classify runner cc path calls = (family, calls ++ asked) ↔
        Classified runner cc path calls family asked) ∧
      ∀ other : Runner,
        other.reply? calls (versionQuestion path) = runner.reply? calls (versionQuestion path) →
        other.reply? (calls ++ [versionQuestion path]) (verboseQuestion path) =
          runner.reply? (calls ++ [versionQuestion path]) (verboseQuestion path) →
        classify other cc path calls = classify runner cc path calls := by
  refine ⟨?_, fun family asked => classify_iff runner cc path calls, fun other version verbose => ?_⟩
  · rw [classify_eq]
    cases familyOfName? cc with
    | some family => exact ⟨family, [], by simp, by simp⟩
    | none =>
      cases ofVersion? runner path calls with
      | some family => exact ⟨family, [versionQuestion path], rfl, by simp⟩
      | none => exact ⟨_, [versionQuestion path, verboseQuestion path], rfl, by simp⟩
  · rw [classify_eq, classify_eq, ofVersion?, ofVersion?, ofVerbose?, ofVerbose?, version, verbose]

end Deciding

/-- A compiler that names itself on standard error when it is asked to be verbose, whatever comes of
the question for its version. -/
def verboseRunner (version : Except Trouble Output) : Runner where
  find? _ := none
  answer _ question :=
    if question.arguments = ["-v"] then
      .ok ⟨some 0, "COLLECT_GCC=gcc\n", "Using built-in specs.\ngcc version 12.2.0\n"⟩
    else version

theorem classify_decides_failing :
    Classified (verboseRunner (.error .notFound)) "cc" ⟨"/bin/cc"⟩ [] .gcc
        [versionQuestion ⟨"/bin/cc"⟩, verboseQuestion ⟨"/bin/cc"⟩] ∧
      classify (verboseRunner (.ok ⟨some 1, "clang version 15", ""⟩)) "cc" ⟨"/bin/cc"⟩ [] =
        classify (verboseRunner (.error .notFound)) "cc" ⟨"/bin/cc"⟩ [] := by
  have decides := classify_decides (verboseRunner (.error .notFound)) "cc" ⟨"/bin/cc"⟩ []
  exact ⟨(decides.2.1 _ _).1 (by decide +kernel), decides.2.2 _ rfl rfl⟩

end BuildMatrix
