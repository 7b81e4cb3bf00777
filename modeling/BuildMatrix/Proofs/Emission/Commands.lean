import BuildMatrix.Proofs.Emission.ExampleNames
import BuildMatrix.Proofs.Ninja.Distinct
import BuildMatrix.Proofs.Ninja.Expansion

/-!
# The programs of the rules

The command of a rule begins with a program: the compiler, with a launcher before it where there is
one, or the generator of the unit tests' registrations.  The commands are templates and are written as
they stand, names included.  So a reader finds the program as it is if it is literal, and otherwise it
finds another one, or an error (`rules_run_iff`).
-/

namespace BuildMatrix

open Ninja (Arguments Literal expand programLine readCommand)

/-- The command of the rule, as it is read from the rule's text, begins with the program, whatever the
variables are bound to. -/
def Rule.Runs (r : Rule) (program : String) : Prop :=
  ∀ values, ∃ rest, readCommand values (Ninja.ruleText r) = some (program ++ rest)

namespace Ninja

/-- What a reader finds behind the equals sign of a command. -/
theorem readCommand_ruleText {name : String} (hname : '=' ∉ name.toList) (command : String)
    (more : List (String × String)) :
    ∃ rest, ∀ values, readCommand values (ruleText ⟨name, ("command", command) :: more⟩) =
      (expand values .plain ((command.toList ++ '\n' :: rest).dropWhile (· = ' '))).map
        String.ofList := by
  refine ⟨(more.flatMap fun v => (bindingLine v.1 v.2).toList) ++ ['\n'], fun values => ?_⟩
  have hfront : ∀ c ∈ "rule ".toList ++ name.toList ++ "\n  command ".toList,
      decide (c ≠ '=') = true := by
    intro c hc
    rw [List.mem_append, List.mem_append] at hc
    refine decide_eq_true fun heq => ?_
    subst heq
    rcases hc with (hc | hc) | hc
    · exact absurd hc (by decide)
    · exact hname hc
    · exact absurd hc (by decide)
  have htext : (ruleText ⟨name, ("command", command) :: more⟩).toList =
      ("rule ".toList ++ name.toList ++ "\n  command ".toList) ++ '=' :: ' ' ::
        (command.toList ++ '\n' ::
          ((more.flatMap fun v => (bindingLine v.1 v.2).toList) ++ ['\n'])) := by
    simp [toList_ruleText, toList_bindingLine]
  rw [readCommand, htext, List.dropWhile_append_of_pos hfront, List.dropWhile_cons_of_neg (by decide),
    List.drop_one, List.tail_cons, List.dropWhile_cons_of_pos (by decide)]

end Ninja

theorem Rule.runs_iff {name program arguments : String} (hname : '=' ∉ name.toList)
    (args : Arguments arguments.toList) (more : List (String × String)) :
    (Rule.mk name (("command", program ++ " " ++ arguments) :: more)).Runs program ↔
      Literal program := by
  obtain ⟨rest, hread⟩ := Ninja.readCommand_ruleText hname (program ++ " " ++ arguments) more
  have hline : ((program ++ " " ++ arguments).toList ++ '\n' :: rest).dropWhile (· = ' ') =
      programLine program arguments.toList rest := by
    simp [programLine]
  rw [← Ninja.expand_programLine_iff args rest]
  refine forall_congr' fun values => ?_
  rw [hread, hline]
  constructor
  · rintro ⟨rest, h⟩
    obtain ⟨shown, hshown, htext⟩ := Option.map_eq_some_iff.1 h
    refine ⟨rest.toList, hshown.trans (congrArg some ?_)⟩
    rw [← String.toList_append, ← htext, String.toList_ofList]
  · rintro ⟨shown, h⟩
    refine ⟨String.ofList shown, ?_⟩
    rw [h, Option.map_some, String.ofList_append, String.ofList_toList]

/-! ## The rules -/

namespace Emitter

/-- The program that the command of a rule begins with, and the launcher before it.  The rule that runs
a runner has none. -/
def program (e : Emitter) (rule : String) : String :=
  if rule = Toolchain.compileRuleName then
    match e.toolchain.style, e.launcher with
    | .gnu, some launcher => launcher ++ " " ++ e.toolchain.identity.cc
    | _, _ => e.toolchain.identity.cc
  else if rule = Toolchain.linkRuleName then
    match e.toolchain.style with
    | .gnu => e.toolchain.identity.cc
    | .msvc => "link"
  else if rule = generateRuleName then e.settings.registrationGenerator.slashed
  else ""

/-- What stands behind the programs and a blank. -/
def argumentTexts : List String :=
  ["$flags -c $in -o $out", "-MD -MF $out.d $flags -c $in -o $out",
    "/showIncludes $flags /c $in /Fo$out", "$in $flags -o $out", "@$out.rsp /OUT:$out", "$out $in"]

theorem arguments_of_mem : ∀ text ∈ argumentTexts, Arguments text.toList := by
  simp only [argumentTexts, List.forall_mem_cons]
  refine ⟨?_, ?_, ?_, ?_, ?_, ?_, List.forall_mem_nil _⟩
  all_goals
    exact ⟨by decide, fun _ _ => ⟨_, rfl⟩,
      fun _ => ⟨_, rfl, by decide, by decide⟩⟩

section Rules

variable {e : Emitter} {r : Rule}

theorem command_compileRule (e : Emitter) : ∃ arguments ∈ argumentTexts, ∃ more,
    e.toolchain.compileRule e.launcher e.baseline.depfile =
      ⟨Toolchain.compileRuleName,
        ("command", e.program Toolchain.compileRuleName ++ " " ++ arguments) :: more⟩ := by
  unfold Toolchain.compileRule program
  rw [if_pos rfl]
  cases e.toolchain.style with
  | gnu =>
    cases e.launcher <;> cases e.baseline.depfile <;>
      simp [argumentTexts, String.append_assoc]
  | msvc => simp [argumentTexts, String.append_assoc]

theorem command_linkRule (e : Emitter) : ∃ arguments ∈ argumentTexts, ∃ more,
    e.toolchain.linkRule =
      ⟨Toolchain.linkRuleName,
        ("command", e.program Toolchain.linkRuleName ++ " " ++ arguments) :: more⟩ := by
  unfold Toolchain.linkRule program
  rw [if_neg (by decide), if_pos rfl]
  cases e.toolchain.style with
  | gnu => simp [argumentTexts, String.append_assoc]
  | msvc => exact ⟨"@$out.rsp /OUT:$out", by decide, _, rfl⟩

theorem program_generate (e : Emitter) :
    e.program generateRuleName = e.settings.registrationGenerator.slashed := by
  rw [program, if_neg (by decide), if_neg (by decide), if_pos rfl]

/-- A rule runs runners, or its command is put together from its program and arguments. -/
theorem command_cases (hr : r ∈ e.rules) :
    r = ⟨runRuleName, [("command", "$run_wrapper$in")]⟩ ∨
      '=' ∉ r.name.toList ∧ ∃ arguments ∈ argumentTexts, ∃ more,
        r = ⟨r.name, ("command", e.program r.name ++ " " ++ arguments) :: more⟩ := by
  obtain ⟨compileArguments, hcompile, compileMore, hcompileRule⟩ := e.command_compileRule
  obtain ⟨linkArguments, hlink, linkMore, hlinkRule⟩ := e.command_linkRule
  rw [rules, hcompileRule, hlinkRule] at hr
  simp only [List.mem_append, List.mem_cons, List.not_mem_nil, or_false] at hr
  rcases hr with ((rfl | rfl) | hr) | rfl
  · exact .inl rfl
  · exact .inr ⟨show '=' ∉ Toolchain.compileRuleName.toList by decide, compileArguments, hcompile,
      compileMore, rfl⟩
  · split at hr
    · rw [List.mem_singleton.1 hr]
      refine .inr ⟨show '=' ∉ generateRuleName.toList by decide, "$out $in", by decide, [], ?_⟩
      rw [program_generate, String.append_assoc]
      rfl
    · cases hr
  · exact .inr ⟨show '=' ∉ Toolchain.linkRuleName.toList by decide, linkArguments, hlink, linkMore,
      rfl⟩

/-- Every rule stands in the build file as it is declared. -/
theorem exists_text_of_rule {variants : VariantSet} {sources : List Source} {g : Graph}
    (h : e.emit variants sources = .ok g) (hr : r ∈ e.rules) :
    ∃ before after, Ninja.render g = before ++ Ninja.ruleText r ++ after := by
  rw [← (emitted_of_emit h).1.rules] at hr
  obtain ⟨front, back, hrules⟩ := List.append_of_mem hr
  rw [Ninja.render, hrules, List.map_append, List.map_cons, String.join_append, String.join_cons]
  refine ⟨Ninja.header ++ String.join (g.globals.map Ninja.globalLine) ++
      (if g.globals.isEmpty then "" else "\n") ++ String.join (front.map Ninja.ruleText),
    String.join (back.map Ninja.ruleText) ++ Ninja.edgesText false g.edges ++
      Ninja.defaultsText g.defaults, ?_⟩
  simp only [String.append_assoc]

/-- The program of a rule is found if it is literal, and only then. -/
theorem runs_program_iff (hr : r ∈ e.rules) :
    r.Runs (e.program r.name) ↔ Literal (e.program r.name) := by
  rcases command_cases hr with rfl | ⟨hname, arguments, hmem, more, hrule⟩
  · have hprogram : e.program runRuleName = "" := by
      rw [program, if_neg (by decide), if_neg (by decide), if_neg (by decide)]
    rw [show (Rule.mk runRuleName _).name = runRuleName from rfl, hprogram]
    refine iff_of_true (fun values => ?_) (by decide)
    obtain ⟨rest, hread⟩ := Ninja.readCommand_ruleText (show '=' ∉ runRuleName.toList by decide)
      "$run_wrapper$in" []
    obtain ⟨shown, hshown⟩ : ∃ shown, expand values .plain
        (("$run_wrapper$in".toList ++ '\n' :: rest).dropWhile (· = ' ')) = some shown := ⟨_, rfl⟩
    refine ⟨String.ofList shown, ?_⟩
    rw [hread, hshown, Option.map_some, String.empty_append]
  · rw [hrule]
    exact Rule.runs_iff hname (arguments_of_mem arguments hmem) more

/-- In a build file the command of each rule is read with its program as it is, whatever the variables
are bound to, if the program is literal, and only then. -/
theorem rules_run_iff (e : Emitter) {r : Rule} (hr : r ∈ e.rules) :
    (r.Runs (e.program r.name) ↔ Literal (e.program r.name)) ∧
      ∀ variants sources g, e.emit variants sources = .ok g →
        ∃ before after, Ninja.render g = before ++ Ninja.ruleText r ++ after :=
  ⟨runs_program_iff hr, fun _ _ _ h => exists_text_of_rule h hr⟩

/-! ## Names with and without dollar signs -/

/-- An emitter with these names. -/
def namedEmitter (launcher cc generator : String) : Emitter where
  toolchain := ⟨⟨.gcc, cc, ⟨"/bin/cc"⟩⟩⟩
  baseline := { manualRegistration := true }
  settings := { registrationGenerator := ⟨generator⟩ }
  buildDir := "out"
  launcher := some launcher

/-- Values for the compilation of one file. -/
def sampleValues (name : String) : String :=
  if name = "flags" then "-g" else if name = "in" then "a.c" else if name = "out" then "a.o" else ""

/-- A build file for usual names, which are literal. -/
theorem rules_run_of_plain_names :
    ∃ g, (namedEmitter "ccache" "gcc" "tools\\gen.py").emit
        ((buildMatrix clashEmitter.toolchain {} {} {}).answer fun _ => true) clashSources = .ok g ∧
      (∀ r ∈ (namedEmitter "ccache" "gcc" "tools\\gen.py").rules,
        r.Runs ((namedEmitter "ccache" "gcc" "tools\\gen.py").program r.name) ∧
          ∃ before after, Ninja.render g = before ++ Ninja.ruleText r ++ after) ∧
      (namedEmitter "ccache" "gcc" "tools\\gen.py").rules.map
          (fun r => readCommand sampleValues (Ninja.ruleText r)) =
        [some "a.c", some "ccache gcc -g -c a.c -o a.o", some "tools/gen.py a.o a.c",
          some "gcc a.c -g -o a.o"] := by
  have literal : ∀ r ∈ (namedEmitter "ccache" "gcc" "tools\\gen.py").rules,
      Literal ((namedEmitter "ccache" "gcc" "tools\\gen.py").program r.name) := by decide +kernel
  obtain ⟨g, hemit⟩ := emit_clashSources (e := namedEmitter "ccache" "gcc" "tools\\gen.py")
    (matrixNames_answer clashEmitter.toolchain {} {} {} fun _ => true) (by decide +kernel) rfl
  refine ⟨g, hemit, fun r hr => ?_, by decide +kernel⟩
  obtain ⟨runs, stands⟩ := rules_run_iff _ hr
  exact ⟨runs.2 (literal r hr), stands _ _ g hemit⟩

/-- Of a name with a dollar sign a part is lost: what stands behind the sign is taken for a variable. -/
theorem programs_lost :
    (namedEmitter "l$l" "c$c" "g$g").rules.map
        (fun r => ((namedEmitter "l$l" "c$c" "g$g").program r.name,
          readCommand sampleValues (Ninja.ruleText r))) =
      [("", some "a.c"), ("l$l c$c", some "l c -g -c a.c -o a.o"), ("g$g", some "g a.o a.c"),
        ("c$c", some "c a.c -g -o a.o")] ∧
    ∀ r ∈ (namedEmitter "l$l" "c$c" "g$g").rules,
      r.Runs ((namedEmitter "l$l" "c$c" "g$g").program r.name) → r.name = runRuleName := by
  have literal : ∀ r ∈ (namedEmitter "l$l" "c$c" "g$g").rules,
      Literal ((namedEmitter "l$l" "c$c" "g$g").program r.name) → r.name = runRuleName := by
    decide +kernel
  exact ⟨by decide +kernel, fun r hr runs => literal r hr ((runs_program_iff hr).1 runs)⟩

end Rules

end Emitter

end BuildMatrix
