import BuildMatrix.Ninja
import Mathlib.Data.List.Basic
import Mathlib.Data.List.TakeWhile

/-!
# How the value of a variable is read

An executor of a build file reads the value of a variable from the rest of its line and expands it.
Behind a dollar sign a dollar sign, a blank or a colon stands for itself, a name stands for the value
that it is bound to, and a line end is left out with the blanks behind it.  Anything else there is an
error, and so are carriage returns and U+0000 anywhere.  The reader takes one character at a time
(`Mode.step`).

The values of edges are escaped when they are written, and the reader undoes it
(`expand_escapeValue`).  The variables of rules are not escaped.  There a text is *literal* if it is
read as it stands at the beginning of a value, whatever the variables are bound to.  That is so if it
has no dollar sign, line end or character that is refused, and does not begin with a blank, since
blanks before a value do not count.  No other text is literal: a reader shows at most half of the
dollar signs that it reads (`exists_split_of_expand`) and nothing that ends a line or is refused
(`not_mem_of_expand`).  Together this is `expand_programLine_iff`.
-/

namespace BuildMatrix.Ninja

/-- A character of a name that stands behind a dollar sign. -/
def isNameChar (c : Char) : Bool := c.isAlphanum || c = '_' || c = '-'

/-- Where a reader stands in a value. -/
inductive Mode where
  /-- Where a character stands for itself. -/
  | plain
  /-- Behind a dollar sign. -/
  | dollar
  /-- In a name, with the part of it that has been read. -/
  | name (read : List Char)
  /-- In a name in braces. -/
  | braced (read : List Char)
  /-- Behind a line end that does not count. -/
  | continued
  deriving DecidableEq

/-- The characters that no reader shows: what ends a line, and what is refused. -/
def unshown : List Char := ['\n', '\x0d', '\x00']

/-- A reader can show all characters of the text. -/
def Showable (text : List Char) : Prop := ∀ c ∈ unshown, c ∉ text

instance (text : List Char) : Decidable (Showable text) := List.decidableBAll _ unshown

/-- What a character shows that stands for itself if it is no dollar sign, and where the reader goes
on. -/
def plainStep (c : Char) : Option (List Char × Mode) :=
  if c = '$' then some ([], .dollar) else if c ∈ unshown then none else some ([c], .plain)

section Reader

variable (values : String → String)

/-- The characters of the value that a name is bound to. -/
def valueOf (name : List Char) : List Char := (values (String.ofList name)).toList

/-- What a reader shows at a character, and where it goes on, unless the character is an error. -/
def Mode.step : Mode → Char → Option (List Char × Mode)
  | .plain, c => plainStep c
  | .dollar, c =>
      if c = '$' ∨ c = ' ' ∨ c = ':' then some ([c], .plain)
      else if c = '\n' then some ([], .continued)
      else if c = '\x7b' then some ([], .braced [])
      else if isNameChar c then some ([], .name [c])
      else none
  | .name read, c =>
      if isNameChar c then some ([], .name (read ++ [c]))
      else (plainStep c).map fun next => (valueOf values read ++ next.1, next.2)
  | .braced read, c =>
      if isNameChar c ∨ c = '.' then some ([], .braced (read ++ [c]))
      else if c = '\x7d' ∧ read ≠ [] then some (valueOf values read, .plain)
      else none
  | .continued, c => if c = ' ' then some ([], .continued) else plainStep c

/-- What a reader still shows at the end of the line. -/
def Mode.ended : Mode → Option (List Char)
  | .plain => some []
  | .name read => some (valueOf values read)
  | .continued => some []
  | .dollar => none
  | .braced _ => none

/-- What a reader shows of a text up to the end of the line. -/
def expand : Mode → List Char → Option (List Char)
  | _, [] => none
  | mode, c :: rest =>
      if c = '\n' ∧ mode ≠ .dollar then mode.ended values
      else
        (mode.step values c).bind fun next =>
          (expand next.2 rest).map fun shown => next.1 ++ shown
termination_by structural _ text => text

/-- The command that a reader takes from the text of a rule whose first variable it is: what stands
behind the equals sign, without the blanks before it. -/
def readCommand (text : String) : Option String :=
  (expand values .plain (((text.toList.dropWhile (· ≠ '=')).drop 1).dropWhile (· = ' '))).map
    String.ofList

end Reader

example : readCommand (fun name => "<" ++ name ++ ">")
    "rule r\n  command =  a$$b $\n  $\x7bx.y\x7d$:$in.o\n  deps = gcc\n" = some "a$b <x.y>:<in>.o" := by
  decide

/-- A text that is read as it stands at the beginning of a value. -/
structure Literal (text : String) : Prop where
  no_dollar : '$' ∉ text.toList
  showable : Showable text.toList
  no_blank : text.toList.head? ≠ some ' '

instance (text : String) : Decidable (Literal text) :=
  decidable_of_iff
    ('$' ∉ text.toList ∧ Showable text.toList ∧ text.toList.head? ≠ some ' ')
    ⟨fun ⟨dollar, showable, blank⟩ => ⟨dollar, showable, blank⟩,
      fun ⟨dollar, showable, blank⟩ => ⟨dollar, showable, blank⟩⟩

/-! ## Steps -/

/-- The dollar signs that a reader has read and not yet dealt with. -/
def Mode.owed : Mode → Nat
  | .dollar => 1
  | _ => 0

/-- Nothing, or the value of a variable. -/
def Filled (values : String → String) (shown : List Char) : Prop :=
  shown = [] ∨ ∃ name, shown = (values name).toList

/-- All that a reader can do at a character. -/
inductive Step (values : String → String) (mode : Mode) (c : Char) : List Char → Mode → Prop where
  /-- It shows a value that ends here, if there is one, and then takes the character as it is. -/
  | plain (value : List Char) (filled : Filled values value) {after : List Char} {next : Mode}
      (step : plainStep c = some (after, next)) : Step values mode c (value ++ after) next
  /-- It shows what stands behind a dollar sign. -/
  | escaped (behind : mode = .dollar) (shows : c ∉ unshown) : Step values mode c [c] .plain
  /-- It shows a value that ends here, if there is one, and not the character. -/
  | hidden (value : List Char) (filled : Filled values value) (next : Mode) (dollar : next ≠ .dollar)
      (blank : c = ' ' → next = .continued) : Step values mode c value next

section Steps

variable {values : String → String} {mode next : Mode} {c : Char} {shown rest : List Char}

theorem plainStep_cases (h : plainStep c = some (shown, next)) :
    (c = '$' ∧ shown = [] ∧ next = .dollar) ∨
      (c ≠ '$' ∧ c ∉ unshown ∧ shown = [c] ∧ next = .plain) := by
  unfold plainStep at h
  split at h
  · next hc =>
    cases h
    exact .inl ⟨hc, rfl, rfl⟩
  split at h
  · cases h
  · next hdollar hshown =>
    cases h
    exact .inr ⟨hdollar, hshown, rfl, rfl⟩

theorem plainStep_of_shown (dollar : c ≠ '$') (shows : c ∉ unshown) :
    plainStep c = some ([c], .plain) := by rw [plainStep, if_neg dollar, if_neg shows]

theorem not_nameChar_blank : ¬ isNameChar ' ' = true := by decide

theorem step_of_eq_some (h : mode.step values c = some (shown, next)) :
    Step values mode c shown next := by
  have nothing : Filled values [] := .inl rfl
  have filled : ∀ read, Filled values (valueOf values read) := fun read => .inr ⟨_, rfl⟩
  cases mode with
  | plain =>
    exact .plain [] nothing h
  | dollar =>
    rw [Mode.step] at h
    split at h
    · next hc =>
      cases h
      exact .escaped rfl (by rcases hc with rfl | rfl | rfl <;> decide)
    next hc =>
    have hblank : c ≠ ' ' := fun hblank => hc (.inr (.inl hblank))
    split at h
    · cases h
      exact .hidden [] nothing _ (by decide) fun h => absurd h hblank
    split at h
    · cases h
      exact .hidden [] nothing _ nofun fun h => absurd h hblank
    split at h
    · cases h
      exact .hidden [] nothing _ nofun fun h => absurd h hblank
    · cases h
  | name read =>
    rw [Mode.step] at h
    split at h
    · next hname =>
      cases h
      exact .hidden [] nothing _ nofun fun h => absurd (h ▸ hname) not_nameChar_blank
    · obtain ⟨⟨after, next⟩, hstep, hshown⟩ := Option.map_eq_some_iff.1 h
      cases hshown
      exact .plain _ (filled read) hstep
  | braced read =>
    rw [Mode.step] at h
    split at h
    · next hname =>
      cases h
      refine .hidden [] nothing _ nofun fun h => ?_
      rw [h] at hname
      exact absurd hname (by decide)
    split at h
    · next hbrace =>
      cases h
      exact .hidden _ (filled read) _ nofun fun h => absurd (hbrace.1.symm.trans h) (by decide)
    · cases h
  | continued =>
    rw [Mode.step] at h
    split at h
    · cases h
      exact .hidden [] nothing _ nofun fun _ => rfl
    · exact .plain [] nothing h

theorem Filled.not_mem {d : Char} (filled : Filled values shown)
    (free : ∀ name, d ∉ (values name).toList) : d ∉ shown := by
  rcases filled with rfl | ⟨name, rfl⟩
  · exact List.not_mem_nil
  · exact free name

/-- A dollar sign is shown only for two that are read. -/
theorem Step.count_le (step : Step values mode c shown next)
    (free : ∀ name, '$' ∉ (values name).toList) :
    2 * shown.count '$' + next.owed ≤ mode.owed + [c].count '$' := by
  cases step with
  | plain value filled step =>
    have hvalue := List.count_eq_zero.2 (filled.not_mem free)
    rw [List.count_append, hvalue]
    rcases plainStep_cases step with ⟨rfl, rfl, rfl⟩ | ⟨hc, -, rfl, rfl⟩
    · simp [Mode.owed]
    · simp [Mode.owed, hc]
  | escaped behind shows =>
    rw [behind]
    by_cases hc : c = '$' <;> simp [Mode.owed, hc]
  | hidden value filled next dollar blank =>
    have hvalue := List.count_eq_zero.2 (filled.not_mem free)
    have howed : next.owed = 0 := by
      cases next with
      | dollar => exact absurd rfl dollar
      | _ => rfl
    rw [hvalue, howed]
    exact Nat.zero_le _

/-- No step shows what ends a line or is refused. -/
theorem Step.not_mem {d : Char} (step : Step values mode c shown next) (hd : d ∈ unshown)
    (free : ∀ name, d ∉ (values name).toList) : d ∉ shown := by
  cases step with
  | plain value filled step =>
    rw [List.mem_append, not_or]
    refine ⟨filled.not_mem free, ?_⟩
    rcases plainStep_cases step with ⟨-, rfl, -⟩ | ⟨-, hc, rfl, -⟩
    · exact List.not_mem_nil
    · rw [List.mem_singleton]
      exact fun heq => hc (heq ▸ hd)
  | escaped behind shows =>
    rw [List.mem_singleton]
    exact fun heq => shows (heq ▸ hd)
  | hidden value filled next dollar blank => exact filled.not_mem free

/-- Behind a blank the next character stands for itself. -/
theorem Step.blank (step : Step values mode ' ' shown next) : next = .plain ∨ next = .continued := by
  cases step with
  | plain value filled step =>
    rcases plainStep_cases step with ⟨hc, -⟩ | ⟨-, -, -, hnext⟩
    · exact absurd hc (by decide)
    · exact .inl hnext
  | escaped behind shows => exact .inl rfl
  | hidden value filled next dollar blank => exact .inr (blank rfl)

end Steps

/-! ## Runs -/

section Runs

variable {values : String → String} {mode : Mode} {c : Char} {shown rest : List Char}

/-- A run that shows something begins with a step. -/
theorem exists_step_of_expand (line : ¬ (c = '\n' ∧ mode ≠ .dollar))
    (h : expand values mode (c :: rest) = some shown) :
    ∃ first next more, Step values mode c first next ∧ expand values next rest = some more ∧
      shown = first ++ more := by
  rw [expand, if_neg line] at h
  obtain ⟨⟨first, next⟩, hstep, hmap⟩ := Option.bind_eq_some_iff.1 h
  obtain ⟨more, hmore, rfl⟩ := Option.map_eq_some_iff.1 hmap
  exact ⟨first, next, more, step_of_eq_some hstep, hmore, rfl⟩

/-- A reader never shows what ends a line or is refused, unless a variable is bound to it. -/
theorem not_mem_of_expand {d : Char} (hd : d ∈ unshown) (free : ∀ name, d ∉ (values name).toList)
    (h : expand values mode rest = some shown) : d ∉ shown := by
  induction rest generalizing mode shown with
  | nil => cases h
  | cons c rest ih =>
    by_cases line : c = '\n' ∧ mode ≠ .dollar
    · rw [expand, if_pos line] at h
      cases mode with
      | plain => cases h; exact List.not_mem_nil
      | dollar => exact absurd rfl line.2
      | name read => cases h; exact free _
      | braced read => cases h
      | continued => cases h; exact List.not_mem_nil
    · obtain ⟨first, next, more, step, hmore, rfl⟩ := exists_step_of_expand line h
      rw [List.mem_append, not_or]
      exact ⟨step.not_mem hd free, ih hmore⟩

/-- What is read before a blank and what is read behind it are shown one after the other.  Of the
dollar signs before the blank half are shown at most. -/
theorem exists_split_of_expand (free : ∀ name, '$' ∉ (values name).toList) {front back : List Char}
    (line : '\n' ∉ front) (h : expand values mode (front ++ ' ' :: back) = some shown) :
    ∃ first more next, shown = first ++ more ∧ (next = .plain ∨ next = .continued) ∧
      expand values next back = some more ∧
      2 * first.count '$' ≤ front.count '$' + mode.owed := by
  induction front generalizing mode shown with
  | nil =>
    obtain ⟨first, next, more, step, hmore, rfl⟩ := exists_step_of_expand (by simp) h
    have hcount := step.count_le free
    refine ⟨first, more, next, rfl, step.blank, hmore, ?_⟩
    rw [List.count_singleton, if_neg (by decide)] at hcount
    rw [List.count_nil]
    omega
  | cons c front ih =>
    rw [List.mem_cons, not_or] at line
    obtain ⟨first, next, rest, step, hrest, rfl⟩ :=
      exists_step_of_expand (fun hc => line.1 hc.1.symm) h
    obtain ⟨first', more, next', rfl, hnext, hmore, hcount'⟩ := ih line.2 hrest
    have hcount := step.count_le free
    refine ⟨first ++ first', more, next', (List.append_assoc _ _ _).symm, hnext, hmore, ?_⟩
    rw [List.count_append, ← List.singleton_append, List.count_append]
    omega

/-- A text that is escaped is shown as it was, if all its characters can be shown. -/
theorem expand_escaped (values : String → String) {text : List Char}
    (showable : Showable text) (back : List Char) :
    expand values .plain (text.flatMap valueChar ++ back) =
      (expand values .plain back).map fun shown => text ++ shown := by
  induction text with
  | nil => simp
  | cons c text ih =>
    have hc : c ∉ unshown := fun hmem => showable c hmem List.mem_cons_self
    have hline : ¬ (c = '\n' ∧ Mode.plain ≠ .dollar) := fun h => hc (h.1 ▸ by decide)
    have hback := ih fun d hd hmem => showable d hd (List.mem_cons_of_mem _ hmem)
    rw [List.flatMap_cons, List.append_assoc, valueChar]
    split
    · next heq =>
      have hdollar : Mode.step values .dollar '$' = some (['$'], .plain) := rfl
      rw [heq] at hline ⊢
      rw [List.cons_append, List.cons_append, List.nil_append, expand, if_neg hline, Mode.step,
        plainStep, if_pos rfl, Option.bind_some, expand, if_neg (by decide), hdollar,
        Option.bind_some, hback, Option.map_map, Option.map_map]
      rfl
    · next hne =>
      rw [List.singleton_append, expand, if_neg hline, Mode.step, plainStep_of_shown hne hc,
        Option.bind_some, hback, Option.map_map]
      rfl

/-- The value of a variable of an edge is read as it is. -/
theorem expand_escapeValue {text : String} (showable : Showable text.toList) (rest : List Char) :
    expand values .plain ((escapeValue text).toList ++ '\n' :: rest) = some text.toList := by
  rw [escapeValue, String.toList_ofList, expand_escaped values showable, expand, if_pos (by decide)]
  simp [Mode.ended]

/-- Without dollar signs a text is shown as it stands. -/
theorem expand_append {front : List Char} (dollar : '$' ∉ front) (showable : Showable front)
    (back : List Char) :
    expand values .plain (front ++ back) =
      (expand values .plain back).map fun shown => front ++ shown := by
  have hplain : front.flatMap valueChar = front := by
    refine (List.flatMap_congr fun c hc => ?_).trans (List.flatMap_singleton' front)
    exact if_neg fun heq : c = '$' => dollar (heq ▸ hc)
  have hescaped := expand_escaped values showable back
  rwa [hplain] at hescaped

/-- Behind a line end that does not count a text that does not begin with a blank is read as ever. -/
theorem expand_continued (h : rest.head? ≠ some ' ') :
    expand values .continued rest = expand values .plain rest := by
  cases rest with
  | nil => rfl
  | cons c rest =>
    have hc : c ≠ ' ' := fun hc => h (congrArg some hc)
    simp [expand, Mode.step, Mode.ended, hc]

end Runs

/-! ## Programs and their arguments -/

/-- What can stand behind the name of a program and a blank: something that does not begin with a blank,
and that can be read whatever the variables are bound to. -/
structure Arguments (arguments : List Char) : Prop where
  no_blank : arguments.head? ≠ some ' '
  readable : ∀ values more,
    ∃ shown, expand values .plain (arguments ++ '\n' :: more) = some shown
  /-- With a letter for each variable there is no dollar sign in it, and no blank in front. -/
  lettered : ∀ more, ∃ shown, expand (fun _ => "x") .plain (arguments ++ '\n' :: more) = some shown ∧
    '$' ∉ shown ∧ shown.head? ≠ some ' '

section Programs

variable {program : String} {arguments more : List Char}

/-- The value of a variable, from a program on, without the blanks before it. -/
def programLine (program : String) (arguments more : List Char) : List Char :=
  (program.toList ++ ' ' :: (arguments ++ '\n' :: more)).dropWhile (· = ' ')

/-- Without blanks in front the line begins with what is left of the program, or with its arguments. -/
theorem programLine_cases (args : Arguments arguments) (more : List Char) :
    ((∀ c ∈ program.toList, c = ' ') ∧
        programLine program arguments more = arguments ++ '\n' :: more) ∨
      ∃ c rest, c ≠ ' ' ∧ c :: rest <:+ program.toList ∧
        programLine program arguments more = c :: rest ++ ' ' :: (arguments ++ '\n' :: more) := by
  have hback : (' ' :: (arguments ++ '\n' :: more)).dropWhile (· = ' ') =
      arguments ++ '\n' :: more := by
    rw [List.dropWhile_cons_of_pos (by decide)]
    have hblank := args.no_blank
    cases arguments with
    | nil => rw [List.nil_append, List.dropWhile_cons_of_neg (by decide)]
    | cons c rest =>
      refine List.dropWhile_cons_of_neg fun hc => hblank ?_
      rw [List.head?_cons, of_decide_eq_true hc]
  rw [programLine, List.dropWhile_append]
  cases hfront : program.toList.dropWhile (· = ' ') with
  | nil =>
    refine .inl ⟨fun c hc => ?_, ?_⟩
    · exact of_decide_eq_true (List.dropWhile_eq_nil_iff.1 hfront c hc)
    · rw [List.isEmpty_nil, if_pos rfl, hback]
  | cons c rest =>
    refine .inr ⟨c, rest, fun hc => ?_, hfront ▸ List.dropWhile_suffix _, ?_⟩
    · have hhead := List.head?_dropWhile_not (· = ' ') program.toList
      rw [hfront] at hhead
      simp [hc] at hhead
    · rw [List.isEmpty_cons, if_neg Bool.false_ne_true]

/-- With a letter for each variable the arguments show no dollar sign and do not begin with a blank,
wherever the reader stands behind the program. -/
theorem Arguments.shown_of_expand (args : Arguments arguments) {next : Mode} {shown : List Char}
    (hnext : next = .plain ∨ next = .continued)
    (h : expand (fun _ => "x") next (arguments ++ '\n' :: more) = some shown) :
    '$' ∉ shown ∧ shown.head? ≠ some ' ' := by
  obtain ⟨lettered, hread, hdollar, hblank⟩ := args.lettered more
  have hplain : expand (fun _ => "x") .plain (arguments ++ '\n' :: more) = some shown := by
    rcases hnext with rfl | rfl
    · exact h
    · rw [← h, expand_continued]
      have hhead := args.no_blank
      cases arguments with
      | nil => exact fun h => absurd (Option.some.inj h) (by decide)
      | cons c rest => exact hhead
  obtain rfl := Option.some.inj (hread.symm.trans hplain)
  exact ⟨hdollar, hblank⟩

theorem dollar_not_mem_of_expand (args : Arguments arguments) {shown : List Char}
    (line : '\n' ∉ program.toList)
    (h : expand (fun _ => "x") .plain (programLine program arguments more) =
      some (program.toList ++ shown)) : '$' ∉ program.toList := by
  rcases programLine_cases args more with ⟨hblanks, -⟩ | ⟨c, rest, -, hsuffix, hline⟩
  · exact fun hmem => absurd (hblanks _ hmem) (by decide)
  rw [hline] at h
  obtain ⟨first, back, next, hshown, hnext, hback, hcount⟩ := exists_split_of_expand
    (fun _ => by decide) (fun hmem => line (hsuffix.subset hmem)) h
  -- all that is shown of the program's dollar signs is half of them
  have hnone := List.count_eq_zero.2 (args.shown_of_expand hnext hback).1
  have hleft := hsuffix.sublist.count_le '$'
  have hall := congrArg (List.count '$') hshown
  rw [List.count_append, List.count_append, hnone] at hall
  refine List.count_eq_zero.1 ?_
  have howed : Mode.plain.owed = 0 := rfl
  omega

theorem literal_of_expand (args : Arguments arguments) {shown : List Char}
    (h : expand (fun _ => "x") .plain (programLine program arguments more) =
      some (program.toList ++ shown)) : Literal program := by
  have free : Showable "x".toList := by decide
  have showable : Showable program.toList := fun c hc hmem =>
    not_mem_of_expand hc (fun _ => free c hc) h (List.mem_append_left _ hmem)
  have dollar := dollar_not_mem_of_expand args (showable _ (by decide)) h
  refine ⟨dollar, showable, fun hblank => ?_⟩
  have hshown : (program.toList ++ shown).head? = some ' ' := by
    rw [List.head?_append, hblank]
    rfl
  rcases programLine_cases args more with ⟨-, hline⟩ | ⟨c, rest, hc, hsuffix, hline⟩
  · rw [hline] at h
    exact (args.shown_of_expand (.inl rfl) h).2 hshown
  · rw [hline, expand_append (fun hmem => dollar (hsuffix.subset hmem))
      fun d hd hmem => showable d hd (hsuffix.subset hmem)] at h
    obtain ⟨back, -, hback⟩ := Option.map_eq_some_iff.1 h
    rw [← hback] at hshown
    exact hc (Option.some.inj hshown)

/-- A program is read as it is, whatever the variables are bound to, if it is literal, and only then. -/
theorem expand_programLine_iff (args : Arguments arguments) (more : List Char) :
    (∀ values, ∃ shown, expand values .plain (programLine program arguments more) =
        some (program.toList ++ shown)) ↔ Literal program := by
  constructor
  · intro h
    obtain ⟨shown, hshown⟩ := h fun _ => "x"
    exact literal_of_expand args hshown
  · intro literal values
    obtain ⟨shown, hread⟩ := args.readable values more
    cases hprogram : program.toList with
    | nil =>
      rcases programLine_cases args more with ⟨-, hline⟩ | ⟨c, rest, -, hsuffix, -⟩
      · exact ⟨shown, by rw [hline, hread, List.nil_append]⟩
      · rw [hprogram] at hsuffix
        cases List.suffix_nil.1 hsuffix
    | cons c rest =>
      obtain ⟨hdollar, hshowable, hblank⟩ := literal
      rw [hprogram] at hdollar hshowable hblank
      have hc : c ≠ ' ' := fun h => hblank (congrArg some h)
      have hdrop : programLine program arguments more =
          (c :: rest) ++ ([' '] ++ (arguments ++ '\n' :: more)) := by
        rw [programLine, hprogram, List.cons_append, List.dropWhile_cons_of_neg (by simpa using hc)]
        rfl
      refine ⟨' ' :: shown, ?_⟩
      rw [hdrop, expand_append hdollar hshowable, expand_append (by decide) (by decide), hread]
      rfl

end Programs

end BuildMatrix.Ninja
