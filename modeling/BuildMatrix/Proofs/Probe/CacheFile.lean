import BuildMatrix.Probe.Cache
import BuildMatrix.Proofs.Json.RoundTrip
import BuildMatrix.Proofs.SortedMap

/-!
# Reading a cache file that was written

A cache file is written with one verdict a line and read by a reader that knows
nothing of that form.  The reader takes the text apart member by member: each verdict
is a member with others after it or the last one (`members_more`, `members_last`), so
what is read follows the entries from the first to the last
(`members_entriesText`).

Reading has fuel, two steps for each character and two more, and no text asks for more
members than it has characters.  So whatever was written is read (`parse?_render`).
-/

namespace BuildMatrix

open Json

/-! ## Members of an object -/

section Members

variable {fuel : Nat} {name : String} {v : Json} {before after s t : List Char}

theorem members_more (hname : skipBlanks before = '"' :: (quoted name.toList ++ '"' :: ':' :: s))
    (hvalue : value fuel s = some (v, t)) (hafter : skipBlanks t = ',' :: after) :
    members (fuel + 1) before =
      (members fuel after).map fun read => ((some name, v) :: read.1, read.2) := by
  rw [members, hname]
  show ((literal (quoted name.toList ++ '"' :: ':' :: s)).bind _) = _
  rw [literal_quoted]
  show ((value fuel s).bind _) = _
  rw [hvalue]
  dsimp only [Option.bind_some]
  rw [hafter]
  show ((members fuel after).bind fun read => some ((some name, v) :: read.1, read.2)) = _
  cases members fuel after with
  | none => rfl
  | some read => rfl

theorem members_last (hname : skipBlanks before = '"' :: (quoted name.toList ++ '"' :: ':' :: s))
    (hvalue : value fuel s = some (v, t)) (hafter : skipBlanks t = '\x7d' :: after) :
    members (fuel + 1) before = some ([(some name, v)], after) := by
  rw [members, hname]
  show ((literal (quoted name.toList ++ '"' :: ':' :: s)).bind _) = _
  rw [literal_quoted]
  show ((value fuel s).bind _) = _
  rw [hvalue]
  dsimp only [Option.bind_some]
  rw [hafter]
  rfl

theorem value_string (text : String) (rest : List Char) :
    value (fuel + 1) (' ' :: '"' :: (quoted text.toList ++ '"' :: rest)) =
      some (.string (some text), rest) := by
  rw [value]
  show (literal (quoted text.toList ++ '"' :: rest)).map _ = _
  rw [literal_quoted]
  rfl

theorem value_object (hopen : skipBlanks s = '\x7b' :: before)
    (hname : skipBlanks before = '"' :: t) :
    value (fuel + 1) s =
      (members fuel ('"' :: t)).map fun read => (.object read.1, read.2) := by
  simp only [value, hopen, hname]
  rfl

end Members

namespace CacheFile

/-! ## Verdicts -/

/-- A verdict as it stands in the file. -/
def verdictText (verdict : Bool) : String := if verdict then "true" else "false"

theorem toList_renderEntry (e : String × Bool) :
    (renderEntry e).toList =
      ' ' :: ' ' :: ' ' :: ' ' :: '"' ::
        (quoted e.1.toList ++ '"' :: ':' :: ' ' :: (verdictText e.2).toList) := by
  rw [renderEntry, String.toList_append, String.toList_append, String.toList_append, toList_quote,
    verdictText]
  simp

theorem value_verdict (fuel : Nat) (verdict : Bool) (rest : List Char) :
    value (fuel + 1) (' ' :: ((verdictText verdict).toList ++ rest)) =
      some (.bool verdict, rest) := by
  cases verdict with
  | false => rfl
  | true => rfl

/-- The members that verdicts are read as. -/
def members (entries : List (String × Bool)) : List (Option String × Json) :=
  entries.map fun e => (some e.1, .bool e.2)

/-- Entries as they stand in the file, with the brace that closes them. -/
def entriesText (entries : List (String × Bool)) (rest : List Char) : List Char :=
  [',', '\n'].intercalate (entries.map fun e => (renderEntry e).toList) ++
    '\n' :: ' ' :: ' ' :: '\x7d' :: rest

theorem skipBlanks_renderEntry (e : String × Bool) (rest : List Char) :
    skipBlanks ((renderEntry e).toList ++ rest) =
      '"' :: (quoted e.1.toList ++ '"' :: ':' :: ' ' :: ((verdictText e.2).toList ++ rest)) := by
  rw [toList_renderEntry]
  simp only [List.append_assoc, List.cons_append]
  rfl

theorem entriesText_singleton (e : String × Bool) (rest : List Char) :
    entriesText [e] rest = (renderEntry e).toList ++ '\n' :: ' ' :: ' ' :: '\x7d' :: rest := by
  rw [entriesText, List.map_singleton, List.intercalate_singleton]

theorem entriesText_cons (e next : String × Bool) (entries : List (String × Bool))
    (rest : List Char) :
    entriesText (e :: next :: entries) rest =
      (renderEntry e).toList ++ ',' :: '\n' :: entriesText (next :: entries) rest := by
  simp only [entriesText, List.map_cons, List.intercalate_cons_cons, List.append_assoc,
    List.cons_append, List.nil_append]

/-- Verdicts are read one by one, up to the closing brace. -/
theorem members_entriesText (fuel : Nat) (e : String × Bool) (entries : List (String × Bool))
    (before rest : List Char)
    (h : skipBlanks before = skipBlanks (entriesText (e :: entries) rest)) :
    Json.members (fuel + entries.length + 2) before = some (members (e :: entries), rest) := by
  induction entries generalizing e before with
  | nil =>
    rw [entriesText_singleton, skipBlanks_renderEntry] at h
    exact members_last h (value_verdict fuel e.2 _) rfl
  | cons next entries ih =>
    rw [entriesText_cons, skipBlanks_renderEntry] at h
    show Json.members (fuel + entries.length + 2 + 1) before = _
    rw [members_more h (value_verdict (fuel + entries.length + 1) e.2 _) rfl, ih next ('\n' :: _) rfl]
    rfl

/-- The object of all verdicts as it stands in the file. -/
def flagsText (flags : SortedMap String Bool) : String :=
  if flags.isEmpty then "\x7b\x7d"
  else "\x7b\n" ++ ",\n".intercalate (flags.entries.map renderEntry) ++ "\n  \x7d"

theorem value_flagsText (fuel : Nat) (flags : SortedMap String Bool) (rest : List Char) :
    value (fuel + flags.entries.length + 2) (' ' :: ((flagsText flags).toList ++ rest)) =
      some (.object (members flags.entries), rest) := by
  obtain ⟨entries, sorted⟩ := flags
  cases entries with
  | nil =>
    have htext : (flagsText ⟨[], sorted⟩).toList ++ rest = '\x7b' :: '\x7d' :: rest := by
      simp [flagsText, SortedMap.isEmpty]
    rw [htext]
    show value (fuel + 1 + 1) _ = _
    rw [value]
    rfl
  | cons e entries =>
    have htext : (flagsText ⟨e :: entries, sorted⟩).toList ++ rest =
        '\x7b' :: '\n' :: entriesText (e :: entries) rest := by
      simp [flagsText, SortedMap.isEmpty, entriesText, String.toList_intercalate,
        Function.comp_def]
    obtain ⟨s, hs⟩ : ∃ s, skipBlanks (entriesText (e :: entries) rest) = '"' :: s := by
      cases entries with
      | nil =>
        rw [entriesText_singleton, skipBlanks_renderEntry]
        exact ⟨_, rfl⟩
      | cons next entries =>
        rw [entriesText_cons, skipBlanks_renderEntry]
        exact ⟨_, rfl⟩
    have hbefore : skipBlanks ('\n' :: entriesText (e :: entries) rest) = '"' :: s := hs
    have hmembers := members_entriesText fuel e entries ('"' :: s) rest hs.symm
    rw [htext]
    show value ((fuel + entries.length + 2) + 1) _ = _
    rw [value_object rfl hbefore, hmembers]
    rfl

/-! ## The whole file -/

theorem length_le_entriesText (entries : List (String × Bool)) (rest : List Char) :
    entries.length ≤ (entriesText entries rest).length := by
  induction entries with
  | nil => exact Nat.zero_le _
  | cons e entries ih =>
    cases entries with
    | nil =>
      rw [entriesText_singleton]
      simp only [List.length_append, List.length_cons, List.length_nil]
      omega
    | cons next entries =>
      rw [entriesText_cons, List.length_append]
      simp only [List.length_cons] at ih ⊢
      omega

theorem length_le_flagsText (flags : SortedMap String Bool) :
    flags.entries.length ≤ (flagsText flags).toList.length := by
  obtain ⟨entries, sorted⟩ := flags
  cases entries with
  | nil => exact Nat.zero_le _
  | cons e entries =>
    have htext : (flagsText ⟨e :: entries, sorted⟩).toList =
        '\x7b' :: '\n' :: entriesText (e :: entries) [] := by
      simp [flagsText, SortedMap.isEmpty, entriesText, String.toList_intercalate,
        Function.comp_def]
    rw [htext]
    exact Nat.le_trans (length_le_entriesText _ []) (by simp only [List.length_cons]; omega)

theorem toList_render (f : CacheFile) :
    f.render.toList =
      '\x7b' :: '\n' :: ' ' :: ' ' :: '"' :: (quoted "compiler".toList ++ '"' :: ':' :: ' ' :: '"' ::
        (quoted f.compiler.toList ++ '"' :: ',' :: '\n' :: ' ' :: ' ' :: '"' ::
          (quoted "flags".toList ++ '"' :: ':' :: ' ' ::
            ((flagsText f.flags).toList ++ ['\n', '\x7d'])))) := by
  have hcompiler : quoted "compiler".toList = "compiler".toList := by decide
  have hflags : quoted "flags".toList = "flags".toList := by decide
  have hrender : f.render = "\x7b\n  \"compiler\": " ++ quote f.compiler ++ ",\n  \"flags\": " ++
      flagsText f.flags ++ "\n\x7d" := rfl
  rw [hcompiler, hflags, hrender]
  simp [toList_quote]

theorem verdictsOf?_members (flags : SortedMap String Bool) :
    verdictsOf? (.object (members flags.entries)) = some flags := by
  have hentries : ∀ entries : List (String × Bool),
      (members entries).mapM verdictOf? = some entries := by
    intro entries
    induction entries with
    | nil => rfl
    | cons e entries ih =>
      rw [members, List.map_cons, List.mapM_cons]
      rw [members] at ih
      rw [ih]
      rfl
  show ((members flags.entries).mapM verdictOf?).map SortedMap.ofList = some flags
  rw [hentries, Option.map_some, SortedMap.ofList_entries]

/-- What was written is read. -/
theorem parse?_render (f : CacheFile) : parse? f.render = some f := by
  have hlength : f.flags.entries.length + 2 ≤ f.render.toList.length := by
    have := length_le_flagsText f.flags
    rw [toList_render]
    simp only [List.length_cons, List.length_append]
    omega
  obtain ⟨fuel, hfuel⟩ : ∃ fuel, 2 * f.render.toList.length + 2 =
      fuel + f.flags.entries.length + 2 + 1 + 1 + 1 :=
    ⟨2 * f.render.toList.length + 2 - (f.flags.entries.length + 5), by omega⟩
  have hread : value (2 * f.render.toList.length + 2) f.render.toList =
      some (.object [(some "compiler", .string (some f.compiler)),
        (some "flags", .object (members f.flags.entries))], []) := by
    rw [hfuel, toList_render, value_object rfl rfl,
      members_more rfl (value_string f.compiler _) rfl,
      members_last rfl (value_flagsText fuel f.flags _) rfl]
    rfl
  have hjson : Json.parse? f.render = some (.object [(some "compiler", .string (some f.compiler)),
      (some "flags", .object (members f.flags.entries))]) := by
    rw [Json.parse?, hread]
    rfl
  have hverdicts := verdictsOf?_members f.flags
  rw [parse?, hjson]
  show (((some f.compiler).bind fun compiler => ((verdictsOf?
    (.object (members f.flags.entries))).bind fun flags => some ⟨compiler, flags⟩)) : Option CacheFile) = _
  rw [hverdicts]
  rfl

end CacheFile

end BuildMatrix
