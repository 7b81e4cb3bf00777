import BuildMatrix.Proofs.Source.Respelled
import BuildMatrix.Proofs.Source.Walk

/-!
# Which examples are marked

A text declares a main function without parameters if the name, a parenthesis, the word `void` and a
parenthesis stand in it, with nothing but blanks between them, and the name is not the end of a longer
word (`DeclaresMain`).  The search finds every declaration, whatever stands before it
(`occurs_iff_declaresMain`): a start that fails says nothing of later ones, and only the last character
before a start matters.

A source is read from one file, the first that the walks take for a source of its path
(`Source.ReadFrom`).  So an example is marked for the text of that file, and other sources are not
marked at all.
-/

namespace BuildMatrix

open Text

namespace EntryPoint

/-- The text declares a main function without parameters. -/
def DeclaresMain (text : String) : Prop :=
  ∃ a w₁ w₂ w₃ b : String, text = a ++ "main" ++ w₁ ++ "(" ++ w₂ ++ "void" ++ w₃ ++ ")" ++ b ∧
    (∀ w ∈ [w₁, w₂, w₃], ∀ c ∈ w.toList, isBlank c = true) ∧ ∀ c ∈ a.toList.getLast?, isWord c = false

/-! ## The start of a declaration -/

theorem after?_eq_some_iff {part s rest : List Char} :
    after? part s = some rest ↔ s = part ++ rest := by
  rw [after?]
  constructor
  · intro h
    split_ifs at h with begins
    obtain ⟨rest', rfl⟩ := List.isPrefixOf_iff_prefix.1 begins
    rw [List.drop_left, Option.some.injEq] at h
    rw [h]
  · rintro rfl
    rw [if_pos (List.isPrefixOf_iff_prefix.2 (List.prefix_append part rest)), List.drop_left]

/-- Blanks come before a part that begins with something else. -/
theorem after?_skipBlanks_eq_some_iff {c : Char} (hc : isBlank c = false) {part s rest : List Char} :
    after? (c :: part) (skipBlanks s) = some rest ↔
      ∃ w, (∀ c ∈ w, isBlank c = true) ∧ s = w ++ (c :: part) ++ rest := by
  rw [after?_eq_some_iff, skipBlanks]
  constructor
  · intro h
    refine ⟨s.takeWhile isBlank, fun c => List.mem_takeWhile_imp, ?_⟩
    rw [List.append_assoc, ← h, List.takeWhile_append_dropWhile]
  · rintro ⟨w, blank, rfl⟩
    rw [List.append_assoc, List.dropWhile_append_of_pos blank]
    exact List.dropWhile_cons_of_neg (by simp [hc])

theorem startsHere_iff {s : List Char} :
    startsHere s = true ↔ ∃ w₁ w₂ w₃ b : List Char,
      s = "main".toList ++ (w₁ ++ "(".toList ++ (w₂ ++ "void".toList ++ (w₃ ++ ")".toList ++ b))) ∧
        ∀ w ∈ [w₁, w₂, w₃], ∀ c ∈ w, isBlank c = true := by
  have hopen : isBlank '(' = false := by decide
  have hvoid : isBlank 'v' = false := by decide
  have hclose : isBlank ')' = false := by decide
  simp only [startsHere, Option.isSome_iff_exists, Option.bind_eq_bind, Option.bind_eq_some_iff,
    after?_skipBlanks_eq_some_iff hopen, after?_skipBlanks_eq_some_iff hvoid,
    after?_skipBlanks_eq_some_iff hclose, after?_eq_some_iff]
  constructor
  · rintro ⟨b, _, rfl, _, ⟨w₁, h₁, rfl⟩, _, ⟨w₂, h₂, rfl⟩, w₃, h₃, rfl⟩
    exact ⟨w₁, w₂, w₃, b, rfl, by simp only [List.forall_mem_cons]; exact ⟨h₁, h₂, h₃, nofun⟩⟩
  · rintro ⟨w₁, w₂, w₃, b, rfl, blank⟩
    simp only [List.forall_mem_cons] at blank
    obtain ⟨h₁, h₂, h₃, -⟩ := blank
    exact ⟨b, _, rfl, _, ⟨w₁, h₁, rfl⟩, _, ⟨w₂, h₂, rfl⟩, w₃, h₃, rfl⟩

/-! ## The search -/

/-- The search comes to every start of a declaration.  Before it comes to the next character it has
read one that is part of a word, or one that is not. -/
theorem occursAfter_iff {inWord : Bool} {s : List Char} :
    occursAfter inWord s = true ↔ ∃ a rest, s = a ++ rest ∧ startsHere rest = true ∧
      a.getLast?.elim inWord isWord = false := by
  induction s generalizing inWord with
  | nil =>
    refine iff_of_false nofun ?_
    rintro ⟨a, rest, hrest, starts, -⟩
    obtain ⟨-, rfl⟩ := List.append_eq_nil_iff.1 hrest.symm
    exact absurd starts (by decide)
  | cons c s ih =>
    have hlast (a : List Char) :
        (c :: a).getLast?.elim inWord isWord = a.getLast?.elim (isWord c) isWord := by
      rw [List.getLast?_cons]
      cases a.getLast? <;> rfl
    rw [occursAfter, Bool.or_eq_true, Bool.and_eq_true, Bool.not_eq_true', ih]
    constructor
    · rintro (⟨apart, starts⟩ | ⟨a, rest, rfl, starts, apart⟩)
      · exact ⟨[], c :: s, rfl, starts, apart⟩
      · exact ⟨c :: a, rest, rfl, starts, (hlast a).trans apart⟩
    · rintro ⟨a, rest, hrest, starts, apart⟩
      cases a with
      | nil =>
        obtain rfl : c :: s = rest := hrest
        exact .inl ⟨apart, starts⟩
      | cons d a =>
        obtain ⟨rfl, rfl⟩ := List.cons_eq_cons.1 hrest
        exact .inr ⟨a, rest, rfl, starts, (hlast a).symm.trans apart⟩

theorem occurs_iff_declaresMain {text : String} : occurs text = true ↔ DeclaresMain text := by
  have happart (a : List Char) :
      a.getLast?.elim false isWord = false ↔ ∀ c ∈ a.getLast?, isWord c = false := by
    cases a.getLast? <;> simp
  simp only [occurs, occursAfter_iff, startsHere_iff, happart]
  constructor
  · rintro ⟨a, _, htext, ⟨w₁, w₂, w₃, b, rfl, blank⟩, apart⟩
    refine ⟨.ofList a, .ofList w₁, .ofList w₂, .ofList w₃, .ofList b, ?_, ?_, ?_⟩
    · rw [← String.toList_inj, htext]
      simp only [String.toList_append, String.toList_ofList, List.append_assoc]
    · simpa using blank
    · simpa using apart
  · rintro ⟨a, w₁, w₂, w₃, b, rfl, blank, apart⟩
    refine ⟨a.toList, _, ?_, ⟨w₁.toList, w₂.toList, w₃.toList, b.toList, rfl, ?_⟩, apart⟩
    · simp only [String.toList_append, List.append_assoc]
    · simpa using blank

/-- A byte that cannot be decoded parts the name from what stands before it. -/
example : occurs (ofBytes (⟨#[0x61, 0xFF]⟩ ++ "main(void)".toUTF8)) ∧ ¬ occurs "amain(void)" := by
  decide +kernel

end EntryPoint

/-! ## Sources and their files -/

/-- The walks come to a file that they take for the source, and before it to no file that they take
for a source of the same path. -/
def Source.ReadFrom (t : Tree) (root : Path) (settings : Settings) (scanBuild : Bool) (s : Source)
    (f : Found) : Prop :=
  f.source? settings scanBuild = some s ∧
    ∃ before after, settings.sourceDirs.flatMap (filesBelow t root) = before ++ f :: after ∧
      ∀ other ∈ before, ∀ s', other.source? settings scanBuild = some s' → s'.path ≠ s.path

section Marked

variable (t : Tree) (root : Path) (settings : Settings) (scanBuild : Bool) (s : Source)

/-- The sources are those that are read from a file. -/
theorem mem_collectSources_iff :
    s ∈ collectSources t root settings scanBuild ↔
      ∃ f, s.ReadFrom t root settings scanBuild f := by
  rw [collectSources]
  constructor
  · intro h
    obtain ⟨before, after, hsplit, hfirst⟩ := exists_split_of_mem h
    obtain ⟨files, rest, hfiles, rfl, hrest⟩ := List.filterMap_eq_append_iff.1 hsplit
    obtain ⟨idle, f, rest', rfl, hidle, hf, -⟩ := List.filterMap_eq_cons_iff.1 hrest
    refine ⟨f, hf, files ++ idle, rest', by rw [hfiles, List.append_assoc], ?_⟩
    intro other hother s' hs' hpath
    rcases List.mem_append.1 hother with hother | hother
    · exact hfirst (List.mem_map.2 ⟨s', List.mem_filterMap.2 ⟨other, hother, hs'⟩, hpath⟩)
    · rw [hidle other hother] at hs'
      cases hs'
  · rintro ⟨f, hf, before, after, hfiles, hfirst⟩
    rw [hfiles, List.filterMap_append, List.filterMap_cons_some hf]
    refine mem_withoutRepeats_of_first List.not_mem_nil fun hmem => ?_
    obtain ⟨s', hs', hpath⟩ := List.mem_map.1 hmem
    obtain ⟨other, hother, hs'⟩ := List.mem_filterMap.1 hs'
    exact hfirst other hother s' hs' hpath

/-- A source is read from one file, and it is marked if it is an example and the text of this file
declares a main function without parameters. -/
theorem marked_collectSources :
    (s ∈ collectSources t root settings scanBuild ↔ ∃ f, s.ReadFrom t root settings scanBuild f) ∧
      ∀ f, s.ReadFrom t root settings scanBuild f →
        (∃ location, s.IsFileAt t root settings scanBuild location ∧
          t.node? location = some (.file f.content)) ∧
        (s.isExample = true ↔ f.path.startsWith settings.examplesDir = true) ∧
        (s.mainVoid = true ↔
          s.isExample = true ∧ EntryPoint.DeclaresMain (ofBytes f.content)) := by
  refine ⟨mem_collectSources_iff t root settings scanBuild s, fun f read => ?_⟩
  obtain ⟨hsource, before, after, hfiles, -⟩ := read
  have hf : f ∈ settings.sourceDirs.flatMap (filesBelow t root) := by simp [hfiles]
  obtain ⟨d, hd, hbelow⟩ := List.mem_flatMap.1 hf
  obtain ⟨location, base, names, met⟩ := mem_filesBelow_iff.1 hbelow
  obtain ⟨language, -, rfl⟩ := Found.exists_language hsource
  refine ⟨⟨location, ⟨d, hd, base, names, f, met, hsource⟩, met.stands⟩, Iff.rfl, ?_⟩
  rw [Bool.and_eq_true, EntryPoint.occurs_iff_declaresMain]

end Marked

theorem marked_collectSources_example :
    (⟨"examples/a.c", .c, true, true⟩ : Source) ∈
        collectSources exampleTree ⟨"."⟩ (spelledSettings "examples" "examples") false ∧
      EntryPoint.DeclaresMain (ofBytes "int main(void)".toUTF8) := by
  have marked := marked_collectSources exampleTree ⟨"."⟩ (spelledSettings "examples" "examples") false
    ⟨"examples/a.c", .c, true, true⟩
  have read : Source.ReadFrom exampleTree ⟨"."⟩ (spelledSettings "examples" "examples") false
      ⟨"examples/a.c", .c, true, true⟩ ⟨⟨"examples/a.c"⟩, "a.c", "int main(void)".toUTF8⟩ := by
    have hpath : (((⟨"."⟩ : Path).join ⟨"examples"⟩).child "a.c").relativeTo ⟨"."⟩ =
        ⟨"examples/a.c"⟩ := by decide +kernel
    refine ⟨by decide +kernel, [], [], ?_, nofun⟩
    rw [show (spelledSettings "examples" "examples").sourceDirs = [⟨"examples"⟩] from rfl,
      List.flatMap_singleton, filesBelow_exampleTree (by decide +kernel) (by decide +kernel), hpath]
    rfl
  exact ⟨marked.1.2 ⟨_, read⟩, ((marked.2 _ read).2.2.1 rfl).2⟩

end BuildMatrix
