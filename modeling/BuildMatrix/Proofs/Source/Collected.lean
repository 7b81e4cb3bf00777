import BuildMatrix.Proofs.Emission.Success
import BuildMatrix.Proofs.Path.Components
import BuildMatrix.Source.Discovery

/-!
# The sources of a project

Whatever a tree holds and wherever the source directories lead, the sources that are
collected have different paths (`nodup_collectSources`), and none of these paths ends
like a target, but for generated files (`unmade_collectSources`).

The extension that makes a file a source is that of its file name.  The path as it is
shown ends in this name, or in pieces that mean nothing, and so in a letter of the
extension, a slash or a dot.
-/

namespace BuildMatrix

open Emitter (lastLetter targetLetters Unmade)

/-! ## The last letter of a path -/

namespace Path

/-- A text ends as the last part of it does. -/
theorem lastLetter_of_splitOn {text : String} {a c : Char} {front : List (List Char)}
    {last : List Char} (h : text.toList.splitOn a = front ++ [last])
    (hlast : last.getLast? = some c) : lastLetter text = some c := by
  unfold lastLetter
  rcases splitOn_concat h with ⟨-, htext⟩ | ⟨x, htext⟩
  · rw [htext, hlast]
  · rw [htext, List.getLast?_append, List.getLast?_cons, hlast]
    rfl

/-- A path whose last piece means nothing ends in a slash or a dot, unless it is empty. -/
theorem lastLetter_of_idle {p : Path} {front : List (List Char)} {last : List Char}
    (hsplit : p.text.toList.splitOn '/' = front ++ [last])
    (idle : component? (String.ofList last) = none) (hne : p.text ≠ "") :
    lastLetter p.text = some '/' ∨ lastLetter p.text = some '.' := by
  rcases component?_eq_none idle with hempty | hdot
  · have hnil : last = [] := by
      rw [← String.toList_ofList (l := last), hempty]
      rfl
    rcases splitOn_concat hsplit with ⟨-, htext⟩ | ⟨x, htext⟩
    · exact absurd (String.toList_eq_nil_iff.1 (htext.trans hnil)) hne
    · refine .inl ?_
      rw [lastLetter, htext, hnil, List.getLast?_concat]
  · refine .inr (lastLetter_of_splitOn hsplit ?_)
    rw [← String.toList_ofList (l := last), hdot]
    rfl

/-- A path ends as its file name does, or in pieces that mean nothing. -/
theorem lastLetter_of_fileName? {p : Path} {name : String} {c : Char}
    (h : p.fileName? = some name) (hc : lastLetter name = some c) :
    lastLetter p.text = some c ∨ lastLetter p.text = some '/' ∨ lastLetter p.text = some '.' := by
  obtain ⟨front, last, hsplit⟩ := exists_last_part '/' p.text.toList
  have hpieces : p.pieces = front.map String.ofList ++ [String.ofList last] := by
    rw [pieces, Text.pieces, hsplit, List.map_append, List.map_singleton]
  cases hcomponent : component? (String.ofList last) with
  | some component =>
    have hlast := getLast?_components hpieces hcomponent
    unfold fileName? at h
    rw [hlast] at h
    cases component with
    | name given =>
      injection h with hgiven
      have hname := eq_of_component?_eq_name hcomponent
      rw [hgiven] at hname
      rw [← hname, lastLetter, String.toList_ofList] at hc
      exact .inl (lastLetter_of_splitOn hsplit hc)
    | root => cases h
    | here => cases h
    | up => cases h
  | none =>
    refine .inr (lastLetter_of_idle hsplit hcomponent fun hempty => ?_)
    have hp : p = ⟨""⟩ := congrArg Path.mk hempty
    rw [hp] at h
    cases h

/-- The file name of a path with an extension ends as the extension does. -/
theorem lastLetter_of_extension? {p : Path} {extension : String} {c : Char}
    (h : p.extension? = some extension) (hc : lastLetter extension = some c) :
    lastLetter p.text = some c ∨ lastLetter p.text = some '/' ∨ lastLetter p.text = some '.' := by
  obtain ⟨name, hname, hextension⟩ := Option.bind_eq_some_iff.1 h
  refine lastLetter_of_fileName? hname ?_
  unfold extensionOf? at hextension
  split at hextension
  · cases hextension
  · cases hextension
  · cases hextension
  · next last rest _ _ hreverse =>
    injection hextension with hlast
    rw [← hlast, lastLetter, String.toList_ofList] at hc
    rw [List.reverse_eq_iff, List.reverse_cons] at hreverse
    exact lastLetter_of_splitOn hreverse hc

theorem lastLetter_slashed {p : Path} {c : Char} (h : lastLetter p.text = some c) (hc : c ≠ '\\') :
    lastLetter p.slashed = some c := by
  unfold lastLetter at h ⊢
  rw [slashed, Text.swap, String.toList_map, List.getLast?_map, h, Option.map_some, if_neg hc]

end Path

/-! ## Sources that are collected -/

variable {t : Tree} {root : Path} {settings : Settings} {scanBuild : Bool}

theorem unmade_of_source? {f : Found} {s : Source} (h : f.source? settings scanBuild = some s) :
    Unmade s := by
  obtain ⟨language, hlanguage, rfl⟩ := Found.exists_language h
  have hletter : ∃ c ∈ ['c', 'x', '/', '.'], lastLetter f.path.text = some c := by
    unfold Language.ofPath? at hlanguage
    split at hlanguage
    · next hextension =>
      rcases Path.lastLetter_of_extension? hextension (c := 'c') (by decide) with hc | hc | hc
      · exact ⟨'c', by decide, hc⟩
      · exact ⟨'/', by decide, hc⟩
      · exact ⟨'.', by decide, hc⟩
    · next hextension =>
      rcases Path.lastLetter_of_extension? hextension (c := 'x') (by decide) with hc | hc | hc
      · exact ⟨'x', by decide, hc⟩
      · exact ⟨'/', by decide, hc⟩
      · exact ⟨'.', by decide, hc⟩
    · cases hlanguage
  obtain ⟨c, hc, hlast⟩ := hletter
  have hletters : ∀ c ∈ ['c', 'x', '/', '.'], c ≠ '\\' ∧ c ∉ targetLetters := by
    simp [targetLetters]
  exact ⟨c, (hletters c hc).2, Path.lastLetter_slashed hlast (hletters c hc).1⟩

/-- What is left of a list has different paths that came not before. -/
theorem withoutRepeats_spec (seen : List String) (sources : List Source) :
    ((withoutRepeats seen sources).map (·.path)).Nodup ∧
      ∀ s ∈ withoutRepeats seen sources, s ∈ sources ∧ s.path ∉ seen := by
  induction sources generalizing seen with
  | nil => exact ⟨List.nodup_nil, fun _ h => by cases h⟩
  | cons first rest ih =>
    rw [withoutRepeats]
    split
    · obtain ⟨hnodup, hmem⟩ := ih seen
      exact ⟨hnodup, fun s hs => ⟨List.mem_cons_of_mem _ (hmem s hs).1, (hmem s hs).2⟩⟩
    · next hfresh =>
      obtain ⟨hnodup, hmem⟩ := ih (first.path :: seen)
      refine ⟨List.nodup_cons.2 ⟨fun hfirst => ?_, hnodup⟩, fun s hs => ?_⟩
      · obtain ⟨s, hs, hpath⟩ := List.mem_map.1 hfirst
        exact (hmem s hs).2 (hpath ▸ List.mem_cons_self)
      · rcases List.mem_cons.1 hs with rfl | hs
        · exact ⟨List.mem_cons_self, hfresh⟩
        · exact ⟨List.mem_cons_of_mem _ (hmem s hs).1,
            fun hseen => (hmem s hs).2 (List.mem_cons_of_mem _ hseen)⟩

/-- No two sources of a project have the same path. -/
theorem nodup_collectSources (t : Tree) (root : Path) (settings : Settings) (scanBuild : Bool) :
    ((collectSources t root settings scanBuild).map (·.path)).Nodup :=
  (withoutRepeats_spec [] _).1

/-- No source of a project has the path of a target, unless it is a generated file. -/
theorem unmade_collectSources {s : Source} (h : s ∈ collectSources t root settings scanBuild) :
    Unmade s := by
  obtain ⟨f, -, hf⟩ := List.mem_filterMap.1 ((withoutRepeats_spec [] _).2 s h).1
  exact unmade_of_source? hf

end BuildMatrix
