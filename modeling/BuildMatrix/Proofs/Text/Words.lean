import BuildMatrix.Proofs.Path.Holder

/-!
# Words of a text

A command line is cut at its spaces, and what stands between them are its *words*.  Texts that
are put side by side with a space between neighbours give their words one after another
(`words_spaced`).  So they are found again as they were exactly if each of them is a single
word (`words_spaced_eq_iff`).
-/

namespace BuildMatrix.Text

/-- The words of a text. -/
def words (text : String) : List String := (pieces ' ' text).filter (· ≠ "")

/-- The text holds no space, so what is made of it can be a single word. -/
def Unbroken (text : String) : Prop := ' ' ∉ text.toList

/-- The text is a single word. -/
def Word (text : String) : Prop := text ≠ "" ∧ Unbroken text

instance (text : String) : Decidable (Unbroken text) :=
  inferInstanceAs (Decidable (¬ ' ' ∈ text.toList))

instance (text : String) : Decidable (Word text) :=
  inferInstanceAs (Decidable (text ≠ "" ∧ Unbroken text))

section Words

variable {text word x y : String} {texts : List String}

@[simp] theorem unbroken_append : Unbroken (x ++ y) ↔ Unbroken x ∧ Unbroken y := by
  rw [Unbroken, String.toList_append, List.mem_append, not_or, Unbroken, Unbroken]

/-- A text with something unbroken and not empty in front is a word exactly if it is unbroken. -/
theorem word_append (hx : Word x) : Word (x ++ y) ↔ Unbroken y := by
  rw [Word, unbroken_append, and_iff_right hx.2]
  refine and_iff_right fun hempty => hx.1 ?_
  exact (String.append_eq_empty_iff.1 hempty).1

theorem words_of_word (h : Word text) : words text = [text] := by
  rw [words, pieces, List.splitOn_eq_singleton h.2, List.map_singleton, String.ofList_toList]
  simp [h.1]

theorem word_of_mem_words (h : word ∈ words text) : Word word := by
  obtain ⟨hpiece, hne⟩ := List.mem_filter.1 h
  obtain ⟨l, hl, rfl⟩ := List.mem_map.1 hpiece
  refine ⟨of_decide_eq_true hne, ?_⟩
  rw [Unbroken, String.toList_ofList]
  exact Path.not_mem_of_mem_splitOn hl

theorem words_append (x y : String) : words (x ++ " " ++ y) = words x ++ words y := by
  have hlist : (x ++ " " ++ y).toList = x.toList ++ ' ' :: y.toList := by
    rw [String.toList_append, String.toList_append, List.append_assoc]
    rfl
  rw [words, pieces, hlist, List.splitOn_append_cons_self, List.map_append, List.filter_append]
  rfl

/-- Texts side by side give their words one after another. -/
theorem words_spaced (texts : List String) : words (spaced texts) = texts.flatMap words := by
  induction texts with
  | nil => decide
  | cons text texts ih =>
    cases texts with
    | nil => rw [spaced, String.intercalate_singleton, List.flatMap_singleton]
    | cons next texts =>
      rw [spaced, String.intercalate_cons_cons, words_append, List.flatMap_cons, ← ih, spaced]

/-- Texts side by side are found again exactly if each is a single word. -/
theorem words_spaced_eq_iff : words (spaced texts) = texts ↔ ∀ text ∈ texts, Word text := by
  rw [words_spaced]
  constructor
  · intro h text htext
    rw [← h] at htext
    obtain ⟨other, -, hword⟩ := List.mem_flatMap.1 htext
    exact word_of_mem_words hword
  · intro h
    induction texts with
    | nil => rfl
    | cons text texts ih =>
      obtain ⟨hword, htexts⟩ := List.forall_mem_cons.1 h
      rw [List.flatMap_cons, words_of_word hword, ih htexts, List.singleton_append]

end Words

example : words "-Imy include  -g" = ["-Imy", "include", "-g"] := by decide

end BuildMatrix.Text
