import Mathlib.Data.List.Basic

/-!
# Texts that can be told from what follows them

Something is written *delimited* if it can be read off the beginning of any text that
goes on as expected: what was written and the rest are both determined by the whole.
What is expected is said of the next character alone, or of the end of the text.

Things that are written one after the other are delimited if each of them is, and if
the next one never looks like the end of them all (`Delimited.flatMap`).  So a text is
delimited if its characters are written by a code of this kind (`Delimited.text`).
-/

namespace BuildMatrix

/-- What is written can be told from what follows, if that begins as expected. -/
def Delimited {α : Type} (good : α → Prop) (next : Option Char → Prop) (write : α → List Char) :
    Prop :=
  ∀ ⦃a b : α⦄ ⦃s t : List Char⦄, good a → good b → next s.head? → next t.head? →
    write a ++ s = write b ++ t → a = b ∧ s = t

namespace Delimited

variable {α : Type} {good : α → Prop} {next stop : Option Char → Prop} {write : α → List Char}

/-- Things that are written one after the other.  Each begins with a character with which another one
may go on and which is no sign of the end. -/
theorem flatMap (each : Delimited good next write)
    (first : ∀ a, good a → ∃ c rest, write a = c :: rest ∧ next (some c) ∧ ¬ stop (some c))
    (last : ∀ c, stop c → next c) :
    Delimited (fun l : List α => ∀ a ∈ l, good a) stop (List.flatMap write) := by
  have onward : ∀ (l : List α) (s : List Char), (∀ a ∈ l, good a) → stop s.head? →
      next (l.flatMap write ++ s).head? := by
    intro l s hl hs
    cases l with
    | nil => exact last _ hs
    | cons a l =>
      obtain ⟨c, rest, hwrite, hnext, -⟩ := first a (hl a List.mem_cons_self)
      simpa [hwrite] using hnext
  have ends : ∀ (a : α) (l : List α) (s t : List Char), good a → stop s.head? →
      s ≠ (a :: l).flatMap write ++ t := by
    rintro a l s t ha hs rfl
    obtain ⟨c, rest, hwrite, -, hstop⟩ := first a ha
    simp [hwrite] at hs
    exact hstop hs
  intro l m s t hl hm hs ht h
  induction l generalizing m with
  | nil =>
    cases m with
    | nil => exact ⟨rfl, h⟩
    | cons b m => exact absurd h (ends b m s t (hm b List.mem_cons_self) hs)
  | cons a l ih =>
    cases m with
    | nil => exact absurd h.symm (ends a l t s (hl a List.mem_cons_self) ht)
    | cons b m =>
      rw [List.flatMap_cons, List.flatMap_cons, List.append_assoc, List.append_assoc] at h
      have hl' : ∀ a ∈ l, good a := fun a ha => hl a (List.mem_cons_of_mem _ ha)
      have hm' : ∀ a ∈ m, good a := fun a ha => hm a (List.mem_cons_of_mem _ ha)
      obtain ⟨rfl, hrest⟩ := each (hl a List.mem_cons_self) (hm b List.mem_cons_self)
        (onward l s hl' hs) (onward m t hm' ht) h
      obtain ⟨rfl, rfl⟩ := ih hl' hm' hrest
      exact ⟨rfl, rfl⟩

/-- A text whose characters are written by a code, up to a character with which nothing in it is
written. -/
theorem text {code : Char → List Char} {good : Char → Prop}
    (each : Delimited (fun _ => True) (fun _ => True) code)
    (first : ∀ c, good c → ∃ d rest, code c = d :: rest ∧ ¬ stop (some d)) :
    Delimited (fun s : String => ∀ c ∈ s.toList, good c) stop fun s => s.toList.flatMap code := by
  have chars : Delimited good (fun _ => True) code := fun a b s t _ _ => each trivial trivial
  have all : Delimited (fun l : List Char => ∀ c ∈ l, good c) stop (List.flatMap code) := by
    refine chars.flatMap (fun c hc => ?_) fun _ _ => trivial
    obtain ⟨d, rest, hcode, hstop⟩ := first c hc
    exact ⟨d, rest, hcode, trivial, hstop⟩
  intro a b s t ha hb hs ht h
  obtain ⟨hchars, hrest⟩ := all ha hb hs ht h
  exact ⟨String.toList_inj.1 hchars, hrest⟩

/-- A text that is written as it stands. -/
theorem plain {good : Char → Prop} (h : ∀ c, good c → ¬ stop (some c)) :
    Delimited (fun s : String => ∀ c ∈ s.toList, good c) stop String.toList := by
  have single : Delimited (fun _ => True) (fun _ => True) fun c : Char => [c] := by
    rintro a b s t - - - - hwrite
    simpa using hwrite
  simpa using text single fun c hc => ⟨c, [], rfl, h c hc⟩

end Delimited

end BuildMatrix
