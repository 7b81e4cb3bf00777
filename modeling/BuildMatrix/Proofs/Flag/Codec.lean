import BuildMatrix.Flag
import Mathlib.Data.Set.Insert

/-!
# The encoding of flag sets

A flag set is kept in a file under a single text.  Reading that text gives the set
back, for any tokens, bars and backslashes in them included, with one exception.
The set with one empty token has the same text as the set without tokens, and it
is the latter that is read (`decode_encode`).  No other two sets share a text
(`encode_inj`).  Both are said exactly in `codec_exact`.

Any other text is read as some set, too, though never as the set of one empty token.
Such a set may be written in another way than it was read, but then it is read as it
was (`decode_encode_decode`).
-/

namespace BuildMatrix.FlagSet

/-! ## Tokens -/

/-- A token is read up to its end, whatever follows it. -/
theorem decodeFrom_escape (token given rest : List Char) :
    decodeFrom given (escape token ++ rest) = decodeFrom (token.reverse ++ given) rest := by
  induction token generalizing given with
  | nil => rfl
  | cons c token ih =>
    rw [List.reverse_cons, List.append_assoc, List.singleton_append, ← ih, escape]
    by_cases hc : c = '|' ∨ c = '\\'
    · rw [if_pos hc]
      rfl
    · obtain ⟨hbar, hback⟩ := not_or.1 hc
      rw [if_neg hc, List.cons_append, decodeFrom.eq_4, if_neg hbar]
      · exact fun heq _ => hback heq
      · exact fun _ _ heq _ => hback heq

theorem decodeFrom_bar (given rest : List Char) :
    decodeFrom given ('|' :: rest) = given.reverse :: decodeFrom [] rest := by
  cases rest with
  | nil => rfl
  | cons c rest => rfl

/-- Tokens with bars between them are read one by one. -/
theorem decodeFrom_intercalate (token : List Char) (tokens : List (List Char)) :
    decodeFrom [] (['|'].intercalate ((token :: tokens).map escape)) = token :: tokens := by
  induction tokens generalizing token with
  | nil =>
    have h := decodeFrom_escape token [] []
    rw [List.append_nil, List.append_nil] at h
    rw [List.map_singleton, List.intercalate_singleton, h, decodeFrom, List.reverse_reverse]
  | cons next tokens ih =>
    rw [List.map_cons, List.map_cons, List.intercalate_cons_cons, List.append_assoc,
      decodeFrom_escape, List.append_nil, List.singleton_append, decodeFrom_bar,
      List.reverse_reverse, ← List.map_cons, ih]

/-! ## Sets -/

/-- The sets whose text is empty. -/
def Blank (flags : FlagSet) : Prop := flags = [] ∨ flags = [""]

instance (flags : FlagSet) : Decidable (Blank flags) :=
  inferInstanceAs (Decidable (flags = [] ∨ flags = [""]))

theorem eq_nil_of_escape_eq_nil {token : List Char} (h : escape token = []) : token = [] := by
  cases token with
  | nil => rfl
  | cons c token =>
    rw [escape] at h
    split at h
    · cases h
    · cases h

theorem encode_eq_empty_iff {flags : FlagSet} : encode flags = "" ↔ Blank flags := by
  constructor
  · intro h
    have hlist : ['|'].intercalate (flags.map fun token => escape token.toList) = [] := by
      have := congrArg String.toList h
      rwa [encode, String.toList_ofList] at this
    match flags, hlist with
    | [], _ => exact .inl rfl
    | [token], hlist =>
      rw [List.map_singleton, List.intercalate_singleton] at hlist
      rw [String.toList_eq_nil_iff.1 (eq_nil_of_escape_eq_nil hlist)]
      exact .inr rfl
    | token :: next :: more, hlist =>
      rw [List.map_cons, List.map_cons, List.intercalate_cons_cons, List.append_assoc] at hlist
      have := (List.append_eq_nil_iff.1 (List.append_eq_nil_iff.1 hlist).2).1
      cases this
  · rintro (rfl | rfl)
    · rfl
    · rfl

/-- The text of a set is read as the set, unless it is empty. -/
theorem decode_encode {flags : FlagSet} (h : ¬ Blank flags) : decode (encode flags) = flags := by
  unfold decode
  rw [if_neg (fun heq => h (encode_eq_empty_iff.1 heq)), encode, String.toList_ofList]
  cases flags with
  | nil => exact absurd (.inl rfl) h
  | cons token tokens =>
    have hread := decodeFrom_intercalate token.toList (tokens.map String.toList)
    rw [← List.map_cons (f := String.toList), List.map_map] at hread
    have hescape : (token :: tokens).map (escape ∘ String.toList) =
        (token :: tokens).map fun token => escape token.toList := rfl
    rw [← hescape, hread, List.map_map]
    have hid : String.ofList ∘ String.toList = id := funext fun _ => String.ofList_toList
    rw [hid, List.map_id]

theorem decode_encode_of_blank {flags : FlagSet} (h : Blank flags) : decode (encode flags) = [] := by
  rw [encode_eq_empty_iff.2 h]
  rfl

theorem decodeFrom_ne_nil (given text : List Char) : decodeFrom given text ≠ [] := by
  fun_induction decodeFrom given text with
  | case1 given => exact List.cons_ne_nil _ _
  | case2 given => exact List.cons_ne_nil _ _
  | case3 given c rest ih => exact ih
  | case4 given rest ih => exact List.cons_ne_nil _ _
  | case5 given c rest _ _ _ ih => exact ih

/-- One empty token is read only where there is nothing to read. -/
theorem eq_nil_of_decodeFrom {given text : List Char} (h : decodeFrom given text = [[]]) :
    given = [] ∧ text = [] := by
  fun_induction decodeFrom given text with
  | case1 given =>
    injection h with h _
    exact ⟨List.reverse_eq_nil_iff.1 h, rfl⟩
  | case2 given =>
    injection h with h _
    cases List.reverse_eq_nil_iff.1 h
  | case3 given c rest ih => cases (ih h).1
  | case4 given rest ih =>
    injection h with _ h
    exact absurd h (decodeFrom_ne_nil _ _)
  | case5 given c rest _ _ _ ih => cases (ih h).1

/-- No text is read as the set of one empty token. -/
theorem decode_ne_single (text : String) : decode text ≠ [""] := by
  unfold decode
  split
  · exact (List.cons_ne_nil _ _).symm
  · next hne =>
    intro h
    obtain ⟨token, htokens, htoken⟩ := List.map_eq_singleton_iff.1 h
    have hnil : token = [] := by
      rw [← String.toList_ofList (l := token), htoken]
      rfl
    rw [hnil] at htokens
    exact hne (String.toList_eq_nil_iff.1 (eq_nil_of_decodeFrom htokens).2)

/-- A set with a text that is not empty is the only one with it. -/
theorem encode_inj {flags other : FlagSet} (h : ¬ Blank flags) (heq : encode other = encode flags) :
    other = flags := by
  have hother : ¬ Blank other := by
    rw [← encode_eq_empty_iff, heq, encode_eq_empty_iff]
    exact h
  rw [← decode_encode hother, heq, decode_encode h]

/-! ## Where the encoding is exact -/

/-- Exactly one set is not read back. -/
theorem decode_encode_eq_iff {flags : FlagSet} : decode (encode flags) = flags ↔ flags ≠ [""] := by
  constructor
  · intro h
    rw [← h]
    exact decode_ne_single _
  · intro hne
    by_cases hblank : Blank flags
    · rw [decode_encode_of_blank hblank, hblank.resolve_right hne]
    · exact decode_encode hblank

/-- What is read from a text is read from its own text as well. -/
theorem decode_encode_decode (text : String) : decode (encode (decode text)) = decode text :=
  decode_encode_eq_iff.2 (decode_ne_single text)

theorem encode_eq_iff {flags other : FlagSet} :
    encode flags = encode other ↔ flags = other ∨ Blank flags ∧ Blank other := by
  constructor
  · intro heq
    by_cases hblank : Blank other
    · refine .inr ⟨encode_eq_empty_iff.1 ?_, hblank⟩
      rw [heq, encode_eq_empty_iff.2 hblank]
    · exact .inl (encode_inj hblank heq)
  · rintro (rfl | ⟨hflags, hother⟩)
    · rfl
    · rw [encode_eq_empty_iff.2 hflags, encode_eq_empty_iff.2 hother]

/-- Two sets with the empty text are the same, or they are the two that there are. -/
theorem blank_and_blank_iff {flags other : FlagSet} :
    Blank flags ∧ Blank other ↔
      Blank flags ∧ flags = other ∨ ({flags, other} : Set FlagSet) = {[], [""]} := by
  rw [Set.pair_eq_pair_iff]
  constructor
  · rintro ⟨rfl | rfl, rfl | rfl⟩
    · exact .inl ⟨.inl rfl, rfl⟩
    · exact .inr (.inl ⟨rfl, rfl⟩)
    · exact .inr (.inr ⟨rfl, rfl⟩)
    · exact .inl ⟨.inr rfl, rfl⟩
  · rintro (⟨hblank, rfl⟩ | ⟨rfl, rfl⟩ | ⟨rfl, rfl⟩)
    · exact ⟨hblank, hblank⟩
    · exact ⟨.inl rfl, .inr rfl⟩
    · exact ⟨.inr rfl, .inl rfl⟩

/-- A set is read back exactly if it is not the one with a single empty token, and two sets share a text
exactly if they are the same or are that one and the set without tokens. -/
theorem codec_exact (flags other : FlagSet) :
    (decode (encode flags) = flags ↔ flags ≠ [""]) ∧
      (encode flags = encode other ↔
        flags = other ∨ ({flags, other} : Set FlagSet) = {[], [""]}) := by
  refine ⟨decode_encode_eq_iff, ?_⟩
  rw [encode_eq_iff, blank_and_blank_iff, ← or_assoc, or_iff_left_of_imp And.right]

/-- A set without tokens takes the place of the one with an empty token. -/
example : decode (encode [""]) = [] := by decide

end BuildMatrix.FlagSet
