import BuildMatrix.SortedMap
import Mathlib.Data.List.Induction
import Mathlib.Data.List.Nodup

/-!
# Entries and look-ups of sorted maps

A map answers a look-up with the value of its entry for the key
(`mem_entries_iff`), and its keys are listed once (`nodup_keys`).

A map made from a list of entries answers with the value of some entry for the key,
and with nothing only where there is none (`get?_ofList_cases`).  Which entry of
several counts is left open there.  So it goes for a map whose keys are renamed.  If
no other key gets the same new name, the value is found under it (`get?_ofList_map`);
of several keys with the same new name the last one counts (`get?_ofList_map_last`).
-/

namespace BuildMatrix.SortedMap

/-! ## Look-ups in lists -/

section Lists

variable {κ ν : Type} [DecidableEq κ]

theorem mem_of_lookup_eq_some {l : List (κ × ν)} {k : κ} {v : ν} (h : l.lookup k = some v) :
    (k, v) ∈ l := by
  induction l with
  | nil => cases h
  | cons e l ih =>
    obtain ⟨j, w⟩ := e
    rw [List.lookup_cons] at h
    split at h
    · next hkj =>
      have hkj : k = j := by simpa using hkj
      injection h with hwv
      rw [hkj, hwv]
      exact List.mem_cons_self
    · exact List.mem_cons_of_mem _ (ih h)

theorem lookup_eq_some_of_mem {l : List (κ × ν)} (once : (l.map Prod.fst).Nodup) {k : κ} {v : ν}
    (h : (k, v) ∈ l) : l.lookup k = some v := by
  induction l with
  | nil => cases h
  | cons e l ih =>
    obtain ⟨j, w⟩ := e
    rw [List.map_cons, List.nodup_cons] at once
    rw [List.lookup_cons]
    rcases List.mem_cons.1 h with hkv | h
    · injection hkv with hk hv
      rw [hk, hv, beq_self_eq_true]
    · have hne : k ≠ j := fun hkj => once.1 (List.mem_map.2 ⟨(k, v), h, hkj⟩)
      rw [beq_false_of_ne hne]
      exact ih once.2 h

end Lists

/-! ## Entries -/

section Entries

variable {κ ν : Type} [LT κ] [KeyOrder κ]

/-- No two entries have the same key. -/
theorem nodup_keys (m : SortedMap κ ν) : m.keys.Nodup := by
  unfold keys
  rw [List.nodup_iff_pairwise_ne, List.pairwise_map]
  refine m.sorted.imp ?_
  intro a b hlt heq
  rw [heq] at hlt
  exact KeyOrder.irrefl _ hlt

variable [DecidableEq κ]

theorem mem_entries_iff {m : SortedMap κ ν} {k : κ} {v : ν} :
    (k, v) ∈ m.entries ↔ m.get? k = some v :=
  ⟨lookup_eq_some_of_mem m.nodup_keys, mem_of_lookup_eq_some⟩

theorem mem_keys_iff {m : SortedMap κ ν} {k : κ} : k ∈ m.keys ↔ m.contains k = true := by
  unfold keys contains
  rw [List.mem_map, Option.isSome_iff_exists]
  constructor
  · rintro ⟨⟨j, v⟩, hmem, rfl⟩
    exact ⟨v, mem_entries_iff.1 hmem⟩
  · rintro ⟨v, hv⟩
    exact ⟨(k, v), mem_entries_iff.2 hv, rfl⟩

/-- Of a map without some keys the others are answered as before. -/
theorem get?_filterKeys (m : SortedMap κ ν) (keep : κ → Bool) (k : κ) :
    (m.filterKeys keep).get? k = if keep k = true then m.get? k else none := by
  refine Option.ext fun v => ?_
  have hentry : (m.filterKeys keep).get? k = some v ↔ (k, v) ∈ m.entries ∧ keep k = true := by
    rw [← mem_entries_iff]
    exact List.mem_filter
  rw [hentry, mem_entries_iff]
  by_cases hkeep : keep k = true
  · rw [if_pos hkeep, and_iff_left hkeep]
  · rw [if_neg hkeep]
    exact ⟨fun h => absurd h.2 hkeep, fun h => by cases h⟩

end Entries

/-! ## Insertion -/

section Insertion

variable {κ ν β : Type} [LT κ] [DecidableEq κ] [DecidableLT κ]

/-- What is made of the entries leaves no trace of an inserted entry, nor of the one it replaces. -/
theorem filterMap_insertEntry (f : κ × ν → Option β) {k : κ} {v : ν} (hnew : f (k, v) = none)
    {l : List (κ × ν)} (hold : ∀ e ∈ l, e.1 = k → f e = none) :
    (insertEntry k v l).filterMap f = l.filterMap f := by
  induction l with
  | nil => exact List.filterMap_cons_none hnew
  | cons e rest ih =>
    unfold insertEntry
    split
    · exact List.filterMap_cons_none hnew
    · split
      · next heq =>
        rw [List.filterMap_cons_none hnew,
          List.filterMap_cons_none (hold e List.mem_cons_self heq.symm)]
      · rw [List.filterMap_cons, List.filterMap_cons,
          ih fun d hd => hold d (List.mem_cons_of_mem _ hd)]

/-- A new key makes the list of entries longer by one. -/
theorem length_insertEntry {k : κ} {v : ν} {l : List (κ × ν)} (h : l.lookup k = none) :
    (insertEntry k v l).length = l.length + 1 := by
  induction l with
  | nil => rfl
  | cons e rest ih =>
    obtain ⟨j, w⟩ := e
    rw [List.lookup_cons] at h
    split at h
    · cases h
    · next hne =>
      unfold insertEntry
      split
      · rfl
      · rw [if_neg (ne_of_beq_false hne), List.length_cons, ih h, List.length_cons]

variable [KeyOrder κ]

theorem size_insert {m : SortedMap κ ν} {k : κ} {v : ν} (h : m.get? k = none) :
    (m.insert k v).size = m.size + 1 := length_insertEntry h

theorem insert_eq_self {m : SortedMap κ ν} {k : κ} {v : ν} (h : m.get? k = some v) :
    m.insert k v = m := by
  refine ext_get? fun j => ?_
  rw [get?_insert]
  split
  · next heq => rw [heq, h]
  · rfl

end Insertion

/-! ## Maps of lists -/

section OfList

variable {κ ν : Type} [LT κ] [DecidableEq κ] [DecidableLT κ] [KeyOrder κ]

theorem ofList_concat (l : List (κ × ν)) (e : κ × ν) :
    ofList (l ++ [e]) = (ofList l).insert e.1 e.2 := by
  rw [ofList, List.foldl_append]
  rfl

/-- A look-up finds the value of some entry for the key, unless there is none. -/
theorem get?_ofList_cases (l : List (κ × ν)) (k : κ) :
    (∃ v, (k, v) ∈ l ∧ (ofList l).get? k = some v) ∨
      (∀ v, (k, v) ∉ l) ∧ (ofList l).get? k = none := by
  induction l using List.reverseRecOn with
  | nil => exact .inr ⟨fun _ => List.not_mem_nil, rfl⟩
  | append_singleton l e ih =>
    obtain ⟨j, w⟩ := e
    rw [ofList_concat, get?_insert]
    by_cases hkj : k = j
    · subst hkj
      exact .inl ⟨w, by simp, if_pos rfl⟩
    · rw [if_neg hkj]
      rcases ih with ⟨v, hv, hget⟩ | ⟨hno, hget⟩
      · exact .inl ⟨v, List.mem_append_left _ hv, hget⟩
      · refine .inr ⟨fun v hv => ?_, hget⟩
        rcases List.mem_append.1 hv with hv | hv
        · exact hno v hv
        · injection List.mem_singleton.1 hv with hk
          exact hkj hk

/-- What a look-up finds is one of the entries. -/
theorem mem_of_get?_ofList {l : List (κ × ν)} {k : κ} {v : ν} (h : (ofList l).get? k = some v) :
    (k, v) ∈ l := by
  rcases get?_ofList_cases l k with ⟨w, hw, hget⟩ | ⟨-, hget⟩
  · rw [h] at hget
    injection hget with hvw
    exact hvw ▸ hw
  · rw [h] at hget
    cases hget

theorem contains_ofList {l : List (κ × ν)} {k : κ} :
    (ofList l).contains k = true ↔ k ∈ l.map Prod.fst := by
  unfold contains
  rw [Option.isSome_iff_exists, List.mem_map]
  constructor
  · rintro ⟨v, hv⟩
    exact ⟨(k, v), mem_of_get?_ofList hv, rfl⟩
  · rintro ⟨⟨j, w⟩, hmem, rfl⟩
    rcases get?_ofList_cases l j with ⟨v, -, hget⟩ | ⟨hno, -⟩
    · exact ⟨v, hget⟩
    · exact absurd hmem (hno w)

omit [DecidableLT κ] in
/-- Under a new name for a key that no other key gets, the value of the key is found. -/
theorem get?_ofList_map {κ' : Type} [LT κ'] [DecidableLT κ'] [DecidableEq κ'] [KeyOrder κ']
    (rename : κ → κ') (m : SortedMap κ ν) (k : κ)
    (only : ∀ j v, m.get? j = some v → rename j = rename k → j = k) :
    (ofList (m.entries.map fun e => (rename e.1, e.2))).get? (rename k) = m.get? k := by
  have entry : ∀ {v : ν}, (rename k, v) ∈ m.entries.map (fun e => (rename e.1, e.2)) →
      m.get? k = some v := by
    intro v hv
    obtain ⟨⟨j, w⟩, hmem, heq⟩ := List.mem_map.1 hv
    injection heq with hname hvalue
    have hget : m.get? j = some w := mem_entries_iff.1 hmem
    rw [← only j w hget hname, hget]
    exact congrArg some hvalue
  rcases get?_ofList_cases (m.entries.map fun e => (rename e.1, e.2)) (rename k) with
    ⟨v, hv, hget⟩ | ⟨hno, hget⟩
  · rw [hget, entry hv]
  · rw [hget]
    cases hk : m.get? k with
    | none => rfl
    | some v =>
      have hmem := List.mem_map_of_mem (f := fun e : κ × ν => (rename e.1, e.2))
        (mem_entries_iff.2 hk)
      exact absurd hmem (hno v)

/-- What is said of other keys afterwards does not count. -/
theorem get?_ofList_append (l : List (κ × ν)) {l' : List (κ × ν)} {k : κ}
    (h : ∀ v, (k, v) ∉ l') : (ofList (l ++ l')).get? k = (ofList l).get? k := by
  induction l' using List.reverseRecOn with
  | nil => rw [List.append_nil]
  | append_singleton l' e ih =>
    have hne : k ≠ e.1 := by
      rintro rfl
      exact h e.2 (List.mem_append_right _ List.mem_cons_self)
    rw [← List.append_assoc, ofList_concat, get?_insert_of_ne _ _ hne]
    exact ih fun v hv => h v (List.mem_append_left _ hv)

omit [DecidableLT κ] in
/-- Of several keys that get the same new name the last one counts. -/
theorem get?_ofList_map_last {κ' : Type} [LT κ'] [DecidableLT κ'] [DecidableEq κ'] [KeyOrder κ']
    (rename : κ → κ') {m : SortedMap κ ν} {k : κ} {v : ν} (h : m.get? k = some v)
    (last : ∀ j w, m.get? j = some w → k < j → rename j ≠ rename k) :
    (ofList (m.entries.map fun e => (rename e.1, e.2))).get? (rename k) = some v := by
  obtain ⟨before, after, hentries⟩ := List.append_of_mem (mem_entries_iff.2 h)
  have hsorted := m.sorted
  rw [hentries, List.pairwise_append, List.pairwise_cons] at hsorted
  obtain ⟨-, ⟨hlater, -⟩, -⟩ := hsorted
  have hafter : ∀ w, (rename k, w) ∉ after.map fun e => (rename e.1, e.2) := by
    intro w hw
    obtain ⟨e, he, heq⟩ := List.mem_map.1 hw
    injection heq with hname _
    have hentry : m.get? e.1 = some e.2 := mem_entries_iff.1 (hentries ▸ List.mem_append_right _
      (List.mem_cons_of_mem _ he))
    exact last e.1 e.2 hentry (hlater e he) hname
  rw [hentries, List.map_append, List.map_cons, List.append_cons, get?_ofList_append _ hafter,
    ofList_concat, get?_insert_self]

theorem ofList_entries (m : SortedMap κ ν) : ofList m.entries = m := by
  refine ext_get? fun k => ?_
  have h := get?_ofList_map id m k fun _ _ _ heq => heq
  rwa [show (m.entries.map fun e => (id e.1, e.2)) = m.entries from List.map_id _] at h

omit [DecidableLT κ] in
/-- What a map with renamed keys answers comes from the map itself. -/
theorem exists_of_get?_ofList_map {κ' : Type} [LT κ'] [DecidableLT κ'] [DecidableEq κ'] [KeyOrder κ']
    {rename : κ → κ'} {m : SortedMap κ ν} {k : κ'} {v : ν}
    (h : (ofList (m.entries.map fun e => (rename e.1, e.2))).get? k = some v) :
    ∃ j, rename j = k ∧ m.get? j = some v := by
  obtain ⟨⟨j, w⟩, hmem, heq⟩ := List.mem_map.1 (mem_of_get?_ofList h)
  injection heq with hname hvalue
  exact ⟨j, hname, hvalue ▸ mem_entries_iff.1 hmem⟩

/-- Keys that are renamed so that they can be told are renamed back. -/
theorem ofList_map_map {κ' : Type} [LT κ'] [DecidableLT κ'] [DecidableEq κ'] [KeyOrder κ']
    (rename : κ → κ') (back : κ' → κ) (m : SortedMap κ ν)
    (told : ∀ k v, m.get? k = some v → back (rename k) = k) :
    ofList ((ofList (m.entries.map fun e => (rename e.1, e.2))).entries.map
      fun e => (back e.1, e.2)) = m := by
  refine ext_get? fun k => ?_
  cases hk : m.get? k with
  | some v =>
    have hforth : (ofList (m.entries.map fun e => (rename e.1, e.2))).get? (rename k) = some v := by
      rw [get?_ofList_map rename m k, hk]
      intro j w hj hname
      rw [← told j w hj, hname, told k v hk]
    have hback := get?_ofList_map back (ofList (m.entries.map fun e => (rename e.1, e.2))) (rename k)
      fun j w hj hname => by
        obtain ⟨i, rfl, hi⟩ := exists_of_get?_ofList_map hj
        rw [told i w hi, told k v hk] at hname
        rw [hname]
    rw [told k v hk] at hback
    rw [hback, hforth]
  | none =>
    cases hget : (ofList ((ofList (m.entries.map fun e => (rename e.1, e.2))).entries.map
      fun e => (back e.1, e.2))).get? k with
    | none => rfl
    | some v =>
      obtain ⟨j, rfl, hj⟩ := exists_of_get?_ofList_map hget
      obtain ⟨i, rfl, hi⟩ := exists_of_get?_ofList_map hj
      rw [told i v hi, hi] at hk
      cases hk

end OfList

end BuildMatrix.SortedMap
