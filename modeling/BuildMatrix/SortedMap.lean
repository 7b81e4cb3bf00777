/-!
# Sorted maps

A finite map kept as the list of its entries in strictly increasing order of
keys.  The order is part of the type, so two maps that answer every look-up
alike are equal (`SortedMap.ext_get?`), and going through a map visits its
entries by key.

Insertion is a single pass that replaces an entry with the same key.  The
equations `get?_insert_self` and `get?_insert_of_ne` say what it does to
look-ups, and nothing else needs to unfold it.

Keys are of any type with a decidable order in which two different keys compare
(`KeyOrder`).  Texts and lists of texts are ordered by code points, position by
position.
-/

namespace BuildMatrix

/-- An order in which any two different keys compare. -/
class KeyOrder (κ : Type) [LT κ] : Prop where
  /-- No key comes before itself. -/
  irrefl (a : κ) : ¬ a < a
  /-- What comes before a key comes before all that follow it. -/
  trans {a b c : κ} : a < b → b < c → a < c
  /-- Of two keys one comes first, or they are equal. -/
  trichotomy (a b : κ) : a < b ∨ a = b ∨ b < a

instance : KeyOrder String :=
  ⟨fun _ => Std.lt_irrefl, Std.lt_trans, fun _ _ => Std.lt_trichotomy ..⟩

instance : KeyOrder (List String) :=
  ⟨fun _ => Std.lt_irrefl, Std.lt_trans, fun _ _ => Std.lt_trichotomy ..⟩

/-- A finite map whose entries are kept in strictly increasing order of keys. -/
structure SortedMap (κ ν : Type) [LT κ] where
  /-- The entries, each key once. -/
  entries : List (κ × ν)
  /-- The keys increase. -/
  sorted : entries.Pairwise fun a b => a.1 < b.1

namespace SortedMap

variable {κ ν : Type}

/-! ## Views -/

section View

variable [LT κ]

def empty : SortedMap κ ν := ⟨[], List.Pairwise.nil⟩

instance : Inhabited (SortedMap κ ν) := ⟨empty⟩

instance [DecidableEq κ] [DecidableEq ν] : DecidableEq (SortedMap κ ν) := fun m n =>
  decidable_of_iff (m.entries = n.entries) ⟨fun h => by cases m; cases n; cases h; rfl, fun h => h ▸ rfl⟩

/-- The keys, in order. -/
def keys (m : SortedMap κ ν) : List κ := m.entries.map Prod.fst

/-- The values, in the order of their keys. -/
def values (m : SortedMap κ ν) : List ν := m.entries.map Prod.snd

def size (m : SortedMap κ ν) : Nat := m.entries.length

def isEmpty (m : SortedMap κ ν) : Bool := m.entries.isEmpty

/-- The value at a key. -/
def get? [DecidableEq κ] (m : SortedMap κ ν) (k : κ) : Option ν := m.entries.lookup k

/-- Whether a key has a value. -/
def contains [DecidableEq κ] (m : SortedMap κ ν) (k : κ) : Bool := (m.get? k).isSome

/-- The entries whose keys satisfy a condition. -/
def filterKeys (m : SortedMap κ ν) (keep : κ → Bool) : SortedMap κ ν :=
  ⟨m.entries.filter fun e => keep e.1, m.sorted.filter _⟩

@[ext] theorem ext {m n : SortedMap κ ν} (h : m.entries = n.entries) : m = n := by
  cases m; cases n; cases h; rfl

@[simp] theorem get?_empty [DecidableEq κ] (k : κ) : (empty : SortedMap κ ν).get? k = none := rfl

end View

/-! ## Insertion -/

/-- Insert an entry into a list in increasing order of keys, in place of one with the same key. -/
def insertEntry [LT κ] [DecidableLT κ] [DecidableEq κ] (k : κ) (v : ν) :
    List (κ × ν) → List (κ × ν)
  | [] => [(k, v)]
  | e :: rest =>
      if k < e.1 then (k, v) :: e :: rest
      else if k = e.1 then (k, v) :: rest
      else e :: insertEntry k v rest
termination_by structural entries => entries

section Insert

variable [LT κ] [DecidableLT κ] [DecidableEq κ]

theorem mem_insertEntry {k : κ} {v : ν} {e : κ × ν} {l : List (κ × ν)}
    (h : e ∈ insertEntry k v l) : e = (k, v) ∨ e ∈ l := by
  induction l with
  | nil => simpa [insertEntry] using h
  | cons d rest ih =>
    unfold insertEntry at h
    split at h
    · simpa using h
    · split at h
      · rcases List.mem_cons.1 h with h | h
        · exact .inl h
        · exact .inr (List.mem_cons_of_mem _ h)
      · rcases List.mem_cons.1 h with h | h
        · exact .inr (h ▸ List.mem_cons_self)
        · exact (ih h).imp id (List.mem_cons_of_mem _)

theorem lookup_insertEntry_self (k : κ) (v : ν) (l : List (κ × ν)) :
    (insertEntry k v l).lookup k = some v := by
  induction l with
  | nil => simp [insertEntry]
  | cons d rest ih =>
    obtain ⟨i, u⟩ := d
    unfold insertEntry
    split
    · simp
    · split
      · simp
      · next h => simp [List.lookup_cons, beq_false_of_ne h, ih]

theorem lookup_insertEntry_of_ne {k j : κ} (v : ν) (h : j ≠ k) (l : List (κ × ν)) :
    (insertEntry k v l).lookup j = l.lookup j := by
  induction l with
  | nil => simp [insertEntry, List.lookup_cons, beq_false_of_ne h]
  | cons d rest ih =>
    obtain ⟨i, u⟩ := d
    unfold insertEntry
    split
    · simp [List.lookup_cons, beq_false_of_ne h]
    · split
      · next hk => simp only at hk; subst hk; simp [List.lookup_cons, beq_false_of_ne h]
      · simp [List.lookup_cons, ih]

variable [KeyOrder κ]

theorem pairwise_insertEntry (k : κ) (v : ν) {l : List (κ × ν)}
    (h : l.Pairwise fun a b => a.1 < b.1) :
    (insertEntry k v l).Pairwise fun a b => a.1 < b.1 := by
  induction l with
  | nil => simp [insertEntry]
  | cons d rest ih =>
    obtain ⟨hd, hrest⟩ := List.pairwise_cons.1 h
    unfold insertEntry
    split
    · next hk =>
      refine List.pairwise_cons.2 ⟨fun e he => ?_, h⟩
      rcases List.mem_cons.1 he with rfl | he
      · exact hk
      · exact KeyOrder.trans hk (hd e he)
    · split
      · next hk => subst hk; exact List.pairwise_cons.2 ⟨hd, hrest⟩
      · next hlt hne =>
        refine List.pairwise_cons.2 ⟨fun e he => ?_, ih hrest⟩
        rcases mem_insertEntry he with rfl | he
        · exact ((KeyOrder.trichotomy k d.1).resolve_left hlt).resolve_left hne
        · exact hd e he

/-- Put a value at a key. -/
def insert (m : SortedMap κ ν) (k : κ) (v : ν) : SortedMap κ ν :=
  ⟨insertEntry k v m.entries, pairwise_insertEntry k v m.sorted⟩

/-- The map of a list of entries; of two with the same key the later counts. -/
def ofList (entries : List (κ × ν)) : SortedMap κ ν :=
  entries.foldl (fun m e => m.insert e.1 e.2) empty

@[simp] theorem get?_insert_self (m : SortedMap κ ν) (k : κ) (v : ν) :
    (m.insert k v).get? k = some v := lookup_insertEntry_self ..

theorem get?_insert_of_ne (m : SortedMap κ ν) {k j : κ} (v : ν) (h : j ≠ k) :
    (m.insert k v).get? j = m.get? j := lookup_insertEntry_of_ne v h _

theorem get?_insert (m : SortedMap κ ν) (k j : κ) (v : ν) :
    (m.insert k v).get? j = if j = k then some v else m.get? j := by
  split
  · next h => subst h; exact get?_insert_self ..
  · next h => exact get?_insert_of_ne _ _ h

/-! ## Equality -/

omit [DecidableLT κ] in
theorem lookup_eq_none_of_lt {k : κ} {l : List (κ × ν)} (h : ∀ e ∈ l, k < e.1) :
    l.lookup k = none := by
  induction l with
  | nil => rfl
  | cons d rest ih =>
    obtain ⟨i, u⟩ := d
    have hne : k ≠ i := fun e => KeyOrder.irrefl k (e ▸ h (i, u) List.mem_cons_self)
    simp [List.lookup_cons, beq_false_of_ne hne, ih fun e he => h e (List.mem_cons_of_mem _ he)]

omit [DecidableLT κ] in
theorem eq_of_lookup_eq {l₁ l₂ : List (κ × ν)} (h₁ : l₁.Pairwise fun a b => a.1 < b.1)
    (h₂ : l₂.Pairwise fun a b => a.1 < b.1) (h : ∀ k, l₁.lookup k = l₂.lookup k) : l₁ = l₂ := by
  induction l₁ generalizing l₂ with
  | nil =>
    cases l₂ with
    | nil => rfl
    | cons e rest => obtain ⟨j, w⟩ := e; have := h j; simp at this
  | cons d l₁ ih =>
    cases l₂ with
    | nil => obtain ⟨i, u⟩ := d; have := h i; simp at this
    | cons e l₂ =>
      obtain ⟨i, u⟩ := d
      obtain ⟨j, w⟩ := e
      obtain ⟨hi, s₁⟩ := List.pairwise_cons.1 h₁
      obtain ⟨hj, s₂⟩ := List.pairwise_cons.1 h₂
      rcases KeyOrder.trichotomy i j with hlt | rfl | hgt
      · have hnone : List.lookup i ((j, w) :: l₂) = none := lookup_eq_none_of_lt fun e he => by
          rcases List.mem_cons.1 he with rfl | he
          · exact hlt
          · exact KeyOrder.trans hlt (hj e he)
        have := h i
        rw [hnone] at this
        simp at this
      · have hv := h i
        simp only [List.lookup_cons, beq_self_eq_true, Option.some.injEq] at hv
        subst hv
        have hrest : ∀ k, l₁.lookup k = l₂.lookup k := fun k => by
          by_cases hk : k = i
          · rw [hk, lookup_eq_none_of_lt hi, lookup_eq_none_of_lt hj]
          · simpa [List.lookup_cons, beq_false_of_ne hk] using h k
        rw [ih s₁ s₂ hrest]
      · have hnone : List.lookup j ((i, u) :: l₁) = none := lookup_eq_none_of_lt fun e he => by
          rcases List.mem_cons.1 he with rfl | he
          · exact hgt
          · exact KeyOrder.trans hgt (hi e he)
        have := h j
        rw [hnone] at this
        simp at this

omit [DecidableLT κ] in
/-- Maps that answer every look-up alike are equal. -/
theorem ext_get? {m n : SortedMap κ ν} (h : ∀ k, m.get? k = n.get? k) : m = n :=
  ext (eq_of_lookup_eq m.sorted n.sorted h)

end Insert

end SortedMap

end BuildMatrix
