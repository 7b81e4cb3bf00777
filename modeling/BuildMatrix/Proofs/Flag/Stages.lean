import BuildMatrix.Flag

/-!
# Flag lists are sorted by stage

Flags are added to a list one at a time or several at once, to any stage and in any
order.  The *log* of such additions has every flag with its stage, in the order in which
the flags came.  The composed order is the log sorted by stage, where flags of the same
stage keep the order of the log (`ofAdditions_sorts`).

A list that is sorted by stage is determined by its entries of every stage
(`eq_of_sorted`).  A stable sort leaves the entries of a stage as they are in the log
(`ofStage_mergeSort`).  A flag list, too, holds of every stage what the log has of it
(`ofStage_ofAdditions`), so the two are the same (`entries_ofAdditions`).

Nothing but the parts of the log by stage counts.  Additions to different stages can be
made in any order, and additions to the same stage can be taken together or apart
(`ofAdditions_eq_iff`).
-/

namespace BuildMatrix

/-! ## The order of the stages -/

/-- The place of a stage, the weakest first. -/
def Stage.rank : Stage → Nat
  | .common => 0
  | .language => 1
  | .variant => 2
  | .source => 3
  | .configuration => 4

/-- The list of the stages has each at its place. -/
theorem Stage.getElem?_rank_all (s : Stage) : Stage.all[s.rank]? = some s := by cases s <;> rfl

theorem Stage.pairwise_all : Stage.all.Pairwise fun s t => s.rank < t.rank := by decide

theorem Stage.eq_of_rank_eq {s t : Stage} (h : s.rank = t.rank) : s = t := by
  have hs := s.getElem?_rank_all
  rw [h, t.getElem?_rank_all] at hs
  injection hs with hs
  exact hs.symm

namespace FlagList

/-! ## Lists sorted by stage -/

/-- A flag with its stage. -/
abbrev Entry := Stage × String

/-- Whether the stage of one entry is that of another, or a weaker one. -/
def byStage (a b : Entry) : Bool := a.1.rank ≤ b.1.rank

theorem byStage_trans (a b c : Entry) (hab : byStage a b = true) (hbc : byStage b c = true) :
    byStage a c = true :=
  decide_eq_true (Nat.le_trans (of_decide_eq_true hab) (of_decide_eq_true hbc))

theorem byStage_total (a b : Entry) : (byStage a b || byStage b a) = true := by
  simp only [byStage, Bool.or_eq_true, decide_eq_true_eq]
  exact Nat.le_total ..

/-- The entries of a list are in the order of their stages. -/
def Sorted (entries : List Entry) : Prop := entries.Pairwise fun a b => byStage a b = true

/-- The entries of a stage, in the order in which they come. -/
def ofStage (s : Stage) (entries : List Entry) : List Entry := entries.filter (·.1 = s)

variable {l m : List Entry}

theorem ofStage_append (s : Stage) (l m : List Entry) :
    ofStage s (l ++ m) = ofStage s l ++ ofStage s m := List.filter_append ..

theorem ofStage_cons_self (a : Entry) (l : List Entry) :
    ofStage a.1 (a :: l) = a :: ofStage a.1 l := List.filter_cons_of_pos (decide_eq_true rfl)

theorem mem_ofStage {s : Stage} {a : Entry} : a ∈ ofStage s l ↔ a ∈ l ∧ a.1 = s := by
  rw [ofStage, List.mem_filter, decide_eq_true_eq]

/-- Lists with the same entries of every stage have the same entries. -/
theorem mem_iff_of_ofStage_eq (h : ∀ s, ofStage s l = ofStage s m) (a : Entry) :
    a ∈ l ↔ a ∈ m := by
  have ha : a ∈ ofStage a.1 l ↔ a ∈ ofStage a.1 m := by rw [h]
  rwa [mem_ofStage, mem_ofStage, and_iff_left rfl, and_iff_left rfl] at ha

/-- No entry of a sorted list has a weaker stage than the first one. -/
theorem Sorted.rank_le {a b : Entry} (sorted : Sorted (a :: l)) (h : b ∈ a :: l) :
    a.1.rank ≤ b.1.rank := by
  rcases List.mem_cons.1 h with rfl | h
  · exact Nat.le_refl _
  · exact of_decide_eq_true ((List.pairwise_cons.1 sorted).1 b h)

/-- A list that is sorted by stage is determined by its entries of every stage. -/
theorem eq_of_sorted (hl : Sorted l) (hm : Sorted m) (h : ∀ s, ofStage s l = ofStage s m) :
    l = m := by
  induction l generalizing m with
  | nil =>
    cases m with
    | nil => rfl
    | cons b m => cases (mem_iff_of_ofStage_eq h b).2 List.mem_cons_self
  | cons a l ih =>
    cases m with
    | nil => cases (mem_iff_of_ofStage_eq h a).1 List.mem_cons_self
    | cons b m =>
      -- each of the first entries is in the other list as well, so neither has the weaker stage
      have ha : a ∈ b :: m := (mem_iff_of_ofStage_eq h a).1 List.mem_cons_self
      have hb : b ∈ a :: l := (mem_iff_of_ofStage_eq h b).2 List.mem_cons_self
      have hstage : a.1 = b.1 :=
        Stage.eq_of_rank_eq (Nat.le_antisymm (hl.rank_le hb) (hm.rank_le ha))
      have hfirst : a = b := by
        have hs := h a.1
        rw [ofStage_cons_self, hstage, ofStage_cons_self] at hs
        exact (List.cons.inj hs).1
      subst hfirst
      have hrest : ∀ s, ofStage s l = ofStage s m := by
        intro s
        have hs : ofStage s ([a] ++ l) = ofStage s ([a] ++ m) := h s
        rw [ofStage_append, ofStage_append] at hs
        exact List.append_cancel_left hs
      rw [ih (List.pairwise_cons.1 hl).2 (List.pairwise_cons.1 hm).2 hrest]

theorem sorted_mergeSort (l : List Entry) : Sorted (l.mergeSort byStage) :=
  List.pairwise_mergeSort byStage_trans byStage_total l

/-- Entries of the same stage are sorted in any order. -/
theorem sorted_ofStage (s : Stage) (l : List Entry) : Sorted (ofStage s l) := by
  refine List.pairwise_iff_forall_sublist.2 fun {a b} hab => ?_
  have hstage : ∀ c ∈ [a, b], c.1 = s := fun c hc => (mem_ofStage.1 (hab.subset hc)).2
  rw [byStage, hstage a (by simp), hstage b (by simp)]
  exact decide_eq_true (Nat.le_refl _)

/-- Sorting by stage takes nothing from a stage and leaves it in order. -/
theorem ofStage_mergeSort (s : Stage) (l : List Entry) :
    ofStage s (l.mergeSort byStage) = ofStage s l := by
  have sub : (ofStage s l).Sublist (l.mergeSort byStage) :=
    List.sublist_mergeSort byStage_trans byStage_total (sorted_ofStage s l) List.filter_sublist
  have same : (ofStage s (ofStage s l)).Sublist (ofStage s (l.mergeSort byStage)) := sub.filter _
  have once : ofStage s (ofStage s l) = ofStage s l := by
    rw [ofStage, ofStage, List.filter_filter]
    simp only [Bool.and_self]
  have length : (ofStage s l).length = (ofStage s (l.mergeSort byStage)).length :=
    ((List.mergeSort_perm l byStage).filter _).length_eq.symm
  rw [once] at same
  exact (same.eq_of_length length).symm

/-! ## The composed order -/

/-- The composed order, every flag with its stage. -/
def entries (l : FlagList) : List Entry := Stage.all.flatMap fun s => (l.stage s).map (s, ·)

theorem map_entries (l : FlagList) : l.entries.map Prod.snd = l.toList := by
  rw [entries, toList, List.map_flatMap]
  simp only [List.map_map, Function.comp_def, List.map_id']

theorem sorted_entries (l : FlagList) : Sorted l.entries := by
  refine List.pairwise_flatMap.2 ⟨fun s _ => ?_, Stage.pairwise_all.imp fun {s t} hst => ?_⟩
  · rw [List.pairwise_map]
    exact List.pairwise_of_forall fun _ _ => decide_eq_true (Nat.le_refl _)
  · intro a ha b hb
    obtain ⟨_, -, rfl⟩ := List.mem_map.1 ha
    obtain ⟨_, -, rfl⟩ := List.mem_map.1 hb
    exact decide_eq_true (Nat.le_of_lt hst)

/-- The entries that flags of one stage make. -/
theorem ofStage_map (s t : Stage) (flags : List String) :
    ofStage s (flags.map (t, ·)) = if s = t then flags.map (s, ·) else [] := by
  split
  · next h =>
    subst h
    exact List.filter_eq_self.2 fun a ha => by
      obtain ⟨_, -, rfl⟩ := List.mem_map.1 ha
      exact decide_eq_true rfl
  · next h =>
    refine List.filter_eq_nil_iff.2 fun a ha => ?_
    obtain ⟨_, -, rfl⟩ := List.mem_map.1 ha
    exact fun heq => h (of_decide_eq_true heq).symm

theorem ofStage_entries (l : FlagList) (s : Stage) :
    ofStage s l.entries = (l.stage s).map (s, ·) := by
  have hparts : ofStage s l.entries =
      Stage.all.flatMap fun t => ofStage s ((l.stage t).map (t, ·)) := List.filter_flatMap ..
  rw [hparts]
  simp only [ofStage_map]
  cases s <;> simp [Stage.all]

/-- The flags of a stage are read off the composed order. -/
theorem stage_eq (l : FlagList) (s : Stage) : l.stage s = (ofStage s l.entries).map Prod.snd := by
  rw [ofStage_entries, List.map_map]
  exact (List.map_id' _).symm

theorem isEmpty_iff (l : FlagList) : l.isEmpty = true ↔ l.entries = [] := by
  rw [isEmpty, List.all_eq_true, entries, List.flatMap_eq_nil_iff]
  simp only [List.isEmpty_iff, List.map_eq_nil_iff]

/-- Flags that are added to a stage come after those it has. -/
theorem ofStage_append_entries (l : FlagList) (s t : Stage) (flags : List String) :
    ofStage s (l.append t flags).entries = ofStage s l.entries ++ ofStage s (flags.map (t, ·)) := by
  rw [ofStage_entries, ofStage_entries, ofStage_map, stage_append]
  split
  · rw [List.map_append]
  · rw [List.append_nil]

/-! ## Additions -/

/-- One addition to a flag list. -/
inductive Addition where
  /-- One flag. -/
  | push (s : Stage) (flag : String)
  /-- Several flags. -/
  | extend (s : Stage) (flags : List String)
  /-- Several flags, where the list is passed on as a value. -/
  | chain (s : Stage) (flags : List String)

/-- The flags of an addition with their stage. -/
def Addition.entries : Addition → List Entry
  | .push s flag => [(s, flag)]
  | .extend s flags => flags.map (s, ·)
  | .chain s flags => flags.map (s, ·)

/-- The list after an addition. -/
def grow (l : FlagList) : Addition → FlagList
  | .push s flag => l.push s flag
  | .extend s flags => l.append s flags
  | .chain s flags => l.append s flags

/-- The list that additions make, starting from the empty one. -/
def ofAdditions (additions : List Addition) : FlagList := additions.foldl grow empty

/-- All flags of the additions with their stages, in the order in which they came. -/
def log (additions : List Addition) : List Entry := additions.flatMap Addition.entries

/-- An addition puts its flags behind those of their stage. -/
theorem ofStage_grow (l : FlagList) (addition : Addition) (s : Stage) :
    ofStage s (l.grow addition).entries = ofStage s l.entries ++ ofStage s addition.entries := by
  cases addition with
  | push t flag => exact l.ofStage_append_entries s t [flag]
  | extend t flags => exact l.ofStage_append_entries s t flags
  | chain t flags => exact l.ofStage_append_entries s t flags

theorem ofStage_foldl_grow (l : FlagList) (additions : List Addition) (s : Stage) :
    ofStage s (additions.foldl grow l).entries =
      ofStage s l.entries ++ ofStage s (log additions) := by
  induction additions generalizing l with
  | nil => exact (List.append_nil _).symm
  | cons addition additions ih =>
    rw [List.foldl_cons, ih, ofStage_grow, List.append_assoc, ← ofStage_append]
    rfl

/-- The list has of every stage what the log has of it. -/
theorem ofStage_ofAdditions (additions : List Addition) (s : Stage) :
    ofStage s (ofAdditions additions).entries = ofStage s (log additions) :=
  ofStage_foldl_grow empty additions s

theorem entries_ofAdditions (additions : List Addition) :
    (ofAdditions additions).entries = (log additions).mergeSort byStage :=
  eq_of_sorted (sorted_entries _) (sorted_mergeSort _) fun s =>
    (ofStage_ofAdditions additions s).trans (ofStage_mergeSort s _).symm

/-- Additions make the same list exactly if they add the same flags to every stage, in the same
order. -/
theorem ofAdditions_eq_iff (additions others : List Addition) :
    ofAdditions others = ofAdditions additions ↔
      ∀ s, ofStage s (log others) = ofStage s (log additions) := by
  constructor
  · intro h s
    rw [← ofStage_ofAdditions, h, ofStage_ofAdditions]
  · intro h
    refine ext_stage fun s => ?_
    rw [stage_eq, stage_eq, ofStage_ofAdditions, ofStage_ofAdditions, h]

/-- Whatever flags are added to the empty list, and in whatever order, the composed order is that of
all flags sorted by stage, where those of the same stage stay in the order in which they came.  The
list is as long as flags have been added, and it is empty exactly if there were none.  Other additions
make the same list exactly if they add the same flags to every stage in the same order, however they
alternate between stages. -/
theorem ofAdditions_sorts (additions : List Addition) :
    (ofAdditions additions).toList = ((log additions).mergeSort byStage).map Prod.snd ∧
      (ofAdditions additions).length = (log additions).length ∧
      ((ofAdditions additions).isEmpty = true ↔ log additions = []) ∧
      ∀ others, ofAdditions others = ofAdditions additions ↔
        ∀ s, ofStage s (log others) = ofStage s (log additions) := by
  have hlist : (ofAdditions additions).toList =
      ((log additions).mergeSort byStage).map Prod.snd := by
    rw [← map_entries, entries_ofAdditions]
  refine ⟨hlist, ?_, ?_, fun others => ofAdditions_eq_iff additions others⟩
  · rw [← length_toList, hlist, List.length_map, List.length_mergeSort]
  · rw [isEmpty_iff, entries_ofAdditions, ← List.length_eq_zero_iff, List.length_mergeSort,
      List.length_eq_zero_iff]

/-- The flags of a configuration come last, although they were added first. -/
example : (ofAdditions [.chain .configuration ["-O0", "-g"], .push .common "-Wall",
    .extend .variant ["-O3"], .push .common "-Werror"]).toList =
      ["-Wall", "-Werror", "-O3", "-O0", "-g"] := by
  decide

end FlagList

end BuildMatrix
