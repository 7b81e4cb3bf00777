import BuildMatrix.Graph.Cycle
import Mathlib.Logic.Relation
import Mathlib.Data.List.Basic

/-!
# The search for cycles is exact

A node lies on a cycle if a path of one or more arcs leads from it back to it.
For a graph whose nodes are listed once and whose arcs run between them,
`cycleNode?` finds nothing exactly where no node lies on a cycle, and a node that
it finds lies on one (`leads_of_cycleNode?_eq_some`,
`not_leads_of_cycleNode?_eq_none`).

`Searching` is what holds between two steps of the depth-first search.  A node is
*open* while its `leave` is queued.  Two clauses carry the argument.  *Stacked*:
whatever is queued above an open node is reached from it, since it was queued by
a node that the open one leads to.  *Closed*: an arc from a node that was left
ends at a node that was left earlier, or at one that leads back to its start.
The second clause follows from the first at the moment of leaving, when the end
of the arc is open or was left before.

In the finished order an arc that points backward starts at a node that was left
before its end, so by *closed* its end leads back to it and the arc closes a
cycle.  If no arc points backward, positions increase along every path and no
path returns.
-/

namespace BuildMatrix

open Relation

variable {α : Type}

/-- There is an arc from `a` to `b`. -/
def Arc (arcs : List (α × α)) (a b : α) : Prop := (a, b) ∈ arcs

/-- A path of one or more arcs leads from a node to another. -/
abbrev Leads (arcs : List (α × α)) : α → α → Prop := TransGen (Arc arcs)

/-- The node that a visit is about. -/
def Visit.node : Visit α → α
  | .enter a => a
  | .leave a => a

/-! ## Successors and predecessors -/

section Neighbours

variable [DecidableEq α]

theorem mem_successors {arcs : List (α × α)} {a b : α} : b ∈ successors arcs a ↔ Arc arcs a b := by
  simp only [successors, List.mem_map, List.mem_filter, decide_eq_true_eq, Prod.exists,
    exists_eq_right, Arc]

theorem mem_predecessors {arcs : List (α × α)} {a b : α} :
    b ∈ predecessors arcs a ↔ Arc arcs b a := by
  simp only [predecessors, List.mem_map, List.mem_filter, decide_eq_true_eq, Prod.exists,
    exists_and_right, exists_eq_right, Arc]

end Neighbours

/-! ## What holds during the search -/

/-- The list of nodes that were left, the last one first, is closed: an arc from one of them ends at
a node that was left before it, or at a node that leads back to it. -/
def Closed (arcs : List (α × α)) (left : List α) : Prop :=
  ∀ l₁ b l₂, left = l₁ ++ b :: l₂ → ∀ a, Arc arcs b a → a ∈ l₂ ∨ Leads arcs a b

/-- What holds between two steps of the search. -/
structure Searching (nodes : List α) (arcs : List (α × α)) (work : List (Visit α))
    (fresh left : List α) : Prop where
  /-- Every node is fresh, open or left. -/
  known : ∀ a ∈ nodes, a ∈ fresh ∨ .leave a ∈ work ∨ a ∈ left
  /-- A fresh node is not open. -/
  freshNotOpen : ∀ a ∈ fresh, .leave a ∉ work
  /-- A fresh node was not left. -/
  freshNotLeft : ∀ a ∈ fresh, a ∉ left
  /-- An open node was not left. -/
  openNotLeft : ∀ a, .leave a ∈ work → a ∉ left
  /-- A node is opened once: the work after its `leave` holds no other. -/
  openOnce : ∀ w₁ a w₂, work = w₁ ++ .leave a :: w₂ → .leave a ∉ w₂
  /-- The fresh nodes are listed once. -/
  freshOnce : fresh.Nodup
  /-- The nodes that were left are listed once. -/
  leftOnce : left.Nodup
  /-- Every fresh node is queued. -/
  queued : ∀ a ∈ fresh, .enter a ∈ work
  /-- The fresh successors of an open node are queued before it is left. -/
  pending : ∀ w₁ b w₂, work = w₁ ++ .leave b :: w₂ →
    ∀ a, Arc arcs b a → a ∈ fresh → .enter a ∈ w₁
  /-- An open node leads to whatever is queued before it is left. -/
  stacked : work.Pairwise fun v u => ∀ b, u = .leave b → Leads arcs b v.node
  /-- The nodes that were left are closed. -/
  closed : Closed arcs left
  /-- A node that was entered has no arc to itself. -/
  loopless : ∀ a, .leave a ∈ work ∨ a ∈ left → ¬ Arc arcs a a

namespace Searching

variable {nodes : List α} {arcs : List (α × α)} {work : List (Visit α)} {fresh left : List α}

/-- At the start every node is fresh and queued. -/
theorem start (once : nodes.Nodup) : Searching nodes arcs (nodes.map .enter) nodes [] where
  known a ha := .inl ha
  freshNotOpen := by simp
  freshNotLeft := by simp
  openNotLeft := by simp
  openOnce w₁ a w₂ h := by
    have : Visit.leave a ∈ nodes.map Visit.enter := by rw [h]; simp
    simp at this
  freshOnce := once
  leftOnce := List.nodup_nil
  queued a ha := List.mem_map_of_mem ha
  pending w₁ b w₂ h := by
    have : Visit.leave b ∈ nodes.map Visit.enter := by rw [h]; simp
    simp at this
  stacked := by
    rw [List.pairwise_map]
    exact once.imp fun _ b h => by cases h
  closed := by
    intro l₁ b l₂ h
    simp at h
  loopless := by simp

/-- Entering a node that is not fresh changes nothing but the work. -/
theorem skip {a : α} (s : Searching nodes arcs (.enter a :: work) fresh left) (h : a ∉ fresh) :
    Searching nodes arcs work fresh left where
  known b hb := by simpa using s.known b hb
  freshNotOpen b hb := by simpa using s.freshNotOpen b hb
  freshNotLeft := s.freshNotLeft
  openNotLeft b hb := s.openNotLeft b (List.mem_cons_of_mem _ hb)
  openOnce w₁ b w₂ hw := s.openOnce (.enter a :: w₁) b w₂ (by rw [hw]; rfl)
  freshOnce := s.freshOnce
  leftOnce := s.leftOnce
  queued b hb := by
    have hne : b ≠ a := fun e => h (e ▸ hb)
    simpa [hne] using s.queued b hb
  pending w₁ b w₂ hw c hc hfresh := by
    have hne : c ≠ a := fun e => h (e ▸ hfresh)
    simpa [hne] using s.pending (.enter a :: w₁) b w₂ (by rw [hw]; rfl) c hc hfresh
  stacked := (List.pairwise_cons.1 s.stacked).2
  closed := s.closed
  loopless b hb := s.loopless b (hb.imp (List.mem_cons_of_mem _) id)

/-- Where the `leave` of an open node stands, once the visits `ns` and the `leave` of `a` are queued
in front of the work. -/
theorem split_queue {ns : List α} {a b : α} {w₁ w₂ : List (Visit α)}
    (h : ns.map .enter ++ .leave a :: work = w₁ ++ .leave b :: w₂) :
    w₁ = ns.map .enter ∧ b = a ∧ w₂ = work ∨
      ∃ w, w₁ = ns.map .enter ++ .leave a :: w ∧ work = w ++ .leave b :: w₂ := by
  induction ns generalizing w₁ with
  | nil =>
    cases w₁ with
    | nil =>
      injection h with hv hw
      injection hv with ha
      exact .inl ⟨rfl, ha.symm, hw.symm⟩
    | cons v w₁ =>
      injection h with hv hw
      exact .inr ⟨w₁, by rw [← hv]; rfl, hw⟩
  | cons n ns ih =>
    cases w₁ with
    | nil =>
      injection h with hv
      cases hv
    | cons v w₁ =>
      injection h with hv hw
      rcases ih hw with ⟨h₁, hb, h₂⟩ | ⟨w, h₁, h₂⟩
      · exact .inl ⟨by rw [← hv, h₁]; rfl, hb, h₂⟩
      · exact .inr ⟨w, by rw [← hv, h₁]; rfl, h₂⟩

variable [DecidableEq α]

/-- Going into a fresh node opens it and queues its successors. -/
theorem enter {a : α} (s : Searching nodes arcs (.enter a :: work) fresh left) (h : a ∈ fresh)
    (loop : ¬ Arc arcs a a) :
    Searching nodes arcs ((successors arcs a).map .enter ++ .leave a :: work) (fresh.erase a)
      left where
  known b hb := by
    rcases s.known b hb with hf | ho | hl
    · by_cases hba : b = a
      · exact .inr (.inl (by simp [hba]))
      · exact .inl ((List.mem_erase_of_ne hba).2 hf)
    · have ho : .leave b ∈ work := by simpa using ho
      exact .inr (.inl (by simp [ho]))
    · exact .inr (.inr hl)
  freshNotOpen b hb := by
    obtain ⟨hba, hf⟩ := s.freshOnce.mem_erase_iff.1 hb
    have := s.freshNotOpen b hf
    simpa [hba] using this
  freshNotLeft b hb := s.freshNotLeft b (List.mem_of_mem_erase hb)
  openNotLeft b hb := by
    have hb : b = a ∨ .leave b ∈ work := by simpa using hb
    rcases hb with rfl | hb
    · exact s.freshNotLeft b h
    · exact s.openNotLeft b (List.mem_cons_of_mem _ hb)
  openOnce w₁ b w₂ hw := by
    rcases split_queue hw with ⟨-, rfl, rfl⟩ | ⟨w, -, rfl⟩
    · have := s.freshNotOpen b h
      simpa using this
    · exact s.openOnce (.enter a :: w) b w₂ rfl
  freshOnce := s.freshOnce.erase a
  leftOnce := s.leftOnce
  queued b hb := by
    obtain ⟨hba, hf⟩ := s.freshOnce.mem_erase_iff.1 hb
    have := s.queued b hf
    have hq : .enter b ∈ work := by simpa [hba] using this
    simp [hq]
  pending w₁ b w₂ hw c hc hfresh := by
    obtain ⟨hca, hf⟩ := s.freshOnce.mem_erase_iff.1 hfresh
    rcases split_queue hw with ⟨rfl, rfl, -⟩ | ⟨w, rfl, rfl⟩
    · exact List.mem_map_of_mem (mem_successors.2 hc)
    · have := s.pending (.enter a :: w) b w₂ rfl c hc hf
      have hq : .enter c ∈ w := by simpa [hca] using this
      simp [hq]
  stacked := by
    obtain ⟨ha, hwork⟩ := List.pairwise_cons.1 s.stacked
    rw [List.pairwise_append]
    refine ⟨?_, List.pairwise_cons.2 ⟨fun u hu b hb => ha u hu b hb, hwork⟩, ?_⟩
    · rw [List.pairwise_map]
      exact List.pairwise_of_forall fun _ _ _ h => by cases h
    · intro v hv u hu b hb
      obtain ⟨c, hc, rfl⟩ := List.mem_map.1 hv
      have hac : Arc arcs a c := mem_successors.1 hc
      subst hb
      rcases List.mem_cons.1 hu with hba | hu
      · injection hba with hba
        exact hba ▸ TransGen.single hac
      · exact (ha _ hu b rfl).tail hac
  closed := s.closed
  loopless b hb := by
    have hb : b = a ∨ .leave b ∈ work ∨ b ∈ left := by simpa [or_assoc] using hb
    rcases hb with rfl | hb | hb
    · exact loop
    · exact s.loopless b (.inl (List.mem_cons_of_mem _ hb))
    · exact s.loopless b (.inr hb)

omit [DecidableEq α] in
/-- Where an arc from the node that is left next ends: at a node that was left before, or at one that
leads back. -/
theorem leadsBack (ends : ∀ a b, Arc arcs a b → a ∈ nodes ∧ b ∈ nodes) {b : α}
    (s : Searching nodes arcs (.leave b :: work) fresh left) {a : α} (hba : Arc arcs b a) :
    a ∈ left ∨ Leads arcs a b := by
  rcases s.known a (ends b a hba).2 with hf | ho | hl
  · have := s.pending [] b work rfl a hba hf
    simp at this
  · rcases List.mem_cons.1 ho with hab | ho
    · injection hab with hab
      subst hab
      exact .inr (TransGen.single hba)
    · exact .inr ((List.pairwise_cons.1 s.stacked).1 _ ho a rfl)
  · exact .inl hl

omit [DecidableEq α] in
/-- Leaving a node keeps the list of nodes that were left closed. -/
theorem leave (ends : ∀ a b, Arc arcs a b → a ∈ nodes ∧ b ∈ nodes) {a : α}
    (s : Searching nodes arcs (.leave a :: work) fresh left) :
    Searching nodes arcs work fresh (a :: left) where
  known b hb := by
    rcases s.known b hb with hf | ho | hl
    · exact .inl hf
    · rcases List.mem_cons.1 ho with hba | ho
      · injection hba with hba
        exact .inr (.inr (hba ▸ List.mem_cons_self))
      · exact .inr (.inl ho)
    · exact .inr (.inr (List.mem_cons_of_mem _ hl))
  freshNotOpen b hb := fun ho => s.freshNotOpen b hb (List.mem_cons_of_mem _ ho)
  freshNotLeft b hb := by
    have hba : b ≠ a := fun e => s.freshNotOpen b hb (by simp [e])
    simpa [hba] using s.freshNotLeft b hb
  openNotLeft b hb := by
    have hba : b ≠ a := fun e => s.openOnce [] a work rfl (e ▸ hb)
    simpa [hba] using s.openNotLeft b (List.mem_cons_of_mem _ hb)
  openOnce w₁ b w₂ hw := s.openOnce (.leave a :: w₁) b w₂ (by rw [hw]; rfl)
  freshOnce := s.freshOnce
  leftOnce := List.nodup_cons.2 ⟨s.openNotLeft a List.mem_cons_self, s.leftOnce⟩
  queued b hb := by simpa using s.queued b hb
  pending w₁ b w₂ hw c hc hfresh := by
    simpa using s.pending (.leave a :: w₁) b w₂ (by rw [hw]; rfl) c hc hfresh
  stacked := (List.pairwise_cons.1 s.stacked).2
  closed := by
    intro l₁ b l₂ hl c hbc
    cases l₁ with
    | nil =>
      injection hl with hab hl
      subst hab hl
      exact s.leadsBack ends hbc
    | cons d l₁ =>
      injection hl with _ hl
      exact s.closed l₁ b l₂ hl c hbc
  loopless b hb := by
    refine s.loopless b ?_
    rcases hb with ho | hl
    · exact .inl (List.mem_cons_of_mem _ ho)
    · rcases List.mem_cons.1 hl with rfl | hl
      · exact .inl List.mem_cons_self
      · exact .inr hl

end Searching

/-! ## The finished order -/

/-- What the search finishes with, the node left last coming first. -/
structure Finished (nodes : List α) (arcs : List (α × α)) (order : List α) : Prop where
  /-- Every node is listed. -/
  complete : ∀ a ∈ nodes, a ∈ order
  /-- No node is listed twice. -/
  once : order.Nodup
  /-- The list is closed. -/
  closed : Closed arcs order
  /-- No node in it has an arc to itself. -/
  loopless : ∀ a ∈ order, ¬ Arc arcs a a

variable {nodes : List α} {arcs : List (α × α)}

theorem Searching.finished {left : List α} (s : Searching nodes arcs [] [] left) :
    Finished nodes arcs left where
  complete a ha := by simpa using s.known a ha
  once := s.leftOnce
  closed := s.closed
  loopless a ha := s.loopless a (.inr ha)

/-- The start of an arc that points backward lies on a cycle. -/
theorem Finished.leads_of_backward {order : List α} (f : Finished nodes arcs order) {l₁ l₂ : List α} {a b : α}
    (split : order = l₁ ++ a :: l₂) (arc : Arc arcs b a) (listed : b ∈ l₂) : Leads arcs b b := by
  obtain ⟨m₁, m₂, rfl⟩ := List.append_of_mem listed
  have hsplit : order = (l₁ ++ a :: m₁) ++ b :: m₂ := by rw [split]; simp
  rcases f.closed _ b m₂ hsplit a arc with hmem | hleads
  · have honce := f.once
    rw [split, List.nodup_append, List.nodup_cons] at honce
    exact absurd (by simp [hmem]) honce.2.1.1
  · exact TransGen.head arc hleads

variable [DecidableEq α]

/-- The search ends with a finished order or at a node with an arc to itself. -/
theorem search_spec (ends : ∀ a b, Arc arcs a b → a ∈ nodes ∧ b ∈ nodes)
    {work : List (Visit α)} {fresh left : List α} (s : Searching nodes arcs work fresh left) :
    match search arcs work fresh left with
    | .ok order => Finished nodes arcs order
    | .error a => Arc arcs a a := by
  fun_induction search arcs work fresh left with
  | case1 fresh left =>
    have hfresh : fresh = [] := List.eq_nil_iff_forall_not_mem.2 fun a ha => by
      simpa using s.queued a ha
    subst hfresh
    exact s.finished
  | case2 fresh left a work ih => exact ih (s.leave ends)
  | case3 fresh left a work hfresh hloop => exact hloop
  | case4 fresh left a work hfresh hloop ih => exact ih (s.enter hfresh hloop)
  | case5 fresh left a work hfresh ih => exact ih (s.skip hfresh)

theorem finishOrder_spec (once : nodes.Nodup)
    (ends : ∀ a b, Arc arcs a b → a ∈ nodes ∧ b ∈ nodes) :
    match finishOrder nodes arcs with
    | .ok order => Finished nodes arcs order
    | .error a => Arc arcs a a :=
  search_spec ends (.start once)

/-! ## Arcs that point backward -/

/-- A node that is reported has an arc to a node that is listed before it. -/
theorem exists_of_backward?_eq_some {seen order : List α} {b : α}
    (h : backward? arcs seen order = some b) :
    ∃ l₁ a l₂, order = l₁ ++ a :: l₂ ∧ Arc arcs b a ∧ b ≠ a ∧ b ∉ seen ∧ b ∉ l₁ := by
  induction order generalizing seen with
  | nil => cases h
  | cons a rest ih =>
    unfold backward? at h
    split at h
    · next c hc =>
      injection h with hcb
      subst hcb
      have hne : c ≠ a ∧ c ∉ seen := by simpa using List.find?_some hc
      have harc : Arc arcs c a := mem_predecessors.1 (List.mem_of_find?_eq_some hc)
      exact ⟨[], a, rest, rfl, harc, hne.1, hne.2, List.not_mem_nil⟩
    · obtain ⟨l₁, c, l₂, hl, harc, hne, hseen, hnot⟩ := ih h
      have hba : b ≠ a := fun e => hseen (e ▸ List.mem_cons_self)
      refine ⟨a :: l₁, c, l₂, by rw [hl]; rfl, harc, hne, ?_, ?_⟩
      · exact fun hb => hseen (List.mem_cons_of_mem _ hb)
      · simpa [hba] using hnot

/-- If no node is reported, every arc comes from a node listed before its end, or is a loop. -/
theorem forward_of_backward?_eq_none {seen order : List α} (h : backward? arcs seen order = none) :
    ∀ l₁ a l₂, order = l₁ ++ a :: l₂ → ∀ b, Arc arcs b a → b = a ∨ b ∈ seen ∨ b ∈ l₁ := by
  induction order generalizing seen with
  | nil =>
    intro l₁ a l₂ hl
    simp at hl
  | cons c rest ih =>
    intro l₁ a l₂ hl b harc
    unfold backward? at h
    split at h
    · cases h
    · next hnone =>
      cases l₁ with
      | nil =>
        injection hl with hca _
        subst hca
        have := List.find?_eq_none.1 hnone b (mem_predecessors.2 harc)
        by_cases hbc : b = c
        · exact .inl hbc
        · exact .inr (.inl (by simpa [hbc] using this))
      | cons d l₁ =>
        injection hl with hcd hl
        subst hcd
        rcases ih h l₁ a l₂ hl b harc with hba | hseen | hmem
        · exact .inl hba
        · rcases List.mem_cons.1 hseen with rfl | hseen
          · exact .inr (.inr List.mem_cons_self)
          · exact .inr (.inl hseen)
        · exact .inr (.inr (List.mem_cons_of_mem _ hmem))

/-- What stands before a place in a list without repetitions has a smaller position. -/
theorem idxOf_lt_idxOf_of_split {l l₁ l₂ : List α} {a b : α} (once : l.Nodup)
    (split : l = l₁ ++ b :: l₂) (before : a ∈ l₁) : l.idxOf a < l.idxOf b := by
  have hb : b ∉ l₁ := by
    rw [split, List.nodup_append] at once
    exact fun hmem => once.2.2 b hmem b List.mem_cons_self rfl
  rw [split, List.idxOf_append_of_mem before, List.idxOf_append_of_notMem hb]
  have := List.idxOf_lt_length_of_mem before
  omega

namespace Finished

variable {order : List α}

/-- If every arc points forward, positions increase along a path. -/
theorem idxOf_lt (f : Finished nodes arcs order)
    (ends : ∀ a b, Arc arcs a b → a ∈ nodes ∧ b ∈ nodes)
    (forward : backward? arcs [] order = none) {a b : α} (path : Leads arcs a b) :
    order.idxOf a < order.idxOf b := by
  have step : ∀ {a b : α}, Arc arcs a b → order.idxOf a < order.idxOf b := by
    intro a b arc
    obtain ⟨l₁, l₂, hsplit⟩ := List.append_of_mem (f.complete b (ends a b arc).2)
    have ha : a ∈ l₁ := by
      rcases forward_of_backward?_eq_none forward l₁ b l₂ hsplit a arc with rfl | hseen | hmem
      · exact absurd arc (f.loopless a (f.complete a (ends a a arc).2))
      · simp at hseen
      · exact hmem
    exact idxOf_lt_idxOf_of_split f.once hsplit ha
  induction path with
  | single arc => exact step arc
  | tail _ arc ih => exact Nat.lt_trans ih (step arc)

end Finished

/-! ## The search for a node on a cycle -/

/-- A node that is found lies on a cycle. -/
theorem leads_of_cycleNode?_eq_some (once : nodes.Nodup)
    (ends : ∀ a b, Arc arcs a b → a ∈ nodes ∧ b ∈ nodes) {a : α}
    (h : cycleNode? nodes arcs = some a) : Leads arcs a a := by
  have spec := finishOrder_spec once ends
  unfold cycleNode? at h
  split at h
  · next b hb =>
    rw [hb] at spec
    injection h with hba
    exact hba ▸ TransGen.single spec
  · next order horder =>
    rw [horder] at spec
    obtain ⟨l₁, b, l₂, hsplit, harc, hne, -, hnot⟩ := exists_of_backward?_eq_some h
    have hlisted : a ∈ order := spec.complete a (ends a b harc).1
    have hmem : a ∈ l₂ := by
      rw [hsplit] at hlisted
      simpa [hnot, hne] using hlisted
    exact spec.leads_of_backward hsplit harc hmem

/-- If no node is found, none lies on a cycle. -/
theorem not_leads_of_cycleNode?_eq_none (once : nodes.Nodup)
    (ends : ∀ a b, Arc arcs a b → a ∈ nodes ∧ b ∈ nodes)
    (h : cycleNode? nodes arcs = none) (a : α) : ¬ Leads arcs a a := by
  have spec := finishOrder_spec once ends
  unfold cycleNode? at h
  split at h
  · cases h
  · next order horder =>
    rw [horder] at spec
    intro path
    exact Nat.lt_irrefl _ (spec.idxOf_lt ends h path)

end BuildMatrix
