import BuildMatrix.Proofs.Path.Ordinary

/-!
# Two spellings of a path

A path is respelled if pieces that mean nothing are put in or taken out (`Respelled`): the steps
stay the same, and so does whether the path is absolute.  A `.` in front of a relative path is such
a piece, but it is a component nevertheless, the lead.  So behind a path that is not empty a relative
path can be respelled in any way (`Respelled.components_join`), and elsewhere only with the same lead.

The way from a base to a path is told by the components of the two, where there is one.  It is not
told where the path stands for itself: if it is absolute and the base is not, or if the base climbs
from where the two part.  `Placed` says that neither happens, and what holds of a path then holds of
all that is below it (`relativeTo_below`).

Seen from a path that is not empty nothing begins with `.`, however it is spelled
(`lead_relativeTo_below`).
-/

namespace BuildMatrix.Path

/-- The two paths differ in pieces that mean nothing at most, a `.` in front among these. -/
structure Respelled (p q : Path) : Prop where
  absolute : p.isAbsolute = q.isAbsolute
  steps : p.steps = q.steps

instance (p q : Path) : Decidable (Respelled p q) :=
  decidable_of_iff (p.isAbsolute = q.isAbsolute ∧ p.steps = q.steps)
    ⟨fun ⟨absolute, steps⟩ => ⟨absolute, steps⟩, fun ⟨absolute, steps⟩ => ⟨absolute, steps⟩⟩

section Components

variable {p q : Path}

theorem components_of_relative {r : Path} (hr : ¬ r.isAbsolute = true) (hne : p.text ≠ "") :
    (p.join r).text ≠ "" ∧ (p.join r).components = p.components ++ r.steps := by
  obtain ⟨hjoin, hlead, hsteps⟩ := join_of_relative hr hne
  rw [components_eq, components_eq, hlead, hsteps, List.append_assoc]
  exact ⟨hjoin, rfl⟩

/-- Only the empty path has no components. -/
theorem components_eq_nil_iff : p.components = [] ↔ p.text = "" := by
  constructor
  · intro h
    rw [components_eq, List.append_eq_nil_iff] at h
    obtain ⟨first, rest, hpieces⟩ := List.exists_cons_of_ne_nil
      (show p.pieces ≠ [] from fun h => List.splitOn_ne_nil '/' _ (List.map_eq_nil_iff.1 h))
    have hidle : Idle first := component?_eq_none
      (List.filterMap_eq_nil_iff.1 h.2 first (hpieces ▸ List.mem_cons_self))
    have hfirst : first = "" := hidle.resolve_right fun hdot => by
      rw [lead, hpieces, hdot] at h
      cases h.1
    have htext := p.intercalate_pieces
    rw [hpieces, hfirst] at htext
    cases rest with
    | nil => exact htext.symm
    | cons second rest =>
      -- a text that goes on behind an empty piece begins with a slash
      have habsolute : p.isAbsolute = true := by
        rw [isAbsolute, ← htext]
        simp
      rw [isAbsolute_iff.1 habsolute] at h
      cases h.1
  · intro h
    have hp : p = ⟨""⟩ := congrArg Path.mk h
    rw [hp]
    rfl

theorem isAbsolute_of_components (h : p.components = q.components) :
    p.isAbsolute = q.isAbsolute := by
  rw [Bool.eq_iff_iff, isAbsolute_iff_components, isAbsolute_iff_components, h]

/-- Behind a path that is not empty the lead does not count. -/
theorem Respelled.components_join (same : Respelled p q) {root : Path}
    (hlead : root.text = "" → p.lead = q.lead) :
    (root.join p).components = (root.join q).components := by
  by_cases habsolute : p.isAbsolute = true
  · have habsolute' : q.isAbsolute = true := same.absolute ▸ habsolute
    rw [join_of_absolute habsolute, join_of_absolute habsolute', components_eq_iff,
      isAbsolute_iff.1 habsolute, isAbsolute_iff.1 habsolute']
    exact ⟨rfl, same.steps⟩
  by_cases hempty : root.text = ""
  · rw [join_of_empty hempty, join_of_empty hempty]
    exact components_eq_iff.2 ⟨hlead hempty, same.steps⟩
  · rw [(components_of_relative habsolute hempty).2,
      (components_of_relative (same.absolute ▸ habsolute) hempty).2, same.steps]

/-- A character of a name stands in every spelling. -/
theorem mem_text_of_steps {c : Char} (hslash : c ≠ '/') (hdot : c ≠ '.')
    (h : p.steps = q.steps) : c ∈ p.text.toList → c ∈ q.text.toList := by
  rw [← mem_pieces_iff hslash, ← mem_pieces_iff hslash]
  rintro ⟨piece, hpiece, hc⟩
  cases hcomponent : component? piece with
  | none =>
    rcases component?_eq_none hcomponent with rfl | rfl
    · simp at hc
    · exact absurd (List.mem_singleton.1 hc) hdot
  | some component =>
    have hstep : component ∈ q.steps := h ▸ List.mem_filterMap.2 ⟨piece, hpiece, hcomponent⟩
    obtain ⟨piece', hpiece', hcomponent'⟩ := List.mem_filterMap.1 hstep
    obtain rfl := component?_inj hcomponent hcomponent'
    exact ⟨piece, hpiece', hc⟩

end Components

/-! ## The way from a base -/

/-- There is a way from a base that does not climb. -/
theorem wayBetween_isSome {base : List Component} (h : .up ∉ base) (started : Bool)
    (path : List Component) : (wayBetween started base path).isSome = true := by
  induction base generalizing started path with
  | nil => rfl
  | cons b base ih =>
    rw [List.mem_cons, not_or] at h
    cases path with
    | nil =>
      rw [wayBetween, Option.isSome_map]
      exact ih h.2 _ _
    | cons c path =>
      rw [wayBetween]
      split
      · exact ih h.2 _ _
      split
      · rw [Option.isSome_map]
        exact ih h.2 _ _
      · rw [if_neg (Ne.symm h.1)]
        rfl

/-- A way climbs or takes steps of the path. -/
theorem mem_wayBetween {started : Bool} {base path way : List Component}
    (h : wayBetween started base path = some way) {c : Component} (hc : c ∈ way) :
    c = .up ∨ c ∈ path := by
  induction base generalizing started path way with
  | nil =>
    rw [wayBetween] at h
    injection h with h
    exact .inr (h ▸ hc)
  | cons b base ih =>
    cases path with
    | nil =>
      rw [wayBetween] at h
      obtain ⟨rest, hrest, rfl⟩ := Option.map_eq_some_iff.1 h
      rcases List.mem_cons.1 hc with rfl | hc
      · exact .inl rfl
      · exact ih hrest hc
    | cons d path =>
      rw [wayBetween] at h
      split at h
      · exact (ih h hc).imp_right (List.mem_cons_of_mem _)
      split at h
      · obtain ⟨rest, hrest, rfl⟩ := Option.map_eq_some_iff.1 h
        rcases List.mem_cons.1 hc with rfl | hc
        · exact .inr List.mem_cons_self
        · exact (ih hrest hc).imp_right (List.mem_cons_of_mem _)
      split at h
      · cases h
      · injection h with h
        rw [← h, List.cons_append, List.mem_cons, List.mem_append, List.map_const',
          List.mem_replicate] at hc
        tauto

/-- The way from the base to the path, and to all that is below it, is told by their components. -/
structure Placed (base p : Path) : Prop where
  absolute : p.isAbsolute = base.isAbsolute
  way : ∀ more, (wayBetween false base.components (p.components ++ more)).isSome = true

section Placed

variable {base p q : Path}

/-- A relative path is placed where it is joined to. -/
theorem placed_join_of_relative (h : ¬ p.isAbsolute = true) : Placed base (base.join p) := by
  by_cases hempty : base.text = ""
  · have hbase : base = ⟨""⟩ := congrArg Path.mk hempty
    rw [join_of_empty hempty, hbase]
    exact ⟨Bool.eq_false_iff.2 h, fun more => rfl⟩
  · have hcomponents := (components_of_relative h hempty).2
    obtain ⟨-, hlead, -⟩ := join_of_relative h hempty
    refine ⟨?_, fun more => ?_⟩
    · rw [Bool.eq_iff_iff, isAbsolute_iff, isAbsolute_iff, hlead]
    · rw [hcomponents, List.append_assoc, wayBetween_append]
      rfl

/-- So is an absolute path, if the other path is absolute and does not climb. -/
theorem placed_join_of_absolute (h : p.isAbsolute = true) (hbase : base.isAbsolute = true)
    (hup : .up ∉ base.components) : Placed base (base.join p) := by
  rw [join_of_absolute h]
  exact ⟨h.trans hbase.symm, fun more => wayBetween_isSome hup _ _⟩

theorem Placed.join (placed : Placed base p) {r : Path} (hr : ¬ r.isAbsolute = true)
    (hne : p.text ≠ "") : Placed base (p.join r) := by
  obtain ⟨-, hlead, -⟩ := join_of_relative hr hne
  refine ⟨?_, fun more => ?_⟩
  · rw [← placed.absolute, Bool.eq_iff_iff, isAbsolute_iff, isAbsolute_iff, hlead]
  · rw [(components_of_relative hr hne).2, List.append_assoc]
    exact placed.way _

/-- Seen from the base it is the same in every spelling. -/
theorem Placed.relativeTo (placed : Placed base p) (h : p.components = q.components) :
    p.relativeTo base = q.relativeTo base := by
  have hway := placed.way []
  rw [List.append_nil] at hway
  obtain ⟨way, hway⟩ := Option.isSome_iff_exists.1 hway
  have habsolute := placed.absolute
  rw [Path.relativeTo, Path.relativeTo, relativeTo?, relativeTo?, ← isAbsolute_of_components h, ← h,
    if_neg (not_not.2 habsolute), if_neg (not_not.2 habsolute), hway]
  rfl

/-- What is below is seen the same. -/
theorem relativeTo_below (placed : Placed base p) (h : p.components = q.components)
    (names : List String) :
    (names.foldl child p).relativeTo base = (names.foldl child q).relativeTo base := by
  induction names generalizing p q with
  | nil => exact placed.relativeTo h
  | cons name names ih =>
    by_cases hname : (Path.mk name).isAbsolute = true
    · rw [List.foldl_cons, List.foldl_cons, child, child, join_of_absolute hname,
        join_of_absolute hname]
    by_cases hempty : p.text = ""
    · have hempty' : q.text = "" :=
        components_eq_nil_iff.1 (h ▸ components_eq_nil_iff.2 hempty)
      rw [show p = q from congrArg Path.mk (hempty.trans hempty'.symm)]
    · have hempty' : q.text ≠ "" := fun hq =>
        hempty (components_eq_nil_iff.1 (h.trans (components_eq_nil_iff.2 hq)))
      refine ih (placed.join hname hempty) ?_
      show (p.join ⟨name⟩).components = (q.join ⟨name⟩).components
      rw [(components_of_relative hname hempty).2, (components_of_relative hname hempty').2, h]

end Placed

/-! ## Paths that begin with a dot -/

section Dotted

variable {base p : Path}

/-- A path put together from steps and the root does not begin with `.`. -/
theorem lead_ofComponents {cs : List Component} (hhere : .here ∉ cs)
    (hnames : ∀ name, .name name ∈ cs → EntryName name) : (ofComponents cs).lead ≠ [.here] := by
  induction cs using List.reverseRecOn with
  | nil => decide
  | append_singleton cs c ih =>
    rw [List.mem_append, not_or] at hhere
    have hlead := ih hhere.1 fun name hname => hnames name (List.mem_append_left _ hname)
    have hc : (Path.mk c.text).lead ≠ [.here] := by
      cases c with
      | root => decide
      | here => exact absurd List.mem_cons_self hhere.2
      | up => decide
      | name name =>
        have entry := hnames name (by simp)
        rw [Component.text, lead_single entry.single entry.proper]
        exact fun h => by cases h
    rw [ofComponents_concat, child]
    by_cases habsolute : (Path.mk c.text).isAbsolute = true
    · rwa [join_of_absolute habsolute]
    by_cases hempty : (ofComponents cs).text = ""
    · rwa [join_of_empty hempty]
    · rwa [(join_of_relative habsolute hempty).2.1]

theorem here_mem_components_iff : .here ∈ p.components ↔ p.lead = [.here] := by
  rw [components_eq, List.mem_append]
  have hsteps : .here ∉ p.steps := fun h => (mem_steps h).2 rfl
  rcases p.lead_cases with h | h | h <;> simp [h, hsteps]

/-- Seen from a base an absolute path does not begin with `.`. -/
theorem lead_relativeTo_of_absolute (h : p.isAbsolute = true) :
    (p.relativeTo base).lead ≠ [.here] := by
  have hlead := isAbsolute_iff.1 h
  have hself : p.lead ≠ [.here] := by
    rw [hlead]
    decide
  rw [relativeTo, relativeTo?]
  split
  · exact hself
  cases hway : wayBetween false base.components p.components with
  | none => exact hself
  | some way =>
    refine lead_ofComponents (fun hhere => ?_) fun name hname => ?_
    · rcases mem_wayBetween hway hhere with hup | hhere
      · cases hup
      · exact hself (here_mem_components_iff.1 hhere)
    · rcases mem_wayBetween hway hname with hup | hname
      · cases hup
      · exact (mem_pieces_of_components hname).2

/-- The path is absolute, or it goes on from the base. -/
def Follows (base p : Path) : Prop :=
  p.isAbsolute = true ∨ p.text ≠ "" ∧ p.lead = base.lead ∧ ∃ more, p.steps = base.steps ++ more

theorem follows_join {d : Path} (h : base.text = "" → d.text ≠ "" ∧ d.lead ≠ [.here]) :
    Follows base (base.join d) := by
  by_cases habsolute : d.isAbsolute = true
  · exact .inl (by rwa [join_of_absolute habsolute])
  by_cases hempty : base.text = ""
  · have hbase : base = ⟨""⟩ := congrArg Path.mk hempty
    obtain ⟨hne, hhere⟩ := h hempty
    rw [join_of_empty hempty, hbase]
    refine .inr ⟨hne, ?_, d.steps, rfl⟩
    rcases d.lead_cases with hlead | hlead | hlead
    · exact hlead
    · exact absurd hlead hhere
    · exact absurd (isAbsolute_iff.2 hlead) habsolute
  · obtain ⟨hne, hlead, hsteps⟩ := join_of_relative habsolute hempty
    exact .inr ⟨hne, hlead, _, hsteps⟩

theorem Follows.child (follows : Follows base p) (name : String) : Follows base (p.child name) := by
  rw [Path.child]
  by_cases habsolute : (Path.mk name).isAbsolute = true
  · exact .inl (by rwa [join_of_absolute habsolute])
  rcases follows with hp | ⟨hne, hlead, more, hsteps⟩
  · have hne : p.text ≠ "" := by
      intro hempty
      rw [show p = ⟨""⟩ from congrArg Path.mk hempty] at hp
      cases hp
    refine .inl ?_
    rw [isAbsolute_iff, (join_of_relative habsolute hne).2.1, isAbsolute_iff.1 hp]
  · obtain ⟨hne', hlead', hsteps'⟩ := join_of_relative habsolute hne
    exact .inr ⟨hne', hlead'.trans hlead, more ++ (Path.mk name).steps,
      by rw [hsteps', hsteps, List.append_assoc]⟩

/-- Seen from the base it does not begin with `.`. -/
theorem Follows.lead_relativeTo (follows : Follows base p) : (p.relativeTo base).lead ≠ [.here] := by
  rcases follows with habsolute | ⟨-, hlead, more, hsteps⟩
  · exact lead_relativeTo_of_absolute habsolute
  have hcomponents : p.components = base.components ++ more := by
    rw [components_eq, components_eq, hlead, hsteps, List.append_assoc]
  have hmem : ∀ c ∈ more, c ∈ p.steps := fun c hc => hsteps ▸ List.mem_append_right _ hc
  rw [relativeTo, relativeTo?, if_neg, hcomponents, wayBetween_append]
  · refine lead_ofComponents (fun hhere => (mem_steps (hmem _ hhere)).2 rfl) fun name hname => ?_
    refine (mem_pieces_of_components (p := p) ?_).2
    rw [components_eq]
    exact List.mem_append_right _ (hmem _ hname)
  · rw [not_not, Bool.eq_iff_iff, isAbsolute_iff, isAbsolute_iff, hlead]

/-- Nor does anything below it. -/
theorem lead_relativeTo_below (follows : Follows base p) (names : List String) :
    ((names.foldl Path.child p).relativeTo base).lead ≠ [.here] := by
  induction names generalizing p with
  | nil => exact follows.lead_relativeTo
  | cons name names ih => exact ih (follows.child name)

/-- A path that begins with `.` is no beginning of one that does not. -/
theorem not_startsWith_of_lead (hbase : base.lead = [.here]) (h : p.lead ≠ [.here]) :
    p.startsWith base = false := by
  rw [Bool.eq_false_iff]
  intro hstarts
  rw [startsWith, List.isPrefixOf_iff_prefix] at hstarts
  exact h (here_mem_components_iff.1 (hstarts.subset (here_mem_components_iff.2 hbase)))

end Dotted

end BuildMatrix.Path
