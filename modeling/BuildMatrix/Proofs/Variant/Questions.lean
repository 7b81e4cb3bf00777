import BuildMatrix.Variant.Matrix
import BuildMatrix.Proofs.Flag.Codec

/-!
# The questions of the matrix

A cache file tells all flag sets apart but the two that share the empty text.
Finding out the variants never asks about these two, whatever the settings hold and
whatever the compiler accepts: each question has a flag of its own at its end.
-/

namespace BuildMatrix

open FlagSet (Blank)

/-! ## Flag sets with a text of their own -/

theorem not_blank_concat (list : List String) {flag : String} (h : flag ≠ "") :
    ¬ Blank (list ++ [flag]) := by
  rintro (hnil | hblank)
  · exact List.concat_ne_nil _ _ hnil
  · cases list with
    | nil =>
      injection hblank with hflag _
      exact h hflag
    | cons first list =>
      injection hblank with _ hrest
      exact List.concat_ne_nil _ _ hrest

theorem not_blank_singleton {flag : String} (h : flag ≠ "") : ¬ Blank [flag] :=
  not_blank_concat [] h

theorem defineFlag_ne_empty (tc : Toolchain) (name : String) (value : Option String) :
    tc.defineFlag name value ≠ "" := by
  intro h
  have hlist := congrArg String.toList h
  cases value with
  | none =>
    rw [Toolchain.defineFlag, String.toList_append] at hlist
    cases hlist
  | some value =>
    rw [Toolchain.defineFlag, String.append_assoc, String.append_assoc, String.toList_append] at hlist
    cases hlist

/-! ## Inquiries -/

/-- No question is about one of the two flag sets that share the empty text. -/
def Inquiry.NeverBlank {α : Type} (verdict : FlagSet → Bool) (i : Inquiry α) : Prop :=
  ∀ flags ∈ i.questions verdict, ¬ Blank flags

namespace NeverBlank

open Inquiry (NeverBlank)

variable {α β : Type} {verdict : FlagSet → Bool}

theorem pure (a : α) : NeverBlank verdict (Pure.pure a : Inquiry α) := fun _ h => by cases h

theorem check {flags : FlagSet} (h : ¬ Blank flags) : NeverBlank verdict (Inquiry.check flags) := by
  intro other hother
  rw [Inquiry.questions_check, List.mem_singleton] at hother
  rwa [hother]

theorem bind {i : Inquiry α} {f : α → Inquiry β} (hi : NeverBlank verdict i)
    (hf : ∀ a, NeverBlank verdict (f a)) : NeverBlank verdict (i >>= f) := by
  intro flags hflags
  rw [Inquiry.questions_bind] at hflags
  rcases List.mem_append.1 hflags with h | h
  · exact hi flags h
  · exact hf _ flags h

theorem ite {c : Prop} [Decidable c] {i j : Inquiry α} (hi : NeverBlank verdict i)
    (hj : NeverBlank verdict j) : NeverBlank verdict (if c then i else j) := by
  split
  · exact hi
  · exact hj

/-- A choice of how a question is put, with the same continuation. -/
theorem bind_ite {c : Prop} [Decidable c] {i j : Inquiry α} {f : α → Inquiry β}
    (hi : NeverBlank verdict i) (hj : NeverBlank verdict j) (hf : ∀ a, NeverBlank verdict (f a)) :
    NeverBlank verdict (if c then i >>= f else j >>= f) := ite (bind hi hf) (bind hj hf)

/-! ## Ways to ask -/

theorem keepIfAccepted {flag : String} (h : flag ≠ "") :
    NeverBlank verdict (keepIfAccepted flag) :=
  bind (check (not_blank_singleton h)) fun _ => pure _

theorem extendIfAccepted (list : List String) {flag : String} (h : flag ≠ "") :
    NeverBlank verdict (extendIfAccepted list flag) :=
  bind (check (not_blank_concat list h)) fun _ => pure _

theorem firstAccepted {flags : List String} (h : ∀ flag ∈ flags, flag ≠ "") :
    NeverBlank verdict (firstAccepted flags) := by
  induction flags with
  | nil => exact pure _
  | cons flag rest ih =>
    refine bind (check (not_blank_singleton (h flag List.mem_cons_self))) fun _ => ?_
    exact ite (pure _) (ih fun other hother => h other (List.mem_cons_of_mem _ hother))

theorem eachAccepted {flags : List String} (h : ∀ flag ∈ flags, flag ≠ "") :
    NeverBlank verdict (eachAccepted flags) := by
  induction flags with
  | nil => exact pure _
  | cons flag rest ih =>
    refine bind (keepIfAccepted (h flag List.mem_cons_self)) fun _ => ?_
    exact bind (ih fun other hother => h other (List.mem_cons_of_mem _ hother)) fun _ => pure _

/-! ## The baseline -/

theorem debugFlags (tc : Toolchain) : NeverBlank verdict (debugFlags tc) := by
  refine bind_ite (check ?_) (pure _) fun _ => pure _
  decide

theorem firstErrorFlags (tc : Toolchain) : NeverBlank verdict (firstErrorFlags tc) := by
  refine ite (pure _) ?_
  cases tc.style with
  | gnu => exact keepIfAccepted (by decide)
  | msvc => exact pure _

theorem runtimeQuestion (runtime : CxxRuntime) : ¬ Blank (runtimeQuestion runtime) := by
  cases runtime <;> decide

theorem cxxRuntime (tc : Toolchain) : NeverBlank verdict (cxxRuntime tc) := by
  unfold BuildMatrix.cxxRuntime
  split
  · exact pure _
  · exact pure _
  · refine bind (check (runtimeQuestion _)) fun _ => ite (pure _) ?_
    exact bind (check (runtimeQuestion _)) fun _ => ite (pure _) (pure _)

theorem gnuFindings (tc : Toolchain) (exe : Path) (env : Environment) (cxxFlags : List String) :
    NeverBlank verdict (gnuFindings tc exe env cxxFlags) := by
  refine bind_ite (pure _) (firstAccepted (by decide)) fun _ => ?_
  refine bind (firstAccepted (by decide)) fun _ => ?_
  refine bind (eachAccepted (by decide)) fun _ => ?_
  refine bind (extendIfAccepted _ (by decide)) fun _ => ?_
  have hmd : ¬ Blank ["-MD", "-MF", exe.text ++ ".d"] := by
    rintro (h | h)
    · cases h
    · exact List.cons_ne_nil _ _ (List.cons.inj h).2
  unfold Toolchain.depfileProbe
  cases tc.style with
  | gnu =>
    exact bind (check hmd) fun _ => bind (keepIfAccepted (by decide)) fun _ =>
      bind (keepIfAccepted (by decide)) fun _ => pure _
  | msvc =>
    exact bind (pure _) fun _ => bind (keepIfAccepted (by decide)) fun _ =>
      bind (keepIfAccepted (by decide)) fun _ => pure _

theorem deriveBaseline (tc : Toolchain) (exe : Path) (settings : Settings) (env : Environment) :
    NeverBlank verdict (deriveBaseline tc exe settings env) := by
  refine bind (debugFlags tc) fun _ => ?_
  refine bind (extendIfAccepted _ (defineFlag_ne_empty tc _ _)) fun _ => ?_
  refine bind (extendIfAccepted _ (defineFlag_ne_empty tc _ _)) fun _ => ?_
  refine bind (extendIfAccepted _ (by decide)) fun _ => ?_
  refine bind (firstErrorFlags tc) fun _ => ?_
  refine bind (cxxRuntime tc) ?_
  rintro ⟨supportsCxx, runtime⟩
  cases tc.style with
  | gnu => exact bind (gnuFindings tc exe env _) fun _ => pure _
  | msvc => exact bind (pure _) fun _ => pure _

/-! ## The matrix -/

theorem msvcFamilies (b : Baseline) : NeverBlank verdict (msvcFamilies b) := by
  refine bind (check (not_blank_concat _ (by decide))) fun _ => ?_
  exact bind (check (not_blank_concat _ (by decide))) fun _ => pure _

theorem gnuCxxFamilies (b : Baseline) (hasC11 : Bool) :
    NeverBlank verdict (gnuCxxFamilies b hasC11) := by
  refine bind (check (by decide)) fun _ => ?_
  exact bind (check (by decide)) fun _ => pure _

theorem gnuFamilies (b : Baseline) : NeverBlank verdict (gnuFamilies b) := by
  refine bind (check (by decide)) fun _ => ?_
  refine bind (check (by decide)) fun _ => ?_
  refine bind (check (by decide)) fun _ => ?_
  refine bind (check (by decide)) fun _ => ?_
  exact bind_ite (gnuCxxFamilies b _) (pure _) fun _ => pure _

theorem buildMatrix (tc : Toolchain) (b : Baseline) (host : Host) (settings : Settings) :
    NeverBlank verdict (buildMatrix tc b host settings) := by
  refine bind_ite (msvcFamilies b) (pure _) fun _ => ?_
  exact bind_ite (gnuFamilies b) (pure _) fun _ => pure _

/-- Finding out the variants never asks about a flag set that shares its text. -/
theorem planVariants (tc : Toolchain) (exe : Path) (settings : Settings) (env : Environment)
    (host : Host) : NeverBlank verdict (planVariants tc exe settings env host) :=
  bind (deriveBaseline tc exe settings env) fun b => bind (buildMatrix tc b host settings) fun _ => pure _

end NeverBlank

/-- Whatever the compiler accepts, finding out the variants asks something. -/
theorem exists_question (tc : Toolchain) (exe : Path) (settings : Settings) (env : Environment)
    (host : Host) (verdict : FlagSet → Bool) :
    ∃ flags, flags ∈ (planVariants tc exe settings env host).questions verdict := by
  have hfortify : (debugFlags tc).answer verdict ++
      [tc.defineFlag "_FORTIFY_SOURCE" (some "2")] ∈
        (deriveBaseline tc exe settings env).questions verdict := by
    unfold deriveBaseline
    rw [Inquiry.questions_bind, Inquiry.questions_bind]
    exact List.mem_append_right _ (List.mem_append_left _ List.mem_cons_self)
  unfold planVariants
  rw [Inquiry.questions_bind]
  exact ⟨_, List.mem_append_left _ hfortify⟩

end BuildMatrix
