import BuildMatrix.Probe.Prober
import BuildMatrix.Proofs.Tree.Room

/-!
# The program for probing

Before its first command a prober writes a program into its directory, and that is
all it does to the files.  Where the directory is there, no directory and no link
comes or goes by it (`Prober.Wrote.same`).
-/

namespace BuildMatrix

/-- The name of the program's source. -/
def sourceName : String := probeStem ++ ".c"

theorem plain_sourceName : Plain sourceName := ⟨by decide, by decide, by decide⟩

theorem onTree_eq_ok {task : Task WriteFailure Tree Unit} {w w' : World} :
    World.onTree task w = .ok () w' ↔
      ∃ t, task w.tree = .ok () t ∧ w' = { w with tree := t } :=
  Task.within_eq_ok

namespace Prober

variable {p : Prober}

/-- The program was written, or nothing was. -/
def Wrote (p : Prober) (t u : Tree) : Prop :=
  u = t ∨ Tree.writeText p.source probeSource t = .ok () u

namespace Wrote

variable {t u : Tree}

theorem changes (wrote : p.Wrote t u) : Tree.Changes t u := by
  rcases wrote with rfl | hwrite
  · exact .refl _
  · exact Tree.changes_writeText hwrite

theorem same (wrote : p.Wrote t u) (wf : t.WellFormed)
    (there : p.scratch.text = "" ∨ t.reaches p.scratch = true) : Tree.Same t u := by
  rcases wrote with rfl | hwrite
  · exact .refl _
  · exact Tree.same_writeText plain_sourceName (by decide) wf there hwrite

end Wrote

/-- The program is written unless that was done before, and nothing else changes. -/
theorem ensureSource_eq_ok {s u : Probing} :
    p.ensureSource s = .ok () u ↔
      s.sourceWritten = true ∧ u = s ∨
        s.sourceWritten = false ∧
          ∃ t, Tree.writeText p.source probeSource s.world.tree = .ok () t ∧
            u = { s with world := { s.world with tree := t }, sourceWritten := true } := by
  unfold ensureSource
  rw [Task.get_bind]
  by_cases hwritten : s.sourceWritten = true
  · rw [if_pos hwritten]
    refine ⟨fun h => .inl ⟨hwritten, (Task.pure_eq_ok.1 h).2.symm⟩, ?_⟩
    rintro (⟨-, rfl⟩ | ⟨hnot, -⟩)
    · rfl
    · rw [hwritten] at hnot
      cases hnot
  · rw [if_neg hwritten]
    constructor
    · intro h
      obtain ⟨_, written, hprobing, h⟩ := Task.bind_eq_ok.1 h
      obtain ⟨w, hworld, rfl⟩ := Task.within_eq_ok.1 hprobing
      obtain ⟨t, htree, rfl⟩ := onTree_eq_ok.1 hworld
      exact .inr ⟨Bool.eq_false_iff.2 hwritten, t, htree, (Task.modify_eq_ok.1 h).symm⟩
    · rintro (⟨hyes, -⟩ | ⟨-, t, htree, rfl⟩)
      · exact absurd hyes hwritten
      · refine Task.bind_eq_ok.2 ⟨(), { s with world := { s.world with tree := t } }, ?_, rfl⟩
        exact Task.within_eq_ok.2 ⟨_, onTree_eq_ok.2 ⟨t, htree, rfl⟩, rfl⟩

end Prober

end BuildMatrix
