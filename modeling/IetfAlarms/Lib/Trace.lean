import Mathlib.Data.List.Basic

/-!
# Runs with a history

A run of a transition system together with the transitions it took, the latest first. An invariant
may speak of the history as well as of the state.
-/

namespace Trace
variable {σ ℓ : Type}

structure Transition (σ ℓ : Type) where
  before : σ
  label : ℓ
  after : σ

variable {init : σ → Prop} {step : σ → ℓ → σ → Prop}

inductive Run (init : σ → Prop) (step : σ → ℓ → σ → Prop) : List (Transition σ ℓ) → σ → Prop
  | start {s : σ} : init s → Run init step [] s
  | step {tr : List (Transition σ ℓ)} {s s' : σ} {l : ℓ} :
      Run init step tr s → step s l s' → Run init step (⟨s, l, s'⟩ :: tr) s'

namespace Run
variable {tr : List (Transition σ ℓ)} {s : σ}

/-- What holds at the start and is preserved by every step from a reached state holds in every run. -/
theorem invariant {I : List (Transition σ ℓ) → σ → Prop} (hinit : ∀ s, init s → I [] s)
    (hstep : ∀ tr s l s', Run init step tr s → I tr s → step s l s' → I (⟨s, l, s'⟩ :: tr) s')
    (h : Run init step tr s) : I tr s := by
  induction h with
  | start h => exact hinit _ h
  | step h hs ih => exact hstep _ _ _ _ h ih hs

/-- The part of a run that ends before one of its transitions. -/
theorem of_suffix {tr' : List (Transition σ ℓ)} {t : Transition σ ℓ} (h : Run init step tr s)
    (hs : t :: tr' <:+ tr) : Run init step tr' t.before ∧ step t.before t.label t.after := by
  induction h with
  | start h => exact absurd hs (by simp)
  | step h hst ih =>
    rcases List.suffix_cons_iff.1 hs with heq | hs
    · obtain ⟨rfl, rfl⟩ := List.cons.inj heq
      exact ⟨h, hst⟩
    · exact ih hs

theorem suffix_of_mem {t : Transition σ ℓ} (h : t ∈ tr) : ∃ tr', t :: tr' <:+ tr := by
  obtain ⟨l₁, l₂, rfl⟩ := List.append_of_mem h
  exact ⟨l₂, List.suffix_append l₁ _⟩

end Run
end Trace
