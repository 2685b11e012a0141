import IetfAlarms.Lib.Trace

/-!
# Noninterference by unwinding

An observer is given by the requests that concern it and by the states that look the same to it. If the other
steps leave alone what it sees, and equal requests take states that look the same to states that do, then what it
sees at the end of a run depends on its own requests only.
-/

namespace Trace
variable {σ ℓ ρ : Type} {init : σ → Prop} {step : σ → ℓ → σ → Prop} {request : ℓ → Option ρ} {Same : σ → σ → Prop}
variable {tr tr₁ tr₂ : List (Transition σ ℓ)} {s s₁ s₂ : σ}

/-- The requests of a run that concern the observer, the latest first. -/
def requests (request : ℓ → Option ρ) (tr : List (Transition σ ℓ)) : List ρ := tr.filterMap fun t => request t.label

theorem requests_cons_none {t : Transition σ ℓ} (h : request t.label = none) :
    requests request (t :: tr) = requests request tr := List.filterMap_cons_none h

theorem requests_cons_some {t : Transition σ ℓ} {r : ρ} (h : request t.label = some r) :
    requests request (t :: tr) = r :: requests request tr := List.filterMap_cons_some h

structure Unwinding (init : σ → Prop) (step : σ → ℓ → σ → Prop) (request : ℓ → Option ρ) (Same : σ → σ → Prop) :
    Prop where
  equivalence : Equivalence Same
  start : ∀ {s₁ s₂}, init s₁ → init s₂ → Same s₁ s₂
  /-- A step that does not concern the observer leaves it with what it saw. -/
  ignores : ∀ {tr s l s'}, Run init step tr s → step s l s' → request l = none → Same s s'
  /-- The same request, from states that look the same. -/
  agrees : ∀ {tr₁ s₁ l₁ s₁' tr₂ s₂ l₂ s₂' r}, Run init step tr₁ s₁ → step s₁ l₁ s₁' → Run init step tr₂ s₂ →
    step s₂ l₂ s₂' → request l₁ = some r → request l₂ = some r → Same s₁ s₂ → Same s₁' s₂'

namespace Run
variable {step' : σ → ℓ → σ → Prop}

theorem mono (h : Run init step tr s) (hs : ∀ s l s', step s l s' → step' s l s') : Run init step' tr s := by
  induction h with
  | start hstart => exact .start hstart
  | step _ hl ih => exact ih.step (hs _ _ _ hl)

/-- A run of steps that have some property besides. -/
theorem restrict (h : Run init step tr s) (hs : ∀ t ∈ tr, step t.before t.label t.after → step' t.before t.label t.after) :
    Run init step' tr s := by
  induction h with
  | start hstart => exact .start hstart
  | step _ hl ih =>
    exact (ih fun t ht => hs t (List.mem_cons_of_mem _ ht)).step (hs _ List.mem_cons_self hl)

end Run

namespace Unwinding

/-- A run that makes a request of the observer last, but for steps that do not concern it. -/
theorem exists_last (h : Unwinding init step request Same) {r : ρ} {rs : List ρ} (hrun : Run init step tr s)
    (hr : requests request tr = r :: rs) : ∃ tr' s₀ l s', Run init step tr' s₀ ∧ step s₀ l s' ∧ request l = some r ∧
      requests request tr' = rs ∧ Same s' s := by
  induction hrun with
  | start _ => cases hr
  | @step tr s s' l hrun hs ih =>
    cases hl : request l with
    | none =>
      rw [requests_cons_none hl] at hr
      obtain ⟨tr', s₀, l', s'', hrun', hs', hl', hrs, hsame⟩ := ih hr
      exact ⟨tr', s₀, l', s'', hrun', hs', hl', hrs, h.equivalence.trans hsame (h.ignores hrun hs hl)⟩
    | some r' =>
      rw [requests_cons_some hl] at hr
      obtain ⟨rfl, hrs⟩ := List.cons.inj hr
      exact ⟨tr, s, l, s', hrun, hs, hl, hrs, h.equivalence.refl s'⟩

/-- Without requests there is nothing to see but the start. -/
theorem same_of_nil (h : Unwinding init step request Same) (hrun : Run init step tr s)
    (hr : requests request tr = []) : ∃ s₀, init s₀ ∧ Same s₀ s := by
  induction hrun with
  | start hstart => exact ⟨_, hstart, h.equivalence.refl _⟩
  | @step tr s s' l hrun hs ih =>
    have hl : request l = none := List.filterMap_eq_nil_iff.1 hr _ List.mem_cons_self
    rw [requests_cons_none hl] at hr
    obtain ⟨s₀, hstart, hsame⟩ := ih hr
    exact ⟨s₀, hstart, h.equivalence.trans hsame (h.ignores hrun hs hl)⟩

/-- Runs with the same requests look the same at their ends. -/
theorem same (h : Unwinding init step request Same) (h₁ : Run init step tr₁ s₁) (h₂ : Run init step tr₂ s₂)
    (hr : requests request tr₁ = requests request tr₂) : Same s₁ s₂ := by
  generalize hrs : requests request tr₁ = rs at hr
  induction rs generalizing tr₁ s₁ tr₂ s₂ with
  | nil =>
    obtain ⟨s₀, hstart, hsame⟩ := h.same_of_nil h₁ hrs
    obtain ⟨s₀', hstart', hsame'⟩ := h.same_of_nil h₂ hr.symm
    exact h.equivalence.trans (h.equivalence.symm hsame) (h.equivalence.trans (h.start hstart hstart') hsame')
  | cons r rs ih =>
    obtain ⟨tr₁', s, l, s', hrun, hs, hl, hrs', hsame⟩ := h.exists_last h₁ hrs
    obtain ⟨tr₂', u, l', u', hrun', hu, hl', hrs'', hsame'⟩ := h.exists_last h₂ hr.symm
    have hbefore : Same s u := ih hrun hrun' hrs' hrs''.symm
    have hafter : Same s' u' := h.agrees hrun hs hrun' hu hl hl' hbefore
    exact h.equivalence.trans (h.equivalence.symm hsame) (h.equivalence.trans hafter hsame')

end Unwinding
end Trace
