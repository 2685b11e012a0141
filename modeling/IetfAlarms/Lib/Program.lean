import Mathlib.Data.List.Nodup

/-!
# Programs with a state and exceptions

`EStateM` keeps the state when an exception leaves a program. `exec` reads a program as a function
from a state to its outcome and final state; `Commutes` says what it does not look at, and
`RunsTo Bad` where it ends unless it throws an exception in `Bad`. `foldlM_runsTo` turns a loop into
a fold, given what one round does where the rounds before it have not been.
-/

namespace Program
variable {ε σ α β κ ι V : Type}

def exec (m : EStateM ε σ α) (s : σ) : Except ε α × σ :=
  match m.run s with
  | .ok a s' => (.ok a, s')
  | .error e s' => (.error e, s')

@[simp] theorem exec_pure (a : α) (s : σ) : exec (pure a : EStateM ε σ α) s = (.ok a, s) := rfl

@[simp] theorem exec_throw (e : ε) (s : σ) : exec (throw e : EStateM ε σ α) s = (.error e, s) := rfl

@[simp] theorem exec_get (s : σ) : exec (get : EStateM ε σ σ) s = (.ok s, s) := rfl

@[simp] theorem exec_modify (f : σ → σ) (s : σ) :
    exec (modify f : EStateM ε σ PUnit) s = (.ok ⟨⟩, f s) := rfl

theorem exec_bind (m : EStateM ε σ α) (f : α → EStateM ε σ β) (s : σ) :
    exec (m >>= f) s = match exec m s with
      | (.ok a, s') => exec (f a) s'
      | (.error e, s') => (.error e, s') := by
  rw [exec, exec, EStateM.run_bind]
  cases m.run s <;> rfl

theorem exec_bind_of_ok {m : EStateM ε σ α} {s s' : σ} {a : α} (h : exec m s = (.ok a, s'))
    (f : α → EStateM ε σ β) : exec (m >>= f) s = exec (f a) s' := by
  rw [exec_bind, h]

theorem exec_bind_of_error {m : EStateM ε σ α} {s s' : σ} {e : ε} (h : exec m s = (.error e, s'))
    (f : α → EStateM ε σ β) : exec (m >>= f) s = (.error e, s') := by
  rw [exec_bind, h]

@[simp] theorem exec_get_bind (f : σ → EStateM ε σ β) (s : σ) : exec (get >>= f) s = exec (f s) s :=
  exec_bind_of_ok (exec_get s) f

@[simp] theorem exec_pure_bind (a : α) (f : α → EStateM ε σ β) (s : σ) :
    exec (pure a >>= f) s = exec (f a) s := rfl

@[simp] theorem exec_modify_bind (g : σ → σ) (f : PUnit → EStateM ε σ β) (s : σ) :
    exec (modify g >>= f) s = exec (f ⟨⟩) (g s) := rfl

@[simp] theorem exec_throw_bind (e : ε) (f : α → EStateM ε σ β) (s : σ) :
    exec (throw e >>= f) s = (.error e, s) := rfl

@[simp] theorem exec_ofExcept (x : Except ε α) (s : σ) : exec (ofExcept x : EStateM ε σ α) s = (x, s) := by
  cases x <;> rfl

@[simp] theorem exec_ofExcept_ok_bind (a : α) (f : α → EStateM ε σ β) (s : σ) :
    exec ((ofExcept (.ok a) : EStateM ε σ α) >>= f) s = exec (f a) s := rfl

@[simp] theorem exec_ofExcept_error_bind (e : ε) (f : α → EStateM ε σ β) (s : σ) :
    exec ((ofExcept (.error e) : EStateM ε σ α) >>= f) s = (.error e, s) := rfl

/-- A branch without an alternative. -/
def onlyIf (c : Prop) [Decidable c] (m : EStateM ε σ Unit) : EStateM ε σ Unit := if c then m else pure ()

theorem onlyIf_pos {c : Prop} [Decidable c] (h : c) (m : EStateM ε σ Unit) : onlyIf c m = m := if_pos h

theorem onlyIf_neg {c : Prop} [Decidable c] (h : ¬ c) (m : EStateM ε σ Unit) : onlyIf c m = pure () := if_neg h

/-! ### What a program does not look at -/

/-- The program runs in the same way after this change of the state, which is still there at its end. -/
def Commutes (g : σ → σ) (m : EStateM ε σ α) : Prop := ∀ s, exec m (g s) = ((exec m s).1, g (exec m s).2)

section
variable {g : σ → σ} {m : EStateM ε σ α}

theorem commutes_pure (a : α) : Commutes g (pure a : EStateM ε σ α) := fun _ => rfl

theorem commutes_throw (e : ε) : Commutes g (throw e : EStateM ε σ α) := fun _ => rfl

theorem commutes_ofExcept (x : Except ε α) : Commutes g (ofExcept x : EStateM ε σ α) := fun s => by
  rw [exec_ofExcept, exec_ofExcept]

theorem commutes_modify {f : σ → σ} (h : ∀ s, f (g s) = g (f s)) : Commutes g (modify f : EStateM ε σ PUnit) :=
  fun s => congrArg (Prod.mk (Except.ok PUnit.unit)) (h s)

namespace Commutes

theorem bind {f : α → EStateM ε σ β} (h : Commutes g m) (hf : ∀ a, Commutes g (f a)) : Commutes g (m >>= f) := by
  intro s
  rw [exec_bind, exec_bind, h s]
  rcases exec m s with ⟨_ | a, s'⟩
  · rfl
  · exact hf a s'

/-- A program that reads the state reads what the change leaves alone. -/
theorem get_bind {f : σ → EStateM ε σ α} (hread : ∀ s, f (g s) = f s) (hf : ∀ s, Commutes g (f s)) :
    Commutes g (get >>= f) := by
  intro s
  rw [exec_get_bind, exec_get_bind, hread s]
  exact hf s s

theorem ite {c : Prop} [Decidable c] {m' : EStateM ε σ α} (h : Commutes g m) (h' : Commutes g m') :
    Commutes g (if c then m else m') := by
  split
  · exact h
  · exact h'

theorem onlyIf {c : Prop} [Decidable c] {m : EStateM ε σ Unit} (h : Commutes g m) : Commutes g (onlyIf c m) :=
  h.ite (commutes_pure ())

theorem foldlM {body : β → ι → EStateM ε σ β} (h : ∀ b x, Commutes g (body b x)) (l : List ι) (b : β) :
    Commutes g (l.foldlM body b) := by
  induction l generalizing b with
  | nil => exact commutes_pure b
  | cons x l ih =>
    rw [List.foldlM_cons]
    exact (h b x).bind ih

theorem forM {body : ι → EStateM ε σ PUnit} (h : ∀ x, Commutes g (body x)) (l : List ι) :
    Commutes g (l.forM body) := by
  induction l with
  | nil => exact commutes_pure PUnit.unit
  | cons x l ih => exact (h x).bind fun _ => ih

end Commutes
end

/-! ### Where a program ends -/

variable {Bad : ε → Prop}

/-- The program returns `a` in the state `s'`, or throws an exception in `Bad`. -/
def RunsTo (Bad : ε → Prop) (m : EStateM ε σ α) (s : σ) (a : α) (s' : σ) : Prop :=
  exec m s = (.ok a, s') ∨ ∃ e s'', exec m s = (.error e, s'') ∧ Bad e

namespace RunsTo
variable {m : EStateM ε σ α} {s s' s'' : σ} {a : α}

theorem of_eq (h : exec m s = (.ok a, s')) : RunsTo Bad m s a s' := .inl h

theorem bind {f : α → EStateM ε σ β} {b : β} (h : RunsTo Bad m s a s') (hf : RunsTo Bad (f a) s' b s'') :
    RunsTo Bad (m >>= f) s b s'' := by
  rcases h with h | ⟨e, t, h, he⟩
  · rw [RunsTo, exec_bind_of_ok h]
    exact hf
  · exact .inr ⟨e, t, exec_bind_of_error h f, he⟩

theorem bad {e : ε} (h : exec m s = (.error e, s'')) (he : Bad e) : RunsTo Bad m s a s' :=
  .inr ⟨e, s'', h, he⟩

/-- What is left after a program is what is left after its continuation, or a bad exception. -/
theorem exec_bind_cases {f : α → EStateM ε σ β} (h : RunsTo Bad m s a s') :
    exec (m >>= f) s = exec (f a) s' ∨ ∃ e s'', exec (m >>= f) s = (.error e, s'') ∧ Bad e := by
  rcases h with h | ⟨e, t, h, he⟩
  · exact .inl (exec_bind_of_ok h f)
  · exact .inr ⟨e, t, exec_bind_of_error h f, he⟩

theorem exec_eq (h : RunsTo (fun _ => False) m s a s') : exec m s = (.ok a, s') := by
  rcases h with h | ⟨_, _, _, he⟩
  · exact h
  · exact he.elim

end RunsTo

/-! ### Loops -/

/-- What no round changes, the fold does not change. -/
theorem foldl_view {v : σ → V} {f : σ → ι → σ} {l : List ι} {s : σ}
    (h : ∀ x ∈ l, ∀ s, v (f s x) = v s) : v (l.foldl f s) = v s := by
  induction l generalizing s with
  | nil => rfl
  | cons x l ih =>
    rw [List.foldl_cons, ih fun y hy => h y (List.mem_cons_of_mem x hy), h x List.mem_cons_self]

/-- A fold over distinct slots changes every slot by the one round that is its own. -/
theorem foldl_slot {v : σ → κ → V} {key : ι → κ} {f : σ → ι → σ} {T : ι → V → V} {l : List ι} {s : σ}
    (hn : (l.map key).Nodup) (hself : ∀ s x, v (f s x) (key x) = T x (v s (key x)))
    (hne : ∀ s x k, k ≠ key x → v (f s x) k = v s k) {x : ι} (hx : x ∈ l) :
    v (l.foldl f s) (key x) = T x (v s (key x)) := by
  induction l generalizing s with
  | nil => cases hx
  | cons y l ih =>
    rw [List.map_cons, List.nodup_cons] at hn
    rw [List.foldl_cons]
    rcases List.mem_cons.1 hx with rfl | hx
    · have hfr : ∀ y ∈ l, ∀ s, v (f s y) (key x) = v s (key x) := fun y hy s =>
        hne s y (key x) fun h => hn.1 (List.mem_map.2 ⟨y, hy, h.symm⟩)
      rw [foldl_view (v := fun s => v s (key x)) hfr, hself]
    · have hk : key x ≠ key y := fun h => hn.1 (List.mem_map.2 ⟨x, hx, h⟩)
      rw [ih hn.2 hx, hne s y (key x) hk]

/-- A loop is a fold when each round, run where its own slot is still as it was, is one. -/
theorem foldlM_runsTo {v : σ → κ → V} {key : ι → κ} {body : β → ι → EStateM ε σ β} {f : σ → ι → σ}
    {g : β → ι → β} {P : ι → V → Prop} {l : List ι} {s : σ} {b : β} (hn : (l.map key).Nodup)
    (hbody : ∀ b s x, x ∈ l → P x (v s (key x)) → RunsTo Bad (body b x) s (g b x) (f s x))
    (hne : ∀ s x k, k ≠ key x → v (f s x) k = v s k) (hP : ∀ x ∈ l, P x (v s (key x))) :
    RunsTo Bad (l.foldlM body b) s (l.foldl g b) (l.foldl f s) := by
  induction l generalizing s b with
  | nil => exact .of_eq rfl
  | cons x l ih =>
    rw [List.map_cons, List.nodup_cons] at hn
    rw [List.foldlM_cons]
    refine .bind (hbody b s x List.mem_cons_self (hP x List.mem_cons_self)) ?_
    refine ih hn.2 (fun b s y hy => hbody b s y (List.mem_cons_of_mem x hy)) fun y hy => ?_
    rw [hne s x (key y) fun h => hn.1 (List.mem_map.2 ⟨y, hy, h⟩)]
    exact hP y (List.mem_cons_of_mem x hy)

/-- The rounds of a loop without an accumulator, one after the other. -/
theorem forM_runsTo {body : ι → EStateM ε σ PUnit} {f : σ → ι → σ} {P : σ → List ι → Prop} {l : List ι}
    {s : σ} (hbody : ∀ s x l, P s (x :: l) → RunsTo Bad (body x) s ⟨⟩ (f s x) ∧ P (f s x) l) (hP : P s l) :
    RunsTo Bad (l.forM body) s ⟨⟩ (l.foldl f s) := by
  induction l generalizing s with
  | nil => exact .of_eq rfl
  | cons x l ih =>
    have hx := hbody s x l hP
    exact .bind hx.1 (ih hx.2)

end Program
