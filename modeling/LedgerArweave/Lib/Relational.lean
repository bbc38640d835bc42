import LedgerArweave.Lib.Fallible

set_option relaxedAutoImplicit false
set_option autoImplicit false

/-!
# Relating two computations

`Agree R p q S` says of two computations that may fail that, run from states related by `R`, they
return the same value or the same error, and that their states are related by `S` when they
return a value. The rules follow the structure of the programs, which must be the same.

## Main definitions

* `Fallible.Agree` — the relation.

## Main results

* `Fallible.Agree.bind`, `Fallible.agree_get_bind`, `Fallible.Agree.ite` — the rules.
-/

namespace Fallible

variable {ε σ τ α γ : Type}

/-- Two runs end in the same way. -/
inductive SameEnd (S : α → σ → τ → Prop) : Except ε α × σ → Except ε α × τ → Prop where
  | ok {a : α} {s : σ} {t : τ} (h : S a s t) : SameEnd S (.ok a, s) (.ok a, t)
  | error {e : ε} {s : σ} {t : τ} : SameEnd S (.error e, s) (.error e, t)

/-- Runs that end alike have the same result. -/
theorem SameEnd.result_eq {S : α → σ → τ → Prop} {r : Except ε α × σ} {r' : Except ε α × τ}
    (h : SameEnd S r r') : r.1 = r'.1 := by
  cases h <;> rfl

/-- From related states, both computations end in the same way. -/
def Agree (R : σ → τ → Prop) (p : Fallible ε σ α) (q : Fallible ε τ α)
    (S : α → σ → τ → Prop) : Prop := ∀ s t, R s t → SameEnd S (exec p s) (exec q t)

variable {R : σ → τ → Prop} {S : α → σ → τ → Prop} {p : Fallible ε σ α} {q : Fallible ε τ α}

/-- Sequences agree if their parts do, where the second parts start from related states. -/
theorem Agree.bind {T : γ → σ → τ → Prop} {f : α → Fallible ε σ γ} {g : α → Fallible ε τ γ}
    (h : Agree R p q S) (hf : ∀ a, Agree (S a) (f a) (g a) T) :
    Agree R (p >>= f) (q >>= g) T := by
  intro s t hst
  rw [exec_bind, exec_bind]
  have hend := h s t hst
  revert hend
  generalize exec p s = r
  generalize exec q t = r'
  intro hend
  cases hend with
  | ok hS => exact hf _ _ _ hS
  | error => exact .error

/-- Agreement from fewer states, with less said about the end. -/
theorem Agree.mono {R' : σ → τ → Prop} {S' : α → σ → τ → Prop} (h : Agree R p q S)
    (hR : ∀ s t, R' s t → R s t) (hS : ∀ a s t, S a s t → S' a s t) : Agree R' p q S' := by
  intro s t hst
  have hend := h s t (hR s t hst)
  revert hend
  generalize exec p s = r
  generalize exec q t = r'
  intro hend
  cases hend with
  | ok h => exact .ok (hS _ _ _ h)
  | error => exact .error

/-- Returning agrees with returning the same value. -/
theorem agree_pure (a : α) (h : ∀ s t, R s t → S a s t) :
    Agree R (pure a : Fallible ε σ α) (pure a : Fallible ε τ α) S :=
  fun s t hst => .ok (h s t hst)

/-- Failing agrees with failing with the same error. -/
theorem agree_throw (e : ε) : Agree R (throw e : Fallible ε σ α) (throw e : Fallible ε τ α) S :=
  fun _ _ _ => .error

/-- Updates agree if they take related states to related states. -/
theorem agree_modify {S : Unit → σ → τ → Prop} {f : σ → σ} {g : τ → τ}
    (h : ∀ s t, R s t → S () (f s) (g t)) :
    Agree R (modify f : Fallible ε σ Unit) (modify g : Fallible ε τ Unit) S :=
  fun s t hst => .ok (h s t hst)

/-- Both computations go on after reading their states. -/
theorem agree_get_bind {f : σ → Fallible ε σ α} {g : τ → Fallible ε τ α}
    (h : ∀ s t, R s t → Agree (fun s' t' => s' = s ∧ t' = t) (f s) (g t) S) :
    Agree R (get >>= f) (get >>= g) S :=
  fun s t hst => h s t hst s t ⟨rfl, rfl⟩

/-- Choices with equivalent tests agree if their branches do, each under its test. -/
theorem Agree.ite {P Q : Prop} [Decidable P] [Decidable Q] {p' : Fallible ε σ α}
    {q' : Fallible ε τ α} (hPQ : P ↔ Q) (h : P → Agree R p q S) (h' : ¬ P → Agree R p' q' S) :
    Agree R (if P then p else p') (if Q then q else q') S := by
  by_cases hP : P
  · rw [if_pos hP, if_pos (hPQ.mp hP)]
    exact h hP
  · rw [if_neg hP, if_neg (mt hPQ.mpr hP)]
    exact h' hP

end Fallible
