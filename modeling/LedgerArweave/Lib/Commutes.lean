import LedgerArweave.Lib.Fallible
import LedgerArweave.Lib.Machine

set_option relaxedAutoImplicit false
set_option autoImplicit false

/-!
# Computations that do not look at a part of their state

A change of the state that a computation neither looks at nor undoes can be made before it or
after it. The value it returns, or the error, is then the same with the change and without. The
rules follow the structure of the program; for a machine, the outputs of whole runs are the same.

## Main definitions

* `Fallible.Commutes` — the change can be made before or after.

## Main results

* `Fallible.Commutes.bind`, `Fallible.commutes_get_bind`, `Fallible.Commutes.tryCatch` — the rules.
* `Machine.run_commutes` — the rule for runs.
-/

namespace Fallible

variable {ε σ α γ : Type}

/-- The change `φ` can be made before or after a run of `p` from `s`. -/
def CommutesAt (φ : σ → σ) (p : Fallible ε σ α) (s : σ) : Prop :=
  exec p (φ s) = ((exec p s).1, φ (exec p s).2)

/-- The change `φ` can be made before or after any run of `p`. -/
def Commutes (φ : σ → σ) (p : Fallible ε σ α) : Prop := ∀ s, CommutesAt φ p s

variable {φ : σ → σ} {p : Fallible ε σ α} {f : α → Fallible ε σ γ} {s : σ}

/-- The rule of sequence for one run. -/
theorem CommutesAt.bind (hp : CommutesAt φ p s)
    (hf : ∀ a s', exec p s = (.ok a, s') → CommutesAt φ (f a) s') :
    CommutesAt φ (p >>= f) s := by
  unfold CommutesAt at hp ⊢
  rw [exec_bind, exec_bind, hp]
  rcases hrun : exec p s with ⟨e | a, s'⟩
  · rfl
  · exact hf a s' hrun

/-- The rule of sequence. -/
theorem Commutes.bind (hp : Commutes φ p) (hf : ∀ a, Commutes φ (f a)) : Commutes φ (p >>= f) :=
  fun s => (hp s).bind fun a s' _ => hf a s'

/-- Returning a value touches no state. -/
theorem commutes_pure (a : α) : Commutes φ (pure a : Fallible ε σ α) := fun _ => rfl

/-- Failing touches no state. -/
theorem commutes_throw (e : ε) : Commutes φ (throw e : Fallible ε σ α) := fun _ => rfl

/-- An update commutes if its function does. -/
theorem commutes_modify {g : σ → σ} (hg : ∀ s, g (φ s) = φ (g s)) :
    Commutes φ (modify g : Fallible ε σ Unit) := by
  intro s
  show (.ok (), g (φ s)) = ((.ok (), φ (g s)) : Except ε Unit × σ)
  rw [hg]

/-- What is read from the state is the same with the change and without, in one run. -/
theorem commutesAt_get_bind {g : σ → Fallible ε σ γ} (hread : g (φ s) = g s)
    (hg : CommutesAt φ (g s) s) : CommutesAt φ (get >>= g) s := by
  show exec (g (φ s)) (φ s) = _
  rw [hread]
  exact hg

/-- What is read from the state is the same with the change and without. -/
theorem commutes_get_bind {g : σ → Fallible ε σ γ} (hread : ∀ s, g (φ s) = g s)
    (hg : ∀ s, Commutes φ (g s)) : Commutes φ (get >>= g) :=
  fun s => commutesAt_get_bind (hread s) (hg s s)

/-- A choice commutes if both branches do and the test does not look at the state. -/
theorem Commutes.ite {P : Prop} [Decidable P] {q : Fallible ε σ α} (hp : Commutes φ p)
    (hq : Commutes φ q) : Commutes φ (if P then p else q) := by
  by_cases h : P
  · rwa [if_pos h]
  · rwa [if_neg h]

/-- A handler commutes if the program and all ways of handling its errors do. -/
theorem Commutes.tryCatch {g : ε → Fallible ε σ α} (hp : Commutes φ p)
    (hg : ∀ e, Commutes φ (g e)) : Commutes φ (MonadExcept.tryCatch p g) := by
  intro s
  have hs := hp s
  unfold CommutesAt at hs ⊢
  rw [exec_tryCatch, exec_tryCatch, hs]
  rcases exec p s with ⟨e | a, s'⟩
  · exact hg e s'
  · rfl

end Fallible

namespace Machine

variable {σ ε ο : Type*} {M : Machine σ ε ο}

/-- **The rule for runs**: if from the states of an invariant a change of the state can be made
before or after every step that meets a condition, a run of such steps gives the same outputs
with the change and without.

**Proof sketch.** By induction on the events, from every state of the invariant. -/
theorem run_commutes {φ : σ → σ} {I : σ → Prop} {G : ε → Prop}
    (hI : ∀ s e, I s → G e → I (M.step s e).1)
    (hstep : ∀ s e, I s → G e → M.step (φ s) e = (φ (M.step s e).1, (M.step s e).2))
    {s : σ} (hs : I s) {es : List ε} (hes : ∀ e ∈ es, G e) :
    M.run (φ s) es = φ (M.run s es) ∧
      (M.trace (φ s) es).map (·.output) = (M.trace s es).map (·.output) := by
  induction es generalizing s with
  | nil => exact ⟨rfl, rfl⟩
  | cons e es ih =>
    have he := hes e List.mem_cons_self
    obtain ⟨hrun, htrace⟩ := ih (hI s e hs he) fun e' he' => hes e' (List.mem_cons_of_mem _ he')
    have hone := hstep s e hs he
    rw [run_cons, run_cons, trace_cons, trace_cons, List.map_cons, List.map_cons,
      output_transition, output_transition, hone]
    exact ⟨hrun, by rw [htrace]⟩

end Machine
