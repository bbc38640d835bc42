import Mathlib.Order.Defs.Unbundled

set_option relaxedAutoImplicit false
set_option autoImplicit false

/-!
# Functions that may fail without undoing their effects

`Fallible ε σ α` is a computation on a state of type `σ` that returns a value of type `α` or
an error of type `ε`, and whose changes to the state stay when it fails, as the memory behind a
pointer does in C. `exec` runs one; `Ensures` says of a run what holds afterwards, with rules
that follow the structure of the program.

## Main definitions

* `Fallible`, `Fallible.exec` — the computations and their runs.
* `Fallible.Ensures` — a postcondition of a run, for both ways it can end.
* `Fallible.Within` — every run goes from a state to a related one.

## Main results

* `Fallible.exec_bind` — a computation after another.
* `Fallible.Ensures.bind`, `Fallible.Ensures.mono` — the rules of sequence and consequence.
-/

/-- Computations on a state that return a value or an error, keeping the state either way. -/
abbrev Fallible (ε σ : Type) := ExceptT ε (StateM σ)

namespace Fallible

variable {ε σ α γ : Type}

/-- Run a computation. -/
def exec (p : Fallible ε σ α) (s : σ) : Except ε α × σ := p.run.run s

/-! ## Running the constructs -/

/-- Running a handler: it starts in the state in which the program has failed. -/
theorem exec_tryCatch (p : Fallible ε σ α) (f : ε → Fallible ε σ α) (s : σ) :
    exec (tryCatch p f) s =
      match exec p s with
      | (.ok a, s') => (.ok a, s')
      | (.error e, s') => exec (f e) s' := by
  simp only [exec, ExceptT.run_tryCatch, StateT.run_bind]
  rcases p.run.run s with ⟨_ | _, _⟩ <;> rfl

/-- Running two programs in sequence. -/
theorem exec_bind (p : Fallible ε σ α) (f : α → Fallible ε σ γ) (s : σ) :
    exec (p >>= f) s =
      match exec p s with
      | (.ok a, s') => exec (f a) s'
      | (.error e, s') => (.error e, s') := by
  simp only [exec, ExceptT.run_bind, StateT.run_bind]
  rcases p.run.run s with ⟨_ | _, _⟩ <;> rfl

/-- A step that succeeds hands its result and state to the rest. -/
theorem exec_bind_ok {p : Fallible ε σ α} {s s' : σ} {a : α} (h : exec p s = (.ok a, s'))
    (f : α → Fallible ε σ γ) : exec (p >>= f) s = exec (f a) s' := by
  rw [exec_bind, h]

/-- A step that fails ends the whole. -/
theorem exec_bind_error {p : Fallible ε σ α} {s s' : σ} {e : ε} (h : exec p s = (.error e, s'))
    (f : α → Fallible ε σ γ) : exec (p >>= f) s = (.error e, s') := by
  rw [exec_bind, h]

/-- Returning leaves the state. -/
@[simp] theorem exec_pure (a : α) (s : σ) : exec (pure a : Fallible ε σ α) s = (.ok a, s) := rfl

/-- Failing leaves the state. -/
@[simp] theorem exec_throw (e : ε) (s : σ) :
    exec (throw e : Fallible ε σ α) s = (.error e, s) := rfl

/-- Reading the state leaves it. -/
@[simp] theorem exec_get (s : σ) : exec (get : Fallible ε σ σ) s = (.ok s, s) := rfl

/-- An update never fails. -/
@[simp] theorem exec_modify (f : σ → σ) (s : σ) :
    exec (modify f : Fallible ε σ Unit) s = (.ok (), f s) := rfl

/-- Converting the errors of a computation. -/
theorem exec_adapt {ε' : Type} (g : ε → ε') (p : Fallible ε σ α) (s : σ) :
    exec (ExceptT.adapt g p) s = ((exec p s).1.mapError g, (exec p s).2) := rfl

/-! ## Postconditions -/

/-- Running `p` from `s` ends in a result and a state that satisfy `Q`. -/
def Ensures (p : Fallible ε σ α) (s : σ) (Q : Except ε α → σ → Prop) : Prop :=
  Q (exec p s).1 (exec p s).2

variable {p : Fallible ε σ α} {f : α → Fallible ε σ γ} {s : σ} {Q R : Except ε α → σ → Prop}

/-- The rule of consequence. -/
theorem Ensures.mono (h : Ensures p s R) (hRQ : ∀ r s', R r s' → Q r s') : Ensures p s Q :=
  hRQ _ _ h

/-- Two postconditions of one run. -/
theorem Ensures.and (h : Ensures p s Q) (h' : Ensures p s R) :
    Ensures p s fun r s' => Q r s' ∧ R r s' := ⟨h, h'⟩

/-- Two computations that run alike ensure the same. -/
theorem Ensures.of_exec_eq {q : Fallible ε σ α} {s' : σ} (h : Ensures q s' Q)
    (hexec : exec p s = exec q s') : Ensures p s Q := by
  unfold Ensures
  rw [hexec]
  exact h

/-- The rule of sequence: the second computation runs from where the first one succeeds, and an
error of the first ends the whole. -/
theorem Ensures.bind {S : Except ε γ → σ → Prop} (h : Ensures p s R)
    (hok : ∀ a s', R (.ok a) s' → Ensures (f a) s' S)
    (herror : ∀ e s', R (.error e) s' → S (.error e) s') : Ensures (p >>= f) s S := by
  unfold Ensures at h ⊢
  rw [exec_bind]
  rcases hp : exec p s with ⟨e | a, s'⟩ <;> rw [hp] at h
  · exact herror e s' h
  · exact hok a s' h

/-- A computation after one whose run is known. -/
theorem ensures_bind_of_exec {S : Except ε γ → σ → Prop} {a : α} {s' : σ}
    (hp : exec p s = (.ok a, s')) (h : Ensures (f a) s' S) : Ensures (p >>= f) s S := by
  unfold Ensures
  rw [exec_bind_ok hp]
  exact h

/-- Returning ends where it starts. -/
theorem ensures_pure {a : α} (h : Q (.ok a) s) : Ensures (pure a : Fallible ε σ α) s Q := h

/-- Failing ends where it starts. -/
theorem ensures_throw {e : ε} (h : Q (.error e) s) : Ensures (throw e : Fallible ε σ α) s Q := h

/-- A computation after changing the state. -/
theorem ensures_modify_bind {g : σ → σ} {q : Unit → Fallible ε σ α}
    (h : Ensures (q ()) (g s) Q) : Ensures (modify g >>= q) s Q :=
  ensures_bind_of_exec (exec_modify g s) h

/-! ## Frames -/

/-- Every run of `p` goes from a state to one related to it. -/
def Within (R : σ → σ → Prop) (p : Fallible ε σ α) : Prop := ∀ s, R s (exec p s).2

section Within

variable {R : σ → σ → Prop}

/-- A frame is a postcondition of every run. -/
theorem Within.ensures (h : Within R p) (s : σ) : Ensures p s fun _ s' => R s s' := h s

/-- An update stays within a relation if its function does. -/
theorem within_modify {g : σ → σ} (hg : ∀ s, R s (g s)) :
    Within R (modify g : Fallible ε σ Unit) := hg

/-- A choice stays within a relation if both branches do. -/
theorem Within.ite {P : Prop} [Decidable P] {q : Fallible ε σ α} (hp : Within R p)
    (hq : Within R q) : Within R (if P then p else q) := by
  by_cases h : P
  · rwa [if_pos h]
  · rwa [if_neg h]

variable [IsPreorder σ R]

/-- A sequence stays within a transitive relation if its parts do. -/
theorem Within.bind (hp : Within R p) (hf : ∀ a, Within R (f a)) : Within R (p >>= f) := by
  intro s
  have hseq : Ensures (p >>= f) s fun _ s' => R s s' :=
    (hp.ensures s).bind (fun a s' hs => trans_of R hs (hf a s')) (fun _ _ hs => hs)
  exact hseq

/-- Returning stays within a reflexive relation. -/
theorem within_pure (a : α) : Within R (pure a : Fallible ε σ α) := fun s => refl_of R s

/-- Failing stays within a reflexive relation. -/
theorem within_throw (e : ε) : Within R (throw e : Fallible ε σ α) := fun s => refl_of R s

/-- Reading stays within a reflexive relation. -/
theorem within_get : Within R (get : Fallible ε σ σ) := fun s => refl_of R s

end Within

end Fallible
