import Mathlib.Data.List.Induction

set_option relaxedAutoImplicit false
set_option autoImplicit false

/-!
# Deterministic machines and their runs

A `Machine σ ε ο` reacts to an event of type `ε` by changing its state and producing an
output. What the environment decides (faults, answers of a user) is part of the event, so a
run is determined by its initial state and its list of events. The trace of a run records
every transition, which is what a property of whole runs speaks about.

Properties of all states reached are proved with `Machine.invariant`, properties that relate
a state to everything that happened before it with `Machine.history_induction`; both take an
assumption on the environment as a condition on the transitions of the run.

## Main definitions

* `Machine`, `Transition` — a machine and one recorded step of it.
* `Machine.run`, `Machine.trace` — the final state and the transitions of a run.
* `Machine.Respects` — every transition of a run meets a condition.
* `Since` — something has happened, and only certain steps since.

## Main results

* `Machine.exists_of_trace_eq` — a transition in the middle of a trace is one step from the
  state reached by the events before it.
* `Machine.invariant`, `Machine.history_induction` — the two induction rules.
* `Machine.run_induction` — the second one for what rests on other properties of runs.
* `Machine.invariant_since` — the first one for what follows a step of the trace.
* `Machine.forall_trace_iff` — which transitions are to blame when a property fails.
* `Machine.since_iff` — a flag that some transitions set and others clear, by the history.
-/

/-- A deterministic machine: the state after an event and the output it produces. -/
structure Machine (σ ε ο : Type*) where
  /-- React to an event. -/
  step : σ → ε → σ × ο

/-- One recorded step: the state before, the event, the state after and the output. -/
structure Transition (σ ε ο : Type*) where
  before : σ
  event : ε
  after : σ
  output : ο

/-! ## Histories -/

/-- Some entry of the history meets `P`, and all after it meet `Q`. -/
def Since {α : Type*} (P Q : α → Prop) (h : List α) : Prop :=
  ∃ h₁ u h₂, h = h₁ ++ u :: h₂ ∧ P u ∧ ∀ v ∈ h₂, Q v

/-- Nothing has happened yet. -/
theorem not_since_nil {α : Type*} {P Q : α → Prop} : ¬ Since P Q [] := by
  rintro ⟨h₁, u, h₂, heq, -⟩
  exact absurd heq (by simp)

/-- One more entry of the history.

**Proof sketch.** If something follows the entry that meets `P`, the last entry is what follows
last; else it is that entry. -/
theorem since_concat {α : Type*} {P Q : α → Prop} {h : List α} {t : α} :
    Since P Q (h ++ [t]) ↔ P t ∨ Since P Q h ∧ Q t := by
  constructor
  · rintro ⟨h₁, u, h₂, heq, hu, hafter⟩
    rcases List.eq_nil_or_concat h₂ with rfl | ⟨h₃, v, rfl⟩
    · obtain ⟨-, htu⟩ := List.append_inj' heq rfl
      rw [List.singleton_inj.mp htu]
      exact .inl hu
    · rw [List.concat_eq_append, ← List.cons_append, ← List.append_assoc] at heq
      obtain ⟨hh, htv⟩ := List.append_inj' heq rfl
      rw [List.singleton_inj.mp htv]
      exact .inr ⟨⟨h₁, u, h₃, hh, hu, fun w hw => hafter w (by simp [hw])⟩, hafter v (by simp)⟩
  · rintro (ht | ⟨⟨h₁, u, h₂, rfl, hu, hafter⟩, ht⟩)
    · exact ⟨h, t, [], rfl, ht, fun v hv => absurd hv List.not_mem_nil⟩
    · refine ⟨h₁, u, h₂ ++ [t], by simp, hu, fun v hv => ?_⟩
      rcases List.mem_append.mp hv with hv | hv
      · exact hafter v hv
      · rw [List.mem_singleton.mp hv]
        exact ht

/-! ## Runs -/

namespace Machine

variable {σ ε ο : Type*} (M : Machine σ ε ο)

/-- The transition an event causes in a state. -/
def transition (s : σ) (e : ε) : Transition σ ε ο :=
  ⟨s, e, (M.step s e).1, (M.step s e).2⟩

/-- The state reached by a list of events. -/
def run : σ → List ε → σ
  | s, [] => s
  | s, e :: es => run (M.step s e).1 es

/-- The transitions of a run, in order. -/
def trace : σ → List ε → List (Transition σ ε ο)
  | _, [] => []
  | s, e :: es => M.transition s e :: trace (M.step s e).1 es

/-- The state after a transition is that after its step. -/
@[simp] theorem after_transition (s : σ) (e : ε) :
    (M.transition s e).after = (M.step s e).1 := rfl

/-- The output of a transition is that of its step. -/
@[simp] theorem output_transition (s : σ) (e : ε) :
    (M.transition s e).output = (M.step s e).2 := rfl

/-- Nothing happens without events. -/
@[simp] theorem run_nil (s : σ) : M.run s [] = s := rfl

/-- A run takes the first event first. -/
@[simp] theorem run_cons (s : σ) (e : ε) (es : List ε) :
    M.run s (e :: es) = M.run (M.step s e).1 es := rfl

/-- Without events there are no transitions. -/
@[simp] theorem trace_nil (s : σ) : M.trace s [] = [] := rfl

/-- A trace begins with the transition of the first event. -/
@[simp] theorem trace_cons (s : σ) (e : ε) (es : List ε) :
    M.trace s (e :: es) = M.transition s e :: M.trace (M.step s e).1 es := rfl

/-- Running two lists of events one after the other. -/
theorem run_append (s : σ) (es es' : List ε) :
    M.run s (es ++ es') = M.run (M.run s es) es' := by
  induction es generalizing s with
  | nil => rfl
  | cons e es ih => exact ih (M.step s e).1

/-- The trace of two lists of events one after the other. -/
theorem trace_append (s : σ) (es es' : List ε) :
    M.trace s (es ++ es') = M.trace s es ++ M.trace (M.run s es) es' := by
  induction es generalizing s with
  | nil => rfl
  | cons e es ih => simp only [List.cons_append, trace_cons, run_cons, ih]

/-- Running one more event. -/
theorem run_concat (s : σ) (es : List ε) (e : ε) :
    M.run s (es ++ [e]) = (M.step (M.run s es) e).1 := by
  rw [run_append]
  rfl

/-- The trace of one more event. -/
theorem trace_concat (s : σ) (es : List ε) (e : ε) :
    M.trace s (es ++ [e]) = M.trace s es ++ [M.transition (M.run s es) e] := by
  rw [trace_append]
  rfl

/-- A transition inside a trace is one step from the state reached by the events before it,
and what precedes it is the trace of those events. -/
theorem exists_of_trace_eq {s : σ} {es : List ε} {pre post : List (Transition σ ε ο)}
    {t : Transition σ ε ο} (h : M.trace s es = pre ++ t :: post) :
    ∃ es₁ e es₂, es = es₁ ++ e :: es₂ ∧ pre = M.trace s es₁ ∧
      t = M.transition (M.run s es₁) e := by
  induction es generalizing s pre with
  | nil => simp at h
  | cons e es ih =>
    cases pre with
    | nil =>
      simp only [trace_cons, List.nil_append, List.cons.injEq] at h
      exact ⟨[], e, es, rfl, rfl, h.1.symm⟩
    | cons u pre =>
      simp only [trace_cons, List.cons_append, List.cons.injEq] at h
      obtain ⟨es₁, e', es₂, rfl, hpre, ht⟩ := ih h.2
      exact ⟨e :: es₁, e', es₂, rfl, by rw [trace_cons, h.1, hpre], ht⟩

/-- Every transition of the run meets the condition `G`. -/
def Respects (G : Transition σ ε ο → Prop) (s : σ) (es : List ε) : Prop :=
  ∀ t ∈ M.trace s es, G t

variable {M}

/-- A run meets a condition if its first transition and the remaining run do. -/
theorem respects_cons {G : Transition σ ε ο → Prop} {s : σ} {e : ε} {es : List ε} :
    M.Respects G s (e :: es) ↔ G (M.transition s e) ∧ M.Respects G (M.step s e).1 es := by
  simp [Respects]

/-- A run meets a condition if its beginning and its last transition do. -/
theorem respects_concat {G : Transition σ ε ο → Prop} {s : σ} {e : ε} {es : List ε} :
    M.Respects G s (es ++ [e]) ↔ M.Respects G s es ∧ G (M.transition (M.run s es) e) := by
  simp [Respects, trace_concat, or_imp, forall_and]

/-- **Invariant rule**: what holds initially and is preserved by every transition meeting the
condition holds in the state every run meeting it ends in.

**Proof sketch.** By induction on the events, from every state of the invariant. -/
theorem invariant {G : Transition σ ε ο → Prop} {I : σ → Prop} {s : σ} {es : List ε}
    (h₀ : I s) (hstep : ∀ s e, I s → G (M.transition s e) → I (M.step s e).1)
    (hG : M.Respects G s es) : I (M.run s es) := by
  induction es generalizing s with
  | nil => exact h₀
  | cons e es ih =>
    obtain ⟨he, hes⟩ := respects_cons.mp hG
    exact ih (hstep s e h₀ he) hes

/-- **Invariant rule after a step**: what holds after a step of the trace and is preserved by the
transitions that meet the condition holds at the end, if all later ones meet it.

**Proof sketch.** The events after the transition make up a run from the state after it, to which
the invariant rule applies. -/
theorem invariant_since {G : Transition σ ε ο → Prop} {I : σ → Prop} {s : σ} {es : List ε}
    {pre mid : List (Transition σ ε ο)} {t : Transition σ ε ο}
    (htrace : M.trace s es = pre ++ t :: mid) (h₀ : I t.after)
    (hstep : ∀ s e, I s → G (M.transition s e) → I (M.step s e).1)
    (hmid : ∀ u ∈ mid, G u) : I (M.run s es) := by
  obtain ⟨es₁, e, es₂, rfl, rfl, rfl⟩ := M.exists_of_trace_eq htrace
  rw [trace_append] at htrace
  obtain ⟨-, rfl⟩ := List.cons.inj (List.append_cancel_left htrace)
  rw [run_append, run_cons]
  exact invariant h₀ hstep hmid

/-- **Flag rule**: what is false at the start, holds after the transitions that meet `P`, and
survives those that meet `Q`, holds after a run exactly if its trace says so.

**Proof sketch.** By induction on the events from the end. -/
theorem since_iff {P Q : Transition σ ε ο → Prop} {f : σ → Prop} {s : σ} (h₀ : ¬ f s)
    (hstep : ∀ s e, f (M.step s e).1 ↔ P (M.transition s e) ∨ f s ∧ Q (M.transition s e))
    (es : List ε) : f (M.run s es) ↔ Since P Q (M.trace s es) := by
  induction es using List.reverseRecOn with
  | nil => exact iff_of_false h₀ not_since_nil
  | append_singleton es e ih => rw [run_concat, trace_concat, since_concat, hstep, ih]

/-- **Blame rule**: if from the states of an invariant the transitions that meet the condition `G`
keep the invariant and have the property `P`, and the others do not have it, then a run has the
property throughout exactly if every transition meets the condition.

**Proof sketch.** By induction on the events. A good transition has the property and keeps the
invariant, so the rest decides; a bad one has not, and settles both sides. -/
theorem forall_trace_iff {G P : Transition σ ε ο → Prop} {I : σ → Prop} {s : σ} {es : List ε}
    (h₀ : I s)
    (hgood : ∀ s e, I s → G (M.transition s e) → I (M.step s e).1 ∧ P (M.transition s e))
    (hbad : ∀ s e, I s → ¬ G (M.transition s e) → ¬ P (M.transition s e)) :
    (∀ t ∈ M.trace s es, P t) ↔ M.Respects G s es := by
  induction es generalizing s with
  | nil => simp [Respects]
  | cons e es ih =>
    rw [respects_cons, trace_cons, List.forall_mem_cons]
    by_cases he : G (M.transition s e)
    · obtain ⟨hkeep, hp⟩ := hgood s e h₀ he
      exact and_congr (iff_of_true hp he) (ih hkeep)
    · exact iff_of_false (fun h => hbad s e h₀ he h.1) fun h => he h.1

/-- **History rule**: a relation between what has happened and the current state that holds
at the start and is preserved by every transition meeting the condition holds at the end of
every run meeting it.

**Proof sketch.** Induction on the events from the end, so that the trace grows on the
right by the last transition. -/
theorem history_induction {G : Transition σ ε ο → Prop}
    {P : List (Transition σ ε ο) → σ → Prop} {s : σ} {es : List ε} (h₀ : P [] s)
    (hstep : ∀ h s e, P h s → G (M.transition s e) →
      P (h ++ [M.transition s e]) (M.step s e).1)
    (hG : M.Respects G s es) : P (M.trace s es) (M.run s es) := by
  induction es using List.reverseRecOn with
  | nil => exact h₀
  | append_singleton es e ih =>
    obtain ⟨hes, he⟩ := respects_concat.mp hG
    rw [trace_concat, run_concat]
    exact hstep _ _ _ (ih hes) he

/-- **Run rule**: the history rule for a property that rests on other properties of runs, which the
step may use of the run so far.

**Proof sketch.** By induction on the events from the end. -/
theorem run_induction {G : Transition σ ε ο → Prop}
    {P : List (Transition σ ε ο) → σ → Prop} {s : σ} {es : List ε} (h₀ : P [] s)
    (hstep : ∀ es e, M.Respects G s es → P (M.trace s es) (M.run s es) →
      G (M.transition (M.run s es) e) →
      P (M.trace s es ++ [M.transition (M.run s es) e]) (M.step (M.run s es) e).1)
    (hG : M.Respects G s es) : P (M.trace s es) (M.run s es) := by
  induction es using List.reverseRecOn with
  | nil => exact h₀
  | append_singleton es e ih =>
    obtain ⟨hes, he⟩ := respects_concat.mp hG
    rw [trace_concat, run_concat]
    exact hstep es e hes (ih hes) he

end Machine
