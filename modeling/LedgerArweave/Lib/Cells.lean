import Mathlib.Data.List.Nodup

set_option relaxedAutoImplicit false
set_option autoImplicit false

/-!
# States made of cells

A function that fills a structure member by member leaves, wherever it stops, the effect of a list
of assignments. Here a state is looked at through cells that can be read and set independently of
each other, and a list of assignments is carried out in order. If no cell is assigned twice, the
state is what it was exactly if every cell already had the value assigned to it.

## Main definitions

* `Cells` — a family of cells of a state.
* `Cells.assign` — the assignments of a list, one after the other.

## Main results

* `Cells.get_assign`, `Cells.get_assign_of_notMem` — the cells after the assignments.
* `Cells.assign_eq_self_iff` — when assignments change nothing.
-/

/-- Cells of a state, each of which can be read and set without touching the others. -/
structure Cells (ι α σ : Type*) where
  /-- The value of a cell. -/
  get : ι → σ → α
  /-- The state with another value in a cell. -/
  set : ι → α → σ → σ
  get_set : ∀ i a s, get i (set i a s) = a
  get_set_of_ne : ∀ {i j} a s, j ≠ i → get j (set i a s) = get j s
  set_get : ∀ i s, set i (get i s) s = s

namespace Cells

variable {ι α σ : Type*} (c : Cells ι α σ)

/-- The assignments of a list, one after the other. -/
def assign (L : List (ι × α)) (s : σ) : σ := L.foldl (fun s w => c.set w.1 w.2 s) s

/-- The first write is made first. -/
@[simp] theorem assign_cons (w : ι × α) (L : List (ι × α)) (s : σ) :
    c.assign (w :: L) s = c.assign L (c.set w.1 w.2 s) := rfl

/-- Lists of writes are made one after the other. -/
theorem assign_append (L L' : List (ι × α)) (s : σ) :
    c.assign (L ++ L') s = c.assign L' (c.assign L s) := List.foldl_append

/-- A cell that is not assigned keeps its value. -/
theorem get_assign_of_notMem {L : List (ι × α)} {i : ι} (h : i ∉ L.map Prod.fst) (s : σ) :
    c.get i (c.assign L s) = c.get i s := by
  induction L generalizing s with
  | nil => rfl
  | cons w L ih =>
    rw [List.map_cons, List.mem_cons, not_or] at h
    rw [assign_cons, ih h.2, c.get_set_of_ne _ _ h.1]

/-- A cell that is assigned once has the value assigned to it. -/
theorem get_assign {L : List (ι × α)} (hL : (L.map Prod.fst).Nodup) {w : ι × α} (hw : w ∈ L)
    (s : σ) : c.get w.1 (c.assign L s) = w.2 := by
  induction L generalizing s with
  | nil => exact absurd hw List.not_mem_nil
  | cons v L ih =>
    rw [List.map_cons, List.nodup_cons] at hL
    rw [assign_cons]
    rcases List.mem_cons.mp hw with rfl | hmem
    · rw [c.get_assign_of_notMem hL.1, c.get_set]
    · exact ih hL.2 hmem _

/-- Assigning the values that are there changes nothing. -/
theorem assign_eq_self {L : List (ι × α)} {s : σ} (h : ∀ w ∈ L, c.get w.1 s = w.2) :
    c.assign L s = s := by
  induction L with
  | nil => rfl
  | cons w L ih =>
    rw [List.forall_mem_cons] at h
    have hset : c.set w.1 w.2 s = s := by rw [← h.1, c.set_get]
    rw [assign_cons, hset, ih h.2]

/-- **Assignments change nothing** exactly if they assign the values that are there.

**Proof sketch.** Distinct cells keep what is assigned to them, so it is read back afterwards.
Conversely each assignment alone changes nothing. -/
theorem assign_eq_self_iff {L : List (ι × α)} (hL : (L.map Prod.fst).Nodup) (s : σ) :
    c.assign L s = s ↔ ∀ w ∈ L, c.get w.1 s = w.2 := by
  constructor
  · intro h w hw
    have hget := c.get_assign hL hw s
    rwa [h] at hget
  · exact c.assign_eq_self

end Cells
