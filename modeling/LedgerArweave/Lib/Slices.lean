import Mathlib.Data.Nat.Basic

set_option relaxedAutoImplicit false
set_option autoImplicit false

/-!
# Cutting a word into slices

A word is cut from its beginning into slices of a fixed width; only the last one may be shorter.
Pages of a text and packets of a message are slices.

## Main definitions

* `slice`, `sliceCount`, `slices` — one slice, their number and all of them.

## Main results

* `flatten_slices` — the slices in order are the word.
-/

variable {β : Type} {w : ℕ}

/-- Slice `i` of width `w`. -/
def slice (w : ℕ) (l : List β) (i : ℕ) : List β := (l.drop (i * w)).take w

/-- The number of slices of width `w`. -/
def sliceCount (w : ℕ) (l : List β) : ℕ := (l.length + w - 1) / w

/-- The slices of width `w`. -/
def slices (w : ℕ) (l : List β) : List (List β) := (List.range (sliceCount w l)).map (slice w l)

/-- No slice is longer than the width. -/
theorem length_slice_le (w : ℕ) (l : List β) (i : ℕ) : (slice w l i).length ≤ w :=
  List.length_take_le _ _

/-- The letters of a slice are letters of the word. -/
theorem mem_of_mem_slice {l : List β} {i : ℕ} {x : β} (h : x ∈ slice w l i) : x ∈ l :=
  List.mem_of_mem_drop (List.mem_of_mem_take h)

/-- The first slices in order are a beginning of the word. -/
theorem flatten_map_slice (l : List β) (k : ℕ) :
    ((List.range k).map (slice w l)).flatten = l.take (k * w) := by
  induction k with
  | zero => simp
  | succ k ih =>
    rw [List.range_succ, List.map_append, List.flatten_append, ih, Nat.succ_mul, List.take_add]
    simp [slice]

/-- There are enough slices to cover the word. -/
theorem length_le_sliceCount_mul (hw : 0 < w) (l : List β) : l.length ≤ sliceCount w l * w := by
  have hlt := Nat.lt_div_mul_add hw (a := l.length + w - 1)
  unfold sliceCount
  omega

/-- **The slices in order are the word.**

**Proof sketch.** The first slices make up as much of the word as they are wide together, and there
are enough of them. -/
theorem flatten_slices (hw : 0 < w) (l : List β) : (slices w l).flatten = l := by
  rw [slices, flatten_map_slice, List.take_of_length_le (length_le_sliceCount_mul hw l)]

/-- No slice is empty. -/
theorem ne_nil_of_mem_slices (hw : 0 < w) {l x : List β} (h : x ∈ slices w l) : x ≠ [] := by
  obtain ⟨i, hi, rfl⟩ := List.mem_map.mp h
  have hle : (i + 1) * w ≤ l.length + w - 1 :=
    (Nat.le_div_iff_mul_le hw).mp (List.mem_range.mp hi)
  rw [Nat.succ_mul] at hle
  apply List.ne_nil_of_length_pos
  rw [slice, List.length_take, List.length_drop]
  omega

/-- A word that is not empty has a slice. -/
theorem slices_ne_nil (hw : 0 < w) {l : List β} (hl : l ≠ []) : slices w l ≠ [] := by
  intro h
  have hflat := flatten_slices hw l
  rw [h] at hflat
  exact hl hflat.symm

/-- A word of at most `k` widths has at most `k` slices. -/
theorem sliceCount_le (hw : 0 < w) {l : List β} {k : ℕ} (h : l.length ≤ k * w) :
    sliceCount w l ≤ k := by
  unfold sliceCount
  rw [Nat.div_le_iff_le_mul_add_pred hw, Nat.mul_comm]
  omega
