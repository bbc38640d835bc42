import Mathlib.Logic.Nontrivial.Basic

set_option relaxedAutoImplicit false
set_option autoImplicit false

/-!
# Buffers

Writing words into a buffer at a position, with the rules for several writes.

## Main definitions

* `overwrite` — a buffer after a write.

## Main results

* `overwrite_overwrite` — two adjacent writes are one.
* `overwrite_halves` — writes that fill a buffer determine it.
* `eq_of_overwrite_eq` — a write is determined by what it does to buffers.
-/

variable {β : Type}

/-- Write a word into a buffer from a position on. -/
def overwrite (mem : List β) (pos : Nat) (w : List β) : List β :=
  mem.take pos ++ w ++ mem.drop (pos + w.length)

/-- Writing nothing changes nothing. -/
@[simp] theorem overwrite_nil (mem : List β) (pos : Nat) : overwrite mem pos [] = mem := by
  simp [overwrite]

/-- A write of what follows on a write is one write. -/
theorem overwrite_overwrite {mem a b : List β} {pos : Nat} (hpos : pos ≤ mem.length) :
    overwrite (overwrite mem pos a) (pos + a.length) b = overwrite mem pos (a ++ b) := by
  have hlen : (mem.take pos ++ a).length = pos + a.length := by
    rw [List.length_append, List.length_take_of_le hpos]
  unfold overwrite
  rw [← hlen, List.take_left, ← List.drop_drop, List.drop_left, List.drop_drop, hlen,
    List.length_append, Nat.add_assoc]
  simp only [List.append_assoc]

/-- What has been written at the beginning of a buffer. -/
theorem take_overwrite (mem a : List β) : (overwrite mem 0 a).take a.length = a := by
  rw [overwrite, List.take_zero, List.nil_append, List.take_left]

/-- What is written is in the memory afterwards, which grows if it has to. -/
theorem le_length_overwrite {mem a : List β} {pos : Nat} (hpos : pos ≤ mem.length) :
    pos + a.length ≤ (overwrite mem pos a).length := by
  unfold overwrite
  rw [List.length_append, List.length_append, List.length_take_of_le hpos]
  omega

/-- A write inside a buffer does not change its length. -/
theorem length_overwrite {mem a : List β} {pos : Nat} (h : pos + a.length ≤ mem.length) :
    (overwrite mem pos a).length = mem.length := by
  unfold overwrite
  rw [List.length_append, List.length_append, List.length_take_of_le (by omega), List.length_drop]
  omega

/-- Two blocks written over both halves of a buffer are its contents. -/
theorem overwrite_halves {mem a b : List β} {n : Nat} (hmem : mem.length = n + n)
    (ha : a.length = n) (hb : b.length = n) : overwrite (overwrite mem 0 a) n b = a ++ b := by
  have happ := overwrite_overwrite (a := a) (b := b) (Nat.zero_le mem.length)
  rw [Nat.zero_add, ha] at happ
  rw [happ, overwrite, List.length_append, ha, hb, Nat.zero_add, ← hmem, List.drop_length,
    List.take_zero, List.nil_append, List.append_nil]

/-- Behind what is written at the start, the memory is what it was. -/
theorem drop_overwrite {mem a : List β} {n : Nat} (ha : a.length = n) :
    (overwrite mem 0 a).drop n = mem.drop n := by
  rw [overwrite, List.take_zero, List.nil_append, ← ha, List.drop_left, Nat.zero_add]

/-- What is written into a buffer is part of it. -/
theorem getElem?_overwrite_zero {mem a : List β} (i : Nat) :
    (overwrite mem 0 a)[i]? = if i < a.length then a[i]? else mem[i]? := by
  rw [overwrite, List.take_zero, List.nil_append, Nat.zero_add]
  split_ifs with hi
  · exact List.getElem?_append_left hi
  · rw [List.getElem?_append_right (by omega), List.getElem?_drop,
      Nat.add_sub_cancel' (Nat.le_of_not_lt hi)]

/-- Writes that agree on every buffer that is long enough write no more in one case than in the
other: where only the second one writes, the buffer can hold anything. -/
theorem length_le_of_overwrite_eq [Nontrivial β] {a b : List β}
    (h : ∀ mem : List β, a.length ≤ mem.length → b.length ≤ mem.length →
      overwrite mem 0 a = overwrite mem 0 b) : b.length ≤ a.length := by
  by_contra hlt
  rw [Nat.not_le] at hlt
  obtain ⟨c, hc⟩ := exists_ne b[a.length]
  have hsame := congrArg (·[a.length]?) (h (List.replicate b.length c) (by simp; omega) (by simp))
  simp only [getElem?_overwrite_zero, Nat.lt_irrefl, if_false, if_pos hlt,
    List.getElem?_replicate, List.getElem?_eq_getElem hlt, Option.some.injEq] at hsame
  exact hc hsame

/-- **Writes that agree on every buffer** write the same.

**Proof sketch.** Writing into memory that is too short for one of them shows that the lengths
agree; then what is written is the beginning of the memory. -/
theorem eq_of_overwrite_eq [Nontrivial β] {a b : List β}
    (h : ∀ mem : List β, a.length ≤ mem.length → b.length ≤ mem.length →
      overwrite mem 0 a = overwrite mem 0 b) : a = b := by
  have hle := length_le_of_overwrite_eq h
  have hge := length_le_of_overwrite_eq fun mem hb ha => (h mem ha hb).symm
  have hsame := congrArg (List.take a.length) (h a (Nat.le_refl _) hle)
  rwa [take_overwrite, Nat.le_antisymm hge hle, take_overwrite] at hsame
