import Mathlib.Data.List.Basic

set_option relaxedAutoImplicit false
set_option autoImplicit false

/-!
# Words in blocks

An iterated function takes a word in blocks of one length: every block changes a state, and what
is left at the end is shorter than a block. A word that comes in pieces is taken the same way, if
what is left of each piece is put before the next one.

## Main definitions

* `absorb` — the state after the whole blocks of a word, with what is left of it.
* `compressions` — the states and blocks to which the function has been applied.

## Main results

* `absorb_append` — a word in two pieces.
* `eq_or_clash` — words of whole blocks with the same state at the end are equal or clash.
-/

variable {σ β : Type}

/-- The state after `n` blocks of length `b`. -/
def absorbBlocks (b : ℕ) (f : σ → List β → σ) : ℕ → σ → List β → σ
  | 0, s, _ => s
  | n + 1, s, w => absorbBlocks b f n (f s (w.take b)) (w.drop b)

/-- The state after the whole blocks of a word, and what is left of the word. -/
def absorb (b : ℕ) (f : σ → List β → σ) (s : σ) (w : List β) : σ × List β :=
  (absorbBlocks b f (w.length / b) s w, w.drop (b * (w.length / b)))

/-- Words are taken apart block by block. -/
theorem blockInduction {b : ℕ} (hb : 0 < b) {motive : List β → Prop}
    (short : ∀ w, w.length < b → motive w)
    (block : ∀ x w, x.length = b → motive w → motive (x ++ w)) (w : List β) : motive w := by
  induction hn : w.length using Nat.strongRecOn generalizing w with
  | ind n ih =>
    by_cases hlt : w.length < b
    · exact short w hlt
    · have hrest : motive (w.drop b) := ih (n - b) (by omega) _ (by rw [List.length_drop, hn])
      rw [← List.take_append_drop b w]
      exact block _ _ (List.length_take_of_le (by omega)) hrest

section Absorb

variable {b : ℕ} {f : σ → List β → σ} {s : σ} {u w : List β}

/-- A word that is shorter than a block is left. -/
theorem absorb_of_lt (h : w.length < b) : absorb b f s w = (s, w) := by
  rw [absorb, Nat.div_eq_of_lt h, Nat.mul_zero, List.drop_zero, absorbBlocks]

/-- A word that begins with a block. -/
theorem absorb_of_le (hb : 0 < b) (h : b ≤ w.length) :
    absorb b f s w = absorb b f (f s (w.take b)) (w.drop b) := by
  have hdiv : w.length / b = (w.drop b).length / b + 1 := by
    rw [List.length_drop, ← Nat.add_div_right _ hb, Nat.sub_add_cancel h]
  rw [absorb, absorb, hdiv, absorbBlocks, List.drop_drop, Nat.mul_succ, Nat.add_comm]

/-- A block before a word. -/
theorem absorb_block (hb : 0 < b) (hu : u.length = b) :
    absorb b f s (u ++ w) = absorb b f (f s u) w := by
  rw [absorb_of_le hb (by rw [List.length_append]; omega), ← hu, List.take_left, List.drop_left]

/-- Less than a block is left. -/
theorem length_absorb : (absorb b f s w).2.length = w.length % b := by
  rw [absorb, List.length_drop, Nat.mod_eq_sub]

/-- **A word in two pieces.** What is left of the first one is put before the second one.

**Proof sketch.** By induction on the blocks of the first piece. -/
theorem absorb_append (hb : 0 < b) (s : σ) (u v : List β) :
    absorb b f s (u ++ v) = absorb b f (absorb b f s u).1 ((absorb b f s u).2 ++ v) := by
  induction u using blockInduction hb generalizing s with
  | short u hu => rw [absorb_of_lt hu]
  | block x u hx ih => rw [List.append_assoc, absorb_block hb hx, ih, absorb_block hb hx]

end Absorb

/-! ## Clashes -/

/-- The states and blocks to which the function is applied, first to last. -/
def compressions (b : ℕ) (f : σ → List β → σ) : ℕ → σ → List β → List (σ × List β)
  | 0, _, _ => []
  | n + 1, s, w => (s, w.take b) :: compressions b f n (f s (w.take b)) (w.drop b)

/-- Two different states and blocks of the list give the same state. -/
def Clash (f : σ → List β → σ) (ps : List (σ × List β)) : Prop :=
  ∃ p ∈ ps, ∃ q ∈ ps, p ≠ q ∧ f p.1 p.2 = f q.1 q.2

section Clash

variable {b : ℕ} {f : σ → List β → σ} {s t : σ} {u v w : List β}

/-- A clash stays one among more blocks. -/
theorem Clash.mono {ps qs : List (σ × List β)} (h : Clash f ps) (hsub : ps ⊆ qs) : Clash f qs := by
  obtain ⟨p, hp, q, hq, hne, heq⟩ := h
  exact ⟨p, hsub hp, q, hsub hq, hne, heq⟩

/-- The last block changes the state that the blocks before it give. -/
theorem absorbBlocks_succ (n : ℕ) (s : σ) (w : List β) :
    absorbBlocks b f (n + 1) s w = f (absorbBlocks b f n s w) ((w.drop (b * n)).take b) := by
  induction n generalizing s w with
  | zero => rfl
  | succ n ih =>
    rw [absorbBlocks, ih, absorbBlocks, List.drop_drop, Nat.mul_succ, Nat.add_comm]

/-- The last block is one of those to which the function is applied. -/
theorem last_mem_compressions (n : ℕ) (s : σ) (w : List β) :
    (absorbBlocks b f n s w, (w.drop (b * n)).take b) ∈ compressions b f (n + 1) s w := by
  induction n generalizing s w with
  | zero => exact List.mem_cons_self
  | succ n ih =>
    have hrest := ih (f s (w.take b)) (w.drop b)
    rw [List.drop_drop, Nat.add_comm b, ← Nat.mul_succ] at hrest
    exact List.mem_cons_of_mem _ hrest

/-- As many blocks from two states that end in the same state are the same ones from the same
state, or two of them clash.

**Proof sketch.** By induction on the number of blocks. If what follows the first blocks is the same
from the same state, the first blocks have led to one state: they are equal, with the states before
them, or they clash. -/
theorem eq_or_clash_of_length {n : ℕ} (hu : u.length = b * n) (hv : v.length = b * n)
    (h : absorbBlocks b f n s u = absorbBlocks b f n t v) :
    s = t ∧ u = v ∨ Clash f (compressions b f n s u ++ compressions b f n t v) := by
  induction n generalizing s t u v with
  | zero =>
    rw [List.length_eq_zero_iff.mp hu, List.length_eq_zero_iff.mp hv]
    exact Or.inl ⟨h, rfl⟩
  | succ n ih =>
    rw [Nat.mul_succ] at hu hv
    rcases ih (u := u.drop b) (v := v.drop b) (by rw [List.length_drop]; omega)
      (by rw [List.length_drop]; omega) h with ⟨hstate, hrest⟩ | hclash
    · by_cases hpair : (s, u.take b) = (t, v.take b)
      · obtain ⟨hs, hblock⟩ := Prod.mk.inj hpair
        refine Or.inl ⟨hs, ?_⟩
        rw [← List.take_append_drop b u, hblock, hrest, List.take_append_drop]
      · exact Or.inr ⟨_, List.mem_append_left _ List.mem_cons_self, _,
          List.mem_append_right _ List.mem_cons_self, hpair, hstate⟩
    · refine Or.inr (hclash.mono ?_)
      exact List.append_subset.mpr
        ⟨List.Subset.trans (List.subset_cons_self _ _) (List.subset_append_left _ _),
          List.Subset.trans (List.subset_cons_self _ _) (List.subset_append_right _ _)⟩

/-- **Words of whole blocks that end in the same state** are equal or clash, if words with the
same last block have the same number of blocks.

**Proof sketch.** If the last blocks differ, their compressions clash. If they are equal, the words
have the same number of blocks, which is `eq_or_clash_of_length`. -/
theorem eq_or_clash {n m : ℕ} (hu : u.length = b * (n + 1)) (hv : v.length = b * (m + 1))
    (hlast : (u.drop (b * n)).take b = (v.drop (b * m)).take b → n = m)
    (h : absorbBlocks b f (n + 1) s u = absorbBlocks b f (m + 1) s v) :
    u = v ∨ Clash f (compressions b f (n + 1) s u ++ compressions b f (m + 1) s v) := by
  by_cases hsame : (u.drop (b * n)).take b = (v.drop (b * m)).take b
  · obtain rfl := hlast hsame
    exact (eq_or_clash_of_length hu hv h).imp_left And.right
  · refine Or.inr ⟨_, List.mem_append_left _ (last_mem_compressions n s u), _,
      List.mem_append_right _ (last_mem_compressions m s v), ?_, ?_⟩
    · exact fun hpair => hsame (Prod.mk.inj hpair).2
    · rwa [absorbBlocks_succ, absorbBlocks_succ] at h

end Clash
