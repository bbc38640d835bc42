import Mathlib.Data.List.Basic

set_option relaxedAutoImplicit false
set_option autoImplicit false

/-!
# Computations that hash

`Hashed β α` is a computation of a value of type `α` that may apply a hash function to words
over `β`, together with the words it has hashed, in order. The hash function itself is an
arbitrary function: a statement about all of them that ends in "or two different hashed words
collide" is what collision resistance gives for a particular one.

## Main definitions

* `Hashed`, `Hashed.hash` — the computations and their one primitive.
* `Collision` — two different words of a list with the same hash.

## Main results

* `eq_or_collision` — two hashed words with the same hash are equal or collide.
* `Collision.mono` — a collision stays one when more words are hashed.
-/

/-- A value together with the words hashed while computing it. -/
structure Hashed (β α : Type) where
  /-- The value computed. -/
  val : α
  /-- The words hashed, first to last. -/
  asked : List (List β)

namespace Hashed

variable {β α γ δ : Type}

/-- What is hashed in a sequence is what its parts hash, in order. -/
instance : Monad (Hashed β) where
  pure a := ⟨a, []⟩
  bind x f := ⟨(f x.val).val, x.asked ++ (f x.val).asked⟩

/-- The value of a computation that hashes nothing. -/
@[simp] theorem val_pure (a : α) : (pure a : Hashed β α).val = a := rfl

/-- Returning hashes nothing. -/
@[simp] theorem asked_pure (a : α) : (pure a : Hashed β α).asked = [] := rfl

/-- The value of a sequence is that of its second part. -/
@[simp] theorem val_bind (x : Hashed β α) (f : α → Hashed β γ) :
    (x >>= f).val = (f x.val).val := rfl

/-- A sequence hashes what its parts hash, in order. -/
@[simp] theorem asked_bind (x : Hashed β α) (f : α → Hashed β γ) :
    (x >>= f).asked = x.asked ++ (f x.val).asked := rfl

/-- Computations are equal if they compute the same value from the same hashed words. -/
@[ext] theorem ext {x y : Hashed β α} (hv : x.val = y.val) (ha : x.asked = y.asked) : x = y := by
  cases x
  cases y
  simp_all

/-- The laws hold because concatenation is associative. -/
instance : LawfulMonad (Hashed β) :=
  LawfulMonad.mk' (Hashed β) (fun _ => ext rfl (List.append_nil _)) (fun _ _ => rfl)
    (fun _ _ _ => ext rfl (List.append_assoc _ _ _))

/-- Hash one word. -/
def hash (H : List β → δ) (w : List β) : Hashed β δ := ⟨H w, [w]⟩

/-- Hashing returns the hash. -/
@[simp] theorem val_hash (H : List β → δ) (w : List β) : (hash H w).val = H w := rfl

/-- Hashing records its word. -/
@[simp] theorem asked_hash (H : List β → δ) (w : List β) : (hash H w).asked = [w] := rfl

end Hashed

/-- Two different words of the list have the same hash. -/
def Collision {β δ : Type} (H : List β → δ) (ws : List (List β)) : Prop :=
  ∃ x ∈ ws, ∃ y ∈ ws, x ≠ y ∧ H x = H y

section Collision

variable {β δ : Type} {H : List β → δ} {ws ws' : List (List β)}

/-- A collision among some words is one among more words. -/
theorem Collision.mono (h : Collision H ws) (hsub : ws ⊆ ws') : Collision H ws' := by
  obtain ⟨x, hx, y, hy, hne, heq⟩ := h
  exact ⟨x, hsub hx, y, hsub hy, hne, heq⟩

/-- Two words of the list with the same hash are equal, or there is a collision. -/
theorem eq_or_collision {x y : List β} (hx : x ∈ ws) (hy : y ∈ ws) (h : H x = H y) :
    x = y ∨ Collision H ws := by
  by_cases hxy : x = y
  · exact Or.inl hxy
  · exact Or.inr ⟨x, hx, y, hy, hxy, h⟩

/-- Two words of different length with the same hash are a collision. -/
theorem collision_of_length_ne {x y : List β} (hx : x ∈ ws) (hy : y ∈ ws) (h : H x = H y)
    (hlen : x.length ≠ y.length) : Collision H ws :=
  ⟨x, hx, y, hy, fun hxy => hlen (by rw [hxy]), h⟩

end Collision
