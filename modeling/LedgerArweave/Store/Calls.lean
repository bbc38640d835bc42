import LedgerArweave.Store.CryptoStore

set_option relaxedAutoImplicit false
set_option autoImplicit false

/-!
# Calls of the SDK

A function that does not branch on what it computes makes a fixed number of calls of the SDK, and
fails exactly if one of them does. The stages that fill a slot are such functions.

## Main definitions

* `Calls` — how many calls of the SDK a function makes.
* `fillDone` — where filling a slot stops.

## Main results

* `calls_cryptoDeriveMasterSeed`, `calls_cryptoInitPrimes`, `calls_cryptoInitKeys` — the calls of
  the stages.
-/

namespace LedgerArweave

open Fallible

/-! ## Counting calls of the SDK -/

/-- A run after one call of the SDK. -/
def StoreRun.spend (r : StoreRun) : StoreRun :=
  { r with faults := r.faults.tail, failed := r.failed || r.faults.headD false }

/-- A run has made `n` calls of the SDK, or has failed because one of them has. -/
structure StoreRun.Called {α : Type} (r : StoreRun) (n : ℕ) (res : Except ZxErr α)
    (r' : StoreRun) : Prop where
  error_iff : true ∈ r.faults.take n ↔ ∃ e, res = .error e
  faults : true ∉ r.faults.take n → r'.faults = r.faults.drop n

/-- The function makes `n` calls of the SDK, and fails exactly if one of them does. -/
def Calls {α : Type} (n : ℕ) (p : StoreM α) : Prop :=
  ∀ r : StoreRun, Ensures p r fun res r' => r.Called n res r'

section Calls

variable {α γ : Type} {n k : ℕ}

/-- A program that has failed has had a failing call. -/
theorem StoreRun.Called.fails {r r' : StoreRun} {e : ZxErr}
    (h : r.Called n (.error e : Except ZxErr α) r') : true ∈ r.faults.take n :=
  h.error_iff.mpr ⟨e, rfl⟩

/-- A program that has succeeded has had no failing call, and has used up its calls. -/
theorem StoreRun.Called.succeeds {r r' : StoreRun} {a : α} (h : r.Called n (.ok a) r') :
    true ∉ r.faults.take n ∧ r'.faults = r.faults.drop n := by
  have hok : true ∉ r.faults.take n := by
    intro hfail
    obtain ⟨e, he⟩ := h.error_iff.mp hfail
    cases he
  exact ⟨hok, h.faults hok⟩

/-- A function that succeeds without a call of the SDK. -/
theorem called_zero {r r' : StoreRun} {a : α} (h : r'.faults = r.faults) : r.Called 0 (.ok a) r' :=
  ⟨iff_of_false List.not_mem_nil nofun, fun _ => h⟩

/-- Returning makes no call. -/
theorem calls_pure (a : α) : Calls 0 (pure a : StoreM α) := fun _ => called_zero rfl

/-- Writing to flash makes no call. -/
theorem calls_writeNv (f : Flash → Flash) : Calls 0 (writeNv f) := fun _ => called_zero rfl

/-- Reading the store makes no call. -/
theorem calls_getStore_bind {f : CryptoStore → StoreM α} (h : ∀ st, Calls n (f st)) :
    Calls n (getStore >>= f) := fun r => h r.store r

/-- A sequence makes the calls of its parts.

**Proof sketch.** If the first part fails, one of its calls has failed. If it succeeds, none of them
has, and the calls of the second part are those that follow. -/
theorem Calls.bind {p : StoreM α} {f : α → StoreM γ} (hp : Calls n p) (hf : ∀ a, Calls k (f a)) :
    Calls (n + k) (p >>= f) := by
  intro r
  have hmem : true ∈ r.faults.take (n + k) ↔
      true ∈ r.faults.take n ∨ true ∈ (r.faults.drop n).take k := by
    rw [List.take_add, List.mem_append]
  refine (hp r).bind ?_ ?_
  · intro a r' hcalled
    obtain ⟨hok, hfaults⟩ := hcalled.succeeds
    apply (hf a r').mono
    rintro res r'' ⟨herror, hrest⟩
    rw [hfaults] at herror hrest
    rw [List.drop_drop] at hrest
    constructor
    · rw [hmem, ← herror]
      exact or_iff_right hok
    · exact fun h => hrest fun h' => h (hmem.mpr (Or.inr h'))
  · intro e r' hcalled
    have hfail := hmem.mpr (Or.inl hcalled.fails)
    exact ⟨iff_of_true hfail ⟨e, rfl⟩, fun h => absurd hfail h⟩

/-- The run of a call of the SDK. -/
theorem exec_sdkCall (x : α) (r : StoreRun) :
    exec (sdkCall x) r = (.ok (if r.faults.headD false then none else some x), r.spend) := by
  obtain ⟨st, faults, failed, written, signed⟩ := r
  cases faults with
  | nil => exact congrArg (_, StoreRun.mk st [] · written signed) (Bool.or_false failed).symm
  | cons b faults =>
    cases b with
    | false =>
      exact congrArg (_, StoreRun.mk st faults · written signed) (Bool.or_false failed).symm
    | true => exact congrArg (_, StoreRun.mk st faults · written signed) (Bool.or_true failed).symm

/-- A call of the SDK whose failure is passed on.

**Proof sketch.** The first entry of the list decides whether this call fails; the rest of the list
is for the calls after it. -/
theorem calls_sdkCall_bind {x : α} {f : Option α → StoreM γ} {e : ZxErr} (hnone : f none = throw e)
    (hsome : Calls n (f (some x))) : Calls (1 + n) (sdkCall x >>= f) := by
  intro r
  have hmem : true ∈ r.faults.take (1 + n) ↔
      r.faults.headD false = true ∨ true ∈ r.faults.tail.take n := by
    cases r.faults with
    | nil => simp
    | cons b faults => simp [Nat.add_comm 1 n, eq_comm]
  apply ensures_bind_of_exec (exec_sdkCall x r)
  cases hhead : r.faults.headD false with
  | true =>
    rw [hhead] at hmem
    have hfail := hmem.mpr (Or.inl rfl)
    rw [if_pos rfl, hnone]
    exact ensures_throw ⟨iff_of_true hfail ⟨e, rfl⟩, fun h => absurd hfail h⟩
  | false =>
    rw [hhead] at hmem
    rw [if_neg Bool.false_ne_true]
    apply (hsome _).mono
    rintro res r' ⟨herror, hrest⟩
    constructor
    · rw [hmem, ← herror]
      exact or_iff_right Bool.false_ne_true
    · intro h
      rw [hrest fun h' => h (hmem.mpr (Or.inr h')), ← List.drop_drop, List.drop_one]
      rfl

end Calls

/-! ## The calls of filling a slot -/

section Fill

variable (sdk : Sdk) (seed : Seed)

/-- Deriving the master seed is one call. -/
theorem calls_cryptoDeriveMasterSeed : Calls 1 (cryptoDeriveMasterSeed sdk seed) := by
  refine calls_sdkCall_bind (n := 0) rfl ?_
  exact calls_getStore_bind fun _ => calls_writeNv _

/-- Filling a prime takes one call for each hash.

**Proof sketch.** By induction on the number of hashes that are left. -/
theorem calls_fillHashes (data : ℕ → Bytes) (k i pos : ℕ) (mem : Bytes) :
    Calls k (fillHashes sdk data k i pos mem) := by
  induction k generalizing i pos mem with
  | zero => exact calls_pure mem
  | succ k ih =>
    unfold fillHashes
    rw [Nat.add_comm]
    refine calls_sdkCall_bind rfl ?_
    exact ih _ _ _

/-- `crypto_derivePrime` calls the hash once for each block, and once for a remainder. -/
theorem calls_cryptoDerivePrime {primeLen : ℕ} (hguard : primeLen * 8 / 256 % 65536 ≤ 255)
    (mem : Bytes) (prime index : ℕ) :
    Calls (primeLen * 8 / 256 % 65536 + if primeLen * 8 % 256 > 0 then 1 else 0)
      (cryptoDerivePrime sdk primeLen mem prime index) := by
  refine calls_getStore_bind fun st => ?_
  dsimp only
  rw [if_neg (Nat.not_lt.mpr hguard)]
  refine (calls_fillHashes sdk _ _ 0 prime mem).bind fun mem' => ?_
  by_cases hrem : primeLen * 8 % 256 > 0
  · rw [if_pos hrem, if_pos hrem]
    exact calls_sdkCall_bind (n := 0) rfl (calls_pure _)
  · rw [if_neg hrem, if_neg hrem]
    exact calls_pure _

/-- Eight hashes fill each prime of the device. -/
theorem calls_cryptoInitPrimes : Calls 18 (cryptoInitPrimes sdk) := by
  have hprime : ∀ mem prime index, Calls 8 (cryptoDerivePrime sdk rsaPrimeLen mem prime index) :=
    @calls_cryptoDerivePrime sdk rsaPrimeLen (by decide)
  refine (hprime _ _ _).bind (k := 10) fun _ => ?_
  refine (hprime _ _ _).bind (k := 2) fun _ => ?_
  refine calls_sdkCall_bind (n := 1) rfl ?_
  refine calls_sdkCall_bind (n := 0) rfl ?_
  exact calls_getStore_bind fun _ => calls_writeNv _

/-- Generating the keys is one call. -/
theorem calls_cryptoInitKeys : Calls 1 (cryptoInitKeys sdk) := by
  refine calls_getStore_bind fun _ => ?_
  refine calls_sdkCall_bind (n := 0) rfl ?_
  refine (calls_writeNv _).bind (k := 0) fun _ => ?_
  exact (calls_writeNv _).bind fun _ => calls_writeNv _

/-- How many of the writes that fill a slot are performed before a call of the SDK fails. -/
def fillDone (faults : List Bool) : ℕ :=
  if true ∈ faults.take 1 then 0
  else if true ∈ (faults.drop 1).take 18 then 1
  else if true ∈ (faults.drop 19).take 1 then 2
  else 5

/-- An interrupted set-up has changed nothing, or has stored the master seed, or the primes, or
everything. -/
theorem fillDone_cases (faults : List Bool) :
    fillDone faults = 0 ∨ fillDone faults = 1 ∨ fillDone faults = 2 ∨ fillDone faults = 5 := by
  unfold fillDone
  split_ifs <;> decide

end Fill

end LedgerArweave
