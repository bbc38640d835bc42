import LedgerArweave.Store.Stages

set_option relaxedAutoImplicit false
set_option autoImplicit false

/-!
# The bytes of a prime

`crypto_derivePrime` fills a prime with hashes, block by block, and copies the beginning of one
more hash if the length is not a multiple of 32. The copy takes one byte more than is left, so
that the prime is followed by a byte of the hash. The length the application is built with has no
remainder.

## Main definitions

* `primeStream` — the hashes one after the other, cut off at the length of the prime.
* `DerivesPrime` — they are what is written, and nothing behind them.

## Main results

* `length_primeBytes_of_guard` — how many bytes are written.
* `derivesPrime_iff` — the lengths for which the prime is filled exactly.
-/

namespace LedgerArweave

open Fallible

/-! ## What should be written -/

section Primes

variable (sdk : Sdk)

/-- Byte `j` of a prime: byte `j % 32` of the hash with number `j / 32`. -/
def primeByte (masterSeed : Block 32) (index j : ℕ) : UInt8 :=
  (sdk.sha256 (primeData index masterSeed (j / 32))).val.getD (j % 32) 0

/-- The bytes of a prime of `primeLen` bytes. -/
def primeStream (primeLen : ℕ) (masterSeed : Block 32) (index : ℕ) : Bytes :=
  (List.range primeLen).map (primeByte sdk masterSeed index)

/-- `crypto_derivePrime` writes the bytes of the prime at its place and nothing else, whatever the
memory holds. -/
def DerivesPrime (primeLen index : ℕ) (r : StoreRun) : Prop :=
  ∀ (mem : Bytes) (prime : ℕ), prime + primeLen ≤ mem.length →
    (exec (cryptoDerivePrime sdk primeLen mem prime index) r).1 =
      .ok (overwrite mem prime (primeStream sdk primeLen r.store.current.masterSeed index))

/-- The bytes derived for a prime are as many as its length. -/
theorem length_primeStream (primeLen : ℕ) (masterSeed : Block 32) (index : ℕ) :
    (primeStream sdk primeLen masterSeed index).length = primeLen := by
  rw [primeStream, List.length_map, List.length_range]

/-- The bytes of a hash, one after the other. -/
theorem map_primeByte_block (masterSeed : Block 32) (index k : ℕ) :
    (List.range 32).map (fun j => primeByte sdk masterSeed index (32 * k + j)) =
      (sdk.sha256 (primeData index masterSeed k)).val := by
  have hlen := (sdk.sha256 (primeData index masterSeed k)).property
  apply List.ext_getElem
  · rw [List.length_map, List.length_range, hlen]
  · intro j hj hj'
    rw [hlen] at hj'
    rw [List.getElem_map, List.getElem_range, primeByte, Nat.mul_add_div (by decide),
      Nat.mul_add_mod, Nat.div_eq_of_lt hj', Nat.mod_eq_of_lt hj', Nat.add_zero,
      List.getD_eq_getElem?_getD, List.getElem?_eq_getElem, Option.getD_some]

/-- Primes without a remainder are whole hashes. -/
theorem primeStream_mul (masterSeed : Block 32) (index k : ℕ) :
    primeStream sdk (32 * k) masterSeed index =
      (List.range k).flatMap fun j => (sdk.sha256 (primeData index masterSeed j)).val := by
  induction k with
  | zero => rfl
  | succ k ih =>
    have hblock := map_primeByte_block sdk masterSeed index k
    rw [primeStream, Nat.mul_succ, List.range_add, List.map_append, List.map_map,
      List.range_succ (n := k),
      List.flatMap_append, ← ih, List.flatMap_singleton, ← hblock]
    rfl

/-! ## What is written -/

/-- The number of bytes written: whole hashes, and for a remainder one byte more than it has. -/
theorem length_primeBytes_of_guard (primeLen : ℕ) (masterSeed : Block 32) (index : ℕ) :
    (primeBytes sdk primeLen masterSeed index).length =
      32 * (primeLen / 32 % 65536) + if primeLen % 32 = 0 then 0 else primeLen % 32 + 1 := by
  have hhash := (sdk.sha256 (primeData index masterSeed (primeLen * 8 / 256 % 65536))).property
  have hnum : primeLen * 8 / 256 = primeLen / 32 := by omega
  have hrem : primeLen * 8 % 256 = primeLen % 32 * 8 := by omega
  rw [primeBytes, List.length_append, length_flatMap_blocks, List.length_range, hnum, hrem]
  by_cases hzero : primeLen % 32 = 0
  · simp [hzero]
  · rw [if_pos (by omega), if_neg hzero, List.length_take]
    rw [hnum] at hhash
    omega

/-- Without a remainder, and if the number of hashes does not wrap around, the prime is filled. -/
theorem primeBytes_eq_primeStream {primeLen : ℕ} (hrem : primeLen % 32 = 0)
    (hnum : primeLen / 32 ≤ 255) (masterSeed : Block 32) (index : ℕ) :
    primeBytes sdk primeLen masterSeed index = primeStream sdk primeLen masterSeed index := by
  obtain ⟨k, rfl⟩ := Nat.dvd_of_mod_eq_zero hrem
  have hk : 32 * k * 8 / 256 % 65536 = k := by omega
  rw [primeStream_mul, primeBytes, if_neg (by omega), List.append_nil, hk]

/-- What `crypto_derivePrime` returns if no call fails. -/
theorem exec_cryptoDerivePrime {primeLen : ℕ} (hguard : primeLen * 8 / 256 % 65536 ≤ 255)
    {mem : Bytes} {prime : ℕ} (hprime : prime ≤ mem.length) (index : ℕ) {r : StoreRun}
    (hok : true ∉ r.faults) :
    (exec (cryptoDerivePrime sdk primeLen mem prime index) r).1 =
      .ok (overwrite mem prime (primeBytes sdk primeLen r.store.current.masterSeed index)) := by
  obtain ⟨herror, -⟩ := calls_cryptoDerivePrime sdk hguard mem prime index r
  obtain ⟨-, hout⟩ := cryptoDerivePrime_spec sdk primeLen hprime index r
  rcases hres : (exec (cryptoDerivePrime sdk primeLen mem prime index) r).1 with e | out
  · exact absurd (List.mem_of_mem_take (herror.mpr ⟨e, hres⟩)) hok
  · rw [hout out hres]

/-- **The lengths for which a prime is filled exactly.** Of the lengths that pass the check of the
number of hashes, they are the multiples of 32 for which this number does not wrap around.

**Proof sketch.** What is written is independent of the memory, so if it looks like the bytes of the
prime in every memory, it has their length. A remainder of `n` bytes is written with `n + 1`, and
a number of hashes that has wrapped around is too small. -/
theorem derivesPrime_iff (primeLen index : ℕ) (r : StoreRun)
    (hguard : primeLen * 8 / 256 % 65536 ≤ 255) (hok : true ∉ r.faults) :
    DerivesPrime sdk primeLen index r ↔ primeLen % 32 = 0 ∧ primeLen / 32 ≤ 255 := by
  constructor
  · intro h
    have hwritten : primeBytes sdk primeLen r.store.current.masterSeed index =
        primeStream sdk primeLen r.store.current.masterSeed index := by
      have hbytes : Nontrivial UInt8 := ⟨0, 1, by decide⟩
      apply eq_of_overwrite_eq
      intro mem _ hlong
      rw [length_primeStream] at hlong
      have hres := h mem 0 (by omega)
      rw [exec_cryptoDerivePrime sdk hguard (Nat.zero_le _) index hok] at hres
      exact Except.ok.inj hres
    have hlen := congrArg List.length hwritten
    rw [length_primeBytes_of_guard, length_primeStream] at hlen
    split_ifs at hlen <;> omega
  · rintro ⟨hrem, hnum⟩ mem prime hmem
    rw [exec_cryptoDerivePrime sdk hguard (by omega) index hok,
      primeBytes_eq_primeStream sdk hrem hnum]

/-- The length the application is built with, on a store without keys. -/
theorem derivesPrime_rsaPrimeLen :
    DerivesPrime sampleSdk rsaPrimeLen 1 (CryptoStore.start (.reset .zero) []) :=
  (derivesPrime_iff sampleSdk rsaPrimeLen 1 _ (by decide) List.not_mem_nil).mpr (by decide)

/-- A prime of 33 bytes is followed by a byte of its last hash. -/
theorem not_derivesPrime :
    let r := CryptoStore.start (.reset .zero) []
    let res := (exec (cryptoDerivePrime sampleSdk 33 (List.replicate 40 0xFF) 0 0) r).1
    33 * 8 / 256 % 65536 ≤ 255 ∧ true ∉ r.faults ∧
      res = .ok (List.replicate 34 0 ++ List.replicate 6 0xFF) ∧
      ¬ DerivesPrime sampleSdk 33 0 r := by
  intro r res
  have hres : res = .ok (List.replicate 34 0 ++ List.replicate 6 0xFF) := by decide +kernel
  refine ⟨by decide, List.not_mem_nil, hres, ?_⟩
  intro h
  have hout : res = _ := h (List.replicate 40 0xFF) 0 (by decide)
  rw [hres] at hout
  exact absurd hout (by decide +kernel)

end Primes

end LedgerArweave
