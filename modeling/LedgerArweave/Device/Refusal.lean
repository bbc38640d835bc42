import LedgerArweave.Device.Upload
import LedgerArweave.Parser.Recorded

set_option relaxedAutoImplicit false
set_option autoImplicit false

/-!
# What a refused transaction leaves behind

`tx_parse` and `tx_parse_reset` clear `tx_obj`, a static of `tx.c` that no other function uses, and
not `parser_tx_obj`, which the parser fills and which the items and the digest are taken from. So
what a refused transaction has stored stays, among the members of the transaction parsed before.

## Main definitions

* `NoMixture` — the object is cleared or what it was, and in particular well-formed.

## Main results

* `txParsed_tx` — the object after `tx_parse`.
* `txParsed_cut_off`, `txParsed_tagsCount` — what stays of a refused transaction.
* `noMixture_iff` — a refused transaction leaves no mixture exactly if all it stores is there
  already.
-/

namespace LedgerArweave

open Fallible

/-- The object after a refused transaction is cleared or what it was; in particular it has at most
the maximal number of tags, and no element has its length from one transaction and its address from
another. -/
structure NoMixture (before after : ParserTx) : Prop where
  cleared_or_eq : after = .zero ∨ after = before
  tagsCount_le : after.tagsCount ≤ maxNumberTags
  element : ∀ v, Slot.get after v = ⟨0, 0⟩ ∨ Slot.get after v = Slot.get before v

/-- Being cleared or unchanged is all there is to it.

**Proof sketch.** A cleared object has no tags and only empty elements; one that is unchanged has
what it had. -/
theorem noMixture_iff_cleared_or_eq {before after : ParserTx}
    (hcount : before.tagsCount ≤ maxNumberTags) :
    NoMixture before after ↔ after = .zero ∨ after = before := by
  constructor
  · exact NoMixture.cleared_or_eq
  · intro h
    refine ⟨h, ?_, ?_⟩
    · rcases h with rfl | rfl
      · exact Nat.zero_le _
      · exact hcount
    · intro v
      rcases h with rfl | rfl
      · left
        cases v <;> rfl
      · exact .inr rfl

section Refusal

variable {σ : Type} (pf : Platform σ)

/-- The object after `tx_parse`. -/
theorem txParsed_tx (d : Device σ) :
    (txParsed pf d).tx = members.assign (recorded (txBuffer pf d)) d.parser.tx :=
  parserParse_tx _ _

variable {pf} in
/-- **The mixture**: an element that is cut off has its length from the refused transaction and its
address from before.

**Proof sketch.** The recorded members are distinct, so the length is read back. The address is none
of them and stays. -/
theorem txParsed_cut_off {d : Device σ} {v : Slot} {n : ℕ}
    (hlen : (.len v, n) ∈ recorded (txBuffer pf d))
    (hptr : .ptr v ∉ (recorded (txBuffer pf d)).map Prod.fst) :
    Slot.get (txParsed pf d).tx v = ⟨n, (Slot.get d.parser.tx v).ptr⟩ := by
  have hnew := members.get_assign (nodup_recorded _) hlen d.parser.tx
  have hold := members.get_assign_of_notMem hptr d.parser.tx
  rw [← txParsed_tx] at hnew hold
  exact congrArg₂ ParserElement.mk hnew hold

variable {pf} in
/-- The number of tags stays, however large it is. -/
theorem txParsed_tagsCount {d : Device σ} {n : ℕ}
    (h : (.tagsCount, n) ∈ recorded (txBuffer pf d)) : (txParsed pf d).tx.tagsCount = n := by
  rw [txParsed_tx]
  exact members.get_assign (nodup_recorded _) h d.parser.tx

/-- **When a refused transaction leaves no mixture.** If `tx_parse` returns an error, the object is
cleared or what it was exactly if every length, every address and the number of tags that the
received bytes make the parser store are there already.

**Proof sketch.** What is stored is a list of assignments to different members, so it leaves the
object alone exactly if it assigns what is there. It leaves a cleared object only if it is empty. -/
theorem noMixture_iff (h h' : Handler σ) (msg : String)
    (hcount : h.dev.parser.tx.tagsCount ≤ maxNumberTags)
    (herror : (txParse pf).exec h = (.ok (some msg), h')) :
    NoMixture h.dev.parser.tx h'.dev.parser.tx ↔
      ∀ e ∈ recorded (txBuffer pf h.dev), members.get e.1 h.dev.parser.tx = e.2 := by
  rw [exec_txParse, Prod.mk.injEq] at herror
  have htx : h'.dev.parser.tx =
      members.assign (recorded (txBuffer pf h.dev)) h.dev.parser.tx := by
    rw [← herror.2, ← txParsed_tx]
  have hsame := members.assign_eq_self_iff (nodup_recorded (txBuffer pf h.dev)) h.dev.parser.tx
  rw [noMixture_iff_cleared_or_eq hcount, htx, hsame]
  constructor
  · rintro (hcleared | hstored)
    · rw [recorded_eq_nil_of_zero _ hcleared]
      exact fun _ he => absurd he List.not_mem_nil
    · exact hstored
  · exact .inr

/-- An accepted transaction is sent again without its last byte: its lengths, its addresses and the
number of its tags are stored once more, and the object is what it was.

**Proof sketch.** By the theorem, after evaluating what is recorded. -/
theorem noMixture_cut :
    let t := sampleTx [⟨ascii "n", ascii "a"⟩] [2]
    let d : Device Bytes := { Device.fresh samplePlatform with
      buffering := (transaction.encode t).dropLast, parser := sampleState t }
    let r := (txParse samplePlatform).exec (d.start [])
    (recorded (txBuffer samplePlatform d)).length = 20 ∧
      r.1 = .ok (some "Unexpected buffer end") ∧ NoMixture d.parser.tx r.2.dev.parser.tx := by
  intro t d r
  have herror : r.1 = .ok (some "Unexpected buffer end") := by decide +kernel
  have hsame : ∀ e ∈ recorded (txBuffer samplePlatform d),
      members.get e.1 d.parser.tx = e.2 := by decide +kernel
  have hcount : (recorded (txBuffer samplePlatform d)).length = 20 := by decide +kernel
  have hmax : (d.start []).dev.parser.tx.tagsCount ≤ maxNumberTags := by decide +kernel
  have hrun : r = (.ok (some "Unexpected buffer end"), r.2) := by rw [← herror]
  exact ⟨hcount, herror, (noMixture_iff samplePlatform (d.start []) r.2 _ hmax hrun).mpr hsame⟩

end Refusal

/-! ## A transaction with too many tags -/

/-- The bytes of a transaction up to its number of tags, which is 17. -/
def seventeenTags : Bytes :=
  element.encode formatTwo ++ element.encode (zeroBlock 512).val ++
    (List.replicate 4 (element.encode [])).flatten ++ be16.encode 17

/-- Received by a device that has not parsed anything before, these bytes are refused, but the
number of tags stays in the object, which is neither cleared nor what it was. -/
theorem not_noMixture :
    let h := Device.start { Device.fresh samplePlatform with buffering := seventeenTags } []
    let r := (txParse samplePlatform).exec h
    h.dev.parser.tx.tagsCount ≤ maxNumberTags ∧ r.1 = .ok (some "Value out of range") ∧
      r.2.dev.parser.tx.tagsCount = 17 ∧ ¬ NoMixture h.dev.parser.tx r.2.dev.parser.tx := by
  intro h r
  have hcount : r.2.dev.parser.tx.tagsCount = 17 := by decide +kernel
  have hmsg : r.1 = .ok (some "Value out of range") := by decide +kernel
  refine ⟨by decide, hmsg, hcount, ?_⟩
  intro hclean
  have hmax := hclean.tagsCount_le
  rw [hcount] at hmax
  exact absurd hmax (by decide)

end LedgerArweave
