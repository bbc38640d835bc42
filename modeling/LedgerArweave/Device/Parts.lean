import LedgerArweave.Device.Steps

set_option relaxedAutoImplicit false
set_option autoImplicit false

/-!
# Requests for a part

`GET_PK` and `GET_SIG` hand out a block of 512 bytes in two parts, chosen by `P2`. A request that
carries data is refused, and so is one the store has nothing for.

## Main definitions

* `requestOf` — the parameters of a command that reaches its handler.
* `CryptoStore.handOut` — a part of the signature, and the store that is left.

## Main results

* `step_requested` — the step of a command that reaches its handler.
* `step_getSig`, `step_getPk` — the steps of requests for a part.
-/

namespace LedgerArweave

open Fallible

section Parts

variable {σ : Type}

/-! ## Commands that reach their handlers -/

/-- `P1`, `P2` and the length byte of a command that passes all checks before its handler. -/
def requestOf (ins : UInt8) (d : Device σ) : DeviceEvent → Option (UInt8 × UInt8 × UInt8)
  | .apdu a none _ =>
    match a.bytes with
    | cla :: ins' :: p1 :: p2 :: lc :: _ =>
      if d.store.deviceInitialized = true ∧ cla = claByte ∧ ins' = ins then some (p1, p2, lc)
      else none
    | _ => none
  | _ => none

section Command

variable {d : Device σ} {e : DeviceEvent} {ins p1 p2 lc : UInt8}

/-- The bytes of such a command. -/
theorem eq_of_requestOf (hr : requestOf ins d e = some (p1, p2, lc)) :
    ∃ a faults payload, e = .apdu a none faults ∧
      a.bytes = claByte :: ins :: p1 :: p2 :: lc :: payload ∧
      d.store.deviceInitialized = true := by
  unfold requestOf at hr
  split at hr
  · split at hr
    · rename_i a faults _ cla ins' p1' p2' lc' payload hbytes
      split_ifs at hr with hcond
      obtain ⟨hinit, rfl, rfl⟩ := hcond
      simp only [Option.some.injEq, Prod.mk.injEq] at hr
      obtain ⟨rfl, rfl, rfl⟩ := hr
      exact ⟨a, faults, payload, rfl, hbytes, hinit⟩
    · exact absurd hr (by simp)
  · exact absurd hr (by simp)

/-- A command with these bytes reaches its handler. -/
theorem requestOf_eq_some {a : Apdu} {payload : Bytes} (faults : List Bool)
    (hbytes : a.bytes = claByte :: ins :: p1 :: p2 :: lc :: payload)
    (hinit : d.store.deviceInitialized = true) :
    requestOf ins d (.apdu a none faults) = some (p1, p2, lc) := by
  simp [requestOf, hbytes, hinit]

variable (pf : Platform σ)

/-- What `handleApdu` does with a command of the right class and length. -/
theorem step_dispatched {a : Apdu} {payload : Bytes} (pinCheck : Option ErrorCode)
    (faults : List Bool) (hbytes : a.bytes = claByte :: ins :: p1 :: p2 :: lc :: payload)
    (hinit : d.store.deviceInitialized = true) :
    (device pf).step d (.apdu a pinCheck faults) =
      (afterDispatch ((switchIns pf ins a.bytes.length pinCheck).exec
        ((d.receive a).start faults))).2.finish := by
  have hio := receive_ioApduBuffer d a
  rw [hbytes] at hio
  have hins : ((d.receive a).start faults).dev.ioApduBuffer.getD offsetIns 0 = ins :=
    congrArg (fun io => io.getD offsetIns 0) hio
  have hlen : apduMinLength ≤ a.bytes.length := by
    rw [hbytes]
    exact Nat.le_add_left 5 payload.length
  rw [step_apdu, exec_dispatchApdu pf (congrArg (fun io => io.getD offsetCla 0) hio)
    hlen hinit, hins]

/-- **The step of a command that reaches its handler.**

**Proof sketch.** The checks before the handler pass, and the bytes of the command are still at the
front of the I/O buffer. -/
theorem step_requested (hr : requestOf ins d e = some (p1, p2, lc)) :
    ∃ a faults, e = .apdu a none faults ∧
      (device pf).step d e =
        (afterDispatch ((switchIns pf ins a.bytes.length none).exec
          ((d.receive a).start faults))).2.finish ∧
      (d.receive a).ioApduBuffer.getD offsetPayloadType 0 = p1 ∧
      (d.receive a).ioApduBuffer.getD offsetP2 0 = p2 ∧
      (d.receive a).ioApduBuffer.getD offsetDataLen 0 = lc := by
  obtain ⟨a, faults, payload, rfl, hbytes, hinit⟩ := eq_of_requestOf hr
  have hio := receive_ioApduBuffer d a
  rw [hbytes] at hio
  refine ⟨a, faults, rfl, step_dispatched pf none faults hbytes hinit, ?_, ?_, ?_⟩
  · exact congrArg (fun io => io.getD offsetPayloadType 0) hio
  · exact congrArg (fun io => io.getD offsetP2 0) hio
  · exact congrArg (fun io => io.getD offsetDataLen 0) hio

/-- The commands for which the device must not be locked. -/
def guardedIns : List UInt8 := [insGetAddr, insSign, insGetSig, insGetPk]

/-- A locked device refuses before it processes anything. -/
theorem step_locked {a : Apdu} {payload : Bytes} (hins : ins ∈ guardedIns) (code : ErrorCode)
    (faults : List Bool) (hbytes : a.bytes = claByte :: ins :: p1 :: p2 :: lc :: payload)
    (hinit : d.store.deviceInitialized = true) :
    ∃ io, (device pf).step d (.apdu a (some code) faults) =
      (d.setIo io, ⟨some (statusReply code.val), none, []⟩) := by
  have hswitch : (switchIns pf ins a.bytes.length (some code)).exec ((d.receive a).start faults) =
      (.error code.val, (d.receive a).start faults) := by
    simp only [guardedIns, List.mem_cons, List.not_mem_nil, or_false] at hins
    rcases hins with rfl | rfl | rfl | rfl <;> rfl
  obtain ⟨io, hfinish⟩ := finish_afterDispatch_code code.val
    (h := (d.receive a).start faults) rfl rfl
  refine ⟨io, ?_⟩
  rw [step_dispatched pf _ faults hbytes hinit, hswitch]
  exact hfinish

end Command

/-! ## What the handlers share -/

/-- The half of a block. -/
theorem length_halve (b : Block 512) {i : ℕ} (hi : i ≤ 1) : (halve b i).length = 256 := by
  rw [halve, List.length_take, List.length_drop, b.property, rsaModulusHalve]
  omega

section Handler

variable {p : ℕ → HandlerM σ (Except ZxErr Bytes)} {h : Handler σ}

/-- A request with data is refused. -/
theorem finish_handleGetPart_data (hlc : h.dev.ioApduBuffer.getD offsetDataLen 0 ≠ 0)
    (hasynch : h.asynchReply = false) :
    ∃ io, (afterDispatch ((handleGetPart p).exec h)).2.finish =
      (h.dev.setIo io, ⟨some (statusReply apduCodeCommandNotAllowed), h.parsed, h.signed⟩) := by
  rw [handleGetPart, setTx, exec_bind_ok (exec_modify _ _), exec_ioByte_bind]
  rw [exec_throwIf_pos _ hlc]
  exact finish_afterDispatch_code _ rfl hasynch

/-- The reply to a request for a part that may be there. -/
def partReply : Except ZxErr Bytes → Bytes
  | .ok part => part ++ statusReply apduCodeOk
  | .error _ => statusReply apduCodeConditionsNotSatisfied

/-- A request without data is answered with the part if there is one.

**Proof sketch.** By following the handler: it clears the I/O buffer, gets the part, and writes it
with the status word behind it. -/
theorem finish_handleGetPart {h' : Handler σ} {res : Except ZxErr Bytes}
    (hlc : h.dev.ioApduBuffer.getD offsetDataLen 0 = 0) (hasynch : h'.asynchReply = false)
    (hlen : ∀ part, res = .ok part → part.length = 256)
    (hrun : (p (h.dev.ioApduBuffer.getD offsetP2 0).toNat).exec
      { h with dev := h.dev.setIo (zeros ioApduBufferSize), tx := 0 } = (.ok res, h')) :
    ∃ io, (afterDispatch ((handleGetPart p).exec h)).2.finish =
      (h'.dev.setIo io, ⟨some (partReply res), h'.parsed, h'.signed⟩) := by
  rw [handleGetPart, setTx, exec_bind_ok (exec_modify _ _), exec_ioByte_bind]
  rw [exec_throwIf_neg _ (not_not.mpr hlc), exec_ioByte_bind, zeroIo,
    exec_bind_ok (exec_modifyDevice _ _)]
  dsimp only
  have hrun' : (p (h.dev.ioApduBuffer.getD offsetP2 0).toNat).exec
      { h with
        dev := { h.dev with ioApduBuffer := zeros ioApduBufferSize }
        tx := 0 } = (.ok res, h') := hrun
  rw [exec_bind_ok hrun']
  cases res with
  | error e => exact finish_afterDispatch_code _ rfl hasynch
  | ok part =>
    have hpart := hlen part rfl
    have hwrite : overwrite h'.dev.ioApduBuffer 0 part =
        part ++ h'.dev.ioApduBuffer.drop part.length := by
      rw [overwrite, List.take_zero, List.nil_append, Nat.zero_add]
    exact finish_afterDispatch apduCodeOk (h := { h' with
      dev := { h'.dev with ioApduBuffer := overwrite h'.dev.ioApduBuffer 0 part }
      tx := 256 }) _ hwrite hpart.symm hasynch

end Handler

/-! ## The signature -/

/-- The store after the signature has been erased. -/
def CryptoStore.spent (st : CryptoStore) : CryptoStore :=
  { st with flash := st.flash.setSig st.slotInUse (zeroBlock 512), signatureSet := 0 }

/-- A part of the signature, and the store that is left: the second part is handed out once. -/
def CryptoStore.handOut (st : CryptoStore) (index : ℕ) : Except ZxErr Bytes × CryptoStore :=
  if st.signatureSet ≠ 1 then (.error .invalidCryptoSettings, st)
  else if index > 1 then (.error .outOfBounds, st)
  else (.ok (halve (st.flash.sigs st.slotInUse) index), if index = 1 then st.spent else st)

/-- **`crypto_getsignature_part`** hands out a part of the signature.

**Proof sketch.** By cases: without a signature, with an index above 1, and with one of the two
halves. -/
theorem exec_cryptoGetsignaturePart (r : StoreRun) {bufferLen : ℕ}
    (hlen : ¬ bufferLen < minBufferLen) (index : ℕ) :
    ∃ r', (cryptoGetsignaturePart bufferLen index).exec r = ((r.store.handOut index).1, r') ∧
      r'.store = (r.store.handOut index).2 ∧ r'.signed = r.signed := by
  have hstore : getStore.exec r = (.ok r.store, r) := rfl
  unfold CryptoStore.handOut
  rw [cryptoGetsignaturePart, exec_bind_ok hstore]
  by_cases hset : r.store.signatureSet = 1
  swap
  · have hisset : ¬ isSigSet r.store = true := by
      intro htrue
      exact hset (beq_iff_eq.mp htrue)
    rw [if_pos (Or.inl hisset), if_pos hset]
    exact ⟨r, rfl, rfl, rfl⟩
  have hisset : isSigSet r.store = true := beq_iff_eq.mpr hset
  rw [if_neg (by simp [hisset, hlen]), if_neg (not_not.mpr hset), cryptoSignaturePart,
    exec_bind_ok hstore, if_neg (not_not.mpr hset)]
  by_cases hindex : index > 1
  · rw [if_pos hindex, if_pos hindex]
    exact ⟨r, rfl, rfl, rfl⟩
  rw [if_neg hindex, if_neg hindex]
  by_cases hone : index = 1
  · rw [if_pos hone, if_pos hone]
    exact ⟨_, rfl, rfl, rfl⟩
  · rw [if_neg hone, if_neg hone]
    exact ⟨r, rfl, rfl, rfl⟩

/-- A part of the public key has 256 bytes. -/
theorem length_cryptoGetpubkeyPart {st : CryptoStore} {bufferLen index : ℕ} {part : Bytes}
    (hpart : cryptoGetpubkeyPart st bufferLen index = .ok part) : part.length = 256 := by
  unfold cryptoGetpubkeyPart cryptoPubkeyPart at hpart
  split_ifs at hpart with hinit hinit' hindex
  split at hpart
  · exact absurd hpart (by simp)
  · obtain rfl := Except.ok.inj hpart
    exact length_halve _ (Nat.le_of_not_lt hindex)

/-- A part of the signature has 256 bytes. -/
theorem CryptoStore.length_handOut {st : CryptoStore} {index : ℕ} {part : Bytes}
    (hpart : (st.handOut index).1 = .ok part) : part.length = 256 := by
  unfold CryptoStore.handOut at hpart
  split_ifs at hpart with hset hindex hone
  all_goals
    obtain rfl := Except.ok.inj hpart
    exact length_halve _ (Nat.le_of_not_lt hindex)

section Steps

variable (pf : Platform σ) {d : Device σ} {e : DeviceEvent} {p1 index lc : UInt8}

/-- **The step of `GET_SIG`.**

**Proof sketch.** The command reaches its handler. A payload is refused; without one,
`finish_handleGetPart` applies to what `crypto_getsignature_part` does to the store. -/
theorem step_getSig (hr : requestOf insGetSig d e = some (p1, index, lc)) :
    (lc ≠ 0 → ∃ io, (device pf).step d e =
      (d.setIo io, ⟨some (statusReply apduCodeCommandNotAllowed), none, []⟩)) ∧
    (lc = 0 → ∃ io, (device pf).step d e =
      (Device.setIo { d with store := (d.store.handOut index.toNat).2 } io,
        ⟨some (partReply (d.store.handOut index.toNat).1), none, []⟩)) := by
  obtain ⟨a, faults, rfl, hstep, -, hp2, hdata⟩ := step_requested pf hr
  have hswitch : switchIns pf insGetSig a.bytes.length none = handleGetSigPart := rfl
  rw [hstep, hswitch]
  constructor
  · intro hlc
    exact finish_handleGetPart_data (h := (d.receive a).start faults) (hdata.trans_ne hlc) rfl
  · intro hlc
    obtain ⟨r, hrun, hst, hsigned⟩ := exec_cryptoGetsignaturePart (d.store.start faults)
      (by decide : ¬ ioApduBufferSize - 3 < minBufferLen) index.toNat
    have hpart : (runStore (cryptoGetsignaturePart (ioApduBufferSize - 3) index.toNat)).exec
        { (d.receive a).start faults with
          dev := (d.receive a).setIo (zeros ioApduBufferSize)
          tx := 0 } = (.ok (d.store.handOut index.toNat).1, {
        (d.receive a).start faults with
          dev := { d with
            store := (d.store.handOut index.toNat).2
            ioApduBuffer := zeros ioApduBufferSize }
          faults := r.faults
          signed := [] }) := by
      have hrun' : (cryptoGetsignaturePart (ioApduBufferSize - 3) index.toNat).exec
          (CryptoStore.start ((d.receive a).setIo (zeros ioApduBufferSize)).store faults) =
          ((d.store.handOut index.toNat).1, r) := hrun
      have hnone : r.signed = [] := hsigned
      rw [exec_runStore]
      dsimp only [Device.start]
      rw [hrun', hst, hnone]
      rfl
    rw [← hp2] at hpart ⊢
    exact finish_handleGetPart
      (p := fun index => runStore (cryptoGetsignaturePart (ioApduBufferSize - 3) index))
      (h := (d.receive a).start faults) (hdata.trans hlc) rfl
      (fun _ => CryptoStore.length_handOut) hpart

/-- **The step of `GET_PK`.**

**Proof sketch.** As for `GET_SIG`, with a part that is only read. -/
theorem step_getPk (hr : requestOf insGetPk d e = some (p1, index, lc)) :
    (lc ≠ 0 → ∃ io, (device pf).step d e =
      (d.setIo io, ⟨some (statusReply apduCodeCommandNotAllowed), none, []⟩)) ∧
    (lc = 0 → ∃ io, (device pf).step d e =
      (d.setIo io, ⟨some (partReply
        (cryptoGetpubkeyPart d.store (ioApduBufferSize - 3) index.toNat)), none, []⟩)) := by
  obtain ⟨a, faults, rfl, hstep, -, hp2, hdata⟩ := step_requested pf hr
  have hswitch : switchIns pf insGetPk a.bytes.length none = handleGetPubKeyPart := rfl
  rw [hstep, hswitch]
  constructor
  · intro hlc
    exact finish_handleGetPart_data (h := (d.receive a).start faults) (hdata.trans_ne hlc) rfl
  · intro hlc
    rw [← hp2]
    exact finish_handleGetPart
      (p := fun index => do
        return cryptoGetpubkeyPart (← get).dev.store (ioApduBufferSize - 3) index)
      (h := (d.receive a).start faults) (hdata.trans hlc) rfl
      (fun _ => length_cryptoGetpubkeyPart) rfl

end Steps

end Parts

end LedgerArweave
