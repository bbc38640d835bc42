import LedgerArweave.Device.Handler
import LedgerArweave.Store.Frames

set_option relaxedAutoImplicit false
set_option autoImplicit false

/-!
# What the steps of the device do

One description for each kind of step. A command is either a chunk of an upload, whose effect is
`chunkEffect`, or it leaves everything that belongs to an upload alone.

## Main definitions

* `chunkOf` — the chunk a command hands to `process_chunk`.
* `chunkEffect` — what `process_chunk` does to the flag and the buffer.
* `txVerdict`, `txParsed` — what `tx_parse` says of the buffer, and what it leaves behind.

## Main results

* `exec_processChunk` — `process_chunk` in terms of `chunkEffect`.
* `step_chunk` — the step of a chunk.
* `step_other` — the step of any other command.
-/

namespace LedgerArweave

open Fallible

section Steps

variable {σ : Type}

/-! ## Runs of the primitives -/

section Primitives

variable (h : Handler σ)

/-- A check that fails ends the handler. -/
theorem exec_throwIf_pos {α : Type} {condition : Prop} [Decidable condition] {code : ℕ}
    (hc : condition) (f : Unit → HandlerM σ α) :
    (throwIf condition code >>= f).exec h = (.error code, h) := by
  rw [throwIf, if_pos hc]
  rfl

/-- A check that passes changes nothing. -/
theorem exec_throwIf_neg {α : Type} {condition : Prop} [Decidable condition] {code : ℕ}
    (hc : ¬ condition) (f : Unit → HandlerM σ α) :
    (throwIf condition code >>= f).exec h = (f ()).exec h := by
  rw [throwIf, if_neg hc]
  rfl

/-- Running an update of the device. -/
@[simp] theorem exec_modifyDevice (f : Device σ → Device σ) :
    (modifyDevice f).exec h = (.ok (), { h with dev := f h.dev }) := rfl

/-- Running what looks at a byte of the buffer. -/
theorem exec_ioByte_bind {α : Type} (i : ℕ) (f : UInt8 → HandlerM σ α) :
    (ioByte i >>= f).exec h = (f (h.dev.ioApduBuffer.getD i 0)).exec h := rfl

/-- Running what looks at the handler. -/
theorem exec_get_bind {α : Type} (f : Handler σ → HandlerM σ α) :
    (get >>= f).exec h = (f h).exec h := rfl

/-- Running what reads bytes of the buffer. -/
@[simp] theorem exec_ioBytes (i n : ℕ) :
    (ioBytes i n).exec h = (.ok ((h.dev.ioApduBuffer.drop i).take n), h) := rfl

/-- Running what the store does: its failures are a result, not an error of the handler. -/
@[simp] theorem exec_runStore {α : Type} (p : StoreM α) :
    (runStore p).exec h =
      (.ok (p.exec (h.dev.store.start h.faults)).1,
        { h with
          dev := { h.dev with store := (p.exec (h.dev.store.start h.faults)).2.store }
          faults := (p.exec (h.dev.store.start h.faults)).2.faults
          signed := h.signed ++ (p.exec (h.dev.store.start h.faults)).2.signed }) := rfl

end Primitives

/-! ## Chunks -/

/-- The chunk an event hands to `process_chunk`: a `SIGN` command that passes all checks before,
with `P2 = 0`; its `P1` and its payload. -/
def chunkOf (d : Device σ) : DeviceEvent → Option (UInt8 × Bytes)
  | .apdu a none _ =>
    match a.bytes with
    | cla :: ins :: p1 :: p2 :: _ :: payload =>
      if d.store.deviceInitialized = true ∧ cla = claByte ∧ ins = insSign ∧ p2 = 0 then
        some (p1, payload)
      else none
    | _ => none
  | _ => none

/-- What `process_chunk` tells `handleSign`. -/
inductive ChunkResult where
  | more
  | last
  | refused (code : ℕ)
deriving DecidableEq

/-- The way `process_chunk` returns. -/
def ChunkResult.toExcept : ChunkResult → Except ℕ Bool
  | .more => .ok false
  | .last => .ok true
  | .refused code => .error code

/-- The flag, the buffer and the result after a chunk. -/
structure ChunkEffect (σ : Type) where
  txInitialized : Bool
  buffering : σ
  result : ChunkResult

/-- What appending a payload does, if it is the flag that says whether an upload is open. -/
def appendEffect (bf : Buffering σ) (txInitialized : Bool) (buffering : σ) (payload : Bytes)
    (result : ChunkResult) : ChunkEffect σ :=
  let (buffering, added) := bf.append buffering payload
  if added = payload.length then ⟨txInitialized, buffering, result⟩
  else ⟨false, buffering, .refused apduCodeOutputBufferTooSmall⟩

/-- What `process_chunk` does to the flag and the buffer. -/
def chunkEffect (bf : Buffering σ) (txInitialized : Bool) (buffering : σ) (p1 : UInt8)
    (payload : Bytes) : ChunkEffect σ :=
  if p1 = p1Init then ⟨true, bf.reset (bf.init buffering), .more⟩
  else if p1 = p1Add then appendEffect bf txInitialized buffering payload .more
  else if p1 = p1Last then
    if txInitialized then appendEffect bf txInitialized buffering payload .last
    else ⟨txInitialized, buffering, .refused apduCodeTxNotInitialized⟩
  else ⟨false, buffering, .refused apduCodeInvalidP1P2⟩

/-- The device after a chunk. -/
def Device.setUpload (d : Device σ) (effect : ChunkEffect σ) : Device σ :=
  { d with txInitialized := effect.txInitialized, buffering := effect.buffering }

section Chunk

variable (pf : Platform σ) {h : Handler σ} {cla ins p1 p2 lc : UInt8} {payload rest : Bytes}

/-- The branches `P1_ADD` and `P1_LAST` append in the same way.

**Proof sketch.** By cases on whether `tx_append` has added the whole payload. -/
theorem exec_appendPayload
    (hio : h.dev.ioApduBuffer = cla :: ins :: p1 :: p2 :: lc :: (payload ++ rest))
    (result : ChunkResult) {b : Bool} (hb : result.toExcept = .ok b) :
    (appendPayload pf (payload.length + 5) >>= fun _ => pure b).exec h =
      ((appendEffect pf.buffering h.dev.txInitialized h.dev.buffering payload
          result).result.toExcept,
        { h with dev := h.dev.setUpload (appendEffect pf.buffering h.dev.txInitialized
            h.dev.buffering payload result) }) := by
  have hbytes : (h.dev.ioApduBuffer.drop offsetData).take payload.length = payload := by
    rw [hio]
    simp [offsetData]
  have hlen : payload.length + 5 - offsetData = payload.length := rfl
  by_cases hadd : (pf.buffering.append h.dev.buffering payload).2 = payload.length
  · simp only [appendPayload, exec_bind, exec_ioBytes, txAppend, exec_get, exec_modifyDevice,
      exec_pure, hlen, hbytes, hadd, appendEffect, if_true, ne_eq, not_true_eq_false,
      if_false, hb, Device.setUpload]
  · simp only [appendPayload, exec_bind, exec_ioBytes, txAppend, exec_get, exec_modifyDevice,
      exec_pure, exec_throw, hlen, hbytes, hadd, appendEffect, ne_eq, not_false_eq_true,
      if_true, if_false, setTxInitialized, ChunkResult.toExcept, Device.setUpload]

/-- **`process_chunk`** does what `chunkEffect` says if `P2 = 0`.

**Proof sketch.** Along the cases of P1, which `chunkEffect` makes in the same order. -/
theorem exec_processChunk
    (hio : h.dev.ioApduBuffer = cla :: ins :: p1 :: 0 :: lc :: (payload ++ rest)) :
    (processChunk pf (payload.length + 5)).exec h =
      ((chunkEffect pf.buffering h.dev.txInitialized h.dev.buffering p1 payload).result.toExcept,
        { h with dev := h.dev.setUpload (chunkEffect pf.buffering h.dev.txInitialized
            h.dev.buffering p1 payload) }) := by
  have htype : h.dev.ioApduBuffer.getD offsetPayloadType 0 = p1 := by
    rw [hio]
    rfl
  have hp2 : h.dev.ioApduBuffer.getD offsetP2 0 = 0 := by
    rw [hio]
    rfl
  have hrx : ¬ payload.length + 5 < offsetData := by
    unfold offsetData
    omega
  unfold processChunk chunkEffect
  rw [exec_ioByte_bind, exec_throwIf_neg h hrx, exec_ioByte_bind, hp2,
    exec_throwIf_neg h (not_not.mpr rfl), htype]
  by_cases hinit : p1 = p1Init
  · rw [if_pos hinit, if_pos hinit]
    rfl
  rw [if_neg hinit, if_neg hinit]
  by_cases hadd : p1 = p1Add
  · rw [if_pos hadd, if_pos hadd]
    exact exec_appendPayload pf hio .more rfl
  rw [if_neg hadd, if_neg hadd]
  by_cases hlast : p1 = p1Last
  · rw [if_pos hlast, if_pos hlast, exec_get_bind]
    by_cases hopen : h.dev.txInitialized = true
    · rw [exec_throwIf_neg h (not_not.mpr hopen), if_pos hopen]
      exact exec_appendPayload pf hio .last rfl
    · rw [exec_throwIf_pos h hopen, if_neg hopen]
      rfl
  · rw [if_neg hlast, if_neg hlast]
    rfl

/-- `process_chunk` refuses any other `P2` and leaves the upload alone. -/
theorem exec_processChunk_of_p2 (hp2 : h.dev.ioApduBuffer.getD offsetP2 0 ≠ 0) {rx : ℕ}
    (hrx : 5 ≤ rx) : (processChunk pf rx).exec h = (.error apduCodeInvalidP1P2, h) := by
  have hlt : ¬ rx < offsetData := Nat.not_lt.mpr hrx
  rw [processChunk, exec_ioByte_bind, exec_throwIf_neg h hlt, exec_ioByte_bind,
    exec_throwIf_pos h hp2]

end Chunk

/-! ## The step of a chunk -/

/-- What `tx_parse` returns in a device: a message or nothing. -/
def txVerdict (pf : Platform σ) (d : Device σ) : Except ℕ (Option String) :=
  let m := txBuffer pf d
  let run := (parserParse m m.base m.bytes.length).exec d.parser
  match run.1 with
  | .error .fault => .error apduCodeExecutionError
  | .error (.error e) => .ok (some (parserGetErrorDescription e))
  | .ok () =>
    match parserValidate pf.zx m d.store d.expert run.2.tx with
    | .error e => .ok (some (parserGetErrorDescription e))
    | .ok () => .ok none

/-- The parser after `tx_parse`. -/
def txParsed (pf : Platform σ) (d : Device σ) : ParserState :=
  let m := txBuffer pf d
  ((parserParse m m.base m.bytes.length).exec d.parser).2

section Command

variable (pf : Platform σ)

/-- Running `tx_parse`: the verdict, and the parser it leaves.

**Proof sketch.** By the results of `parser_parse` and `parser_validate`. -/
theorem exec_txParse (h : Handler σ) :
    (txParse pf).exec h =
      (txVerdict pf h.dev,
        { h with
          dev := { h.dev with parser := txParsed pf h.dev }
          parsed := some (txBuffer pf h.dev).bytes }) := by
  unfold txVerdict txParsed txParse
  rw [exec_get_bind, exec_bind_ok (exec_modify _ _)]
  dsimp only
  rcases (parserParse (txBuffer pf h.dev) (txBuffer pf h.dev).base
    (txBuffer pf h.dev).bytes.length).exec h.dev.parser with ⟨(_ | _) | ⟨⟩, parser⟩
  · rfl
  · rfl
  · rw [exec_bind_ok (exec_modifyDevice _ _)]
    dsimp only
    rcases parserValidate pf.zx (txBuffer pf h.dev) h.dev.store h.dev.expert parser.tx with _ | ⟨⟩
    · rfl
    · rfl

/-- The bytes of a reply that only consists of a status word. -/
def statusReply (code : ℕ) : Bytes := be16.encode (statusWord code)

/-- What remains of `handleApdu` when a handler has run. -/
def afterDispatch (r : Except ℕ Unit × Handler σ) : Except ℕ Unit × Handler σ :=
  match r with
  | (.ok (), h) => (.ok (), h)
  | (.error e, h) => (replyCode h.tx (statusWord e)).exec h

/-- Running `handleApdu`: a dispatched command, and what is made of a thrown code. -/
theorem exec_handleApdu (h : Handler σ) (rx : ℕ) (pinCheck : Option ErrorCode) :
    (handleApdu pf rx pinCheck).exec h = afterDispatch ((dispatchApdu pf rx pinCheck).exec h) := by
  rw [handleApdu, exec_tryCatch]
  rcases (dispatchApdu pf rx pinCheck).exec h with ⟨_ | ⟨⟩, _⟩ <;> rfl

/-- The step of a command: it is received, dispatched, and answered with what is thrown. -/
theorem step_apdu (d : Device σ) (a : Apdu) (pinCheck : Option ErrorCode) (faults : List Bool) :
    (device pf).step d (.apdu a pinCheck faults) =
      (afterDispatch ((dispatchApdu pf a.bytes.length pinCheck).exec
        ((d.receive a).start faults))).2.finish := by
  rw [← exec_handleApdu]
  rfl

/-- The device with another I/O buffer. -/
def Device.setIo (d : Device σ) (io : Bytes) : Device σ := { d with ioApduBuffer := io }

/-- A thrown code ends the reply.

**Proof sketch.** The status word is written behind what is there, and both are sent. -/
theorem finish_afterDispatch (code : ℕ) {h : Handler σ} {w : Bytes} (rest : Bytes)
    (hio : h.dev.ioApduBuffer = w ++ rest) (htx : h.tx = w.length)
    (hasynch : h.asynchReply = false) :
    ∃ io, (afterDispatch (.error code, h)).2.finish =
      (h.dev.setIo io, ⟨some (w ++ statusReply code), h.parsed, h.signed⟩) := by
  have hwrite : overwrite (w ++ rest) w.length (statusReply code) =
      w ++ statusReply code ++ rest.drop 2 := by
    rw [overwrite, List.take_left, ← List.drop_drop, List.drop_left]
    rfl
  have htake : (overwrite (w ++ rest) w.length (statusReply code)).take (w.length + 2) =
      w ++ statusReply code := by
    have hlen : (w ++ statusReply code).length = w.length + 2 := List.length_append
    rw [hwrite, ← hlen, List.take_left]
  refine ⟨overwrite (w ++ rest) w.length (statusReply code), ?_⟩
  have hrun : (afterDispatch (.error code, h)).2.finish =
      (h.dev.setIo (overwrite h.dev.ioApduBuffer h.tx (statusReply code)),
        ⟨if h.asynchReply then none else
          some ((overwrite h.dev.ioApduBuffer h.tx (statusReply code)).take (h.tx + 2)),
          h.parsed, h.signed⟩) := rfl
  rw [hrun, hasynch, hio, htx, htake]
  rfl

/-- A code thrown before anything is put into the reply is the whole reply. -/
theorem finish_afterDispatch_code (code : ℕ) {h : Handler σ} (htx : h.tx = 0)
    (hasynch : h.asynchReply = false) :
    ∃ io, (afterDispatch (.error code, h)).2.finish =
      (h.dev.setIo io, ⟨some (statusReply code), h.parsed, h.signed⟩) :=
  finish_afterDispatch code h.dev.ioApduBuffer (w := []) rfl htx hasynch

/-- The device and the output after a chunk, by what `process_chunk` has told. -/
def chunkStep (d : Device σ) : ChunkResult → Device σ × Output
  | .more => (d, ⟨some (statusReply apduCodeOk), none, []⟩)
  | .refused code => (d, ⟨some (statusReply code), none, []⟩)
  | .last =>
    let d' := { d with parser := txParsed pf d }
    let bytes := (txBuffer pf d).bytes
    match txVerdict pf d with
    | .ok none => ({ d' with review := some .transaction }, ⟨none, some bytes, []⟩)
    | .ok (some msg) =>
      (d', ⟨some (ascii msg ++ statusReply apduCodeDataInvalid), some bytes, []⟩)
    | .error code => (d', ⟨some (statusReply code), some bytes, []⟩)

/-- The I/O buffer plays no role in it. -/
theorem chunkStep_setIo (d : Device σ) (io io' : Bytes) (result : ChunkResult) :
    ((chunkStep pf (d.setIo io) result).1.setIo io', (chunkStep pf (d.setIo io) result).2) =
      ((chunkStep pf d result).1.setIo io', (chunkStep pf d result).2) := by
  cases result with
  | more => rfl
  | refused code => rfl
  | last =>
    have hverdict : txVerdict pf (d.setIo io) = txVerdict pf d := rfl
    unfold chunkStep
    dsimp only
    rw [hverdict]
    rcases txVerdict pf d with _ | _ | _ <;> rfl

/-- The bytes of a chunk. -/
theorem eq_of_chunkOf {d : Device σ} {e : DeviceEvent} {p1 : UInt8} {payload : Bytes}
    (hc : chunkOf d e = some (p1, payload)) :
    ∃ a faults lc, e = .apdu a none faults ∧
      a.bytes = claByte :: insSign :: p1 :: 0 :: lc :: payload ∧
      d.store.deviceInitialized = true := by
  unfold chunkOf at hc
  split at hc
  · split at hc
    · rename_i a faults _ cla ins p1' p2 lc payload' hbytes
      split_ifs at hc with hcond
      obtain ⟨hinit, rfl, rfl, rfl⟩ := hcond
      simp only [Option.some.injEq, Prod.mk.injEq] at hc
      obtain ⟨rfl, rfl⟩ := hc
      exact ⟨a, faults, lc, rfl, hbytes, hinit⟩
    · exact absurd hc (by simp)
  · exact absurd hc (by simp)

/-- What `handleSign` does when the last chunk has been appended.

**Proof sketch.** By the verdict of `tx_parse`: an error is thrown, a message is sent with a code,
and without either the review is opened. -/
theorem exec_parseAndReview {h : Handler σ} (htx : h.tx = 0) (hasynch : h.asynchReply = false)
    (hsigned : h.signed = []) :
    let step := chunkStep pf h.dev .last
    ∃ io, (afterDispatch ((do
        match ← txParse pf with
        | some errorMsg =>
          writeIo 0 (ascii errorMsg)
          addTx (ascii errorMsg).length
          throw apduCodeDataInvalid
        | none => reviewInit .transaction : HandlerM σ Unit).exec h)).2.finish =
      (step.1.setIo io, step.2) := by
  intro step
  have hparse := exec_txParse pf h
  cases hverdict : txVerdict pf h.dev with
  | error code =>
    rw [hverdict] at hparse
    have hstep : step = ({ h.dev with parser := txParsed pf h.dev },
        ⟨some (statusReply code), some (txBuffer pf h.dev).bytes, []⟩) := by
      simp only [step, chunkStep, hverdict]
    rw [exec_bind_error hparse, hstep, ← hsigned]
    exact finish_afterDispatch_code _ htx hasynch
  | ok msg =>
    rw [hverdict] at hparse
    rw [exec_bind_ok hparse]
    cases msg with
    | none =>
      refine ⟨h.dev.ioApduBuffer, ?_⟩
      simp only [step, chunkStep, hverdict, ← hsigned]
      rfl
    | some msg =>
      have hstep : step = ({ h.dev with parser := txParsed pf h.dev },
          ⟨some (ascii msg ++ statusReply apduCodeDataInvalid), some (txBuffer pf h.dev).bytes,
            []⟩) := by
        simp only [step, chunkStep, hverdict]
      rw [hstep, ← hsigned]
      have htx' : h.tx + (ascii msg).length = (ascii msg).length := by
        rw [htx, Nat.zero_add]
      obtain ⟨io, hfinish⟩ := finish_afterDispatch apduCodeDataInvalid
        (h.dev.ioApduBuffer.drop (0 + (ascii msg).length)) (w := ascii msg)
        (h := { h with
          dev := { h.dev with
            parser := txParsed pf h.dev
            ioApduBuffer := overwrite h.dev.ioApduBuffer 0 (ascii msg) }
          tx := h.tx + (ascii msg).length
          parsed := some (txBuffer pf h.dev).bytes }) rfl htx' hasynch
      exact ⟨io, hfinish⟩

/-- `handleSign` on a chunk.

**Proof sketch.** By the result of `process_chunk`: only the last chunk of an open upload is parsed.
-/
theorem exec_handleSign {h : Handler σ} {cla ins p1 lc : UInt8} {payload rest : Bytes}
    (hio : h.dev.ioApduBuffer = cla :: ins :: p1 :: 0 :: lc :: (payload ++ rest))
    (htx : h.tx = 0) (hasynch : h.asynchReply = false) (hparsed : h.parsed = none)
    (hsigned : h.signed = []) :
    let effect := chunkEffect pf.buffering h.dev.txInitialized h.dev.buffering p1 payload
    let step := chunkStep pf (h.dev.setUpload effect) effect.result
    ∃ io, (afterDispatch ((handleSign pf (payload.length + 5)).exec h)).2.finish =
      (step.1.setIo io, step.2) := by
  intro effect step
  have hproc : (processChunk pf (payload.length + 5)).exec h =
      (effect.result.toExcept, { h with dev := h.dev.setUpload effect }) :=
    exec_processChunk pf hio
  unfold handleSign
  cases hresult : effect.result with
  | more =>
    have hstep : step = (h.dev.setUpload effect, ⟨some (statusReply apduCodeOk), none, []⟩) := by
      simp only [step, hresult, chunkStep]
    rw [hresult] at hproc
    rw [exec_bind_ok hproc, exec_throwIf_pos _ (by simp), hstep, ← hparsed, ← hsigned]
    exact finish_afterDispatch_code _ htx hasynch
  | refused code =>
    have hstep : step = (h.dev.setUpload effect, ⟨some (statusReply code), none, []⟩) := by
      simp only [step, hresult, chunkStep]
    rw [hresult] at hproc
    rw [exec_bind_error hproc, hstep, ← hparsed, ← hsigned]
    exact finish_afterDispatch_code _ htx hasynch
  | last =>
    rw [hresult] at hproc
    simp only [step, hresult]
    rw [exec_bind_ok hproc, exec_throwIf_neg _ (by simp)]
    exact exec_parseAndReview pf (h := { h with dev := h.dev.setUpload effect }) htx hasynch hsigned

/-- A command that has been received begins with its bytes. -/
theorem receive_ioApduBuffer (d : Device σ) (a : Apdu) :
    (d.receive a).ioApduBuffer = a.bytes ++ d.ioApduBuffer.drop a.bytes.length := by
  rw [Device.receive, overwrite, List.take_zero, List.nil_append, Nat.zero_add]

/-- A command that passes the first checks reaches the `switch`. -/
theorem exec_dispatchApdu {h : Handler σ} {rx : ℕ} {pinCheck : Option ErrorCode}
    (hcla : h.dev.ioApduBuffer.getD offsetCla 0 = claByte) (hrx : apduMinLength ≤ rx)
    (hinit : h.dev.store.deviceInitialized = true) :
    (dispatchApdu pf rx pinCheck).exec h =
      (switchIns pf (h.dev.ioApduBuffer.getD offsetIns 0) rx pinCheck).exec h := by
  rw [dispatchApdu, exec_ioByte_bind, exec_throwIf_neg h (not_not.mpr hcla),
    exec_throwIf_neg h (Nat.not_lt.mpr hrx), exec_ioByte_bind, exec_get_bind,
    exec_throwIf_neg h (fun hc => hc.1 hinit)]

/-- The branch of `SIGN`. -/
theorem switchIns_sign (rx : ℕ) (pinCheck : Option ErrorCode) :
    switchIns pf insSign rx pinCheck = (do
      checkPinValidated pinCheck
      handleSign pf rx) := by
  rw [switchIns, if_neg (by decide), if_neg (by decide), if_pos rfl]

/-- **The step of a chunk.**

**Proof sketch.** Such a command passes all checks of `handleApdu`, so its step is that of
`handleSign`, which does not depend on the I/O buffer beyond the command itself. -/
theorem step_chunk {d : Device σ} {e : DeviceEvent} {p1 : UInt8} {payload : Bytes}
    (hc : chunkOf d e = some (p1, payload)) :
    let effect := chunkEffect pf.buffering d.txInitialized d.buffering p1 payload
    let step := chunkStep pf (d.setUpload effect) effect.result
    ∃ io, (device pf).step d e = (step.1.setIo io, step.2) := by
  obtain ⟨a, faults, lc, rfl, hbytes, hinit⟩ := eq_of_chunkOf hc
  have hio := receive_ioApduBuffer d a
  rw [hbytes] at hio
  have hlen : (claByte :: insSign :: p1 :: 0 :: lc :: payload).length = payload.length + 5 := rfl
  have hrun : (device pf).step d (.apdu a none faults) = (afterDispatch
      ((handleSign pf (payload.length + 5)).exec ((d.receive a).start faults))).2.finish := by
    have hins : ((d.receive a).start faults).dev.ioApduBuffer.getD offsetIns 0 = insSign :=
      congrArg (fun io => io.getD offsetIns 0) hio
    rw [step_apdu, hbytes, hlen, exec_dispatchApdu pf
      (congrArg (fun io => io.getD offsetCla 0) hio) (Nat.le_add_left 5 _) hinit, hins,
      switchIns_sign]
    rfl
  have hsign := exec_handleSign pf (h := (d.receive a).start faults) hio rfl rfl rfl rfl
  obtain ⟨io, hfinish⟩ := hsign
  refine ⟨io, ?_⟩
  rw [hrun, hfinish]
  exact chunkStep_setIo pf (d.setUpload _) (overwrite d.ioApduBuffer 0 a.bytes) io _

end Command

/-! ## Other commands -/

/-- What commands other than chunks leave alone. They may open the review of an address. -/
structure Device.Frame (d d' : Device σ) : Prop where
  txInitialized : d'.txInitialized = d.txInitialized
  buffering : d'.buffering = d.buffering
  parser : d'.parser = d.parser
  expert : d'.expert = d.expert
  seed : d'.seed = d.seed
  slots : d'.store.flash.slots = d.store.flash.slots
  slotInUse : d'.store.slotInUse = d.store.slotInUse
  deviceInitialized : d'.store.deviceInitialized = d.store.deviceInitialized
  review : d'.review = d.review ∨ d'.review = some .address

/-- The same for a handler, which parses and signs nothing. -/
structure Handler.Frame (h h' : Handler σ) : Prop where
  dev : h.dev.Frame h'.dev
  parsed : h'.parsed = h.parsed
  signed : h'.signed = h.signed

/-- A device that is left alone. -/
theorem Device.Frame.refl (d : Device σ) : d.Frame d :=
  ⟨rfl, rfl, rfl, rfl, rfl, rfl, rfl, rfl, .inl rfl⟩

/-- Frames are put together. -/
theorem Device.Frame.trans {d d' d'' : Device σ} (h : d.Frame d') (h' : d'.Frame d'') :
    d.Frame d'' where
  txInitialized := h'.txInitialized.trans h.txInitialized
  buffering := h'.buffering.trans h.buffering
  parser := h'.parser.trans h.parser
  expert := h'.expert.trans h.expert
  seed := h'.seed.trans h.seed
  slots := h'.slots.trans h.slots
  slotInUse := h'.slotInUse.trans h.slotInUse
  deviceInitialized := h'.deviceInitialized.trans h.deviceInitialized
  review := by
    cases h'.review with
    | inl hr => exact hr ▸ h.review
    | inr hr => exact .inr hr

/-- The frame of a sequence is that of its parts. -/
instance : IsPreorder (Handler σ) Handler.Frame where
  refl h := ⟨.refl h.dev, rfl, rfl⟩
  trans _ _ _ h h' := ⟨h.dev.trans h'.dev, h'.parsed.trans h.parsed, h'.signed.trans h.signed⟩

section Frames

variable {α : Type}

/-- A check stays within the frame. -/
theorem within_throwIf (condition : Prop) [Decidable condition] (code : ℕ) :
    Within Handler.Frame (throwIf condition code : HandlerM σ Unit) :=
  Within.ite (within_throw _) (within_pure _)

/-- Reading a byte stays within the frame. -/
theorem within_ioByte (i : ℕ) : Within Handler.Frame (ioByte i : HandlerM σ UInt8) :=
  within_get.bind fun _ => within_pure _

/-- The variable `*tx` and the I/O buffer belong to no frame. -/
theorem within_setTx (n : ℕ) : Within Handler.Frame (setTx n : HandlerM σ Unit) :=
  within_modify fun h => ⟨.refl h.dev, rfl, rfl⟩

/-- Adding to the length of the response stays within the frame. -/
theorem within_addTx (n : ℕ) : Within Handler.Frame (addTx n : HandlerM σ Unit) :=
  within_modify fun h => ⟨.refl h.dev, rfl, rfl⟩

/-- Updates of the buffer and the length of the prepared address stay within the frame. -/
theorem within_modifyIo (f : Device σ → Bytes) (len : Device σ → ℕ) :
    Within Handler.Frame (modifyDevice (σ := σ) fun d =>
      { d with ioApduBuffer := f d, actionAddrResponseLen := len d }) :=
  within_modify fun _ => ⟨⟨rfl, rfl, rfl, rfl, rfl, rfl, rfl, rfl, .inl rfl⟩, rfl, rfl⟩

/-- Clearing the buffer stays within the frame. -/
theorem within_zeroIo : Within Handler.Frame (zeroIo : HandlerM σ Unit) :=
  within_modifyIo (fun _ => zeros ioApduBufferSize) fun d => d.actionAddrResponseLen

/-- Writing to the buffer stays within the frame. -/
theorem within_writeIo (pos : ℕ) (w : Bytes) :
    Within Handler.Frame (writeIo pos w : HandlerM σ Unit) :=
  within_modifyIo (fun d => overwrite d.ioApduBuffer pos w) fun d => d.actionAddrResponseLen

/-- Replying with a code stays within the frame. -/
theorem within_replyCode (offset code : ℕ) :
    Within Handler.Frame (replyCode offset code : HandlerM σ Unit) :=
  (within_writeIo _ _).bind fun _ => within_setTx _

/-- Opening the review of an address stays within the frame. -/
theorem within_reviewInit_address :
    Within Handler.Frame (reviewInit .address : HandlerM σ Unit) :=
  within_modify fun _ => ⟨⟨rfl, rfl, rfl, rfl, rfl, rfl, rfl, rfl, .inr rfl⟩, rfl, rfl⟩

/-- A function that does not touch the keys keeps the frame. -/
theorem within_runStore {p : StoreM α} (hp : Within StoreRun.SameKeys p) :
    Within Handler.Frame (runStore p : HandlerM σ (Except ZxErr α)) := by
  intro h
  obtain ⟨hsigned, hslots, hslot, hdev⟩ := hp (h.dev.store.start h.faults)
  refine ⟨⟨rfl, rfl, rfl, rfl, rfl, hslots, hslot, hdev, .inl rfl⟩, rfl, ?_⟩
  rw [exec_runStore]
  dsimp only
  rw [hsigned, CryptoStore.start, List.append_nil]

variable (pf : Platform σ)

/-- `GET_VERSION` stays within the frame. -/
theorem within_handleGetVersion : Within Handler.Frame (handleGetVersion pf) :=
  (within_writeIo _ _).bind fun _ => (within_addTx _).bind fun _ => within_throw _

/-- Preparing the address stays within the frame. -/
theorem within_appFillAddress : Within Handler.Frame (appFillAddress pf) := by
  have hfill : Within StoreRun.SameKeys (cryptoFillAddress pf.sdk (ioApduBufferSize - 2)) :=
    within_cryptoFillAddress (fun _ _ _ => ⟨rfl, rfl, rfl, rfl⟩) _ _
  refine (within_runStore hfill).bind fun r => ?_
  cases r with
  | error e => exact within_zeroIo.bind fun _ => within_pure _
  | ok addrStr => exact (within_modifyIo _ _).bind fun _ => within_pure _

/-- `GET_ADDR` stays within the frame. -/
theorem within_handleGetAddress : Within Handler.Frame (handleGetAddress pf) := by
  refine (within_setTx _).bind fun _ => (within_ioByte _).bind fun _ => ?_
  refine (within_throwIf _ _).bind fun _ => (within_ioByte _).bind fun _ => ?_
  refine within_zeroIo.bind fun _ => (within_modifyIo _ _).bind fun _ => ?_
  refine (within_appFillAddress pf).bind fun err => within_get.bind fun h => ?_
  refine Within.ite ((within_setTx _).bind fun _ => within_throw _) ?_
  exact Within.ite within_reviewInit_address ((within_setTx _).bind fun _ => within_throw _)

/-- A request for a part stays within the frame. -/
theorem within_handleGetPart {getPart : ℕ → HandlerM σ (Except ZxErr Bytes)}
    (hpart : ∀ index, Within Handler.Frame (getPart index)) :
    Within Handler.Frame (handleGetPart getPart) := by
  refine (within_setTx _).bind fun _ => (within_ioByte _).bind fun _ => ?_
  refine (within_throwIf _ _).bind fun _ => (within_ioByte _).bind fun _ => ?_
  refine within_zeroIo.bind fun _ => (hpart _).bind fun r => ?_
  cases r with
  | error e => exact (within_setTx _).bind fun _ => within_throw _
  | ok part =>
    exact (within_writeIo _ _).bind fun _ => (within_setTx _).bind fun _ => within_throw _

/-- `GET_PK` stays within the frame. -/
theorem within_handleGetPubKeyPart :
    Within Handler.Frame (handleGetPubKeyPart : HandlerM σ Unit) :=
  within_handleGetPart fun _ => within_get.bind fun _ => within_pure _

/-- `GET_SIG` stays within the frame. -/
theorem within_handleGetSigPart : Within Handler.Frame (handleGetSigPart : HandlerM σ Unit) :=
  within_handleGetPart fun _ => within_runStore (within_cryptoGetsignaturePart _ _)

/-- Checking the PIN stays within the frame. -/
theorem within_checkPinValidated (pinCheck : Option ErrorCode) :
    Within Handler.Frame (checkPinValidated pinCheck : HandlerM σ Unit) := by
  cases pinCheck with
  | none => exact within_pure _
  | some e => exact within_throw _

/-- The branches of the `switch` other than `SIGN` keep the frame. -/
theorem within_switchIns {ins : UInt8} (hins : ins ≠ insSign) (rx : ℕ)
    (pinCheck : Option ErrorCode) : Within Handler.Frame (switchIns pf ins rx pinCheck) := by
  have hpin {p : HandlerM σ Unit} (hp : Within Handler.Frame p) :
      Within Handler.Frame (checkPinValidated pinCheck >>= fun _ => p) :=
    (within_checkPinValidated pinCheck).bind fun _ => hp
  unfold switchIns
  rw [if_neg hins]
  refine Within.ite (within_handleGetVersion pf) (Within.ite (hpin (within_handleGetAddress pf)) ?_)
  apply Within.ite (hpin within_handleGetSigPart)
  exact Within.ite (hpin within_handleGetPubKeyPart) (within_throw _)

/-- A command that is long enough has its five header bytes. -/
theorem exists_header {l : Bytes} (h : apduMinLength ≤ l.length) :
    ∃ cla ins p1 p2 lc payload, l = cla :: ins :: p1 :: p2 :: lc :: payload := by
  unfold apduMinLength at h
  rcases l with _ | ⟨cla, _ | ⟨ins, _ | ⟨p1, _ | ⟨p2, _ | ⟨lc, payload⟩⟩⟩⟩⟩
  case cons.cons.cons.cons.cons => exact ⟨cla, ins, p1, p2, lc, payload, rfl⟩
  all_goals simp at h

/-- A `SIGN` command that reaches `process_chunk` with `P2 = 0` is a chunk. -/
theorem chunkOf_isSome {d : Device σ} {a : Apdu} {rest : Bytes} (faults : List Bool)
    (hio : d.ioApduBuffer = a.bytes ++ rest)
    (hcla : d.ioApduBuffer.getD offsetCla 0 = claByte) (hrx : apduMinLength ≤ a.bytes.length)
    (hinit : d.store.deviceInitialized = true) (hins : d.ioApduBuffer.getD offsetIns 0 = insSign)
    (hp2 : d.ioApduBuffer.getD offsetP2 0 = 0) : (chunkOf d (.apdu a none faults)).isSome := by
  obtain ⟨cla, ins, p1, p2, lc, payload, ha⟩ := exists_header hrx
  rw [hio, ha] at hcla hins hp2
  obtain rfl : cla = claByte := hcla
  obtain rfl : ins = insSign := hins
  obtain rfl : p2 = 0 := hp2
  simp [chunkOf, ha, hinit]

/-- A command that is no chunk keeps the frame.

**Proof sketch.** The checks are passed one after another. A `SIGN` command that passes them all
has another `P2`, which `process_chunk` refuses. -/
theorem dispatchApdu_frame {h : Handler σ} {a : Apdu} {rest : Bytes} {pinCheck : Option ErrorCode}
    (faults : List Bool) (hio : h.dev.ioApduBuffer = a.bytes ++ rest)
    (hc : chunkOf h.dev (.apdu a pinCheck faults) = none) :
    Handler.Frame h ((dispatchApdu pf a.bytes.length pinCheck).exec h).2 := by
  by_cases hcla : h.dev.ioApduBuffer.getD offsetCla 0 = claByte
  swap
  · rw [dispatchApdu, exec_ioByte_bind, exec_throwIf_pos h hcla]
    exact refl_of _ _
  by_cases hrx : apduMinLength ≤ a.bytes.length
  swap
  · rw [dispatchApdu, exec_ioByte_bind, exec_throwIf_neg h (not_not.mpr hcla),
      exec_throwIf_pos h (Nat.lt_of_not_le hrx)]
    exact refl_of _ _
  by_cases hins : h.dev.ioApduBuffer.getD offsetIns 0 = insSign ∧
      h.dev.store.deviceInitialized = true
  · rw [exec_dispatchApdu pf hcla hrx hins.2, hins.1, switchIns_sign]
    cases pinCheck with
    | some e => exact refl_of _ _
    | none =>
      have hp2 : h.dev.ioApduBuffer.getD offsetP2 0 ≠ 0 := by
        intro hp2
        have hsome := chunkOf_isSome faults hio hcla hrx hins.2 hins.1 hp2
        rw [hc] at hsome
        exact absurd hsome (by simp)
      show Handler.Frame h ((handleSign pf a.bytes.length).exec h).2
      rw [handleSign, exec_bind_error (exec_processChunk_of_p2 pf hp2 hrx)]
      exact refl_of _ _
  · rw [dispatchApdu, exec_ioByte_bind, exec_throwIf_neg h (not_not.mpr hcla),
      exec_throwIf_neg h (Nat.not_lt.mpr hrx), exec_ioByte_bind, exec_get_bind]
    by_cases hsign : h.dev.ioApduBuffer.getD offsetIns 0 = insSign
    · have hinit : ¬ h.dev.store.deviceInitialized = true := fun hinit => hins ⟨hsign, hinit⟩
      rw [hsign, exec_throwIf_pos h ⟨hinit, by decide⟩]
      exact refl_of _ _
    · exact (within_throwIf _ _).bind (fun _ => within_switchIns pf hsign _ _) h

/-- **The step of any other command** keeps the frame.

**Proof sketch.** Every handler but `handleSign` keeps the frame by `dispatchApdu_frame`, and so
does sending the code. -/
theorem step_other {d : Device σ} {a : Apdu} {pinCheck : Option ErrorCode} {faults : List Bool}
    (hc : chunkOf d (.apdu a pinCheck faults) = none) :
    let step := (device pf).step d (.apdu a pinCheck faults)
    d.Frame step.1 ∧ step.2.parsed = none ∧ step.2.signed = [] := by
  intro step
  have hstep : step = (afterDispatch ((dispatchApdu pf a.bytes.length pinCheck).exec
      ((d.receive a).start faults))).2.finish := step_apdu pf d a pinCheck faults
  have hdispatch := dispatchApdu_frame pf (h := (d.receive a).start faults) faults
    (receive_ioApduBuffer d a) hc
  have hafter : Handler.Frame ((d.receive a).start faults) (afterDispatch
      ((dispatchApdu pf a.bytes.length pinCheck).exec ((d.receive a).start faults))).2 := by
    rcases hrun : (dispatchApdu pf a.bytes.length pinCheck).exec ((d.receive a).start faults)
      with ⟨e | ⟨⟩, h⟩ <;> rw [hrun] at hdispatch
    · exact trans_of _ hdispatch (within_replyCode _ _ h)
    · exact hdispatch
  have hreceive : d.Frame (d.receive a) := ⟨rfl, rfl, rfl, rfl, rfl, rfl, rfl, rfl, .inl rfl⟩
  rw [hstep]
  exact ⟨hreceive.trans hafter.dev, hafter.parsed, hafter.signed⟩

end Frames

/-! ## Decisions of the user -/

/-- What a decision leaves alone. -/
structure Handler.SameUpload (h h' : Handler σ) : Prop where
  txInitialized : h'.dev.txInitialized = h.dev.txInitialized
  buffering : h'.dev.buffering = h.dev.buffering
  parser : h'.dev.parser = h.dev.parser
  expert : h'.dev.expert = h.dev.expert
  seed : h'.dev.seed = h.dev.seed
  review : h'.dev.review = h.dev.review
  parsed : h'.parsed = h.parsed

/-- The same of the smaller frame. -/
instance : IsPreorder (Handler σ) Handler.SameUpload where
  refl _ := ⟨rfl, rfl, rfl, rfl, rfl, rfl, rfl⟩
  trans _ _ _ h h' := ⟨h'.txInitialized.trans h.txInitialized, h'.buffering.trans h.buffering,
    h'.parser.trans h.parser, h'.expert.trans h.expert, h'.seed.trans h.seed,
    h'.review.trans h.review, h'.parsed.trans h.parsed⟩

section Decisions

variable (pf : Platform σ)

/-- Writing to the buffer leaves the upload. -/
theorem sameUpload_writeIo (pos : ℕ) (w : Bytes) :
    Within Handler.SameUpload (writeIo pos w : HandlerM σ Unit) :=
  fun _ => ⟨rfl, rfl, rfl, rfl, rfl, rfl, rfl⟩

/-- Replying with a code leaves the upload. -/
theorem sameUpload_replyCode (offset code : ℕ) :
    Within Handler.SameUpload (replyCode offset code : HandlerM σ Unit) :=
  (sameUpload_writeIo _ _).bind fun _ _ => ⟨rfl, rfl, rfl, rfl, rfl, rfl, rfl⟩

/-- Signing leaves the upload. -/
theorem sameUpload_appSign (salt : Bytes) :
    Within Handler.SameUpload (appSign pf salt) := by
  refine within_get.bind fun h => Within.bind (fun _ => ⟨rfl, rfl, rfl, rfl, rfl, rfl, rfl⟩) ?_
  intro r
  cases r with
  | error e => exact sameUpload_replyCode _ _
  | ok digest => exact (sameUpload_writeIo _ _).bind fun _ => sameUpload_replyCode _ _

/-- Rejecting leaves the upload. -/
theorem sameUpload_appReject : Within Handler.SameUpload (appReject : HandlerM σ Unit) :=
  Within.bind (fun _ => ⟨rfl, rfl, rfl, rfl, rfl, rfl, rfl⟩) fun _ => sameUpload_replyCode _ _

/-- Confirming an address leaves the upload. -/
theorem sameUpload_appReplyAddress :
    Within Handler.SameUpload (appReplyAddress : HandlerM σ Unit) :=
  within_get.bind fun _ => sameUpload_replyCode _ _

/-- A review that is closed is closed, and the upload stays as it is. -/
theorem run_closeReview {answer : HandlerM σ Unit} (hp : Within Handler.SameUpload answer)
    (d : Device σ) (faults : List Bool) :
    let step := d.run (closeReview answer) faults
    step.1.txInitialized = d.txInitialized ∧ step.1.buffering = d.buffering ∧
      step.1.parser = d.parser ∧ step.1.review = none ∧ step.2.parsed = none := by
  have h := hp (Device.start { d with review := none } faults)
  exact ⟨h.txInitialized, h.buffering, h.parser, h.review, h.parsed⟩

/-- A step has run the callback of the pending review, if there is one. -/
def Device.Answered (d : Device σ) (step : Device σ × Output) : Prop :=
  d.review = none ∧ step = (d, .silent) ∨
    ∃ (answer : HandlerM σ Unit) (faults : List Bool),
      Within Handler.SameUpload answer ∧ step = d.run (closeReview answer) faults

/-- An approval is ignored, or answers the pending review. -/
theorem answered_approve (d : Device σ) (salt : Bytes) (faults : List Bool) :
    d.Answered ((device pf).step d (.approve salt faults)) := by
  cases hreview : d.review with
  | none => exact .inl ⟨hreview, by simp only [device, hreview]⟩
  | some review =>
    cases review with
    | transaction =>
      exact .inr ⟨_, faults, sameUpload_appSign pf salt, by simp only [device, hreview]⟩
    | address =>
      exact .inr ⟨_, faults, sameUpload_appReplyAddress, by simp only [device, hreview]⟩

/-- A rejection is ignored, or answers the pending review. -/
theorem answered_reject (d : Device σ) : d.Answered ((device pf).step d .reject) := by
  cases hreview : d.review with
  | none => exact .inl ⟨hreview, by simp only [device, hreview]⟩
  | some review => exact .inr ⟨_, [], sameUpload_appReject, by simp only [device, hreview]⟩

/-- The upload stays as it is, and no review is pending any more. -/
theorem Device.Answered.kept {d : Device σ} {step : Device σ × Output} (h : d.Answered step) :
    step.1.txInitialized = d.txInitialized ∧ step.1.buffering = d.buffering ∧
      step.1.parser = d.parser ∧ step.1.review = none ∧ step.2.parsed = none := by
  rcases h with ⟨hnone, rfl⟩ | ⟨answer, faults, hanswer, rfl⟩
  · exact ⟨rfl, rfl, rfl, hnone, rfl⟩
  · exact run_closeReview hanswer d faults

/-- A step that is neither a command nor a reset keeps the upload.

**Proof sketch.** By the kind of event. -/
theorem step_user {d : Device σ} {e : DeviceEvent} (hapdu : ∀ a pinCheck faults,
      e ≠ .apdu a pinCheck faults) (hboot : ∀ seed faults, e ≠ .boot seed faults) :
    let step := (device pf).step d e
    step.1.txInitialized = d.txInitialized ∧ step.1.buffering = d.buffering ∧
      step.1.parser = d.parser ∧ (step.1.review = d.review ∨ step.1.review = none) ∧
      step.2.parsed = none := by
  intro step
  cases e with
  | boot seed faults => exact absurd rfl (hboot seed faults)
  | storeInit faults => exact ⟨rfl, rfl, rfl, .inl rfl, rfl⟩
  | setExpert expert => exact ⟨rfl, rfl, rfl, .inl rfl, rfl⟩
  | apdu a pinCheck faults => exact absurd rfl (hapdu a pinCheck faults)
  | approve salt faults =>
    obtain ⟨h₁, h₂, h₃, hclosed, h₅⟩ := (answered_approve pf d salt faults).kept
    exact ⟨h₁, h₂, h₃, .inr hclosed, h₅⟩
  | reject =>
    obtain ⟨h₁, h₂, h₃, hclosed, h₅⟩ := (answered_reject pf d).kept
    exact ⟨h₁, h₂, h₃, .inr hclosed, h₅⟩

end Decisions

end Steps

end LedgerArweave
