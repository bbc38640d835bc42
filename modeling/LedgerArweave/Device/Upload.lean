import LedgerArweave.Device.Steps
import LedgerArweave.Parser.Independent
import LedgerArweave.Parser.Review
import LedgerArweave.Store.Stages

set_option relaxedAutoImplicit false
set_option autoImplicit false

/-!
# Uploads

What is in the buffer when `tx_parse` is called, over any sequence of events, and how far the
device keeps to upload sessions. `tx_initialized` is set by `INIT` only, which also empties the
buffer, and is cleared by every chunk whose payload is lost; so while it is set, the buffer holds
all payloads since the last `INIT`. It says less than that a session is open.

## Main definitions

* `Step.uploaded` — the payload a step adds to an upload.
* `Step.Restarts`, `Step.CarriesOn` — what a step after which an upload is open has done with it.
* `SessionOpen` — whether a session is open after some steps.
* `FlagSet` — whether `tx_initialized` is set after some steps, read off what has happened.

## Main results

* `upload_reassembled` — the buffer `tx_parse` is called on.
* `txInitialized_run` — the flag of the device is what `FlagSet` says.
* `session_iff` — the runs in which sessions are respected.
-/

namespace LedgerArweave

open Fallible

/-- A step of the device. -/
abbrev Step (σ : Type) := Transition (Device σ) DeviceEvent Output

section Upload

variable {σ : Type}

/-! ## The chunks of a run -/

/-- The chunk handed to `process_chunk`. -/
def Step.chunk (t : Step σ) : Option (UInt8 × Bytes) := chunkOf t.before t.event

/-- An `INIT` chunk is processed. -/
def Step.IsInit (t : Step σ) : Prop := ∃ payload, t.chunk = some (p1Init, payload)

/-- An `ADD` or `LAST` chunk is processed. -/
def Step.IsUpload (t : Step σ) : Prop :=
  ∃ p1 payload, t.chunk = some (p1, payload) ∧ (p1 = p1Add ∨ p1 = p1Last)

/-- The payload of an `ADD` or `LAST` chunk. -/
def Step.uploaded (t : Step σ) : Bytes :=
  match t.chunk with
  | some (p1, payload) => if p1 = p1Add ∨ p1 = p1Last then payload else []
  | none => []

/-- The device is reset. -/
def Step.IsBoot (t : Step σ) : Prop := ∃ seed faults, t.event = .boot seed faults

/-- A step that is no upload adds nothing. -/
theorem Step.uploaded_of_not {t : Step σ} (h : ¬ t.IsUpload) : t.uploaded = [] := by
  unfold Step.uploaded
  rcases hc : t.chunk with _ | ⟨p1, payload⟩
  · rfl
  · exact if_neg fun hp1 => h ⟨p1, payload, hc, hp1⟩

variable (pf : Platform σ)

/-! ## Replies -/

/-- Answers with different status words differ. -/
theorem ascii_append_ne {w : Bytes} {code code' : ℕ} (h : statusReply code ≠ statusReply code') :
    w ++ statusReply code ≠ statusReply code' := by
  intro heq
  have hlen := congrArg List.length heq
  have hnil : w = [] := by
    rw [List.length_append] at hlen
    exact List.length_eq_zero_iff.mp (by
      change w.length + 2 = 2 at hlen
      omega)
  rw [hnil] at heq
  exact h heq

/-- The only code in place of a verdict is that of a read outside the mapped memory. -/
theorem txVerdict_error {d : Device σ} {code : ℕ} (h : txVerdict pf d = .error code) :
    code = apduCodeExecutionError := by
  unfold txVerdict at h
  dsimp only at h
  split at h
  · exact (Except.error.inj h).symm
  · exact absurd h (by simp)
  · split at h <;> exact absurd h (by simp)

/-- The reply to a `LAST` chunk is none of the refusals of `process_chunk`. -/
theorem reply_chunkStep_last (d : Device σ) {code : ℕ}
    (hcode : code = apduCodeOutputBufferTooSmall ∨ code = apduCodeTxNotInitialized ∨
      code = apduCodeOk) :
    (chunkStep pf d .last).2.reply ≠ some (statusReply code) := by
  have hinvalid : statusReply apduCodeDataInvalid ≠ statusReply code := by
    rcases hcode with rfl | rfl | rfl <;> decide
  have hexec : statusReply apduCodeExecutionError ≠ statusReply code := by
    rcases hcode with rfl | rfl | rfl <;> decide
  unfold chunkStep
  rcases hv : txVerdict pf d with e | _ | msg
  · rw [txVerdict_error pf hv]
    simpa using hexec
  · simp
  · simpa using ascii_append_ne hinvalid

/-! ## Steps and the upload -/

section Steps

variable (hlaw : pf.buffering.Lawful) {d d' : Device σ} {e : DeviceEvent} {o : Output}
  {payload : Bytes} (hstep : (device pf).step d e = (d', o))

/-- The bytes received so far. -/
def Device.received (d : Device σ) : Bytes := pf.buffering.data d.buffering

include hlaw hstep in
/-- **The step of `INIT`**: the buffer is emptied and the flag is set.

**Proof sketch.** By the step of a chunk. -/
theorem step_init (hc : chunkOf d e = some (p1Init, payload)) :
    d'.txInitialized = true ∧ d'.received pf = [] ∧ 0 < pf.buffering.address d'.buffering ∧
      o = ⟨some (statusReply apduCodeOk), none, []⟩ := by
  obtain ⟨io, hchunk⟩ := step_chunk pf hc
  rw [hstep] at hchunk
  obtain ⟨rfl, rfl⟩ := Prod.mk.inj hchunk
  exact ⟨rfl, hlaw.data_reset _, hlaw.address_reset _, rfl⟩

include hlaw in
/-- A payload is appended as a whole, or the upload is over.

**Proof sketch.** `tx_append` adds the payload or nothing. If the count is that of the payload, the
payload was added or is empty. -/
theorem appendEffect_cases (txInitialized : Bool) (buffering : σ) (payload : Bytes)
    (result : ChunkResult) :
    let effect := appendEffect pf.buffering txInitialized buffering payload result
    (effect.txInitialized = txInitialized ∧ effect.result = result ∧
      pf.buffering.data effect.buffering = pf.buffering.data buffering ++ payload ∧
      (0 < pf.buffering.address buffering → 0 < pf.buffering.address effect.buffering)) ∨
    (effect.txInitialized = false ∧ effect.result = .refused apduCodeOutputBufferTooSmall ∧
      pf.buffering.data effect.buffering = pf.buffering.data buffering) := by
  unfold appendEffect
  have haddress := hlaw.address_append buffering payload
  rcases hr : pf.buffering.append buffering payload with ⟨buffering', added⟩
  have happend := hlaw.append buffering payload
  rw [hr] at happend haddress
  dsimp only at happend haddress ⊢
  by_cases hadd : added = payload.length
  · rw [if_pos hadd]
    refine .inl ⟨rfl, rfl, ?_, haddress⟩
    rcases happend with ⟨hdata, -⟩ | ⟨hdata, hzero⟩
    · exact hdata
    · have hnil : payload = [] := List.length_eq_zero_iff.mp (hadd.symm.trans hzero)
      rw [hdata, hnil, List.append_nil]
  · rw [if_neg hadd]
    rcases happend with ⟨-, hall⟩ | ⟨hdata, -⟩
    · exact absurd hall hadd
    · exact .inr ⟨rfl, rfl, hdata⟩

/-- Only `LAST` leads to a parse.

**Proof sketch.** Along the cases of P1. -/
theorem chunkEffect_last {bf : Buffering σ} {txInitialized : Bool} {buffering : σ} {p1 : UInt8}
    {payload : Bytes} (h : (chunkEffect bf txInitialized buffering p1 payload).result = .last) :
    p1 = p1Last ∧ txInitialized = true := by
  unfold chunkEffect at h
  by_cases hinit : p1 = p1Init
  · rw [if_pos hinit] at h
    exact absurd h (by simp)
  by_cases hadd : p1 = p1Add
  · rw [if_neg hinit, if_pos hadd, appendEffect] at h
    dsimp only at h
    split at h <;> exact absurd h (by simp)
  by_cases hlast : p1 = p1Last
  · rw [if_neg hinit, if_neg hadd, if_pos hlast] at h
    by_cases hopen : txInitialized = true
    · exact ⟨hlast, hopen⟩
    · rw [if_neg hopen] at h
      exact absurd h (by simp)
  · rw [if_neg hinit, if_neg hadd, if_neg hlast] at h
    exact absurd h (by simp)

include hlaw hstep in
/-- **The step of `ADD`**: the payload is appended, whatever the flag, or there is no room.

**Proof sketch.** By the step of a chunk and `appendEffect_cases`. -/
theorem step_add (hc : chunkOf d e = some (p1Add, payload)) :
    o.parsed = none ∧
    ((d'.txInitialized = d.txInitialized ∧ d'.received pf = d.received pf ++ payload ∧
        (0 < pf.buffering.address d.buffering → 0 < pf.buffering.address d'.buffering) ∧
        o.reply = some (statusReply apduCodeOk)) ∨
      (d'.txInitialized = false ∧ d'.received pf = d.received pf ∧
        o.reply = some (statusReply apduCodeOutputBufferTooSmall))) := by
  obtain ⟨io, hchunk⟩ := step_chunk pf hc
  have heffect : chunkEffect pf.buffering d.txInitialized d.buffering p1Add payload =
      appendEffect pf.buffering d.txInitialized d.buffering payload .more := rfl
  rw [hstep, heffect] at hchunk
  rcases appendEffect_cases pf hlaw d.txInitialized d.buffering payload .more with
    ⟨hflag, hres, hdata, haddress⟩ | ⟨hflag, hres, hdata⟩
  · rw [hres] at hchunk
    obtain ⟨rfl, rfl⟩ := Prod.mk.inj hchunk
    exact ⟨rfl, .inl ⟨hflag, hdata, haddress, rfl⟩⟩
  · rw [hres] at hchunk
    obtain ⟨rfl, rfl⟩ := Prod.mk.inj hchunk
    exact ⟨rfl, .inr ⟨hflag, hdata, rfl⟩⟩

include hstep in
/-- `LAST` without `tx_initialized` is refused. -/
theorem step_last_closed (hc : chunkOf d e = some (p1Last, payload))
    (hclosed : d.txInitialized = false) :
    d'.txInitialized = false ∧ d'.received pf = d.received pf ∧
      o = ⟨some (statusReply apduCodeTxNotInitialized), none, []⟩ := by
  obtain ⟨io, hchunk⟩ := step_chunk pf hc
  have heffect : chunkEffect pf.buffering d.txInitialized d.buffering p1Last payload =
      ⟨d.txInitialized, d.buffering, .refused apduCodeTxNotInitialized⟩ := by
    rw [hclosed]
    rfl
  rw [hstep, heffect] at hchunk
  obtain ⟨rfl, rfl⟩ := Prod.mk.inj hchunk
  exact ⟨hclosed, rfl, rfl⟩

/-- The step of `LAST` leaves the flag and the buffer as the chunk has made them. -/
theorem chunkStep_last (d : Device σ) :
    (chunkStep pf d .last).1.txInitialized = d.txInitialized ∧
      (chunkStep pf d .last).1.buffering = d.buffering ∧
      (chunkStep pf d .last).1.parser = txParsed pf d ∧
      (chunkStep pf d .last).2.parsed = some (d.received pf) := by
  unfold chunkStep
  rcases txVerdict pf d with e | _ | msg <;> exact ⟨rfl, rfl, rfl, rfl⟩

include hlaw hstep in
/-- `LAST` with `tx_initialized` is parsed, unless its payload does not fit.

**Proof sketch.** By the step of a chunk and `appendEffect_cases`; parsing changes neither the flag
nor the buffer. -/
theorem step_last_open (hc : chunkOf d e = some (p1Last, payload))
    (hopen : d.txInitialized = true) :
    (d'.txInitialized = true ∧ d'.received pf = d.received pf ++ payload ∧
        (0 < pf.buffering.address d.buffering → 0 < pf.buffering.address d'.buffering) ∧
        o.parsed = some (d'.received pf) ∧
        ∀ code, code = apduCodeOutputBufferTooSmall ∨ code = apduCodeTxNotInitialized ∨
          code = apduCodeOk → o.reply ≠ some (statusReply code)) ∨
      (d'.txInitialized = false ∧ d'.received pf = d.received pf ∧ o.parsed = none ∧
        o.reply = some (statusReply apduCodeOutputBufferTooSmall)) := by
  obtain ⟨io, hchunk⟩ := step_chunk pf hc
  have heffect : chunkEffect pf.buffering d.txInitialized d.buffering p1Last payload =
      appendEffect pf.buffering d.txInitialized d.buffering payload .last := by
    rw [hopen]
    rfl
  rw [hstep, heffect] at hchunk
  rcases appendEffect_cases pf hlaw d.txInitialized d.buffering payload .last with
    ⟨hflag, hres, hdata, haddress⟩ | ⟨hflag, hres, hdata⟩
  · rw [hres] at hchunk
    obtain ⟨rfl, rfl⟩ := Prod.mk.inj hchunk
    obtain ⟨hflag', hbuf, -, hparsed⟩ := chunkStep_last pf (d.setUpload
      (appendEffect pf.buffering d.txInitialized d.buffering payload .last))
    refine .inl ⟨hflag'.trans (hflag.trans hopen), ?_, ?_, ?_, fun code hcode =>
      reply_chunkStep_last pf _ hcode⟩
    · exact (congrArg pf.buffering.data hbuf).trans hdata
    · exact fun h => (congrArg pf.buffering.address hbuf).symm ▸ haddress h
    · exact hparsed.trans (congrArg (fun b => some (pf.buffering.data b)) hbuf.symm)
  · rw [hres] at hchunk
    obtain ⟨rfl, rfl⟩ := Prod.mk.inj hchunk
    exact .inr ⟨hflag, hdata, rfl, rfl⟩

include hstep in
/-- Another `P1` ends the upload. -/
theorem step_badP1 {p1 : UInt8} (hc : chunkOf d e = some (p1, payload)) (hinit : p1 ≠ p1Init)
    (hadd : p1 ≠ p1Add) (hlast : p1 ≠ p1Last) :
    d'.txInitialized = false ∧ d'.received pf = d.received pf ∧ o.parsed = none := by
  obtain ⟨io, hchunk⟩ := step_chunk pf hc
  rw [hstep, chunkEffect, if_neg hinit, if_neg hadd, if_neg hlast] at hchunk
  obtain ⟨rfl, rfl⟩ := Prod.mk.inj hchunk
  exact ⟨rfl, rfl, rfl⟩

include hstep in
/-- A step without a chunk changes nothing, a reset apart. -/
theorem step_noChunk (hc : chunkOf d e = none) (hboot : ∀ seed faults, e ≠ .boot seed faults) :
    d'.txInitialized = d.txInitialized ∧ d'.buffering = d.buffering ∧ o.parsed = none := by
  have hafter : ((device pf).step d e).1 = d' := by rw [hstep]
  have hout : ((device pf).step d e).2 = o := by rw [hstep]
  by_cases hapdu : ∃ a pinCheck faults, e = .apdu a pinCheck faults
  · obtain ⟨a, pinCheck, faults, rfl⟩ := hapdu
    obtain ⟨hframe, hparsed, -⟩ := step_other pf hc
    rw [← hafter, ← hout]
    exact ⟨hframe.txInitialized, hframe.buffering, hparsed⟩
  · have huser := step_user pf (d := d) (e := e)
      (fun a pinCheck faults h => hapdu ⟨a, pinCheck, faults, h⟩) hboot
    rw [← hafter, ← hout]
    exact ⟨huser.1, huser.2.1, huser.2.2.2.2⟩

end Steps

/-! ## A sample platform

Constant hashes and keys, and a list as the upload buffer. The modulus of the keys is the owner
of the sample transactions. -/

/-- A list of at most `FLASH_BUFFER_SIZE` bytes. -/
def sampleBuffering : Buffering Bytes where
  start := []
  init s := s
  reset _ := []
  append s x := if s.length + x.length ≤ 16384 then (s ++ x, x.length) else (s, 0)
  address _ := 1
  data s := s

/-- The sample buffer is lawful. -/
theorem sampleBuffering_lawful : sampleBuffering.Lawful where
  data_reset _ := rfl
  address_reset _ := Nat.one_pos
  address_append _ _ _ := Nat.one_pos
  append s x := by
    by_cases h : s.length + x.length ≤ 16384
    · exact .inl (by simp [sampleBuffering, h])
    · exact .inr (by simp [sampleBuffering, h])

/-- The sample platform. -/
def samplePlatform : Platform Bytes where
  sdk := sampleSdk
  sha384 _ := zeroBlock 48
  zx := sampleFormat
  buffering := sampleBuffering
  version := zeroBlock 9

/-- A chunk with a short payload. -/
def sampleChunk (p1 : UInt8) (payload : Block 1) : DeviceEvent :=
  .apdu ⟨claByte :: insSign :: p1 :: 0 :: 1 :: payload.val, by
    simp [payload.property, ioApduBufferSize]⟩ none []

/-- Setting up the keys. -/
def sampleSetup : List DeviceEvent := [.boot [] [], .storeInit []]

/-- The sample platform with a hash that tells inputs with different ends apart. -/
def hashingPlatform : Platform Bytes := { samplePlatform with sha384 := lastBytes }

/-- A `SIGN` command with any payload that fits. -/
def signChunk (p1 : UInt8) (payload : Bytes) : DeviceEvent :=
  if h : payload.length < 256 then .apdu (command insSign p1 0 payload h) none [] else .reject

/-! ## Reassembly -/

/-- A payload has been refused for lack of space. -/
def Step.Refused (t : Step σ) : Prop :=
  t.output.reply = some (statusReply apduCodeOutputBufferTooSmall)

/-- A step in the middle of an upload. -/
structure Step.Continues (t : Step σ) : Prop where
  not_isInit : ¬ t.IsInit
  not_isBoot : ¬ t.IsBoot
  not_refused : t.IsUpload → ¬ t.Refused

/-- While `tx_initialized` is set, the buffer holds all payloads since the last `INIT`. -/
def Reassembled (h : List (Step σ)) (d : Device σ) : Prop :=
  d.txInitialized = true → 0 < pf.buffering.address d.buffering ∧
    ∃ h₁ u h₂, h = h₁ ++ u :: h₂ ∧ u.IsInit ∧ (∀ v ∈ h₂, v.Continues) ∧
      d.received pf = h₂.flatMap Step.uploaded

section Reassembly

variable (hlaw : pf.buffering.Lawful)

/-- What an `ADD` or `LAST` chunk adds is its payload. -/
theorem Step.uploaded_eq {t : Step σ} {p1 : UInt8} {payload : Bytes}
    (hc : t.chunk = some (p1, payload)) (hp1 : p1 = p1Add ∨ p1 = p1Last) :
    t.uploaded = payload := by
  rw [Step.uploaded, hc]
  exact if_pos hp1

/-- The conditions of `Step.Continues`, for a chunk that is no `INIT`. -/
theorem Step.continues_of_chunk {t : Step σ} {p1 : UInt8} {payload : Bytes}
    (hc : t.chunk = some (p1, payload)) (hinit : p1 ≠ p1Init) (hrefused : ¬ t.Refused) :
    t.Continues where
  not_isInit := by
    rintro ⟨payload', hinit'⟩
    rw [hc] at hinit'
    exact hinit (Prod.mk.inj (Option.some.inj hinit')).1
  not_isBoot := by
    rintro ⟨seed, faults, he⟩
    rw [Step.chunk, he] at hc
    exact absurd hc (by simp [chunkOf])
  not_refused _ := hrefused

/-- The step begins an upload anew. -/
structure Step.Restarts (t : Step σ) : Prop where
  isInit : t.IsInit
  received : t.after.received pf = []
  address : 0 < pf.buffering.address t.after.buffering
  parsed : t.output.parsed = none

/-- The step leaves an open upload open and appends what it uploads. -/
structure Step.CarriesOn (t : Step σ) : Prop where
  txInitialized : t.before.txInitialized = true
  continues : t.Continues
  received : t.after.received pf = t.before.received pf ++ t.uploaded
  address : 0 < pf.buffering.address t.before.buffering → 0 < pf.buffering.address t.after.buffering
  parsed : ∀ data, t.output.parsed = some data → data = t.after.received pf

section Open

variable {d : Device σ} {e : DeviceEvent} {payload : Bytes}

/-- A step without a chunk carries an open upload on.

**Proof sketch.** Such a step keeps the upload and parses nothing. -/
theorem carriesOn_noChunk (hc : chunkOf d e = none) :
    let t : Step σ := (device pf).transition d e
    ¬ t.IsBoot → t.after.txInitialized = true → t.CarriesOn pf := by
  intro t hboot hopen
  have hstep : (device pf).step d e = (t.after, t.output) := rfl
  obtain ⟨hflag, hbuf, hparsed⟩ := step_noChunk pf hstep hc
    fun seed faults he => hboot ⟨seed, faults, he⟩
  have hnone : t.chunk = none := hc
  have hupload : ¬ t.IsUpload := by
    rintro ⟨p1, payload, hsome, -⟩
    rw [hnone] at hsome
    exact absurd hsome (by simp)
  refine ⟨hflag ▸ hopen, ⟨?_, hboot, fun h => absurd h hupload⟩, ?_, ?_, ?_⟩
  · rintro ⟨payload, hsome⟩
    rw [hnone] at hsome
    exact absurd hsome (by simp)
  · rw [Step.uploaded_of_not hupload, List.append_nil, Device.received, hbuf]
    rfl
  · rw [hbuf]
    exact id
  · intro data hdata
    rw [hparsed] at hdata
    exact absurd hdata (by simp)

include hlaw in
/-- A chunk sent as `ADD` carries an upload on that is open afterwards.

**Proof sketch.** If there were no room, the flag would be unset. -/
theorem carriesOn_add (hc : chunkOf d e = some (p1Add, payload)) :
    let t : Step σ := (device pf).transition d e
    t.after.txInitialized = true → t.CarriesOn pf := by
  intro t hopen
  have hstep : (device pf).step d e = (t.after, t.output) := rfl
  have hchunk : t.chunk = some (p1Add, payload) := hc
  obtain ⟨hparsed, ⟨hflag, hdata, haddress, hreply⟩ | ⟨hflag, -⟩⟩ := step_add pf hlaw hstep hc
  · refine ⟨hflag ▸ hopen, Step.continues_of_chunk hchunk (by decide) ?_, ?_, haddress, ?_⟩
    · rw [Step.Refused, hreply]
      decide
    · rw [Step.uploaded_eq hchunk (.inl rfl)]
      exact hdata
    · intro data hsome
      rw [hparsed] at hsome
      exact absurd hsome (by simp)
  · rw [hflag] at hopen
    exact absurd hopen (by simp)

include hlaw in
/-- A chunk sent as `LAST` carries an upload on that is open afterwards.

**Proof sketch.** Without the flag, or without room, the flag would be unset afterwards. -/
theorem carriesOn_last (hc : chunkOf d e = some (p1Last, payload)) :
    let t : Step σ := (device pf).transition d e
    t.after.txInitialized = true → t.CarriesOn pf := by
  intro t hopen
  have hstep : (device pf).step d e = (t.after, t.output) := rfl
  have hchunk : t.chunk = some (p1Last, payload) := hc
  have hbefore : d.txInitialized = true := by
    by_contra hclosed
    obtain ⟨hflag, -⟩ := step_last_closed pf hstep hc (Bool.eq_false_of_not_eq_true hclosed)
    rw [hflag] at hopen
    exact absurd hopen (by simp)
  rcases step_last_open pf hlaw hstep hc hbefore with
    ⟨-, hdata, haddress, hparsed, hreply⟩ | ⟨hflag, -⟩
  · refine ⟨hbefore, Step.continues_of_chunk hchunk (by decide) (hreply _ (.inl rfl)), ?_,
      haddress, ?_⟩
    · rw [Step.uploaded_eq hchunk (.inr rfl)]
      exact hdata
    · intro data hsome
      rw [hparsed] at hsome
      exact (Option.some.inj hsome).symm
  · rw [hflag] at hopen
    exact absurd hopen (by simp)

end Open

include hlaw in
/-- How a step after which `tx_initialized` is set has acted on the upload.

**Proof sketch.** By the kind of chunk: `INIT` restarts the upload, the others carry it on, and a P1
that is none of the three unsets the flag. -/
theorem step_open (d : Device σ) (e : DeviceEvent) :
    let t : Step σ := (device pf).transition d e
    t.after.txInitialized = true → t.Restarts pf ∨ t.CarriesOn pf := by
  intro t hopen
  have hstep : (device pf).step d e = (t.after, t.output) := rfl
  rcases hc : chunkOf d e with _ | ⟨p1, payload⟩
  · by_cases hboot : t.IsBoot
    · obtain ⟨seed, faults, rfl⟩ := hboot
      exact absurd hopen (by simp [t, Machine.transition, device, Device.boot, Device.fresh])
    · exact .inr (carriesOn_noChunk pf hc hboot hopen)
  · by_cases hinit : p1 = p1Init
    · subst hinit
      obtain ⟨-, hdata, haddress, hout⟩ := step_init pf hlaw hstep hc
      exact .inl ⟨⟨payload, hc⟩, hdata, haddress, by rw [hout]⟩
    by_cases hadd : p1 = p1Add
    · subst hadd
      exact .inr (carriesOn_add pf hlaw hc hopen)
    by_cases hlast : p1 = p1Last
    · subst hlast
      exact .inr (carriesOn_last pf hlaw hc hopen)
    · obtain ⟨hflag, -⟩ := step_badP1 pf hstep hc hinit hadd hlast
      rw [hflag] at hopen
      exact absurd hopen (by simp)

include hlaw in
/-- Every step keeps the invariant.

**Proof sketch.** By `step_open`: a step that restarts the upload is the new beginning of it, and
one that carries it on appends what it brings. -/
theorem reassembled_step {h : List (Step σ)} {d : Device σ} (hd : Reassembled pf h d)
    (e : DeviceEvent) :
    Reassembled pf (h ++ [(device pf).transition d e]) ((device pf).step d e).1 := by
  intro hopen
  rcases step_open pf hlaw d e hopen with
    ⟨hinit, hdata, haddress, -⟩ | ⟨hbefore, hcont, hdata, haddress, -⟩
  · exact ⟨haddress, h, _, [], rfl, hinit, by simp, hdata⟩
  · obtain ⟨hpos, h₁, u, h₂, rfl, hu, hmid, hreceived⟩ := hd hbefore
    refine ⟨haddress hpos, h₁, u, h₂ ++ [(device pf).transition d e], ?_, hu, ?_, ?_⟩
    · rw [List.append_assoc, List.cons_append]
    · intro v hv
      rcases List.mem_append.mp hv with hv | hv
      · exact hmid v hv
      · rw [List.mem_singleton.mp hv]
        exact hcont
    · rw [List.flatMap_append, ← hreceived, List.flatMap_singleton]
      exact hdata

include hlaw in
/-- The invariant holds after every run. -/
theorem reassembled_run (es : List DeviceEvent) :
    Reassembled pf ((device pf).trace (.fresh pf) es) ((device pf).run (.fresh pf) es) := by
  refine Machine.history_induction (G := fun _ => True) (P := Reassembled pf)
    (fun hopen => absurd hopen (by simp [Device.fresh])) ?_ (fun _ _ => trivial)
  intro h d e hd _
  exact reassembled_step pf hlaw hd e

/-- The parser only changes in a step that calls `tx_parse`, and at a reset.

**Proof sketch.** By the kind of step. Only the last chunk is parsed, and only a reset clears the
parser. -/
theorem parser_step {d : Device σ} {e : DeviceEvent}
    (hparsed : ((device pf).step d e).2.parsed = none) :
    ((device pf).step d e).1.parser = d.parser ∨ ((device pf).step d e).1.parser = .zero := by
  rcases hc : chunkOf d e with _ | ⟨p1, payload⟩
  · by_cases hboot : ∃ seed faults, e = .boot seed faults
    · obtain ⟨seed, faults, rfl⟩ := hboot
      exact .inr rfl
    · by_cases hapdu : ∃ a pinCheck faults, e = .apdu a pinCheck faults
      · obtain ⟨a, pinCheck, faults, rfl⟩ := hapdu
        exact .inl (step_other pf hc).1.parser
      · exact .inl (step_user pf (fun a pinCheck faults h => hapdu ⟨a, pinCheck, faults, h⟩)
          fun seed faults h => hboot ⟨seed, faults, h⟩).2.2.1
  · obtain ⟨io, hchunk⟩ := step_chunk pf hc
    rw [hchunk] at hparsed ⊢
    cases hres : (chunkEffect pf.buffering d.txInitialized d.buffering p1 payload).result with
    | more => exact .inl rfl
    | refused code => exact .inl rfl
    | last =>
      rw [hres] at hparsed
      exact absurd ((chunkStep_last pf _).2.2.2.symm.trans hparsed) (by simp)

/-- Until `tx_parse` is called, the parser is as it was at the start. -/
theorem parser_run (es : List DeviceEvent)
    (hparsed : (device pf).Respects (fun t => t.output.parsed = none) (.fresh pf) es) :
    ((device pf).run (.fresh pf) es).parser = .zero := by
  refine Machine.invariant (I := fun d : Device σ => d.parser = .zero) rfl ?_ hparsed
  intro d e hd hnone
  rcases parser_step pf hnone with hsame | hzero
  · exact hsame.trans hd
  · exact hzero

/-- The run of `parser_parse` in a step that calls `tx_parse`. -/
def Step.parse (t : Step σ) : Except ParserStop Unit × ParserState :=
  let m := txBuffer pf t.after
  (parserParse m m.base m.bytes.length).exec t.before.parser

/-- Only a `LAST` chunk is parsed, and only while `tx_initialized` is set.

**Proof sketch.** Neither a command that is no chunk nor a chunk with another effect leads to a
parse. -/
theorem chunk_of_parsed {d : Device σ} {e : DeviceEvent} {data : Bytes}
    (hparsed : ((device pf).step d e).2.parsed = some data) :
    d.txInitialized = true ∧ ∃ payload, chunkOf d e = some (p1Last, payload) ∧
      (chunkEffect pf.buffering d.txInitialized d.buffering p1Last payload).result = .last := by
  rcases hc : chunkOf d e with _ | ⟨p1, payload⟩
  · by_cases hboot : ∃ seed faults, e = .boot seed faults
    · obtain ⟨seed, faults, rfl⟩ := hboot
      exact absurd hparsed (by simp [device])
    · obtain ⟨-, -, hnone⟩ := step_noChunk pf (o := ((device pf).step d e).2) rfl hc
        fun seed faults he => hboot ⟨seed, faults, he⟩
      exact absurd (hnone.symm.trans hparsed) (by simp)
  · obtain ⟨io, hchunk⟩ := step_chunk pf hc
    rw [hchunk] at hparsed
    cases hres : (chunkEffect pf.buffering d.txInitialized d.buffering p1 payload).result with
    | more =>
      rw [hres] at hparsed
      exact absurd hparsed (by simp [chunkStep])
    | refused code =>
      rw [hres] at hparsed
      exact absurd hparsed (by simp [chunkStep])
    | last =>
      obtain ⟨rfl, hopen⟩ := chunkEffect_last hres
      exact ⟨hopen, payload, rfl, hres⟩

/-- What `tx_parse` reads and leaves behind.

**Proof sketch.** By the step of a chunk; parsing leaves the buffer alone, so what was parsed is
still there. -/
theorem step_parsed {d : Device σ} {e : DeviceEvent} {data : Bytes} :
    let t : Step σ := (device pf).transition d e
    t.output.parsed = some data →
      data = (txBuffer pf t.after).bytes ∧ t.after.parser = (t.parse pf).2 := by
  intro t hparsed
  obtain ⟨-, payload, hc, hres⟩ := chunk_of_parsed pf hparsed
  obtain ⟨io, hchunk⟩ := step_chunk pf hc
  rw [hres] at hchunk
  obtain ⟨-, hbuf, hparser, hdata⟩ := chunkStep_last pf (d.setUpload
    (chunkEffect pf.buffering d.txInitialized d.buffering p1Last payload))
  have hafter : t.after = (chunkStep pf (d.setUpload
      (chunkEffect pf.buffering d.txInitialized d.buffering p1Last payload)) .last).1.setIo io :=
    congrArg Prod.fst hchunk
  have hout : t.output = (chunkStep pf (d.setUpload
      (chunkEffect pf.buffering d.txInitialized d.buffering p1Last payload)) .last).2 :=
    (congrArg Prod.snd hchunk :)
  have hbuffer : txBuffer pf t.after = txBuffer pf (d.setUpload
      (chunkEffect pf.buffering d.txInitialized d.buffering p1Last payload)) := by
    rw [hafter, txBuffer, txBuffer, Device.setIo, hbuf]
  constructor
  · rw [hbuffer]
    rw [hout, hdata] at hparsed
    exact (Option.some.inj hparsed).symm
  · rw [Step.parse, hbuffer, hafter]
    exact hparser

include hlaw in
/-- The state after a step that calls `tx_parse`. -/
theorem open_of_parsed {d : Device σ} {e : DeviceEvent} {data : Bytes}
    (hparsed : ((device pf).step d e).2.parsed = some data) :
    d.txInitialized = true ∧ ((device pf).step d e).1.txInitialized = true := by
  obtain ⟨hopen, payload, hc, -⟩ := chunk_of_parsed pf hparsed
  rcases step_last_open pf hlaw (o := ((device pf).step d e).2) rfl hc hopen with
    ⟨hflag, -⟩ | ⟨-, -, hnone, -⟩
  · exact ⟨hopen, hflag⟩
  · exact absurd (hnone.symm.trans hparsed) (by simp)

include hlaw in
/-- **Reassembly**, for every sequence of events: whenever `tx_parse` is called, the buffer is
the concatenation of the payloads of all `ADD` and `LAST` chunks processed since the most recent
`INIT`, none of which was refused for lack of space. Whichever way the same bytes have been cut
into chunks, and whatever has happened before, the result of parsing them is the same, and so
are the fields if there are any.

**Proof sketch.** By `reassembled_run` the flag is set only if the buffer is the concatenation since
the last `INIT`; the chunk that is parsed carries the upload on. The parse depends only on the bytes
of the buffer, not on where it is or on what the parser held, by `parserParse_independent`. -/
theorem upload_reassembled :
    (∀ es pre (t : Step σ) post data, (device pf).trace (.fresh pf) es = pre ++ t :: post →
      t.output.parsed = some data →
      data = (txBuffer pf t.after).bytes ∧ t.after.parser = (t.parse pf).2 ∧
      ∃ h₁ u h₂, pre = h₁ ++ u :: h₂ ∧ u.IsInit ∧ (∀ v ∈ h₂ ++ [t], v.Continues) ∧
        data = (h₂ ++ [t]).flatMap Step.uploaded) ∧
    (∀ es es' pre pre' (t t' : Step σ) post post' data,
      (device pf).trace (.fresh pf) es = pre ++ t :: post →
      (device pf).trace (.fresh pf) es' = pre' ++ t' :: post' →
      t.output.parsed = some data → t'.output.parsed = some data →
      (t.parse pf).1 = (t'.parse pf).1 ∧
        ((t.parse pf).1 = .ok () →
          (t.parse pf).2.tx.fields (txBuffer pf t.after) =
            (t'.parse pf).2.tx.fields (txBuffer pf t'.after))) := by
  have hfirst : ∀ es pre (t : Step σ) post data,
      (device pf).trace (.fresh pf) es = pre ++ t :: post → t.output.parsed = some data →
      0 < (txBuffer pf t.after).base ∧
      data = (txBuffer pf t.after).bytes ∧ t.after.parser = (t.parse pf).2 ∧
      ∃ h₁ u h₂, pre = h₁ ++ u :: h₂ ∧ u.IsInit ∧ (∀ v ∈ h₂ ++ [t], v.Continues) ∧
        data = (h₂ ++ [t]).flatMap Step.uploaded := by
    intro es pre t post data htrace hparsed
    obtain ⟨es₁, e, es₂, -, rfl, rfl⟩ := Machine.exists_of_trace_eq _ htrace
    obtain ⟨hdata, hparser⟩ := step_parsed pf hparsed
    obtain ⟨hopen, hafter⟩ := open_of_parsed pf hlaw hparsed
    obtain ⟨hpos, h₁, u, h₂, htr, hu, hmid, hreceived⟩ := reassembled_run pf hlaw es₁ hopen
    rcases step_open pf hlaw _ e hafter with
      ⟨-, -, -, hnone⟩ | ⟨-, hcont, hreceived', haddress, -⟩
    · exact absurd (hnone.symm.trans hparsed) (by simp)
    · refine ⟨haddress hpos, hdata, hparser, h₁, u, h₂, htr, hu, ?_, ?_⟩
      · intro v hv
        rcases List.mem_append.mp hv with hv | hv
        · exact hmid v hv
        · rw [List.mem_singleton.mp hv]
          exact hcont
      · rw [List.flatMap_append, ← hreceived, List.flatMap_singleton, hdata]
        exact hreceived'
  constructor
  · intro es pre t post data htrace hparsed
    exact (hfirst es pre t post data htrace hparsed).2
  · intro es es' pre pre' t t' post post' data htrace htrace' hparsed hparsed'
    obtain ⟨hbase, hdata, -⟩ := hfirst es pre t post data htrace hparsed
    obtain ⟨hbase', hdata', -⟩ := hfirst es' pre' t' post' data htrace' hparsed'
    have hbytes : (txBuffer pf t.after).bytes = (txBuffer pf t'.after).bytes :=
      hdata.symm.trans hdata'
    have hsame := parserParse_independent hbytes hbase hbase' (txBuffer pf t.after).bytes.length
      t.before.parser t'.before.parser
    have hrun' : t'.parse pf = (parserParse (txBuffer pf t'.after) (txBuffer pf t'.after).base
        (txBuffer pf t.after).bytes.length).exec t'.before.parser := by
      rw [Step.parse, hbytes]
    rw [hrun']
    refine ⟨hsame, fun hok => ?_⟩
    have hok' := hsame.symm.trans hok
    exact fields_independent hbytes (le_refl _) (Prod.ext hok rfl) (Prod.ext hok' rfl)

/-- `INIT`, `ADD` and `LAST` are reassembled.

**Proof sketch.** By the theorem, for a run whose last step parses. -/
theorem upload_reassembled_sample :
    let es := sampleSetup ++
      [sampleChunk p1Init ⟨[0], rfl⟩, sampleChunk p1Add ⟨[7], rfl⟩]
    let d := (device samplePlatform).run (.fresh samplePlatform) es
    let t : Step Bytes := (device samplePlatform).transition d (sampleChunk p1Last ⟨[8], rfl⟩)
    t.output.parsed = some [7, 8] ∧
      ∃ h₁ u h₂, (device samplePlatform).trace (.fresh samplePlatform) es = h₁ ++ u :: h₂ ∧
        u.IsInit ∧ [7, 8] = (h₂ ++ [t]).flatMap Step.uploaded := by
  intro es d t
  have hparsed : t.output.parsed = some [7, 8] := by decide +kernel
  obtain ⟨-, -, h₁, u, h₂, hpre, hu, -, hdata⟩ :=
    (upload_reassembled samplePlatform sampleBuffering_lawful).1
      (es ++ [sampleChunk p1Last ⟨[8], rfl⟩]) _ t [] _ (Machine.trace_concat _ _ _ _) hparsed
  exact ⟨hparsed, h₁, u, h₂, hpre, hu, hdata⟩

end Reassembly

/-! ## Sessions -/

/-- A `SIGN` command is answered with an error. -/
def Step.FailsSign (t : Step σ) : Prop :=
  (∃ a pinCheck faults rest, t.event = .apdu a pinCheck faults ∧
    a.bytes = claByte :: insSign :: rest) ∧
  ∃ reply, t.output.reply = some reply ∧ reply ≠ statusReply apduCodeOk

/-- A session ends: a `LAST` chunk is processed, a chunk fails, or the device is reset. -/
def Step.Closes (t : Step σ) : Prop :=
  (∃ payload, t.chunk = some (p1Last, payload)) ∨ t.FailsSign ∨ t.IsBoot

/-- A session is open after some steps: an `INIT` has been processed and nothing has ended the
session since. -/
def SessionOpen (h : List (Step σ)) : Prop :=
  ∃ h₁ u h₂, h = h₁ ++ u :: h₂ ∧ u.IsInit ∧ ∀ v ∈ h₂, ¬ v.Closes

/-- What upload sessions promise of a run. -/
structure SessionRespected (tr : List (Step σ)) : Prop where
  /-- Without a session, `ADD` and `LAST` are refused and append nothing. -/
  refused : ∀ pre t post, tr = pre ++ t :: post → t.IsUpload → ¬ SessionOpen pre →
    t.output.reply = some (statusReply apduCodeTxNotInitialized) ∧
      t.after.received pf = t.before.received pf
  /-- There is an `INIT` between any two calls of `tx_parse`. -/
  once : ∀ pre t mid u post, tr = pre ++ t :: (mid ++ u :: post) →
    t.output.parsed.isSome → u.output.parsed.isSome → ∃ v ∈ mid, v.IsInit
  /-- Reviews of transactions are opened by steps that call `tx_parse`. -/
  opened : ∀ t ∈ tr, t.after.review = some .transaction →
    t.before.review = some .transaction ∨ t.output.parsed.isSome

/-- What clears `tx_initialized`: a reset, a payload there is no room for, and a chunk with none of
the three values of `P1`. -/
def Step.Clears (t : Step σ) : Prop :=
  t.IsBoot ∨ (t.IsUpload ∧ t.Refused) ∨
    ∃ p1 payload, t.chunk = some (p1, payload) ∧ p1 ≠ p1Init ∧ p1 ≠ p1Add ∧ p1 ≠ p1Last

/-- By what has happened, `tx_initialized` is set: an `INIT` chunk has been processed, and nothing
has cleared it since. -/
def FlagSet (h : List (Step σ)) : Prop := Since Step.IsInit (fun v => ¬ v.Clears) h

/-- Without a session, no `ADD` chunk is processed, and no `LAST` chunk while `tx_initialized` is
still set by what has happened. -/
def SessionKept (tr : List (Step σ)) : Prop :=
  ∀ pre t post, tr = pre ++ t :: post → ¬ SessionOpen pre →
    (∀ payload, t.chunk ≠ some (p1Add, payload)) ∧
      (FlagSet pre → ∀ payload, t.chunk ≠ some (p1Last, payload))

section Session

/-- An `ADD` or `LAST` chunk clears the flag only if there is no room for it. -/
theorem Step.not_clears {t : Step σ} {p1 : UInt8} {payload : Bytes}
    (hc : t.chunk = some (p1, payload)) (hp1 : p1 = p1Add ∨ p1 = p1Last) (hroom : ¬ t.Refused) :
    ¬ t.Clears := by
  have hinit : p1 ≠ p1Init := by rcases hp1 with rfl | rfl <;> decide
  rintro (hboot | ⟨-, hrefused⟩ | ⟨p1', payload', hc', -, hadd, hlast⟩)
  · exact (Step.continues_of_chunk hc hinit hroom).not_isBoot hboot
  · exact hroom hrefused
  · rw [hc] at hc'
    obtain ⟨rfl, -⟩ := Prod.mk.inj (Option.some.inj hc')
    exact hp1.elim hadd hlast

/-- If a step ends sessions and one is open later, there has been an `INIT` in between. -/
theorem exists_init_of_sessionOpen {pre mid : List (Step σ)} {t : Step σ} (hclose : t.Closes)
    (hinit : ¬ t.IsInit) (hopen : SessionOpen (pre ++ t :: mid)) : ∃ v ∈ mid, v.IsInit := by
  obtain ⟨h₁, u, h₂, heq, hu, hmid⟩ := hopen
  rcases List.append_eq_append_iff.mp heq with ⟨as, -, htail⟩ | ⟨bs, -, htail⟩
  · cases as with
    | nil => exact absurd (List.head_eq_of_cons_eq htail ▸ hu) hinit
    | cons a as => exact ⟨u, by simp [List.tail_eq_of_cons_eq htail], hu⟩
  · cases bs with
    | nil => exact absurd (List.head_eq_of_cons_eq htail ▸ hu) hinit
    | cons b bs =>
      have hmem : t ∈ h₂ := by simp [List.tail_eq_of_cons_eq htail]
      exact absurd hclose (hmid t hmem)

/-- A step that ends sessions leaves none open. -/
theorem not_sessionOpen_concat {h : List (Step σ)} {t : Step σ} (hclose : t.Closes)
    (hinit : ¬ t.IsInit) : ¬ SessionOpen (h ++ [t]) := by
  intro hopen
  obtain ⟨v, hv, -⟩ := exists_init_of_sessionOpen hclose hinit hopen
  exact absurd hv List.not_mem_nil

/-- A `LAST` chunk is no `INIT` chunk. -/
theorem Step.not_isInit_of_last {t : Step σ} {payload : Bytes}
    (hc : t.chunk = some (p1Last, payload)) : ¬ t.IsInit := by
  rintro ⟨payload', hinit⟩
  rw [hc] at hinit
  exact absurd (Prod.mk.inj (Option.some.inj hinit)).1 (by decide)

/-- A review of a transaction is opened by `tx_parse` only.

**Proof sketch.** By the kind of step. Only a chunk that is parsed opens the review of a
transaction. -/
theorem review_opened {d : Device σ} {e : DeviceEvent} :
    let t : Step σ := (device pf).transition d e
    t.after.review = some .transaction →
      d.review = some .transaction ∨ t.output.parsed.isSome := by
  intro t hreview
  rcases hc : chunkOf d e with _ | ⟨p1, payload⟩
  · by_cases hboot : ∃ seed faults, e = .boot seed faults
    · obtain ⟨seed, faults, rfl⟩ := hboot
      exact absurd hreview (by simp [t, Machine.transition, device, Device.boot, Device.fresh])
    · by_cases hapdu : ∃ a pinCheck faults, e = .apdu a pinCheck faults
      · obtain ⟨a, pinCheck, faults, rfl⟩ := hapdu
        rcases (step_other pf hc).1.review with hsame | haddr
        · exact .inl (hsame ▸ hreview)
        · exact absurd (haddr.symm.trans hreview) (by simp)
      · obtain ⟨-, -, -, hsame | hnone, -⟩ := step_user pf (d := d) (e := e)
          (fun a pinCheck faults h => hapdu ⟨a, pinCheck, faults, h⟩)
          fun seed faults h => hboot ⟨seed, faults, h⟩
        · exact .inl (hsame ▸ hreview)
        · exact absurd (hnone.symm.trans hreview) (by simp)
  · obtain ⟨io, hchunk⟩ := step_chunk pf hc
    cases hres : (chunkEffect pf.buffering d.txInitialized d.buffering p1 payload).result with
    | more =>
      rw [hres] at hchunk
      exact .inl ((congrArg (fun r => r.1.review) hchunk).symm.trans hreview)
    | refused code =>
      rw [hres] at hchunk
      exact .inl ((congrArg (fun r => r.1.review) hchunk).symm.trans hreview)
    | last =>
      rw [hres] at hchunk
      have hout : t.output = _ := congrArg Prod.snd hchunk
      rw [hout, (chunkStep_last pf _).2.2.2]
      exact .inr rfl

variable (hlaw : pf.buffering.Lawful)

include hlaw in
/-- **The flag after one step.**

**Proof sketch.** By the chunk of the step. Without one, only a reset changes the flag. `INIT` sets
it; `ADD` and `LAST` keep it or are refused for lack of space; a chunk with another `P1` clears it.
-/
theorem txInitialized_step {d : Device σ} {e : DeviceEvent} :
    let t : Step σ := (device pf).transition d e
    t.after.txInitialized = true ↔ t.IsInit ∨ d.txInitialized = true ∧ ¬ t.Clears := by
  intro t
  have hstep : (device pf).step d e = (t.after, t.output) := rfl
  rcases hc : chunkOf d e with _ | ⟨p1, payload⟩
  · have hnone : ∀ p1 payload, t.chunk ≠ some (p1, payload) := by
      intro p1 payload hsome
      exact absurd (hc.symm.trans hsome) (by simp)
    have hinit : ¬ t.IsInit := fun ⟨payload, hsome⟩ => hnone _ payload hsome
    by_cases hboot : t.IsBoot
    · obtain ⟨seed, faults, rfl⟩ : ∃ seed faults, e = .boot seed faults := hboot
      exact iff_of_false Bool.false_ne_true
        (not_or.mpr ⟨hinit, fun h => h.2 (.inl ⟨seed, faults, rfl⟩)⟩)
    · obtain ⟨hflag, -⟩ := step_noChunk pf hstep hc
        fun seed faults he => hboot ⟨seed, faults, he⟩
      have hclears : ¬ t.Clears := by
        rintro (h | ⟨⟨p1, payload, hsome, -⟩, -⟩ | ⟨p1, payload, hsome, -⟩)
        · exact hboot h
        · exact hnone _ _ hsome
        · exact hnone _ _ hsome
      rw [hflag]
      exact ⟨fun h => .inr ⟨h, hclears⟩, fun h => (h.resolve_left hinit).1⟩
  · have hchunk : t.chunk = some (p1, payload) := hc
    have hnotInit : p1 ≠ p1Init → ¬ t.IsInit := by
      rintro hne ⟨payload', hinit⟩
      rw [hchunk] at hinit
      exact hne (Prod.mk.inj (Option.some.inj hinit)).1
    by_cases hinit : p1 = p1Init
    · subst hinit
      exact iff_of_true (step_init pf hlaw hstep hc).1 (.inl ⟨payload, hchunk⟩)
    by_cases hadd : p1 = p1Add
    · subst hadd
      obtain ⟨-, ⟨hflag, -, -, hok⟩ | ⟨hflag, -, hfull⟩⟩ := step_add pf hlaw hstep hc
      · have hclears : ¬ t.Clears := Step.not_clears hchunk (.inl rfl) fun hrefused =>
          absurd (hok.symm.trans hrefused) (by decide)
        rw [hflag]
        exact ⟨fun h => .inr ⟨h, hclears⟩, fun h => (h.resolve_left (hnotInit hinit)).1⟩
      · refine iff_of_false (by simp [hflag])
          (not_or.mpr ⟨hnotInit hinit, fun h => h.2 (.inr (.inl ⟨?_, hfull⟩))⟩)
        exact ⟨_, payload, hchunk, .inl rfl⟩
    by_cases hlast : p1 = p1Last
    · subst hlast
      cases hflag : d.txInitialized with
      | false =>
        obtain ⟨hclosed, -⟩ := step_last_closed pf hstep hc hflag
        exact iff_of_false (by simp [hclosed])
          (not_or.mpr ⟨hnotInit hinit, fun h => Bool.false_ne_true h.1⟩)
      | true =>
        rcases step_last_open pf hlaw hstep hc hflag with
          ⟨hopen, -, -, -, hne⟩ | ⟨hclosed, -, -, hfull⟩
        · exact iff_of_true hopen
            (.inr ⟨rfl, Step.not_clears hchunk (.inr rfl) (hne _ (.inl rfl))⟩)
        · refine iff_of_false (by simp [hclosed])
            (not_or.mpr ⟨hnotInit hinit, fun h => h.2 (.inr (.inl ⟨?_, hfull⟩))⟩)
          exact ⟨_, payload, hchunk, .inr rfl⟩
    · obtain ⟨hclosed, -⟩ := step_badP1 pf hstep hc hinit hadd hlast
      exact iff_of_false (by simp [hclosed]) (not_or.mpr ⟨hnotInit hinit,
        fun h => h.2 (.inr (.inr ⟨p1, payload, hchunk, hinit, hadd, hlast⟩))⟩)

include hlaw in
/-- **The flag after a run** is set exactly if what has happened says so.

**Proof sketch.** By induction on the run, with `txInitialized_step` for one step. -/
theorem txInitialized_run (es : List DeviceEvent) :
    ((device pf).run (.fresh pf) es).txInitialized = true ↔
      FlagSet ((device pf).trace (.fresh pf) es) :=
  Machine.since_iff (f := fun d : Device σ => d.txInitialized = true) Bool.false_ne_true
    (fun _ _ => txInitialized_step pf hlaw) es

include hlaw in
/-- **Upload sessions**, for every sequence of events: they are respected by exactly those runs in
which, without a session, no `ADD` chunk is processed and no `LAST` chunk while `tx_initialized`
is still set by what has happened.

**Proof sketch.** An `ADD` chunk is appended whatever the flag, and a `LAST` chunk is refused
exactly if the flag is clear; `txInitialized_run` turns the flag into the history. What is left is
that `tx_parse` runs for `LAST` chunks only, and that a `LAST` chunk ends the session it is in. -/
theorem session_iff (es : List DeviceEvent) :
    SessionRespected pf ((device pf).trace (.fresh pf) es) ↔
      SessionKept ((device pf).trace (.fresh pf) es) := by
  constructor
  · intro hresp pre t post htrace hno
    have hrefused := hresp.refused pre t post htrace
    obtain ⟨es₁, e, es₂, -, rfl, rfl⟩ := Machine.exists_of_trace_eq _ htrace
    constructor
    · intro payload hc
      obtain ⟨hreply, -⟩ := hrefused ⟨p1Add, payload, hc, .inl rfl⟩ hno
      obtain ⟨-, ⟨-, -, -, hok⟩ | ⟨-, -, hfull⟩⟩ := step_add pf hlaw rfl hc
      · exact absurd (hok.symm.trans hreply) (by decide)
      · exact absurd (hfull.symm.trans hreply) (by decide)
    · intro hflag payload hc
      obtain ⟨hreply, -⟩ := hrefused ⟨p1Last, payload, hc, .inr rfl⟩ hno
      have hopen := (txInitialized_run pf hlaw es₁).mpr hflag
      rcases step_last_open pf hlaw rfl hc hopen with
        ⟨-, -, -, -, hne⟩ | ⟨-, -, -, hfull⟩
      · exact hne _ (.inr (.inl rfl)) hreply
      · exact absurd (hfull.symm.trans hreply) (by decide)
  · intro hkept
    refine ⟨?_, ?_, ?_⟩
    · intro pre t post htrace hupload hno
      obtain ⟨hadd, hlast⟩ := hkept pre t post htrace hno
      obtain ⟨es₁, e, es₂, -, rfl, rfl⟩ := Machine.exists_of_trace_eq _ htrace
      obtain ⟨p1, payload, hc, rfl | rfl⟩ := hupload
      · exact absurd hc (hadd payload)
      · have hclosed := Bool.eq_false_of_not_eq_true fun hopen =>
          hlast ((txInitialized_run pf hlaw es₁).mp hopen) payload hc
        obtain ⟨-, hsame, hout⟩ := step_last_closed pf rfl hc hclosed
        exact ⟨congrArg Output.reply hout, hsame⟩
    · intro pre t mid u post htrace ht hu
      have hu' : (device pf).trace (.fresh pf) es = (pre ++ t :: mid) ++ u :: post := by
        rw [htrace, List.append_assoc, List.cons_append]
      have hkeptu := hkept _ u post hu'
      obtain ⟨es₁, e, es₂, -, -, rfl⟩ := Machine.exists_of_trace_eq _ htrace
      obtain ⟨es₃, e', es₄, -, hpre, rfl⟩ := Machine.exists_of_trace_eq _ hu'
      obtain ⟨data, hdata⟩ := Option.isSome_iff_exists.mp ht
      obtain ⟨data', hdata'⟩ := Option.isSome_iff_exists.mp hu
      obtain ⟨-, payload, hc, -⟩ := chunk_of_parsed pf hdata
      obtain ⟨hflag, payload', hc', -⟩ := chunk_of_parsed pf hdata'
      have hlast : Step.chunk ((device pf).transition ((device pf).run (.fresh pf) es₁) e) =
        some (p1Last, payload) := hc
      have hopen := not_not.mp fun hno =>
        (hkeptu hno).2 (hpre ▸ (txInitialized_run pf hlaw es₃).mp hflag) payload' hc'
      exact exists_init_of_sessionOpen (.inl ⟨payload, hlast⟩) (Step.not_isInit_of_last hlast) hopen
    · intro t hmem
      obtain ⟨pre, post, htrace⟩ := List.append_of_mem hmem
      obtain ⟨es₁, e, es₂, -, -, rfl⟩ := Machine.exists_of_trace_eq _ htrace
      exact review_opened pf

/-- After `INIT` and `LAST`, another `LAST` is parsed again instead of being refused, and an `ADD`
without `INIT` is accepted.

**Proof sketch.** After `LAST` no session is open, and without `INIT` none is, but the responses are
no refusals. -/
theorem session_not_respected :
    ¬ SessionRespected samplePlatform ((device samplePlatform).trace (.fresh samplePlatform)
      (sampleSetup ++ [sampleChunk p1Init ⟨[0], rfl⟩, sampleChunk p1Last ⟨[7], rfl⟩] ++
        [sampleChunk p1Last ⟨[8], rfl⟩])) ∧
    ¬ SessionRespected samplePlatform ((device samplePlatform).trace (.fresh samplePlatform)
      (sampleSetup ++ [sampleChunk p1Add ⟨[7], rfl⟩])) := by
  constructor
  · intro hresp
    have hclosed : ¬ SessionOpen ((device samplePlatform).trace (.fresh samplePlatform)
        (sampleSetup ++ [sampleChunk p1Init ⟨[0], rfl⟩] ++ [sampleChunk p1Last ⟨[7], rfl⟩])) := by
      rw [Machine.trace_concat]
      have hlast : Step.chunk ((device samplePlatform).transition ((device samplePlatform).run
          (.fresh samplePlatform) (sampleSetup ++ [sampleChunk p1Init ⟨[0], rfl⟩]))
          (sampleChunk p1Last ⟨[7], rfl⟩)) = some (p1Last, [7]) := by decide +kernel
      exact not_sessionOpen_concat (.inl ⟨_, hlast⟩) (Step.not_isInit_of_last hlast)
    obtain ⟨hreply, -⟩ := hresp.refused _ _ [] (Machine.trace_concat _ _ _ _)
      ⟨p1Last, [8], by decide +kernel, .inr rfl⟩ hclosed
    exact absurd hreply (by decide +kernel)
  · intro hresp
    have hclosed : ¬ SessionOpen
        ((device samplePlatform).trace (.fresh samplePlatform) sampleSetup) := by
      rintro ⟨h₁, u, h₂, heq, ⟨payload, hinit⟩, -⟩
      have hnone : ∀ v ∈ (device samplePlatform).trace (.fresh samplePlatform) sampleSetup,
          Step.chunk v = none := by decide +kernel
      rw [hnone u (by simp [heq])] at hinit
      exact absurd hinit (by simp)
    obtain ⟨hreply, -⟩ := hresp.refused _ _ [] (Machine.trace_concat _ _ _ _)
      ⟨p1Add, [7], by decide +kernel, .inl rfl⟩ hclosed
    exact absurd hreply (by decide +kernel)

/-- An upload by `INIT` and `LAST` respects sessions.

**Proof sketch.** The run has no chunk after its session has been closed, so the condition holds of
each of its steps. -/
theorem session_iff_sample :
    SessionRespected samplePlatform ((device samplePlatform).trace (.fresh samplePlatform)
      (sampleSetup ++ [sampleChunk p1Init ⟨[0], rfl⟩, sampleChunk p1Last ⟨[7], rfl⟩])) := by
  apply (session_iff samplePlatform sampleBuffering_lawful _).mpr
  intro pre t post htrace hno
  have hsmall : ∀ v ∈ (device samplePlatform).trace (.fresh samplePlatform)
      (sampleSetup ++ [sampleChunk p1Init ⟨[0], rfl⟩]),
      Step.chunk v = none ∨ Step.chunk v = some (p1Init, [0]) := by decide +kernel
  have hinit : SessionOpen ((device samplePlatform).trace (.fresh samplePlatform)
      (sampleSetup ++ [sampleChunk p1Init ⟨[0], rfl⟩])) := by
    refine ⟨_, _, [], Machine.trace_concat _ _ _ _, ⟨[0], by decide +kernel⟩, ?_⟩
    exact fun v hv => absurd hv List.not_mem_nil
  rw [show sampleSetup ++ [sampleChunk p1Init ⟨[0], rfl⟩, sampleChunk p1Last ⟨[7], rfl⟩] =
    (sampleSetup ++ [sampleChunk p1Init ⟨[0], rfl⟩]) ++ [sampleChunk p1Last ⟨[7], rfl⟩] from rfl,
    Machine.trace_concat] at htrace
  rcases List.eq_nil_or_concat post with rfl | ⟨post, u, rfl⟩
  · obtain ⟨rfl, -⟩ := List.append_inj' htrace rfl
    exact absurd hinit hno
  · have hmem : t ∈ (device samplePlatform).trace (.fresh samplePlatform)
        (sampleSetup ++ [sampleChunk p1Init ⟨[0], rfl⟩]) := by
      rw [List.concat_eq_append, ← List.cons_append, ← List.append_assoc] at htrace
      rw [(List.append_inj' htrace rfl).1]
      simp
    rcases hsmall t hmem with hc | hc <;> rw [hc]
    · exact ⟨fun _ => by simp, fun _ _ => by simp⟩
    · exact ⟨fun _ h => absurd (Prod.mk.inj (Option.some.inj h)).1 (by decide),
        fun _ _ h => absurd (Prod.mk.inj (Option.some.inj h)).1 (by decide)⟩

end Session

end Upload

end LedgerArweave
