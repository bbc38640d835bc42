import LedgerArweave.Client.Replies

set_option relaxedAutoImplicit false
set_option autoImplicit false

/-!
# The client's digest

`ArweaveApp.digest` of the JavaScript client is `signGetDigest` with the instruction `GET_DIGEST`,
which neither the list of instructions nor the device has. On the wire it is 0, the instruction
`GET_VERSION`: the device answers every chunk with its version.

## Main definitions

* `clientIns`, `insByte` — the instructions of the client, as they are sent.
* `digestSendChunk`, `digest` — the client.
* `DigestAgrees` — what a digest owes to its transaction.

## Main results

* `exchange_getVersion` — every command with the instruction 0 is answered with the version.
* `not_digestAgrees` — no digest is that of its transaction.
-/

namespace LedgerArweave

open Fallible

/-! ## The client -/

/-- `INS` -/
def clientIns : List (String × UInt8) :=
  [("GET_VERSION", 0x00), ("GET_ADDRESS", 0x01), ("SIGN", 0x02), ("GET_SIG", 0x10),
    ("GET_PK", 0x20)]

/-- `INS[name]` as `transport.send` puts it on the wire, where `undefined` becomes 0. -/
def insByte (name : String) : UInt8 := (clientIns.lookup name).getD 0

section Client

variable {σ : Type} (pf : Platform σ) (surroundings : ℕ → Choice)

/-- `digestSendChunk`. Its first callback is that of `signSendChunk`, with the output under the name
of `digest`. -/
def digestSendChunk (chunkIdx chunkNum : ℕ) (chunk : Bytes) : ClientM σ Reply := do
  let settled ← send pf surroundings (insByte "GET_DIGEST") (payloadTypeOf chunkIdx chunkNum) 0
    chunk [0x9000, 0x6984, 0x6a80]
  return thenReply processChunkResponse settled

/-- `digest`, for the chunks of a message; the output is the digest. -/
def digest (chunks : List Bytes) : ClientM σ Reply :=
  sendAll (fun k chunk => digestSendChunk pf surroundings k chunks.length chunk) chunks

end Client

/-- A resolved digest is that of the transaction, if its return code is that of success. -/
def DigestAgrees (sha384 : Bytes → Digest) (t : Transaction) (r : Reply) : Prop :=
  r.returnCode = some 0x9000 → r.output = some (deepHash sha384 t.item).val

/-! ## The device -/

section Version

variable {σ : Type} (pf : Platform σ)

/-- The reply to `GET_VERSION`. -/
def versionReply : Bytes := pf.version.val ++ statusReply apduCodeOk

/-- `GET_VERSION` with any parameters and any data is answered with the version, whether the device
is locked or initialized or not.

**Proof sketch.** `GET_VERSION` is exempt from the check of the PIN and of the initialization, and
its handler writes nine bytes to the I/O buffer before it throws success. -/
theorem step_getVersion (d : Device σ) (p1 p2 : UInt8) {data : Bytes} (hlen : data.length < 256)
    (pinCheck : Option ErrorCode) (faults : List Bool) :
    ∃ io, (device pf).step d (.apdu (command insGetVersion p1 p2 data hlen) pinCheck faults) =
      (d.setIo io, ⟨some (versionReply pf), none, []⟩) := by
  let h := (d.receive (command insGetVersion p1 p2 data hlen)).start faults
  have hio := receive_ioApduBuffer d (command insGetVersion p1 p2 data hlen)
  have hins : h.dev.ioApduBuffer.getD offsetIns 0 = insGetVersion :=
    congrArg (fun io => io.getD offsetIns 0) hio
  have hcla : h.dev.ioApduBuffer.getD offsetCla 0 = claByte :=
    congrArg (fun io => io.getD offsetCla 0) hio
  have hrx : ¬ data.length + 5 < apduMinLength := Nat.not_lt.mpr (Nat.le_add_left 5 _)
  have hwrite : overwrite h.dev.ioApduBuffer 0 pf.version.val =
      pf.version.val ++ h.dev.ioApduBuffer.drop 9 := by
    rw [overwrite, List.take_zero, List.nil_append, Nat.zero_add, pf.version.property]
  have hdispatch : (dispatchApdu pf (data.length + 5) pinCheck).exec h =
      (.error apduCodeOk, { h with
        dev := { h.dev with ioApduBuffer := overwrite h.dev.ioApduBuffer 0 pf.version.val }
        tx := 9 }) := by
    rw [dispatchApdu, exec_ioByte_bind, exec_throwIf_neg _ (not_not.mpr hcla),
      exec_throwIf_neg _ hrx, exec_ioByte_bind, exec_get_bind, hins,
      exec_throwIf_neg _ (fun hno => hno.2 rfl)]
    rfl
  obtain ⟨io, hfinish⟩ := finish_afterDispatch apduCodeOk (h := { h with
    dev := { h.dev with ioApduBuffer := overwrite h.dev.ioApduBuffer 0 pf.version.val }
    tx := 9 }) _ hwrite pf.version.property.symm rfl
  have hbytes : (command insGetVersion p1 p2 data hlen).bytes.length = data.length + 5 := rfl
  refine ⟨io, ?_⟩
  rw [step_apdu, hbytes, hdispatch, hfinish]
  rfl

/-- **Every command with the instruction 0** is answered with the version.

**Proof sketch.** Such a command is `GET_VERSION`, whose step is `step_getVersion`. -/
theorem exchange_getVersion (c : Choice) (d : Device σ) (p1 p2 : UInt8) {data : Bytes}
    (hlen : data.length < 256) :
    (exchange pf c (command insGetVersion p1 p2 data hlen) d).response = versionReply pf := by
  obtain ⟨io, hstep⟩ := step_getVersion pf d p1 p2 hlen c.refusal c.faults
  rw [exchange_of_reply pf hstep rfl]

/-- The answer to `GET_VERSION` has nine bytes and the status word. -/
theorem length_versionReply : (versionReply pf).length = 11 := by
  rw [versionReply, List.length_append, pf.version.property]
  rfl

end Version

/-! ## The digest -/

section Digest

variable {σ : Type} (pf : Platform σ) (surroundings : ℕ → Choice)

/-- What the client makes of the version. -/
def versionAsChunkReply : Reply := processChunkResponse (versionReply pf)

/-- The client takes the answer for a success. -/
theorem returnCode_versionAsChunkReply : (versionAsChunkReply pf).returnCode = some 0x9000 :=
  statusOf_ok _

/-- The client takes all eleven bytes for the output. -/
theorem output_versionAsChunkReply : (versionAsChunkReply pf).output = some (versionReply pf) := by
  have hlen := length_versionReply pf
  rw [versionAsChunkReply, processChunkResponse]
  dsimp only
  rw [if_pos (by omega), List.take_of_length_le (by omega)]

/-- Every chunk is answered with the version. -/
theorem run_digestSendChunk (i n : ℕ) {chunk : Bytes} (hlen : chunk.length < 256) (w : World σ) :
    ((digestSendChunk pf surroundings i n chunk).run w).1 = versionAsChunkReply pf := by
  have hins : insByte "GET_DIGEST" = insGetVersion := by decide
  have hresponse := exchange_getVersion pf (surroundings w.sent) w.dev (payloadTypeOf i n) 0 hlen
  unfold digestSendChunk send
  rw [dif_pos hlen, hins]
  show thenReply processChunkResponse (settle _ (exchange pf (surroundings w.sent)
    (command insGetVersion (payloadTypeOf i n) 0 chunk hlen) w.dev).response) = _
  rw [hresponse]
  exact thenReply_ok _ _ List.mem_cons_self (statusOf_ok _)

/-- The loop ends with the version.

**Proof sketch.** Induction on the chunks left: each is answered with success. -/
theorem run_sendEach_digest (n i : ℕ) {chunks : List Bytes} (hlen : ∀ x ∈ chunks, x.length < 256)
    {result : Reply} (hresult : chunks = [] → result = versionAsChunkReply pf) (w : World σ) :
    ((sendEach (fun k chunk => digestSendChunk pf surroundings k n chunk) i chunks result).run
      w).1 = versionAsChunkReply pf := by
  induction chunks generalizing i result w with
  | nil => exact hresult rfl
  | cons chunk chunks ih =>
    have hreply := run_digestSendChunk pf surroundings (1 + i) n (hlen chunk List.mem_cons_self) w
    have hok : ((digestSendChunk pf surroundings (1 + i) n chunk).run w).1.returnCode =
        some 0x9000 := by
      rw [hreply]
      exact returnCode_versionAsChunkReply pf
    rw [sendEach, run_attempt, if_neg (not_not.mpr hok), hreply]
    exact ih (i + 1) (fun x hx => hlen x (List.mem_cons_of_mem _ hx)) (fun _ => rfl) _

/-- **What `digest` resolves to**: the version with its status word, for every transaction and every
device.

**Proof sketch.** The transaction has at least one chunk, every chunk is sent with the instruction
0, and the reply of the last one is the version. -/
theorem run_digest (stringToBuffer : String → Bytes) (message : ClientTx) (w : World σ) :
    ((digest pf surroundings (prepareChunks stringToBuffer message)).run w).1 =
      versionAsChunkReply pf := by
  obtain ⟨hne, hlen⟩ := slices_encodeTx stringToBuffer message
  exact run_sendEach_digest pf surroundings _ 1 hlen (fun hnil => absurd hnil hne) _

/-- A digest has 48 bytes, so the version is none. -/
theorem output_ne_digest (d : Digest) : (versionAsChunkReply pf).output ≠ some d.val := by
  rw [output_versionAsChunkReply]
  intro h
  have hlen := congrArg List.length (Option.some.inj h)
  rw [length_versionReply, d.property] at hlen
  exact absurd hlen (by decide)

/-- The answer to `GET_VERSION` is no deep hash: it has eleven bytes instead of 48. -/
theorem version_not_digestAgrees (sha384 : Bytes → Digest) (t : Transaction) :
    ¬ DigestAgrees sha384 t (versionAsChunkReply pf) := fun hagrees =>
  output_ne_digest pf _ (hagrees (returnCode_versionAsChunkReply pf))

/-- **No digest is that of its transaction.** For every transaction, every device and all
surroundings, `digest` resolves with the return code of success, and what it gives for the digest is
not the deep hash of the transaction.

**Proof sketch.** By `run_digest` the reply is the version, with success as its return code. Its
length is not that of a digest. -/
theorem not_digestAgrees (stringToBuffer : String → Bytes) (message : ClientTx) (w : World σ) :
    let resolved := ((digest pf surroundings (prepareChunks stringToBuffer message)).run w).1
    resolved.returnCode = some 0x9000 ∧
      ¬ DigestAgrees pf.sha384 (message.fields stringToBuffer) resolved := by
  intro resolved
  have hresolved : resolved = versionAsChunkReply pf := run_digest pf surroundings _ _ w
  rw [hresolved]
  exact ⟨returnCode_versionAsChunkReply pf, version_not_digestAgrees pf _ _⟩

/-- Nor is it what a successful `signGetDigest` gives, from whatever device. -/
theorem output_digest_ne (stringToBuffer : String → Bytes) (message : ClientTx) (w w' : World σ)
    (surroundings' : ℕ → Choice)
    (hok : ((signGetDigest pf surroundings' (prepareChunks stringToBuffer message)).run
      w').1.returnCode = some 0x9000) :
    ((digest pf surroundings (prepareChunks stringToBuffer message)).run w).1.output ≠
      ((signGetDigest pf surroundings' (prepareChunks stringToBuffer message)).run
        w').1.output := by
  obtain ⟨hne, hlen⟩ := slices_encodeTx stringToBuffer message
  obtain ⟨result, hrun⟩ := run_signGetDigest_init pf surroundings' stringToBuffer message w'
  rw [hrun] at hok ⊢
  obtain ⟨d', salt, -, houtput, -⟩ := sendChunks_ok pf surroundings' _ hne Nat.one_pos rfl hlen
    result hok
  rw [houtput, run_digest]
  exact output_ne_digest pf _

/-- On an initialized and unlocked device, the digest of the sample transaction resolves with
success to eleven bytes.

**Proof sketch.** By `run_digest`; the reply has nine bytes and the status word. -/
theorem sample_not_digestAgrees :
    let d := leftoverDevice
    let resolved := ((digest hashingPlatform unlocked (prepareChunks utf8 sampleClientTx)).run
      ⟨d, 0, []⟩).1
    (∀ k, Processed (unlocked k) d) ∧ resolved.returnCode = some 0x9000 ∧
      resolved.output.map List.length = some 11 ∧
      ¬ DigestAgrees hashingPlatform.sha384 (sampleClientTx.fields utf8) resolved := by
  intro d resolved
  have hresolved : resolved = versionAsChunkReply hashingPlatform := run_digest _ _ _ _ _
  have hcode := returnCode_versionAsChunkReply hashingPlatform
  have hproc : ∀ k, Processed (unlocked k) leftoverDevice :=
    fun _ => ⟨rfl, leftoverDevice_ready.deviceInitialized⟩
  have hlen : (versionAsChunkReply hashingPlatform).output.map List.length = some 11 := by
    rw [output_versionAsChunkReply, Option.map_some, length_versionReply]
  rw [hresolved]
  exact ⟨hproc, hcode, hlen, version_not_digestAgrees _ _ _⟩

end Digest

end LedgerArweave
