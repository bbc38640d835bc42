import LedgerArweave.Client.EncodeTx
import LedgerArweave.Device.Exchange

set_option relaxedAutoImplicit false
set_option autoImplicit false

/-!
# The client's signer

`ArweaveApp.sign` of the JavaScript client: it uploads the encoded transaction in chunks, takes the
response to the last one for the digest, and fetches the two halves of the signature. The response
to `INIT` is not looked at; a device that refuses it goes on with the upload that is still open, and
the client signs what that makes of its transaction.

## Main definitions

* `ClientM`, `send` — the client and the transport.
* `prepareChunks`, `signSendChunk`, `signGetDigest`, `getSignaturePart`, `sign` — the client.
* `SignsCorrectly` — the promise of `sign`.
* `LeftoverHarmless` — what an open upload must not do to it.

## Main results

* `sign_iff` — the states in which the promise is kept.

## Implementation notes

The client runs against a device, in surroundings that decide on every exchange, given by the
number of exchanges before it. `transport.send` puts the class, the instruction, the parameters and
the length before the data, and rejects with the status word unless that is in the list. How a
promise settles is an `Except`, and `.then(f, processErrorResponse)` a match on it. The console is
left out.
-/

namespace LedgerArweave

open Fallible

/-! ## The transport -/

/-- The device a client talks to, the number of exchanges so far, and the signatures stored. -/
structure World (σ : Type) where
  dev : Device σ
  sent : ℕ
  stored : List (Block 512)

/-- Programs of the client. -/
abbrev ClientM (σ : Type) := StateM (World σ)

section Client

variable {σ : Type} (pf : Platform σ) (surroundings : ℕ → Choice)

/-- How a promise for a response with one of these status words settles. A response without a
status word is passed on. -/
def settle (statusList : List ℕ) (response : Bytes) : Except ℕ Bytes :=
  match statusOf response with
  | some code => if code ∈ statusList then .ok response else .error code
  | none => .ok response

/-- One exchange. -/
def exchangeWith (a : Apdu) : ClientM σ Bytes := fun w =>
  let x := exchange pf (surroundings w.sent) a w.dev
  (x.response, ⟨x.dev, w.sent + 1, w.stored ++ x.stored⟩)

/-- `transport.send`. Data of 256 bytes or more is rejected without a status code. -/
def send (ins p1 p2 : UInt8) (data : Bytes) (statusList : List ℕ) :
    ClientM σ (Except ℕ Bytes) := do
  if h : data.length < 256 then
    return settle statusList (← exchangeWith pf surroundings (command ins p1 p2 data h))
  else return .error 0xffff

/-! ## Responses -/

/-- `ERROR_DESCRIPTION` -/
def errorDescription : List (ℕ × String) :=
  [(1, "U2F: Unknown"), (2, "U2F: Bad request"), (3, "U2F: Configuration unsupported"),
    (4, "U2F: Device Ineligible"), (5, "U2F: Timeout"), (14, "Timeout"), (0x9000, "No errors"),
    (0x9001, "Device is busy"), (0x6802, "Error deriving keys"), (0x6400, "Execution Error"),
    (0x6700, "Wrong Length"), (0x6982, "Empty Buffer"), (0x6983, "Output buffer too small"),
    (0x6984, "Data is invalid"), (0x6985, "Conditions not satisfied"),
    (0x6986, "Transaction rejected"), (0x6987, "Not initialized"), (0x6a80, "Bad key handle"),
    (0x6b00, "Invalid P1/P2"), (0x6d00, "Instruction not supported"),
    (0x6e01, "App does not seem to be open"), (0x6f00, "Unknown error"),
    (0x6f01, "Sign/verify error")]

/-- `errorCodeToString` -/
def errorCodeToString : Option ℕ → String
  | some statusCode =>
    match errorDescription.lookup statusCode with
    | some description => description
    | none => "Unknown Status Code: " ++ toString statusCode
  | none => "Unknown Status Code: NaN"

/-- What the functions for one exchange resolve to. -/
structure Reply where
  output : Option Bytes
  returnCode : Option ℕ
  errorMessage : String

/-- `processErrorResponse` on a status code -/
def processErrorResponse (statusCode : ℕ) : Reply :=
  ⟨none, some statusCode, errorCodeToString (some statusCode)⟩

/-- `toString("ascii")`, which ignores the top bits. -/
def asciiText (bytes : Bytes) : String :=
  String.ofList (bytes.map fun b => Char.ofNat (b.toNat % 128))

/-- The first callback of `signSendChunk`. -/
def processChunkResponse (response : Bytes) : Reply :=
  let returnCode := statusOf response
  let errorMessage := errorCodeToString returnCode
  { output := if response.length > 2 then some (response.take 48) else none
    returnCode := returnCode
    errorMessage :=
      if returnCode = some 0x6a80 ∨ returnCode = some 0x6984 then
        errorMessage ++ " : " ++ asciiText (response.take (response.length - 2))
      else errorMessage }

/-- `processGetRSAResponse` -/
def processGetRSAResponse (response : Bytes) : Reply :=
  ⟨some (response.take 256), statusOf response, errorCodeToString (statusOf response)⟩

/-- `.then(onFulfilled, processErrorResponse)` -/
def thenReply (onFulfilled : Bytes → Reply) : Except ℕ Bytes → Reply
  | .ok response => onFulfilled response
  | .error statusCode => processErrorResponse statusCode

/-! ## The signer -/

/-- `CHUNK_SIZE` -/
def chunkSize : ℕ := 250

/-- `prepareChunks`: twenty zero bytes, and the slices of the encoded transaction. -/
def prepareChunks (stringToBuffer : String → Bytes) (message : ClientTx) : List Bytes :=
  zeros 20 :: slices chunkSize (encodeTx stringToBuffer message)

/-- The `P1` of `signSendChunk`. -/
def payloadTypeOf (chunkIdx chunkNum : ℕ) : UInt8 :=
  if chunkIdx = chunkNum then p1Last else if chunkIdx = 1 then p1Init else p1Add

/-- `signSendChunk` -/
def signSendChunk (chunkIdx chunkNum : ℕ) (chunk : Bytes) : ClientM σ Reply := do
  let settled ← send pf surroundings insSign (payloadTypeOf chunkIdx chunkNum) 0 chunk
    [0x9000, 0x6984, 0x6a80]
  return thenReply processChunkResponse settled

/-- The loop of `signGetDigest`, from chunk `i` on. -/
def sendChunks (chunkNum : ℕ) : ℕ → List Bytes → Reply → ClientM σ Reply
  | _, [], result => return result
  | i, chunk :: chunks, _ => do
    let result ← signSendChunk pf surroundings (1 + i) chunkNum chunk
    if result.returnCode ≠ some 0x9000 then return result
    else sendChunks chunkNum (i + 1) chunks result

/-- `signGetDigest`, for the chunks of a message. The response to the first one only serves as
the result if there are no others. -/
def signGetDigest (chunks : List Bytes) : ClientM σ Reply := do
  let response ← signSendChunk pf surroundings 1 chunks.length (chunks.headD [])
  let result : Reply := ⟨none, response.returnCode, response.errorMessage⟩
  sendChunks pf surroundings chunks.length 1 chunks.tail result

/-- `getSignaturePart` -/
def getSignaturePart (partnum : ℕ) : ClientM σ Reply := do
  let settled ← send pf surroundings insGetSig 0 (if partnum = 0 then 0 else 1) [] [0x9000]
  return thenReply processGetRSAResponse settled

/-- What `sign` resolves to. -/
structure SignResult where
  deephash : Option Bytes
  signature : Option Bytes
  returnCode : Option ℕ
  errorMessage : String

/-- A reply that ends `sign` early. -/
def Reply.abort (r : Reply) : SignResult := ⟨none, none, r.returnCode, r.errorMessage⟩

/-- Breaking off keeps the return code. -/
@[simp] theorem Reply.returnCode_abort (r : Reply) : r.abort.returnCode = r.returnCode := rfl

/-- `sign` -/
def sign (stringToBuffer : String → Bytes) (message : ClientTx) : ClientM σ SignResult := do
  let req1 ← signGetDigest pf surroundings (prepareChunks stringToBuffer message)
  if req1.returnCode ≠ some 0x9000 then return req1.abort
  else
    let req2 ← getSignaturePart pf surroundings 0
    if req2.returnCode ≠ some 0x9000 then return req2.abort
    else
      let req3 ← getSignaturePart pf surroundings 1
      if req3.returnCode ≠ some 0x9000 then return req3.abort
      else
        return { deephash := req1.output
                 signature := some (req2.output.getD [] ++ req3.output.getD [])
                 returnCode := some 0x9000
                 errorMessage := errorCodeToString (some 0x9000) }

/-! ## Replies -/

/-- Rejected or not, the return code is the status word. -/
theorem returnCode_thenReply {onFulfilled : Bytes → Reply}
    (hcode : ∀ response, (onFulfilled response).returnCode = statusOf response)
    (statusList : List ℕ) (response : Bytes) :
    (thenReply onFulfilled (settle statusList response)).returnCode = statusOf response := by
  unfold settle
  cases hstatus : statusOf response with
  | none => exact (hcode response).trans hstatus
  | some code =>
    dsimp only
    split_ifs with hmem
    · exact (hcode response).trans hstatus
    · rfl

/-- A response with the status word of success is handed to the first callback. -/
theorem thenReply_ok (onFulfilled : Bytes → Reply) (statusList : List ℕ) {response : Bytes}
    (hmem : 0x9000 ∈ statusList) (hok : statusOf response = apduCodeOk) :
    thenReply onFulfilled (settle statusList response) = onFulfilled response := by
  have hsettle : settle statusList response = .ok response := by
    unfold settle
    rw [hok]
    exact if_pos hmem
  rw [hsettle]
  rfl

variable {chunk : Bytes} (w : World σ)

/-- Sending a chunk is one exchange, and the reply is that of its response. -/
theorem run_signSendChunk (hlen : chunk.length < 256) (chunkIdx chunkNum : ℕ) :
    let x := exchange pf (surroundings w.sent)
      (command insSign (payloadTypeOf chunkIdx chunkNum) 0 chunk hlen) w.dev
    (signSendChunk pf surroundings chunkIdx chunkNum chunk).run w =
      (thenReply processChunkResponse (settle [0x9000, 0x6984, 0x6a80] x.response),
        ⟨x.dev, w.sent + 1, w.stored ++ x.stored⟩) := by
  unfold signSendChunk send
  rw [dif_pos hlen]
  rfl

/-- Asking for a part of the signature is one exchange, and the reply is that of its response. -/
theorem run_getSignaturePart {partnum : ℕ} (hpart : partnum ≤ 1) :
    let x := exchange pf (surroundings w.sent)
      (command insGetSig 0 (UInt8.ofNat partnum) [] (by decide)) w.dev
    (getSignaturePart pf surroundings partnum).run w =
      (thenReply processGetRSAResponse (settle [0x9000] x.response),
        ⟨x.dev, w.sent + 1, w.stored ++ x.stored⟩) := by
  have hp2 : (if partnum = 0 then 0 else 1) = UInt8.ofNat partnum := by
    obtain rfl | rfl : partnum = 0 ∨ partnum = 1 := by omega
    · rfl
    · rfl
  unfold getSignaturePart send
  rw [dif_pos (by decide), hp2]
  rfl

/-! ## The upload -/

/-- `buffering_append` does not go beyond the two buffers of `tx.c`. -/
def Buffering.Bounded (bf : Buffering σ) : Prop :=
  ∀ s x, 0 < x.length → (bf.append s x).2 = x.length →
    (bf.data s).length + x.length ≤ ramBufferSize + flashBufferSize

/-- The device after payloads that fit, one after another. -/
def Device.appendAll : Device σ → List Bytes → Option (Device σ)
  | d, [] => some d
  | d, payload :: payloads => (d.append pf payload).bind fun d' => d'.appendAll payloads

/-- The buffer after payloads that fit, one after another. -/
def Buffering.appendAll (bf : Buffering σ) : σ → List Bytes → Option σ
  | s, [] => some s
  | s, payload :: payloads =>
    let (s', added) := bf.append s payload
    if added = payload.length then bf.appendAll s' payloads else none

/-- Nothing but the buffer plays a role in it. -/
theorem Device.appendAll_eq (d : Device σ) (payloads : List Bytes) :
    d.appendAll pf payloads =
      (pf.buffering.appendAll d.buffering payloads).map fun s => { d with buffering := s } := by
  induction payloads generalizing d with
  | nil => rfl
  | cons payload payloads ih =>
    unfold Device.appendAll Device.append Buffering.appendAll
    dsimp only
    split_ifs with hadd
    · exact ih { d with buffering := (pf.buffering.append d.buffering payload).1 }
    · rfl

/-- What appending leaves alone. -/
structure Device.SameBut (d d' : Device σ) : Prop where
  txInitialized : d'.txInitialized = d.txInitialized
  store : d'.store = d.store

/-- Appending a payload changes the buffer only. -/
theorem sameBut_append {d d' : Device σ} {payload : Bytes}
    (h : d.append pf payload = some d') : d.SameBut d' := by
  obtain ⟨-, hd'⟩ := appendEffect_of_append pf h .more
  rw [hd']
  exact ⟨rfl, rfl⟩

/-- Appending payloads changes the buffer only. -/
theorem sameBut_appendAll {d d' : Device σ} {payloads : List Bytes}
    (h : d.appendAll pf payloads = some d') : d.SameBut d' := by
  induction payloads generalizing d with
  | nil =>
    obtain rfl := Option.some.inj h
    exact ⟨rfl, rfl⟩
  | cons payload payloads ih =>
    obtain ⟨d₁, hfirst, hrest⟩ := Option.bind_eq_some_iff.mp h
    have hsame := sameBut_append pf hfirst
    have hsame' := ih hrest
    exact ⟨hsame'.txInitialized.trans hsame.txInitialized, hsame'.store.trans hsame.store⟩

/-- The I/O buffer plays no role in it. -/
theorem appendAll_setIo (d : Device σ) (io : Bytes) (payloads : List Bytes) :
    (d.setIo io).appendAll pf payloads =
      (d.appendAll pf payloads).map fun d' => d'.setIo io := by
  induction payloads generalizing d with
  | nil => rfl
  | cons payload payloads ih =>
    unfold Device.appendAll Device.append
    dsimp only [Device.setIo]
    split_ifs with hadd
    · exact ih { d with buffering := (pf.buffering.append d.buffering payload).1 }
    · rfl

/-- What a successful upload of payloads into a device has done. -/
structure Uploaded (d : Device σ) (payloads : List Bytes) (d' : Device σ) : Prop where
  initialized : d.store.deviceInitialized = true
  txInitialized : d.txInitialized = true
  appendAll : d.appendAll pf payloads = some d'
  verdict : txVerdict pf d' = .ok none

variable {pf} in
/-- The I/O buffer plays no role for an upload. -/
theorem Uploaded.setIo {d d' : Device σ} {payloads : List Bytes} (h : Uploaded pf d payloads d')
    (io : Bytes) : Uploaded pf (d.setIo io) payloads (d'.setIo io) := by
  refine ⟨h.initialized, h.txInitialized, ?_, h.verdict⟩
  rw [appendAll_setIo, h.appendAll]
  rfl

/-- What is uploaded with another I/O buffer is uploaded with this one. -/
theorem uploaded_setIo {d d' : Device σ} {io : Bytes} {payloads : List Bytes}
    (h : Uploaded pf (d.setIo io) payloads d') :
    ∃ d'', Uploaded pf d payloads d'' ∧ d' = d''.setIo io := by
  obtain ⟨hinit, hopen, happend, hverdict⟩ := h
  rw [appendAll_setIo] at happend
  obtain ⟨d'', happend', rfl⟩ := Option.map_eq_some_iff.mp happend
  exact ⟨d'', ⟨hinit, hopen, happend', hverdict⟩, rfl⟩

variable {pf} in
/-- A payload in front of an upload. -/
theorem Uploaded.cons {d d₁ d' : Device σ} {payload : Bytes} {payloads : List Bytes}
    (h : Uploaded pf d₁ payloads d') (happend : d.append pf payload = some d₁) :
    Uploaded pf d (payload :: payloads) d' := by
  have hsame := sameBut_append pf happend
  refine ⟨hsame.store ▸ h.initialized, hsame.txInitialized ▸ h.txInitialized, ?_, h.verdict⟩
  rw [Device.appendAll, happend]
  exact h.appendAll

variable {pf} in
/-- An upload goes on behind its first payload. -/
theorem Uploaded.tail {d d' : Device σ} {payload : Bytes} {payloads : List Bytes}
    (h : Uploaded pf d (payload :: payloads) d') :
    ∃ d₁, d.append pf payload = some d₁ ∧ Uploaded pf d₁ payloads d' := by
  obtain ⟨d₁, hfirst, hrest⟩ := Option.bind_eq_some_iff.mp h.appendAll
  have hsame := sameBut_append pf hfirst
  exact ⟨d₁, hfirst, (congrArg CryptoStore.deviceInitialized hsame.store).trans h.initialized,
    hsame.txInitialized.trans h.txInitialized, hrest, h.verdict⟩

/-- Only the last chunk is sent as `LAST`. -/
theorem payloadTypeOf_eq {i n : ℕ} (hi : 0 < i) :
    payloadTypeOf (1 + i) n = if 1 + i = n then p1Last else p1Add := by
  unfold payloadTypeOf
  by_cases hlast : 1 + i = n
  · rw [if_pos hlast, if_pos hlast]
  · rw [if_neg hlast, if_neg hlast, if_neg (by omega)]

/-- The exchange of a chunk. -/
def exchangeChunk (i n : ℕ) (hlen : chunk.length < 256) : Exchanged σ :=
  exchange pf (surroundings w.sent) (command insSign (payloadTypeOf (1 + i) n) 0 chunk hlen) w.dev

/-- The world after an exchange. -/
def World.after (x : Exchanged σ) : World σ := ⟨x.dev, w.sent + 1, w.stored ++ x.stored⟩

/-- The chunks in the middle are sent as `ADD`. -/
theorem exchangeChunk_add {i n : ℕ} (hi : 0 < i) (hn : 1 + i ≠ n) (hlen : chunk.length < 256) :
    exchangeChunk pf surroundings w i n hlen =
      exchange pf (surroundings w.sent) (command insSign p1Add 0 chunk hlen) w.dev := by
  have hp1 : payloadTypeOf (1 + i) n = p1Add := by rw [payloadTypeOf_eq hi, if_neg hn]
  rw [exchangeChunk, hp1]

/-- The last chunk is sent as `LAST`. -/
theorem exchangeChunk_last {i n : ℕ} (hi : 0 < i) (hn : 1 + i = n) (hlen : chunk.length < 256) :
    exchangeChunk pf surroundings w i n hlen =
      exchange pf (surroundings w.sent) (command insSign p1Last 0 chunk hlen) w.dev := by
  have hp1 : payloadTypeOf (1 + i) n = p1Last := by rw [payloadTypeOf_eq hi, if_pos hn]
  rw [exchangeChunk, hp1]

/-- What the client makes of the response to a chunk. -/
def chunkReply (x : Exchanged σ) : Reply :=
  thenReply processChunkResponse (settle [0x9000, 0x6984, 0x6a80] x.response)

/-- The return code of a reply is the status word of the response. -/
@[simp] theorem returnCode_chunkReply (x : Exchanged σ) :
    (chunkReply x).returnCode = statusOf x.response :=
  returnCode_thenReply (fun _ => rfl) _ _

/-- A request that must succeed for the rest to be carried out. -/
theorem run_attempt {ρ : Type} (request : ClientM σ Reply) (abort : Reply → ρ)
    (rest : Reply → ClientM σ ρ) (w : World σ) :
    (do
      let r ← request
      if r.returnCode ≠ some 0x9000 then return abort r else rest r : ClientM σ ρ).run w =
        if (request.run w).1.returnCode ≠ some 0x9000 then
          (abort (request.run w).1, (request.run w).2)
        else (rest (request.run w).1).run (request.run w).2 := by
  rw [StateT.run_bind]
  rcases request.run w with ⟨r, w'⟩
  by_cases hok : r.returnCode = some 0x9000
  · exact (congrArg (StateT.run · w') (if_neg (not_not.mpr hok))).trans
      (if_neg (not_not.mpr hok)).symm
  · exact (congrArg (StateT.run · w') (if_pos hok)).trans (if_pos hok).symm

/-- One round of the loop. -/
theorem run_sendChunks_cons {i n : ℕ} (hlen : chunk.length < 256) (chunks : List Bytes)
    (result : Reply) :
    let x := exchangeChunk pf surroundings w i n hlen
    (sendChunks pf surroundings n i (chunk :: chunks) result).run w =
      if statusOf x.response ≠ apduCodeOk then (chunkReply x, w.after x)
      else (sendChunks pf surroundings n (i + 1) chunks (chunkReply x)).run (w.after x) := by
  intro x
  have hrun : (signSendChunk pf surroundings (1 + i) n chunk).run w = (chunkReply x, w.after x) :=
    run_signSendChunk pf surroundings w hlen _ _
  rw [sendChunks, run_attempt, hrun, returnCode_chunkReply]
  rfl

/-- A chunk sent as `ADD` with success has been appended.

**Proof sketch.** If there were no room, the response would be an error by `exchange_add`. -/
theorem after_add_ok (hproc : Processed (surroundings w.sent) w.dev) (hlen : chunk.length < 256) :
    let x := exchange pf (surroundings w.sent) (command insSign p1Add 0 chunk hlen) w.dev
    statusOf x.response = apduCodeOk → ∃ d' io, w.dev.append pf chunk = some d' ∧
      (w.after x).dev = d'.setIo io ∧ (w.after x).stored = w.stored := by
  intro x hstatus
  obtain ⟨hfits, hfull⟩ := exchange_add pf hproc hlen
  cases happend : w.dev.append pf chunk with
  | none => exact absurd hstatus (hfull happend)
  | some d' =>
    obtain ⟨io, hio⟩ := hfits d' happend
    have hx : x = _ := hio
    refine ⟨d', io, rfl, congrArg Exchanged.dev hx, ?_⟩
    show w.stored ++ x.stored = _
    rw [hx, List.append_nil]

/-- A chunk sent as `LAST` with success completes an upload that is accepted and approved.

**Proof sketch.** By `exchange_last_ok`. The response is the digest and the status word, and the
client cuts off the latter. -/
theorem after_last_ok (hproc : Processed (surroundings w.sent) w.dev) (hlen : chunk.length < 256) :
    let x := exchange pf (surroundings w.sent) (command insSign p1Last 0 chunk hlen) w.dev
    statusOf x.response = apduCodeOk → ∃ d' salt, Uploaded pf w.dev [chunk] d' ∧
      (chunkReply x).output = some (d'.deepHash pf).val ∧
      (w.after x).stored = w.stored ++ [d'.signature pf salt] ∧
      (w.after x).dev.store = d'.store.withSig (d'.signature pf salt) := by
  intro x hstatus
  obtain ⟨hopen, d', salt, happend, hverdict, hresponse, hstored, hstore⟩ :=
    exchange_last_ok pf hproc hlen hstatus
  have hx : x.response = _ := hresponse
  refine ⟨d', salt, ⟨hproc.2, hopen, ?_, hverdict⟩, ?_, ?_, hstore⟩
  · rw [Device.appendAll, happend]
    rfl
  · rw [chunkReply, thenReply_ok _ _ (by simp) hstatus, processChunkResponse, hx]
    have hdigest : (d'.deepHash pf).val.length = 48 := (d'.deepHash pf).property
    have hlong : ((d'.deepHash pf).val ++ statusReply apduCodeOk).length > 2 := by
      rw [List.length_append, hdigest]
      omega
    dsimp only
    rw [if_pos hlong, List.take_left' hdigest]
  · exact congrArg (fun l => w.stored ++ l) hstored

/-- **The loop**, if it ends in success: all chunks have been appended to what was in the buffer,
this was accepted, and the user has approved it.

**Proof sketch.** Induction on the chunks left; all but the last are sent as `ADD`. -/
theorem sendChunks_ok {n : ℕ} {chunks : List Bytes} (hne : chunks ≠ []) {i : ℕ} (hi : 0 < i)
    (hn : i + chunks.length = n) (hlen : ∀ x ∈ chunks, x.length < 256) (result : Reply) :
    let run := (sendChunks pf surroundings n i chunks result).run w
    run.1.returnCode = some 0x9000 → ∃ d' salt, Uploaded pf w.dev chunks d' ∧
      run.1.output = some (d'.deepHash pf).val ∧
      run.2.stored = w.stored ++ [d'.signature pf salt] ∧
      run.2.dev.store = d'.store.withSig (d'.signature pf salt) := by
  induction chunks generalizing i w result with
  | nil => exact absurd rfl hne
  | cons chunk chunks ih =>
    intro run hok
    have hchunk : chunk.length < 256 := hlen chunk List.mem_cons_self
    let x := exchangeChunk pf surroundings w i n hchunk
    have hrun : run = if statusOf x.response ≠ apduCodeOk then (chunkReply x, w.after x)
        else (sendChunks pf surroundings n (i + 1) chunks (chunkReply x)).run (w.after x) :=
      run_sendChunks_cons pf surroundings w hchunk chunks result
    have hstatus : statusOf x.response = apduCodeOk := by
      by_contra hno
      rw [if_pos hno] at hrun
      rw [hrun, returnCode_chunkReply] at hok
      exact hno hok
    rw [if_neg (not_not.mpr hstatus)] at hrun
    have hproc : Processed (surroundings w.sent) w.dev :=
      processed_of_statusOf pf insSign (payloadTypeOf (1 + i) n) 0 (by decide) hchunk hstatus
    cases chunks with
    | nil =>
      have hx : x =
          exchange pf (surroundings w.sent) (command insSign p1Last 0 chunk hchunk) w.dev :=
        exchangeChunk_last pf surroundings w hi (by simpa [Nat.add_comm] using hn) hchunk
      have hend : run = (chunkReply x, w.after x) := hrun
      rw [hend]
      rw [hx] at hstatus ⊢
      exact after_last_ok pf surroundings w hproc hchunk hstatus
    | cons chunk' chunks =>
      have hadd : 1 + i ≠ n := by
        rw [← hn, List.length_cons, List.length_cons]
        omega
      have hx : x =
          exchange pf (surroundings w.sent) (command insSign p1Add 0 chunk hchunk) w.dev :=
        exchangeChunk_add pf surroundings w hi hadd hchunk
      rw [hx] at hstatus
      obtain ⟨d₁, io, happend, hdev, hkept⟩ := after_add_ok pf surroundings w hproc hchunk hstatus
      rw [← hx] at hdev hkept
      rw [hrun] at hok
      obtain ⟨d', salt, hup, houtput, hstored, hstore⟩ := ih (w.after x) (by simp)
        (Nat.succ_pos i) (by simpa [Nat.add_assoc, Nat.add_comm] using hn)
        (fun y hy => hlen y (List.mem_cons_of_mem _ hy)) (chunkReply x) hok
      rw [hdev] at hup
      obtain ⟨d'', hrest, rfl⟩ := uploaded_setIo pf hup
      rw [hrun]
      rw [hkept] at hstored
      exact ⟨d'', salt, hrest.cons happend, houtput, hstored, hstore⟩

/-- Surroundings in which nothing goes wrong after the first exchange. -/
def Friendly (salt : Bytes) : Prop :=
  ∀ k, 0 < k → surroundings k = ⟨none, [], some (salt, [])⟩

/-- **The loop** ends in success if all chunks fit, what is then in the buffer is accepted, and
nothing goes wrong.

**Proof sketch.** By induction on the chunks that are left, from every state of the device in which
they can be uploaded. A chunk before the last one is sent as `ADD` and appended; the last one is
sent as `LAST`, accepted, and approved by assumption. -/
theorem sendChunks_friendly {salt : Bytes} (hfriendly : Friendly surroundings salt) {n : ℕ}
    {chunks : List Bytes} (hne : chunks ≠ []) {i : ℕ} (hi : 0 < i) (hn : i + chunks.length = n)
    (hlen : ∀ x ∈ chunks, x.length < 256) (result : Reply) (hsent : 0 < w.sent) {d' : Device σ}
    (hup : Uploaded pf w.dev chunks d') :
    let run := (sendChunks pf surroundings n i chunks result).run w
    run.1.returnCode = some 0x9000 ∧ 0 < run.2.sent := by
  induction chunks generalizing i w result d' with
  | nil => exact absurd rfl hne
  | cons chunk chunks ih =>
    intro run
    have hchunk : chunk.length < 256 := hlen chunk List.mem_cons_self
    let x := exchangeChunk pf surroundings w i n hchunk
    have hrun : run = if statusOf x.response ≠ apduCodeOk then (chunkReply x, w.after x)
        else (sendChunks pf surroundings n (i + 1) chunks (chunkReply x)).run (w.after x) :=
      run_sendChunks_cons pf surroundings w hchunk chunks result
    have hproc : Processed (surroundings w.sent) w.dev := by
      rw [hfriendly w.sent hsent]
      exact ⟨rfl, hup.initialized⟩
    obtain ⟨d₁, hfirst, hrest⟩ := hup.tail
    cases chunks with
    | nil =>
      obtain rfl := Option.some.inj hrest.appendAll
      have hx : x =
          exchange pf (surroundings w.sent) (command insSign p1Last 0 chunk hchunk) w.dev :=
        exchangeChunk_last pf surroundings w hi (by simpa [Nat.add_comm] using hn) hchunk
      have happroval : (surroundings w.sent).approval = some (salt, []) := by
        rw [hfriendly w.sent hsent]
      have hstatus := statusOf_last pf hproc hchunk hup.txInitialized hfirst hup.verdict happroval
      rw [← hx] at hstatus
      rw [if_neg (not_not.mpr hstatus)] at hrun
      rw [hrun]
      exact ⟨(returnCode_chunkReply x).trans hstatus, Nat.succ_pos _⟩
    | cons chunk' chunks =>
      have hadd : 1 + i ≠ n := by
        rw [← hn, List.length_cons, List.length_cons]
        omega
      have hx : x =
          exchange pf (surroundings w.sent) (command insSign p1Add 0 chunk hchunk) w.dev :=
        exchangeChunk_add pf surroundings w hi hadd hchunk
      obtain ⟨io, hio⟩ := (exchange_add pf hproc hchunk).1 d₁ hfirst
      rw [← hx] at hio
      have hstatus : statusOf x.response = apduCodeOk := by
        rw [hio]
        exact statusOf_ok []
      rw [if_neg (not_not.mpr hstatus)] at hrun
      have hdev : (w.after x).dev = d₁.setIo io := congrArg Exchanged.dev hio
      have hup' : Uploaded pf (w.after x).dev (chunk' :: chunks) (d'.setIo io) := by
        rw [hdev]
        exact hrest.setIo io
      rw [hrun]
      exact ih (w.after x) (by simp) (Nat.succ_pos i)
        (by simpa [Nat.add_assoc, Nat.add_comm] using hn)
        (fun y hy => hlen y (List.mem_cons_of_mem _ hy)) (chunkReply x) (Nat.succ_pos _) hup'

/-! ## The signature -/

/-- While a signature is set, a part of it that is fetched with success is that part.

**Proof sketch.** The command has been processed, or the response would not be a success. So the
answer is the part by `exchange_getSig`. -/
theorem getSignaturePart_ok (hset : w.dev.store.signatureSet = 1) {partnum : ℕ}
    (hpart : partnum ≤ 1) :
    let run := (getSignaturePart pf surroundings partnum).run w
    run.1.returnCode = some 0x9000 →
      run.1.output = some (halve (w.dev.store.flash.sigs w.dev.store.slotInUse) partnum) ∧
      run.2.stored = w.stored ∧ (partnum = 0 → run.2.dev.store = w.dev.store) := by
  intro run hok
  let x := exchange pf (surroundings w.sent)
    (command insGetSig 0 (UInt8.ofNat partnum) [] (by decide)) w.dev
  have hrun : run = (thenReply processGetRSAResponse (settle [0x9000] x.response), w.after x) :=
    run_getSignaturePart pf surroundings w hpart
  have hstatus : statusOf x.response = apduCodeOk := by
    rw [hrun] at hok
    exact (returnCode_thenReply (fun _ => rfl) _ _).symm.trans hok
  have hproc : Processed (surroundings w.sent) w.dev :=
    processed_of_statusOf pf insGetSig 0 (UInt8.ofNat partnum) (by decide) (by decide) hstatus
  obtain ⟨d', hx, hstore⟩ := exchange_getSig pf hproc hset hpart
  have hx' : x = _ := hx
  rw [hrun, thenReply_ok _ _ (by simp) hstatus, hx']
  refine ⟨?_, List.append_nil _, hstore⟩
  exact congrArg some (List.take_left' (length_halve _ hpart))

/-- Nothing else is needed to fetch it. -/
theorem getSignaturePart_friendly (hproc : Processed (surroundings w.sent) w.dev)
    (hset : w.dev.store.signatureSet = 1) {partnum : ℕ} (hpart : partnum ≤ 1) :
    let run := (getSignaturePart pf surroundings partnum).run w
    run.1.returnCode = some 0x9000 ∧ run.2.sent = w.sent + 1 := by
  intro run
  obtain ⟨d', hx, -⟩ := exchange_getSig pf hproc hset hpart
  have hrun : run = _ := run_getSignaturePart pf surroundings w hpart
  rw [hrun, hx]
  exact ⟨(returnCode_thenReply (fun _ => rfl) _ _).trans (statusOf_ok _), rfl⟩

/-! ## Signing -/

section Sign

variable (stringToBuffer : String → Bytes) (tx : ClientTx)

/-- The slices of an encoded transaction can be sent, and there is at least one. -/
theorem slices_encodeTx :
    let chunks := slices chunkSize (encodeTx stringToBuffer tx)
    chunks ≠ [] ∧ ∀ x ∈ chunks, x.length < 256 := by
  have hne : encodeTx stringToBuffer tx ≠ [] := by
    apply List.ne_nil_of_length_pos
    rw [encodeTx_eq, transaction_encode, List.length_append, length_element_encode]
    omega
  refine ⟨slices_ne_nil (by decide) hne, fun x hx => ?_⟩
  obtain ⟨i, -, rfl⟩ := List.mem_map.mp hx
  exact lt_of_le_of_lt (length_slice_le _ _ _) (by decide)

/-- A device after the exchange of `INIT`, apart from the I/O buffer. -/
def Device.afterInit (d : Device σ) (c : Choice) : Device σ :=
  if Processed c d then
    d.setUpload ⟨true, pf.buffering.reset (pf.buffering.init d.buffering), .more⟩
  else d

/-- The client sends its chunks whatever the response to `INIT` is.

**Proof sketch.** The result of the first chunk is passed to the loop without a look at its return
code. -/
theorem run_signGetDigest_init (w : World σ) :
    let chunks := slices chunkSize (encodeTx stringToBuffer tx)
    let x := exchange pf (surroundings w.sent) (command insSign p1Init 0 (zeros 20) (by decide))
      w.dev
    ∃ result, (signGetDigest pf surroundings (prepareChunks stringToBuffer tx)).run w =
      (sendChunks pf surroundings (1 + chunks.length) 1 chunks result).run (w.after x) := by
  intro chunks x
  have hpos : 0 < chunks.length := List.length_pos_iff.mpr (slices_encodeTx stringToBuffer tx).1
  have hcount : (prepareChunks stringToBuffer tx).length = 1 + chunks.length := Nat.add_comm _ _
  have hinit : payloadTypeOf 1 (1 + chunks.length) = p1Init := by
    rw [payloadTypeOf, if_neg (by omega), if_pos rfl]
  have hfirst := run_signSendChunk pf surroundings w
    (by decide : (zeros 20).length < 256) 1 (1 + chunks.length)
  dsimp only at hfirst
  rw [hinit] at hfirst
  have hrun : (signSendChunk pf surroundings 1 (1 + chunks.length) (zeros 20)).run w =
      (chunkReply x, w.after x) := hfirst
  have hunfold : signGetDigest pf surroundings (prepareChunks stringToBuffer tx) = (do
      let response ← signSendChunk pf surroundings 1 (1 + chunks.length) (zeros 20)
      sendChunks pf surroundings (1 + chunks.length) 1 chunks
        ⟨none, response.returnCode, response.errorMessage⟩) := by
    rw [signGetDigest, hcount]
    rfl
  refine ⟨⟨none, (chunkReply x).returnCode, (chunkReply x).errorMessage⟩, ?_⟩
  rw [hunfold, StateT.run_bind, hrun]
  rfl

/-- The same, with the device that the exchange leaves behind.

**Proof sketch.** If the device processes `INIT`, its buffer is emptied and the flag is set. If not,
nothing changes. -/
theorem run_signGetDigest (d : Device σ) :
    let chunks := slices chunkSize (encodeTx stringToBuffer tx)
    ∃ io result, (signGetDigest pf surroundings (prepareChunks stringToBuffer tx)).run ⟨d, 0, []⟩ =
      (sendChunks pf surroundings (1 + chunks.length) 1 chunks result).run
        ⟨(d.afterInit pf (surroundings 0)).setIo io, 1, []⟩ := by
  intro chunks
  have hlen : (zeros 20).length < 256 := by decide
  obtain ⟨result, hrun⟩ := run_signGetDigest_init pf surroundings stringToBuffer tx ⟨d, 0, []⟩
  have hdev : ∃ io response, exchange pf (surroundings 0) (command insSign p1Init 0 (zeros 20) hlen)
      d = ⟨(d.afterInit pf (surroundings 0)).setIo io, response, []⟩ := by
    unfold Device.afterInit
    by_cases hproc : Processed (surroundings 0) d
    · obtain ⟨io, hx⟩ := exchange_init pf hproc hlen
      rw [if_pos hproc]
      exact ⟨io, _, hx⟩
    · obtain ⟨io, response, -, hx⟩ := exchange_refused pf insSign p1Init 0 (by decide)
        hproc hlen
      rw [if_neg hproc]
      exact ⟨io, response, hx⟩
  obtain ⟨io, response, hx⟩ := hdev
  refine ⟨io, result, ?_⟩
  rw [hrun, hx]
  rfl

/-- The three parts of `sign`.

**Proof sketch.** By reading the three attempts one after another. -/
theorem run_sign (w : World σ) :
    let digest := (signGetDigest pf surroundings (prepareChunks stringToBuffer tx)).run w
    let first := (getSignaturePart pf surroundings 0).run digest.2
    let second := (getSignaturePart pf surroundings 1).run first.2
    (sign pf surroundings stringToBuffer tx).run w =
      if digest.1.returnCode ≠ some 0x9000 then (digest.1.abort, digest.2)
      else if first.1.returnCode ≠ some 0x9000 then (first.1.abort, first.2)
      else if second.1.returnCode ≠ some 0x9000 then (second.1.abort, second.2)
      else
        (⟨digest.1.output, some (first.1.output.getD [] ++ second.1.output.getD []), some 0x9000,
          errorCodeToString (some 0x9000)⟩, second.2) := by
  intro digest first second
  rw [sign, run_attempt, run_attempt, run_attempt]
  rfl

/-- `sign` ends in success only if its three parts do.

**Proof sketch.** `run_sign` says what is returned in each case. If a part fails, its return code is
returned, which is no success. -/
theorem run_sign_ok (w : World σ) :
    let digest := (signGetDigest pf surroundings (prepareChunks stringToBuffer tx)).run w
    let first := (getSignaturePart pf surroundings 0).run digest.2
    let second := (getSignaturePart pf surroundings 1).run first.2
    let run := (sign pf surroundings stringToBuffer tx).run w
    run.1.returnCode = some 0x9000 →
      digest.1.returnCode = some 0x9000 ∧ first.1.returnCode = some 0x9000 ∧
        second.1.returnCode = some 0x9000 ∧ run.1.deephash = digest.1.output ∧
        run.1.signature = some (first.1.output.getD [] ++ second.1.output.getD []) ∧
        run.2 = second.2 := by
  intro digest first second run hok
  have hrun : run = if digest.1.returnCode ≠ some 0x9000 then (digest.1.abort, digest.2)
      else if first.1.returnCode ≠ some 0x9000 then (first.1.abort, first.2)
      else if second.1.returnCode ≠ some 0x9000 then (second.1.abort, second.2)
      else
        (⟨digest.1.output, some (first.1.output.getD [] ++ second.1.output.getD []), some 0x9000,
          errorCodeToString (some 0x9000)⟩, second.2) :=
    run_sign pf surroundings stringToBuffer tx w
  clear_value digest first second run
  split_ifs at hrun with hdigest hfirst hsecond
  · rw [hrun, Reply.returnCode_abort] at hok
    exact absurd hok hdigest
  · rw [hrun, Reply.returnCode_abort] at hok
    exact absurd hok hfirst
  · rw [hrun, Reply.returnCode_abort] at hok
    exact absurd hok hsecond
  · rw [hrun]
    exact ⟨not_not.mp hdigest, not_not.mp hfirst, not_not.mp hsecond, rfl, rfl, rfl⟩

/-- What a successful `sign` has made of the device after `INIT`: the digest and the signature it
returns are those of what was in the buffer at the end of the upload. -/
structure Signed (d d' : Device σ) (salt : Bytes) (run : SignResult × World σ) : Prop where
  uploaded : Uploaded pf d (slices chunkSize (encodeTx stringToBuffer tx)) d'
  deephash : run.1.deephash = some (d'.deepHash pf).val
  stored : run.2.stored = [d'.signature pf salt]
  signature : run.1.signature =
    some (halve (d'.signature pf salt) 0 ++ halve (d'.signature pf salt) 1)

/-- The signature that is stored is that of the slot in use. -/
theorem withSig_sigs (st : CryptoStore) (sig : Block 512) :
    (st.withSig sig).flash.sigs (st.withSig sig).slotInUse = sig := Function.update_self _ _ _

/-- **`sign`**, if it ends in success.

**Proof sketch.** By `run_sign_ok` all parts have succeeded. The loop then has uploaded the chunks
and stored a signature, which stays where it is while its two halves are fetched; the halves make up
the signature. -/
theorem sign_ok (d : Device σ) :
    let run := (sign pf surroundings stringToBuffer tx).run ⟨d, 0, []⟩
    run.1.returnCode = some 0x9000 →
      ∃ d' salt, Signed pf stringToBuffer tx (d.afterInit pf (surroundings 0)) d' salt run := by
  intro run hok
  obtain ⟨io, result, hget⟩ := run_signGetDigest pf surroundings stringToBuffer tx d
  obtain ⟨hne, hlen⟩ := slices_encodeTx stringToBuffer tx
  obtain ⟨hdigest, hfirst, hsecond, hdeephash, hsignature, hworld⟩ :=
    run_sign_ok pf surroundings stringToBuffer tx _ hok
  rw [hget] at hdigest hfirst hsecond hdeephash hsignature hworld
  obtain ⟨d', salt, hup, houtput, hstored, hstore⟩ :=
    sendChunks_ok pf surroundings _ hne Nat.one_pos rfl hlen result hdigest
  obtain ⟨d'', hup', rfl⟩ := uploaded_setIo pf hup
  generalize StateT.run (sendChunks _ _ _ _ _ _) _ = uploaded at *
  have hset : uploaded.2.dev.store.signatureSet = 1 := by rw [hstore]; rfl
  obtain ⟨houtput₀, hstored₀, hstore₀⟩ :=
    getSignaturePart_ok pf surroundings uploaded.2 hset (Nat.zero_le 1) hfirst
  generalize StateT.run (getSignaturePart pf surroundings 0) _ = first at *
  have hstore₁ : first.2.dev.store = d''.store.withSig (d''.signature pf salt) :=
    (hstore₀ rfl).trans hstore
  have hset₁ : first.2.dev.store.signatureSet = 1 := by rw [hstore₁]; rfl
  obtain ⟨houtput₁, hstored₁, -⟩ :=
    getSignaturePart_ok pf surroundings first.2 hset₁ (le_refl 1) hsecond
  rw [hstore, withSig_sigs] at houtput₀
  rw [hstore₁, withSig_sigs] at houtput₁
  refine ⟨d'', salt, hup', hdeephash.trans houtput, ?_, ?_⟩
  · rw [hworld, hstored₁, hstored₀]
    exact hstored
  · rw [hsignature, houtput₀, houtput₁]
    rfl

/-- **`sign`** ends in success if the upload fits and is accepted, and nothing goes wrong after
`INIT`.

**Proof sketch.** The loop succeeds by `sendChunks_friendly` and leaves a signature that is set.
Fetching its first half keeps it set, so both halves are handed out. -/
theorem sign_friendly {salt : Bytes} (hfriendly : Friendly surroundings salt) {d d' : Device σ}
    (hup : Uploaded pf (d.afterInit pf (surroundings 0))
      (slices chunkSize (encodeTx stringToBuffer tx)) d') :
    ((sign pf surroundings stringToBuffer tx).run ⟨d, 0, []⟩).1.returnCode = some 0x9000 := by
  obtain ⟨io, result, hget⟩ := run_signGetDigest pf surroundings stringToBuffer tx d
  obtain ⟨hne, hlen⟩ := slices_encodeTx stringToBuffer tx
  have hup' : Uploaded pf ((d.afterInit pf (surroundings 0)).setIo io)
      (slices chunkSize (encodeTx stringToBuffer tx)) (d'.setIo io) := hup.setIo io
  obtain ⟨hdigest, hsent⟩ := sendChunks_friendly pf surroundings
    ⟨(d.afterInit pf (surroundings 0)).setIo io, 1, []⟩ hfriendly hne Nat.one_pos rfl hlen result
    Nat.one_pos hup'
  obtain ⟨d'', salt', hup'', -, -, hstore⟩ :=
    sendChunks_ok pf surroundings _ hne Nat.one_pos rfl hlen result hdigest
  rw [run_sign, hget]
  generalize StateT.run (sendChunks _ _ _ _ _ _) _ = uploaded at *
  have hinit : uploaded.2.dev.store.deviceInitialized = true := by
    rw [hstore]
    exact (congrArg CryptoStore.deviceInitialized
      (sameBut_appendAll pf hup''.appendAll).store).trans hup''.initialized
  have hset : uploaded.2.dev.store.signatureSet = 1 := by rw [hstore]; rfl
  have hproc : Processed (surroundings uploaded.2.sent) uploaded.2.dev := by
    rw [hfriendly _ hsent]
    exact ⟨rfl, hinit⟩
  obtain ⟨hfirst, hsent₁⟩ :=
    getSignaturePart_friendly pf surroundings uploaded.2 hproc hset (Nat.zero_le 1)
  obtain ⟨-, -, hstore₀⟩ :=
    getSignaturePart_ok pf surroundings uploaded.2 hset (Nat.zero_le 1) hfirst
  generalize StateT.run (getSignaturePart pf surroundings 0) _ = first at *
  have hproc₁ : Processed (surroundings first.2.sent) first.2.dev := by
    rw [hfriendly _ (hsent₁ ▸ Nat.succ_pos _)]
    exact ⟨rfl, by rw [hstore₀ rfl]; exact hinit⟩
  have hset₁ : first.2.dev.store.signatureSet = 1 := by rw [hstore₀ rfl]; exact hset
  obtain ⟨hsecond, -⟩ :=
    getSignaturePart_friendly pf surroundings first.2 hproc₁ hset₁ (le_refl 1)
  rw [if_neg (not_not.mpr hdigest), if_neg (not_not.mpr hfirst), if_neg (not_not.mpr hsecond)]

/-! ## The promise of `sign` -/

/-- If `sign` ends in success, it returns the deep hash of the transaction it was called with, and
both halves of the one signature the device has stored during the call, which is the signature of
this digest. -/
def SignsCorrectly (d : Device σ) : Prop :=
  let run := (sign pf surroundings stringToBuffer tx).run ⟨d, 0, []⟩
  let digest := deepHash pf.sha384 (tx.fields stringToBuffer).item
  run.1.returnCode = some 0x9000 →
    run.1.deephash = some digest.val ∧
      ∃ salt, let sig := pf.sdk.rsaSign d.store.current.rsaPriv (pf.sdk.sha256 digest.val) salt
        run.2.stored = [sig] ∧ run.1.signature = some (halve sig 0 ++ halve sig 1)

/-- If an upload is open on a device with keys, its chunks do not fit behind the bytes received, or
these bytes followed by the encoded transaction do not begin with a transaction, or with one that
is not valid, or with one that has the same deep hash. -/
def LeftoverHarmless (d : Device σ) : Prop :=
  d.store.deviceInitialized = true → d.txInitialized = true → ∀ s,
    pf.buffering.appendAll d.buffering (slices chunkSize (encodeTx stringToBuffer tx)) = some s →
    0 < pf.buffering.address s →
    let m : Memory := ⟨pf.buffering.address s, d.received pf ++ encodeTx stringToBuffer tx⟩
    ∀ t rest, transaction.decode m.bytes = some (t, rest) →
      parserValidate pf.zx m d.store d.expert (layout m 0 t d.parser.tx.tags) = .ok () →
      deepHash pf.sha384 t.item = deepHash pf.sha384 (tx.fields stringToBuffer).item

section Promise

variable {stringToBuffer : String → Bytes} {tx : ClientTx}

/-- What is in the buffer after payloads that fit.

**Proof sketch.** By induction on the payloads. A payload is appended, or nothing of it is; the
latter is told apart by the count unless the payload is empty, when it makes no difference. -/
theorem received_appendAll (hlaw : pf.buffering.Lawful) {d d' : Device σ} {payloads : List Bytes}
    (h : d.appendAll pf payloads = some d') :
    d'.received pf = d.received pf ++ payloads.flatten := by
  induction payloads generalizing d with
  | nil =>
    obtain rfl := Option.some.inj h
    exact (List.append_nil _).symm
  | cons payload payloads ih =>
    obtain ⟨d₁, hfirst, hrest⟩ := Option.bind_eq_some_iff.mp h
    have hone : d₁.received pf = d.received pf ++ payload := by
      obtain ⟨hadd, rfl⟩ := (Device.append_eq_some pf).mp hfirst
      rcases hlaw.append d.buffering payload with ⟨hdata, -⟩ | ⟨hdata, hzero⟩
      · exact hdata
      · have hnil : payload = [] := List.length_eq_zero_iff.mp (hadd.symm.trans hzero)
        rw [hnil] at hdata ⊢
        rw [List.append_nil]
        exact hdata
    rw [ih hrest, hone, List.flatten_cons, List.append_assoc]

/-- What fits does not go beyond the buffers.

**Proof sketch.** By induction on the payloads; the bound is that of the last one, which is not
empty. -/
theorem length_received_le (hbounded : pf.buffering.Bounded) {d d' : Device σ}
    {payloads : List Bytes} (hne : payloads ≠ []) (hpos : ∀ x ∈ payloads, x ≠ [])
    (hlaw : pf.buffering.Lawful) (h : d.appendAll pf payloads = some d') :
    (d'.received pf).length ≤ ramBufferSize + flashBufferSize := by
  induction payloads generalizing d with
  | nil => exact absurd rfl hne
  | cons payload payloads ih =>
    obtain ⟨d₁, hfirst, hrest⟩ := Option.bind_eq_some_iff.mp h
    cases payloads with
    | cons payload' payloads =>
      exact ih (by simp) (fun x hx => hpos x (List.mem_cons_of_mem _ hx)) hrest
    | nil =>
      have hdata := received_appendAll pf hlaw h
      have hlen : 0 < payload.length := List.length_pos_iff.mpr (hpos payload List.mem_cons_self)
      obtain ⟨hadd, -⟩ := (Device.append_eq_some pf).mp hfirst
      have hle := hbounded d.buffering payload hlen hadd
      rw [hdata, List.flatten_singleton, List.length_append]
      exact hle

/-- An upload into an empty buffer is accepted as nothing but the transaction.

**Proof sketch.** The buffer holds the encoding of the transaction and nothing else. What is
accepted of it decodes to the fields of the transaction, because the encoding is too short for two
transactions to share it. -/
theorem deepHash_of_uploaded (hlaw : pf.buffering.Lawful) (hbounded : pf.buffering.Bounded)
    {d d' : Device σ} (hempty : d.received pf = [])
    (hup : Uploaded pf d (slices chunkSize (encodeTx stringToBuffer tx)) d') :
    d'.deepHash pf = deepHash pf.sha384 (tx.fields stringToBuffer).item := by
  obtain ⟨hne, -⟩ := slices_encodeTx stringToBuffer tx
  have hdata : (txBuffer pf d').bytes = encodeTx stringToBuffer tx := by
    have hflat := received_appendAll pf hlaw hup.appendAll
    rw [hempty, List.nil_append, flatten_slices (by decide)] at hflat
    exact hflat
  have hlen : (encodeTx stringToBuffer tx).length < 65536 := by
    have hle := length_received_le pf hbounded hne
      (fun x hx => ne_nil_of_mem_slices (by decide) hx) hlaw hup.appendAll
    change (txBuffer pf d').bytes.length ≤ _ at hle
    rw [hdata] at hle
    exact lt_of_le_of_lt hle (by decide)
  obtain ⟨hparse, -⟩ := accepted_of_txVerdict pf hup.verdict
  obtain ⟨rest, hdecode⟩ := fields_of_parserParse (le_refl _) hparse
  have hu16 : u16 (encodeTx stringToBuffer tx).length = (encodeTx stringToBuffer tx).length :=
    Nat.mod_eq_of_lt hlen
  rw [hdata, hu16, List.take_length, encodeTx_eq, decode_encode_of_length
    (by rw [← encodeTx_eq]; exact hlen)] at hdecode
  split_ifs at hdecode
  have hfields := (Prod.mk.inj (Option.some.inj hdecode)).1
  rw [Device.deepHash, hfields]

/-- The deep hash of the transaction at the start of the buffer, once it is parsed. -/
theorem deepHash_of_layout {d : Device σ} {t : Transaction} {rest : Bytes}
    (hdecode : transaction.decode (txBuffer pf d).bytes = some (t, rest))
    (hparsed : (txParsed pf d).tx = layout (txBuffer pf d) 0 t d.parser.tx.tags) :
    d.deepHash pf = deepHash pf.sha384 t.item := by
  rw [Device.deepHash, hparsed, fields_layout (o := 0) (List.prefix_refl _)
    (transaction.decode_sound _ _ _ hdecode).2]

/-- **A leftover upload is harmless** exactly if every upload that the device accepts behind it has
the deep hash of the transaction.

**Proof sketch.** The bytes after the upload are those received followed by the encoding, and they
fit the two buffers, so the parser sees all of them. It accepts them exactly if they begin with a
transaction, and what it records is the layout of that. -/
theorem leftoverHarmless_iff (hlaw : pf.buffering.Lawful) (hbounded : pf.buffering.Bounded)
    {d : Device σ} :
    LeftoverHarmless pf stringToBuffer tx d ↔
      ∀ d', Uploaded pf d (slices chunkSize (encodeTx stringToBuffer tx)) d' →
        d'.deepHash pf = deepHash pf.sha384 (tx.fields stringToBuffer).item := by
  obtain ⟨hne, -⟩ := slices_encodeTx stringToBuffer tx
  -- what the parser is given after an upload
  have hmemory : ∀ s, pf.buffering.appendAll d.buffering
      (slices chunkSize (encodeTx stringToBuffer tx)) = some s →
      d.appendAll pf (slices chunkSize (encodeTx stringToBuffer tx)) =
        some { d with buffering := s } ∧
      txBuffer pf { d with buffering := s } =
        ⟨pf.buffering.address s, d.received pf ++ encodeTx stringToBuffer tx⟩ ∧
      (d.received pf ++ encodeTx stringToBuffer tx).length < 65536 := by
    intro s hs
    have happend : d.appendAll pf (slices chunkSize (encodeTx stringToBuffer tx)) =
        some { d with buffering := s } := by rw [Device.appendAll_eq, hs, Option.map_some]
    have hdata := received_appendAll pf hlaw happend
    rw [flatten_slices (by decide)] at hdata
    have hle := length_received_le pf hbounded hne
      (fun x hx => ne_nil_of_mem_slices (by decide) hx) hlaw happend
    rw [hdata] at hle
    exact ⟨happend, congrArg (Memory.mk (pf.buffering.address s)) hdata,
      lt_of_le_of_lt hle (by decide)⟩
  constructor
  · intro hharmless d' hup
    have hsome := hup.appendAll
    rw [Device.appendAll_eq] at hsome
    obtain ⟨s, hs, rfl⟩ := Option.map_eq_some_iff.mp hsome
    obtain ⟨-, hbuffer, hshort⟩ := hmemory s hs
    obtain ⟨hparse, hvalid⟩ := accepted_of_txVerdict pf hup.verdict
    obtain ⟨t, rest, hdecode, hparsed⟩ := decode_of_parserParse (base_pos_of_parserParse hparse)
      (List.prefix_refl _) (by rw [hbuffer]; exact hshort) hparse
    have haddress := base_pos_of_parserParse hparse
    rw [deepHash_of_layout pf hdecode (congrArg ParserState.tx hparsed)]
    rw [hparsed, hbuffer] at hvalid
    rw [hbuffer] at hdecode haddress
    exact hharmless hup.initialized hup.txInitialized s hs haddress t rest hdecode hvalid
  · intro hall hinit hopen s hs haddress m t rest hdecode hvalid
    obtain ⟨happend, hbuffer, hshort⟩ := hmemory s hs
    have hbuffer : txBuffer pf { d with buffering := s } = m := hbuffer
    have hparse := parserParse_accept (m := m) haddress (List.prefix_refl _) hshort hdecode
      d.parser
    have hlayout := congrArg (fun run => run.2.tx) hparse
    rw [← hbuffer] at hparse hvalid hdecode hlayout
    rw [← deepHash_of_layout pf hdecode hlayout]
    exact hall _ ⟨hinit, hopen, happend, txVerdict_eq_ok pf hparse hvalid⟩

variable (stringToBuffer tx)

/-- If `INIT` is refused, an open upload that is accepted as something else breaks the promise.

**Proof sketch.** If all else goes well, the call succeeds by `sign_friendly`, and by `sign_ok` the
digest is that of what the device has got, which is another one. -/
theorem not_signsCorrectly {salt : Bytes} (hfriendly : Friendly surroundings salt) {d d' : Device σ}
    (hrefused : (surroundings 0).refusal ≠ none)
    (hup : Uploaded pf d (slices chunkSize (encodeTx stringToBuffer tx)) d')
    (hne : d'.deepHash pf ≠ deepHash pf.sha384 (tx.fields stringToBuffer).item) :
    ¬ SignsCorrectly pf surroundings stringToBuffer tx d := by
  intro hcorrect
  have hafter : d.afterInit pf (surroundings 0) = d := if_neg fun hproc => hrefused hproc.1
  have hup' : Uploaded pf (d.afterInit pf (surroundings 0))
      (slices chunkSize (encodeTx stringToBuffer tx)) d' := by
    rw [hafter]
    exact hup
  have hok := sign_friendly pf surroundings stringToBuffer tx hfriendly hup'
  obtain ⟨d'', salt', hsigned⟩ := sign_ok pf surroundings stringToBuffer tx d hok
  obtain ⟨hdigest, -⟩ := hcorrect hok
  have hsame : d'' = d' := Option.some.inj (hsigned.uploaded.appendAll.symm.trans hup'.appendAll)
  rw [hsigned.deephash, hsame] at hdigest
  exact hne (Subtype.ext (Option.some.inj hdigest))

end Promise

end Sign

end Client

/-! ## A sample call -/

section Sample

/-- The UTF-8 encoding of the language. -/
def utf8 (s : String) : Bytes := s.toUTF8.data.toList

/-- A transaction that differs from the sample transaction in its data root. -/
def sampleClientTx : ClientTx := ⟨"2", (zeroBlock 512).val, [1], "1", "1", [1], [], "1", [2]⟩

/-- The sample object of the client stands for the sample transaction. -/
theorem fields_sampleClientTx : sampleClientTx.fields utf8 = sampleTx [] [2] := by
  have htwo : utf8 "2" = formatTwo := by decide
  have hone : utf8 "1" = ascii "1" := by decide
  rw [ClientTx.fields, sampleClientTx]
  dsimp only
  rw [htwo, hone]
  rfl

/-- The sample platform's buffer takes payloads as long as there is room.

**Proof sketch.** By induction on the payloads. -/
theorem sample_appendAll {d : Device Bytes} {payloads : List Bytes}
    (hlen : d.buffering.length + payloads.flatten.length ≤ 16384) :
    d.appendAll hashingPlatform payloads =
      some { d with buffering := d.buffering ++ payloads.flatten } := by
  induction payloads generalizing d with
  | nil => simp [Device.appendAll]
  | cons payload payloads ih =>
    rw [List.flatten_cons, List.length_append] at hlen
    have happend : d.append hashingPlatform payload =
        some { d with buffering := d.buffering ++ payload } := by
      have hroom : d.buffering.length + payload.length ≤ 16384 := by omega
      rw [Device.append_eq_some]
      simp [hashingPlatform, samplePlatform, sampleBuffering, hroom]
    rw [Device.appendAll, happend, Option.bind_some, ih]
    · simp
    · rw [List.length_append]
      omega

/-- The sample buffer stays within the buffers of `tx.c`. -/
theorem sampleBuffering_bounded : sampleBuffering.Bounded := by
  intro s x hx hadd
  by_cases hroom : s.length + x.length ≤ 16384
  · exact le_trans hroom (by decide)
  · have hzero : (sampleBuffering.append s x).2 = 0 := by simp [sampleBuffering, hroom]
    omega

/-- An upload of the sample transaction that was not finished. -/
def leftoverUpload : List DeviceEvent :=
  sampleSetup ++ [.setExpert true, signChunk p1Init (zeros 20)] ++
    (slices chunkSize sampleBytes).map (signChunk p1Add)

/-- The device that upload leaves behind. -/
def leftoverDevice : Device Bytes :=
  (device hashingPlatform).run (.fresh hashingPlatform) leftoverUpload

/-- The device with the unfinished upload is ready for the rest. -/
theorem leftoverDevice_ready : SampleReady leftoverDevice sampleBytes where
  txInitialized := by decide +kernel
  buffering := by decide +kernel
  parser := parser_run hashingPlatform leftoverUpload (by unfold Machine.Respects; decide +kernel)
  expert := by decide +kernel
  deviceInitialized := by decide +kernel
  initialized := by decide +kernel
  modulus := by decide +kernel

/-- Uploading more bytes behind those in the buffer, where a sample transaction comes first.

**Proof sketch.** The bytes fit, so they are appended as a whole, and what is then in the buffer is
accepted by `txVerdict_sample`. -/
theorem sample_uploaded {d : Device Bytes} {b rest : Bytes} {t : Transaction}
    (hd : SampleReady d b) (more : Bytes) (hb : b ++ more = transaction.encode t ++ rest)
    (hlen : b.length + more.length ≤ 16384) (ht : transaction.Valid t)
    (howner : t.owner = (zeroBlock 512).val) (hprints : SamplePrints (b ++ more) t) :
    ∃ d', Uploaded hashingPlatform d (slices chunkSize more) d' ∧
      d'.deepHash hashingPlatform = deepHash lastBytes t.item := by
  have hflat : (slices chunkSize more).flatten = more := flatten_slices (by decide) more
  have hroom : d.buffering.length + (slices chunkSize more).flatten.length ≤ 16384 := by
    rw [hd.buffering, hflat]
    exact hlen
  have happend := sample_appendAll hroom
  rw [hd.buffering, hflat] at happend
  have hready : SampleReady { d with buffering := b ++ more } (b ++ more) :=
    ⟨hd.txInitialized, rfl, hd.parser, hd.expert, hd.deviceInitialized, hd.initialized, hd.modulus⟩
  have hshort : (b ++ more).length < 65536 := by
    rw [List.length_append]
    omega
  obtain ⟨hverdict, hfields⟩ := txVerdict_sample hready hb hshort ht howner hprints
  refine ⟨_, ⟨hd.deviceInitialized, hd.txInitialized, happend, hverdict⟩, ?_⟩
  rw [Device.deepHash, hfields]
  rfl

/-- The surroundings in which the device is locked when `INIT` arrives. -/
def lockedAtInit (k : ℕ) : Choice :=
  if k = 0 then ⟨some ⟨apduCodeCommandNotAllowed, by decide⟩, [], none⟩
  else ⟨none, [], some ([], [])⟩

/-- Surroundings in which nothing goes wrong. -/
def unlocked (_ : ℕ) : Choice := ⟨none, [], some ([], [])⟩

/-- A call in these surroundings. -/
def sampleCall : SignResult × World Bytes :=
  (sign hashingPlatform unlocked utf8 sampleClientTx).run ⟨leftoverDevice, 0, []⟩

/-- `INIT` empties the buffer of the sample device. -/
theorem SampleReady.afterInit {d : Device Bytes} {b : Bytes} (hd : SampleReady d b) (k : ℕ) :
    SampleReady (d.afterInit hashingPlatform (unlocked k)) [] := by
  obtain ⟨-, -, hparser, hexpert, hdevice, hinit, hmodulus⟩ := hd
  have hproc : Processed (unlocked k) d := ⟨rfl, hdevice⟩
  rw [Device.afterInit, if_pos hproc]
  exact ⟨rfl, rfl, hparser, hexpert, hdevice, hinit, hmodulus⟩

end Sample

/-! ## The promise is kept or broken -/

section Promise

variable {σ : Type} (pf : Platform σ) (stringToBuffer : String → Bytes) (tx : ClientTx)

/-- **The promise of `sign`**, for every state of the device, every transaction, and every way the
device refuses or does not refuse `INIT`: it is kept in all surroundings if and only if `INIT` is
not refused or an open upload is harmless.

**Proof sketch.** If `INIT` is refused and what is left over does harm, the call succeeds when
nothing else goes wrong, and breaks its promise by `not_signsCorrectly`. Conversely, after a success
the device has signed what was uploaded, by `sign_ok`. If `INIT` was processed this is the
transaction alone, by `deepHash_of_uploaded`; if it was refused, the leftover is harmless, which
says the same of it. -/
theorem sign_iff (hlaw : pf.buffering.Lawful) (hbounded : pf.buffering.Bounded) (d : Device σ)
    (refusal : Option ErrorCode) :
    (∀ surroundings : ℕ → Choice, (surroundings 0).refusal = refusal →
        SignsCorrectly pf surroundings stringToBuffer tx d) ↔
      refusal = none ∨ LeftoverHarmless pf stringToBuffer tx d := by
  constructor
  · intro hcorrect
    by_contra hno
    obtain ⟨hrefused, hharm⟩ := not_or.mp hno
    refine hharm ((leftoverHarmless_iff pf hlaw hbounded).mpr fun d' hup => ?_)
    let surroundings : ℕ → Choice := fun k =>
      if k = 0 then ⟨refusal, [], none⟩ else ⟨none, [], some ([], [])⟩
    have hfriendly : Friendly surroundings [] := fun k hk => if_neg (Nat.ne_of_gt hk)
    by_contra hne
    exact not_signsCorrectly pf surroundings stringToBuffer tx hfriendly hrefused hup hne
      (hcorrect surroundings rfl)
  · intro hcond surroundings hrefusal hok
    obtain ⟨d', salt, hup, hdeephash, hstored, hsignature⟩ :=
      sign_ok pf surroundings stringToBuffer tx d hok
    have hdigest : d'.deepHash pf = deepHash pf.sha384 (tx.fields stringToBuffer).item := by
      by_cases hproc : Processed (surroundings 0) d
      · rw [Device.afterInit, if_pos hproc] at hup
        have hempty : Device.received pf (d.setUpload
            ⟨true, pf.buffering.reset (pf.buffering.init d.buffering), .more⟩) = [] :=
          hlaw.data_reset _
        exact deepHash_of_uploaded pf hlaw hbounded hempty hup
      · rw [Device.afterInit, if_neg hproc] at hup
        rcases hcond with hnone | hharmless
        · exact absurd ⟨hrefusal.trans hnone, hup.initialized⟩ hproc
        · exact (leftoverHarmless_iff pf hlaw hbounded).mp hharmless d' hup
    have hstore : d'.store = d.store := by
      have hsame := (sameBut_appendAll pf hup.appendAll).store
      rw [hsame, Device.afterInit]
      split_ifs
      · rfl
      · rfl
    have hsig : d'.signature pf salt = pf.sdk.rsaSign d.store.current.rsaPriv (pf.sdk.sha256
        (deepHash pf.sha384 (tx.fields stringToBuffer).item).val) salt := by
      rw [Device.signature, hdigest, hstore]
    rw [hdigest] at hdeephash
    rw [hsig] at hstored hsignature
    exact ⟨hdeephash, salt, hstored, hsignature⟩

end Promise

/-- After an upload that was not finished, and with the device locked when `INIT` arrives, the
client gets the signature of the transaction of that upload.

**Proof sketch.** The leftover is a whole transaction, so what is then in the buffer begins with it
and is accepted as it. Its digest is another one, and `not_signsCorrectly` applies. -/
theorem sign_leftover :
    ¬ SignsCorrectly hashingPlatform lockedAtInit utf8 sampleClientTx leftoverDevice := by
  have hencode : encodeTx utf8 sampleClientTx = transaction.encode (sampleTx [] [2]) := by
    rw [encodeTx_eq, fields_sampleClientTx]
  have hfriendly : Friendly lockedAtInit [] := fun k hk => if_neg (Nat.ne_of_gt hk)
  have hvalid : transaction.Valid (sampleTx [] [1]) := sampleTx_valid (by simp) (by decide)
  have hprints : SamplePrints (sampleBytes ++ transaction.encode (sampleTx [] [2]))
      (sampleTx [] [1]) := by
    unfold SamplePrints
    decide +kernel
  obtain ⟨d', hup, hdigest⟩ := sample_uploaded leftoverDevice_ready
    (transaction.encode (sampleTx [] [2])) rfl (by decide +kernel) hvalid rfl hprints
  rw [← hencode] at hup
  refine not_signsCorrectly hashingPlatform lockedAtInit utf8 sampleClientTx hfriendly (by decide)
    hup ?_
  rw [hdigest, fields_sampleClientTx]
  show deepHash lastBytes _ ≠ deepHash lastBytes _
  decide +kernel

/-- If the device is not locked, the client gets the signature it asked for.

**Proof sketch.** The upload is accepted, so the call succeeds, and by the theorem it keeps its
promise. -/
theorem sign_iff_sample :
    sampleCall.1.returnCode = some 0x9000 ∧
      sampleCall.1.deephash =
        some (deepHash hashingPlatform.sha384 (sampleTx [] [2]).item).val := by
  have hencode : encodeTx utf8 sampleClientTx = transaction.encode (sampleTx [] [2]) := by
    rw [encodeTx_eq, fields_sampleClientTx]
  have hvalid : transaction.Valid (sampleTx [] [2]) := sampleTx_valid (by simp) (by decide)
  have hprints : SamplePrints ([] ++ transaction.encode (sampleTx [] [2])) (sampleTx [] [2]) := by
    unfold SamplePrints
    decide +kernel
  obtain ⟨d', hup, -⟩ := sample_uploaded (leftoverDevice_ready.afterInit 0)
    (transaction.encode (sampleTx [] [2])) (List.append_nil _).symm (by decide +kernel) hvalid rfl
    hprints
  rw [← hencode] at hup
  have hok := sign_friendly hashingPlatform unlocked utf8 sampleClientTx (fun _ _ => rfl) hup
  have hcorrect : SignsCorrectly hashingPlatform unlocked utf8 sampleClientTx leftoverDevice :=
    (sign_iff hashingPlatform utf8 sampleClientTx sampleBuffering_lawful sampleBuffering_bounded
      leftoverDevice none).mpr (.inl rfl) unlocked rfl
  obtain ⟨hdigest, -⟩ := hcorrect hok
  rw [fields_sampleClientTx] at hdigest
  rw [sampleCall]
  exact ⟨hok, hdigest⟩

end LedgerArweave
