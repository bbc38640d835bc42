import LedgerArweave.Client.Sign

set_option relaxedAutoImplicit false
set_option autoImplicit false

/-!
# The upload against any answers

`signGetDigest` of the client, with whatever the transport answers to its requests. The loop stops
at the first answer other than success, but the first request is sent before the loop, and nothing
looks at the answer to it.

## Main definitions

* `Answer` — what comes of a request: a response, or a failure of the transport.
* `sendAll` — the upload, over what sends a chunk.
* `signGetDigestTo` — the upload against a sequence of answers.
* `StopsAtFailure` — what an upload owes to the answers.

## Main results

* `signGetDigest_eq_sendAll` — the upload against a device is an instance.
* `sendEach_stops` — the loop stops at the first answer other than success.
* `stopsAtFailure_iff` — the upload does exactly if its first request succeeds.

## Implementation notes

The chunks have at most 250 bytes, so `transport.send` never refuses one. It rejects with a status
word that is not in the list, or with an error that has none and is known by its text. A response of
fewer than two bytes has no status word: a transport that rejects it fails, and where one passes it
on, the client makes `NaN` of it, which is no success either.
-/

namespace LedgerArweave

/-! ## Sending chunks one after another -/

section Upload

variable {M : Type → Type} [Monad M] (sendChunk : ℕ → Bytes → M Reply)

/-- The loop over the chunks from chunk `i` on. -/
def sendEach : ℕ → List Bytes → Reply → M Reply
  | _, [], result => return result
  | i, chunk :: chunks, _ => do
    let result ← sendChunk (1 + i) chunk
    if result.returnCode ≠ some 0x9000 then return result else sendEach (i + 1) chunks result

/-- The first chunk, and the loop over the others. -/
def sendAll (chunks : List Bytes) : M Reply := do
  let response ← sendChunk 1 (chunks.headD [])
  sendEach sendChunk 1 chunks.tail ⟨none, response.returnCode, response.errorMessage⟩

end Upload

section Device

variable {σ : Type} (pf : Platform σ) (surroundings : ℕ → Choice)

/-- The loop over the chunks is the loop of `sendEach`, with the device as the one that answers. -/
theorem sendChunks_eq_sendEach (n i : ℕ) (chunks : List Bytes) (result : Reply) :
    sendChunks pf surroundings n i chunks result =
      sendEach (fun k chunk => signSendChunk pf surroundings k n chunk) i chunks result := by
  induction chunks generalizing i result with
  | nil => rfl
  | cons chunk chunks ih =>
    rw [sendChunks, sendEach]
    congr 1
    funext result'
    rw [ih]

/-- **The upload to a device** sends its chunks in this way.

**Proof sketch.** By unfolding both: each sends the first chunk and then the others. -/
theorem signGetDigest_eq_sendAll (chunks : List Bytes) :
    signGetDigest pf surroundings chunks =
      sendAll (fun k chunk => signSendChunk pf surroundings k chunks.length chunk) chunks := by
  unfold signGetDigest sendAll
  simp only [sendChunks_eq_sendEach]

end Device

/-! ## Answers -/

/-- What `transport.send` rejects with: an error with a status code, or another error. -/
inductive Rejection where
  | statusCode (statusCode : ℕ)
  | error (text : String)

/-- What comes of a request: a response, or a failure of the transport. -/
inductive Answer where
  | response (bytes : Bytes)
  | failure (text : String)

/-- How the promise for an answer settles. -/
def Answer.settle (statusList : List ℕ) : Answer → Except Rejection Bytes
  | .response bytes =>
    match statusOf bytes with
    | some code => if code ∈ statusList then .ok bytes else .error (.statusCode code)
    | none => .ok bytes
  | .failure text => .error (.error text)

/-- `processErrorResponse` on any rejection -/
def processRejection : Rejection → Reply
  | .statusCode statusCode => processErrorResponse statusCode
  | .error text => ⟨none, some 0xffff, text⟩

/-- The answer is 0x9000. -/
def Answer.Success : Answer → Prop
  | .response bytes => statusOf bytes = some 0x9000
  | .failure _ => False

/-- The status word of an answer; 0xffff for a failure. -/
def Answer.returnCode : Answer → Option ℕ
  | .response bytes => statusOf bytes
  | .failure _ => some 0xffff

/-- The message of an answer: the description of its status word, with the text that a response
for invalid data carries; the text of a failure. -/
def Answer.errorMessage : Answer → String
  | .response bytes =>
    if statusOf bytes = some 0x6a80 ∨ statusOf bytes = some 0x6984 then
      errorCodeToString (statusOf bytes) ++ " : " ++
        asciiText (bytes.take (bytes.length - 2))
    else errorCodeToString (statusOf bytes)
  | .failure text => text

/-! ## The upload against answers -/

/-- A request on the wire. -/
structure Request where
  ins : UInt8
  p1 : UInt8
  p2 : UInt8
  data : Bytes
deriving DecidableEq

/-- Programs of a client whose requests are recorded. -/
abbrev RecordM := StateM (List Request)

section Answers

variable (answers : ℕ → Answer)

/-- `transport.send`: request `k` gets answer `k`. -/
def sendTo (ins p1 p2 : UInt8) (data : Bytes) (statusList : List ℕ) :
    RecordM (Except Rejection Bytes) := fun sent =>
  ((answers sent.length).settle statusList, sent ++ [⟨ins, p1, p2, data⟩])

/-- `signSendChunk` -/
def signSendChunkTo (chunkIdx chunkNum : ℕ) (chunk : Bytes) : RecordM Reply := do
  let settled ← sendTo answers insSign (payloadTypeOf chunkIdx chunkNum) 0 chunk
    [0x9000, 0x6984, 0x6a80]
  return match settled with
    | .ok response => processChunkResponse response
    | .error rejection => processRejection rejection

/-- `signGetDigest` -/
def signGetDigestTo (chunks : List Bytes) : RecordM Reply :=
  sendAll (fun k chunk => signSendChunkTo answers k chunks.length chunk) chunks

/-- What `signSendChunk` makes of an answer. -/
def Answer.reply (a : Answer) : Reply :=
  match a.settle [0x9000, 0x6984, 0x6a80] with
  | .ok bytes => processChunkResponse bytes
  | .error rejection => processRejection rejection

/-- The reply carries the status word of the answer and its message.

**Proof sketch.** A response whose status word is in the list, or that has none, goes to the
callback, which reads both off its bytes. For another status word the rejection carries it, and it
is not one of the two with a text. -/
theorem Answer.reply_eq (a : Answer) :
    a.reply.returnCode = a.returnCode ∧ a.reply.errorMessage = a.errorMessage := by
  cases a with
  | failure text => exact ⟨rfl, rfl⟩
  | response bytes =>
    have hcallback : (processChunkResponse bytes).returnCode = (Answer.response bytes).returnCode ∧
        (processChunkResponse bytes).errorMessage = (Answer.response bytes).errorMessage :=
      ⟨rfl, rfl⟩
    cases hstatus : statusOf bytes with
    | none =>
      have hreply : (Answer.response bytes).reply = processChunkResponse bytes := by
        simp only [Answer.reply, Answer.settle, hstatus]
      rw [hreply]
      exact hcallback
    | some code =>
      by_cases hmem : code ∈ [0x9000, 0x6984, 0x6a80]
      · have hreply : (Answer.response bytes).reply = processChunkResponse bytes := by
          simp only [Answer.reply, Answer.settle, hstatus, if_pos hmem]
        rw [hreply]
        exact hcallback
      · have hreply : (Answer.response bytes).reply = processRejection (.statusCode code) := by
          simp only [Answer.reply, Answer.settle, hstatus, if_neg hmem]
        have hother : ¬ (statusOf bytes = some 0x6a80 ∨ statusOf bytes = some 0x6984) := by
          rw [hstatus, Option.some.injEq, Option.some.injEq]
          rintro (rfl | rfl) <;> exact hmem (by decide)
        rw [hreply, Answer.errorMessage, if_neg hother, Answer.returnCode, hstatus]
        exact ⟨rfl, rfl⟩

/-- An answer is taken for a success if it is one. -/
theorem Answer.success_iff (a : Answer) : a.Success ↔ a.reply.returnCode = some 0x9000 := by
  rw [a.reply_eq.1]
  cases a with
  | failure text => exact iff_of_false id (by show ¬ some 0xffff = some 0x9000; decide)
  | response bytes => exact Iff.rfl

variable {answers}

/-- The requests that send chunks from chunk `i` on, of `n` in all. -/
def requestsFrom (n : ℕ) : ℕ → List Bytes → List Request
  | _, [] => []
  | i, chunk :: chunks =>
    ⟨insSign, payloadTypeOf (1 + i) n, 0, chunk⟩ :: requestsFrom n (i + 1) chunks

/-- What an upload owes to the answers: request `k + 1` is sent only if answer `k` is a success, and
any other answer ends the upload with its own status word and message. -/
structure StopsAtFailure (answers : ℕ → Answer) (chunks : List Bytes)
    (run : Reply × List Request) : Prop where
  requests : run.2 <+: requestsFrom chunks.length 0 chunks
  onlyAfterSuccess : ∀ k, k + 1 < run.2.length → (answers k).Success
  stops : ∀ k < run.2.length, ¬ (answers k).Success → run.2.length = k + 1 ∧
    run.1.returnCode = (answers k).returnCode ∧ run.1.errorMessage = (answers k).errorMessage

/-- One round of the loop. -/
theorem run_sendEach_cons (n i : ℕ) (chunk : Bytes) (chunks : List Bytes) (result : Reply)
    (sent : List Request) :
    let reply := (answers sent.length).reply
    let sent' := sent ++ [⟨insSign, payloadTypeOf (1 + i) n, 0, chunk⟩]
    (sendEach (fun k chunk => signSendChunkTo answers k n chunk) i (chunk :: chunks) result).run
        sent =
      if reply.returnCode ≠ some 0x9000 then (reply, sent')
      else (sendEach (fun k chunk => signSendChunkTo answers k n chunk) (i + 1) chunks reply).run
        sent' := by
  intro reply sent'
  by_cases hok : reply.returnCode = some 0x9000
  · exact (congrArg (StateT.run · sent') (if_neg (not_not.mpr hok))).trans
      (if_neg (not_not.mpr hok)).symm
  · exact (congrArg (StateT.run · sent') (if_pos hok)).trans (if_pos hok).symm

variable (answers) in
/-- **The loop** stops at the first answer other than success.

**Proof sketch.** Induction on the chunks left: a round either ends the loop with its answer, or
goes on after a success. -/
theorem sendEach_stops (n i : ℕ) (chunks : List Bytes) (result : Reply) (sent : List Request) :
    let run :=
      (sendEach (fun k chunk => signSendChunkTo answers k n chunk) i chunks result).run sent
    (∃ rest, run.2 = sent ++ rest ∧ rest <+: requestsFrom n i chunks) ∧
      (∀ k, sent.length ≤ k → k + 1 < run.2.length → (answers k).Success) ∧
      ∀ k, sent.length ≤ k → k < run.2.length → ¬ (answers k).Success →
        run.2.length = k + 1 ∧ run.1 = (answers k).reply := by
  induction chunks generalizing i result sent with
  | nil =>
    refine ⟨⟨[], (List.append_nil sent).symm, List.nil_prefix⟩, fun k hk hlt => ?_,
      fun k hk hlt => ?_⟩
    · exact absurd hlt (by show ¬ k + 1 < sent.length; omega)
    · exact absurd hlt (Nat.not_lt.mpr hk)
  | cons chunk chunks ih =>
    intro run
    let sent' := sent ++ [⟨insSign, payloadTypeOf (1 + i) n, 0, chunk⟩]
    have hlen : sent'.length = sent.length + 1 := List.length_append
    have hrun : run = _ := run_sendEach_cons n i chunk chunks result sent
    by_cases hsuccess : (answers sent.length).Success
    · rw [if_neg (not_not.mpr ((Answer.success_iff _).mp hsuccess))] at hrun
      obtain ⟨⟨rest, hrest, hle⟩, hafter, hstop⟩ := ih (i + 1) (answers sent.length).reply sent'
      rw [hrun]
      refine ⟨⟨_ :: rest, ?_, (List.cons_prefix_cons).mpr ⟨rfl, hle⟩⟩, fun k hk hlt => ?_,
        fun k hk hlt hno => ?_⟩
      · rw [hrest]
        simp [sent']
      · rcases Nat.eq_or_lt_of_le hk with rfl | hk
        · exact hsuccess
        · exact hafter k (by omega) hlt
      · rcases Nat.eq_or_lt_of_le hk with rfl | hk
        · exact absurd hsuccess hno
        · exact hstop k (by omega) hlt hno
    · rw [if_pos (mt (Answer.success_iff _).mpr hsuccess)] at hrun
      rw [hrun]
      refine ⟨⟨[_], rfl, ?_⟩, fun k hk hlt => ?_, fun k hk hlt _ => ?_⟩
      · exact List.cons_prefix_cons.mpr ⟨rfl, List.nil_prefix⟩
      · exact absurd hlt (by show ¬ k + 1 < sent'.length; omega)
      · have hk' : k = sent.length := by
          have hlt' : k < sent'.length := hlt
          omega
        subst hk'
        exact ⟨hlen, rfl⟩

/-! ## The first request -/

/-- The upload is the first request, and the loop on what its answer has become. -/
theorem run_signGetDigestTo (first : Bytes) (rest : List Bytes) :
    (signGetDigestTo answers (first :: rest)).run [] =
      (sendEach (fun k chunk => signSendChunkTo answers k (first :: rest).length chunk) 1 rest
        ⟨none, (answers 0).reply.returnCode, (answers 0).reply.errorMessage⟩).run
        [⟨insSign, payloadTypeOf 1 (first :: rest).length, 0, first⟩] := rfl

/-- After a first success, the upload stops at the first other answer.

**Proof sketch.** The loop stops at a failure by `sendEach_stops`; the requests before it are the
first one, which has succeeded, and those of the loop. -/
theorem stopsAtFailure_of_success {first : Bytes} {rest : List Bytes}
    (h : (answers 0).Success) :
    StopsAtFailure answers (first :: rest) ((signGetDigestTo answers (first :: rest)).run []) := by
  rw [run_signGetDigestTo]
  obtain ⟨⟨more, hmore, hle⟩, hafter, hstop⟩ := sendEach_stops answers
    (first :: rest).length 1 rest
    ⟨none, (answers 0).reply.returnCode, (answers 0).reply.errorMessage⟩
    [⟨insSign, payloadTypeOf 1 (first :: rest).length, 0, first⟩]
  refine ⟨?_, fun k hlt => ?_, fun k hlt hno => ?_⟩
  · rw [hmore]
    exact List.cons_prefix_cons.mpr ⟨rfl, hle⟩
  · rcases Nat.eq_zero_or_pos k with rfl | hk
    · exact h
    · exact hafter k hk hlt
  · rcases Nat.eq_zero_or_pos k with rfl | hk
    · exact absurd h hno
    · obtain ⟨hend, hreply⟩ := hstop k hk hlt hno
      rw [hreply]
      exact ⟨hend, (answers k).reply_eq⟩

/-- The second request is always sent. -/
theorem two_le_requests (first second : Bytes) (rest : List Bytes) :
    2 ≤ ((signGetDigestTo answers (first :: second :: rest)).run []).2.length := by
  rw [run_signGetDigestTo, run_sendEach_cons]
  split_ifs with hcode
  · exact le_rfl
  · obtain ⟨⟨more, hmore, -⟩, -⟩ := sendEach_stops answers (first :: second :: rest).length (1 + 1)
      rest (answers 1).reply
      ([⟨insSign, payloadTypeOf 1 (first :: second :: rest).length, 0, first⟩] ++
        [⟨insSign, payloadTypeOf (1 + 1) (first :: second :: rest).length, 0, second⟩])
    have hlen := congrArg List.length hmore
    rw [List.length_append] at hlen
    exact (Nat.le_add_right 2 _).trans_eq hlen.symm

/-- There are at least two chunks. -/
theorem exists_prepareChunks (stringToBuffer : String → Bytes) (message : ClientTx) :
    ∃ second rest, prepareChunks stringToBuffer message = zeros 20 :: second :: rest := by
  obtain ⟨second, rest, hrest⟩ :=
    List.exists_cons_of_ne_nil (slices_encodeTx stringToBuffer message).1
  exact ⟨second, rest, congrArg (zeros 20 :: ·) hrest⟩

/-- **When the upload stops at the first failure.** For every transaction and all answers, exactly
if the answer to `INIT` is a success.

**Proof sketch.** There are at least two requests, and the second is sent whatever the first
response is. So stopping at a first failure means that there was none; the other direction is
`stopsAtFailure_of_success`. -/
theorem stopsAtFailure_iff (stringToBuffer : String → Bytes) (message : ClientTx)
    (answers : ℕ → Answer) :
    let chunks := prepareChunks stringToBuffer message
    StopsAtFailure answers chunks ((signGetDigestTo answers chunks).run []) ↔
      (answers 0).Success := by
  intro chunks
  obtain ⟨second, rest, hchunks⟩ := exists_prepareChunks stringToBuffer message
  show StopsAtFailure answers (prepareChunks _ _) _ ↔ _
  simp only [chunks, hchunks]
  constructor
  · intro h
    exact h.onlyAfterSuccess 0 (two_le_requests _ _ _)
  · exact stopsAtFailure_of_success

/-- A device that refuses every request is sent a second one. -/
theorem not_stopsAtFailure :
    let chunks := prepareChunks utf8 sampleClientTx
    let answers : ℕ → Answer := fun _ => .response [0x69, 0x85]
    ¬ StopsAtFailure answers chunks ((signGetDigestTo answers chunks).run []) := by
  intro chunks answers h
  obtain ⟨second, rest, hchunks⟩ := exists_prepareChunks utf8 sampleClientTx
  simp only [chunks, hchunks] at h
  have hsuccess : (answers 0).Success := h.onlyAfterSuccess 0 (two_le_requests _ _ _)
  exact absurd hsuccess (by show ¬ statusOf [0x69, 0x85] = some 0x9000; decide)

end Answers

end LedgerArweave
