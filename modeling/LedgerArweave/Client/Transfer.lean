import LedgerArweave.Client.Sign

set_option relaxedAutoImplicit false
set_option autoImplicit false

/-!
# The transfer of a transaction

The client cuts an encoded transaction into chunks and stops at the first one that is not answered
with success; the device puts the chunks together again. On a device that is set up and not
locked, and whatever upload is open in it, the two agree: if the encoding fits the buffer, it is
parsed once and as a whole, and if not, the chunk that has no room is the last one sent.

## Main definitions

* `Buffering.HasCapacity` — the buffer takes what fits a number of bytes.
* `signCommand`, `uploadCommands` — the commands of an upload.
* `commandEvents` — what happens to a device to which commands are sent.
* `Parsed`, `CutOff` — the two ends of a transfer.

## Main results

* `sendChunks_transfer` — the loop of the client.
* `transfer_agrees` — the whole transfer.
-/

namespace LedgerArweave

open Fallible

section Transfer

variable {σ : Type} (pf : Platform σ) (surroundings : ℕ → Choice)

/-! ## Commands -/

/-- `buffering_append` appends all bytes while the capacity allows, and otherwise appends nothing
and returns zero. -/
structure Buffering.HasCapacity (bf : Buffering σ) (capacity : ℕ) : Prop where
  fits : ∀ s x, (bf.data s).length + x.length ≤ capacity →
    bf.data (bf.append s x).1 = bf.data s ++ x ∧ (bf.append s x).2 = x.length
  full : ∀ s x, capacity < (bf.data s).length + x.length →
    bf.data (bf.append s x).1 = bf.data s ∧ (bf.append s x).2 = 0

/-- The chunks the client sends. -/
abbrev Chunk := { b : Bytes // b.length ≤ chunkSize }

/-- The command for a chunk. -/
def signCommand (p1 : UInt8) (chunk : Chunk) : Apdu :=
  command insSign p1 0 chunk.val (lt_of_le_of_lt chunk.property (by decide))

/-- The chunk of `INIT`, whose payload does not matter. -/
def initChunk : Chunk := ⟨zeros 20, by decide⟩

/-- The commands after `INIT`. -/
def chunkCommands (adds : List Chunk) (last : Chunk) : List Apdu :=
  adds.map (signCommand p1Add) ++ [signCommand p1Last last]

/-- `INIT`, any number of `ADD`s, and one `LAST`. -/
def uploadCommands (adds : List Chunk) (last : Chunk) : List Apdu :=
  signCommand p1Init initChunk :: chunkCommands adds last

/-! ## Events -/

/-- What happens to a device during an exchange: the command arrives, and if it opens a review the
user decides. -/
def exchangeEvents (c : Choice) (a : Apdu) (d : Device σ) : List DeviceEvent :=
  .apdu a c.refusal c.faults ::
    if ((device pf).step d (.apdu a c.refusal c.faults)).2.reply.isSome then [] else [c.answer]

/-- What happens to a device to which commands are sent, the first one in exchange `k`. -/
def commandEvents : ℕ → Device σ → List Apdu → List DeviceEvent
  | _, _, [] => []
  | k, d, a :: as =>
    exchangeEvents pf (surroundings k) a d ++
      commandEvents (k + 1) (exchange pf (surroundings k) a d).dev as

section Events

variable {c : Choice} {a : Apdu} {d d' : Device σ} {o : Output}
  (hstep : (device pf).step d (.apdu a c.refusal c.faults) = (d', o))

include hstep in
/-- A command that is answered at once. -/
theorem exchangeEvents_of_reply {response : Bytes} (hreply : o.reply = some response) :
    exchangeEvents pf c a d = [.apdu a c.refusal c.faults] := by
  unfold exchangeEvents
  rw [hstep]
  dsimp only
  rw [hreply]
  rfl

include hstep in
/-- A command that opens a review. -/
theorem exchange_of_review (hreply : o.reply = none) :
    (exchange pf c a d).dev = ((device pf).step d' c.answer).1 ∧
      exchangeEvents pf c a d = [.apdu a c.refusal c.faults, c.answer] := by
  unfold exchange exchangeEvents
  rw [hstep]
  dsimp only
  rw [hreply]
  exact ⟨rfl, rfl⟩

end Events

/-- An exchange is a run of the device. -/
theorem dev_exchange (c : Choice) (a : Apdu) (d : Device σ) :
    (exchange pf c a d).dev = (device pf).run d (exchangeEvents pf c a d) := by
  rcases hstep : (device pf).step d (.apdu a c.refusal c.faults) with ⟨d', o⟩
  cases hreply : o.reply with
  | some response =>
    rw [exchange_of_reply pf hstep hreply, exchangeEvents_of_reply pf hstep hreply,
      Machine.run_cons, hstep]
    rfl
  | none =>
    obtain ⟨hdev, hevents⟩ := exchange_of_review pf hstep hreply
    rw [hdev, hevents, Machine.run_cons, hstep]
    rfl

/-- The commands after the first one are sent to the device it leaves behind. -/
theorem trace_commandEvents_cons (k : ℕ) (d : Device σ) (a : Apdu) (as : List Apdu) :
    (device pf).trace d (commandEvents pf surroundings k d (a :: as)) =
      (device pf).trace d (exchangeEvents pf (surroundings k) a d) ++
        (device pf).trace (exchange pf (surroundings k) a d).dev
          (commandEvents pf surroundings (k + 1) (exchange pf (surroundings k) a d).dev as) := by
  rw [commandEvents, Machine.trace_append, dev_exchange]

/-- Running commands: one exchange, and then the rest on the device it leaves. -/
theorem run_commandEvents_cons (k : ℕ) (d : Device σ) (a : Apdu) (as : List Apdu) :
    (device pf).run d (commandEvents pf surroundings k d (a :: as)) =
      (device pf).run (exchange pf (surroundings k) a d).dev
        (commandEvents pf surroundings (k + 1) (exchange pf (surroundings k) a d).dev as) := by
  rw [commandEvents, Machine.run_append, dev_exchange]

/-! ## The ends of a transfer -/

/-- A command that is answered with success and nothing else. -/
def Step.Stored (t : Step σ) : Prop :=
  t.output = ⟨some (statusReply apduCodeOk), none, []⟩ ∧ t.after.review = t.before.review

/-- A chunk for which there is no room. -/
def Step.TooLong (t : Step σ) : Prop :=
  t.output = ⟨some (statusReply apduCodeOutputBufferTooSmall), none, []⟩ ∧
    t.after.review = t.before.review

/-- The chunks are stored, the last one apart, which leads to the only call of `tx_parse`, on the
given bytes. -/
def Parsed (bytes last : Bytes) (tr : List (Step σ)) : Prop :=
  ∃ pre t post, tr = pre ++ t :: post ∧ (∀ u ∈ pre, u.Stored) ∧
    t.chunk = some (p1Last, last) ∧ t.output.parsed = some bytes ∧
    ∀ u ∈ post, u.output.parsed = none

/-- The chunks are stored, the last one sent apart, for which there is no room. -/
def CutOff (tr : List (Step σ)) : Prop :=
  ∃ pre t, tr = pre ++ [t] ∧ (∀ u ∈ pre, u.Stored) ∧ t.TooLong

/-- A chunk that is stored before an upload is parsed. -/
theorem Parsed.cons {bytes last : Bytes} {u : Step σ} {tr : List (Step σ)} (hu : u.Stored)
    (h : Parsed bytes last tr) : Parsed bytes last (u :: tr) := by
  obtain ⟨pre, t, post, rfl, hpre, hrest⟩ := h
  exact ⟨u :: pre, t, post, rfl, List.forall_mem_cons.mpr ⟨hu, hpre⟩, hrest⟩

/-- A chunk that is stored before an upload is cut off. -/
theorem CutOff.cons {u : Step σ} {tr : List (Step σ)} (hu : u.Stored) (h : CutOff tr) :
    CutOff (u :: tr) := by
  obtain ⟨pre, t, rfl, hpre, ht⟩ := h
  exact ⟨u :: pre, t, rfl, List.forall_mem_cons.mpr ⟨hu, hpre⟩, ht⟩

/-! ## One chunk -/

section Chunk

variable {capacity : ℕ} (hcap : pf.buffering.HasCapacity capacity) {c : Choice} {d : Device σ}
  (hproc : Processed c d) (chunk : Chunk)

include hproc in
/-- A `SIGN` command on an unlocked device with keys hands its chunk over. -/
theorem chunkOf_signCommand (p1 : UInt8) :
    chunkOf d (.apdu (signCommand p1 chunk) c.refusal c.faults) = some (p1, chunk.val) :=
  chunkOf_command hproc _ p1

/-- A device that goes on with an upload of which it has received some bytes. -/
structure Device.Receiving (d : Device σ) (received : Bytes) : Prop where
  deviceInitialized : d.store.deviceInitialized = true
  txInitialized : d.txInitialized = true
  received : d.received pf = received

include hproc in
/-- A chunk that is answered at once changes nothing but the upload. -/
theorem transfer_answered (p1 : UInt8) {effect : ChunkEffect σ} {code : ℕ}
    (heffect : chunkEffect pf.buffering d.txInitialized d.buffering p1 chunk.val = effect)
    (hcode : ∀ d : Device σ,
      chunkStep pf d effect.result = (d, ⟨some (statusReply code), none, []⟩)) :
    ∃ io, exchange pf c (signCommand p1 chunk) d =
        ⟨(d.setUpload effect).setIo io, statusReply code, []⟩ ∧
      (device pf).trace d (exchangeEvents pf c (signCommand p1 chunk) d) =
        [⟨d, .apdu (signCommand p1 chunk) c.refusal c.faults, (d.setUpload effect).setIo io,
          ⟨some (statusReply code), none, []⟩⟩] := by
  obtain ⟨io, hstep⟩ := step_chunk pf (chunkOf_signCommand hproc chunk p1)
  rw [heffect, hcode] at hstep
  refine ⟨io, exchange_of_reply pf hstep rfl, ?_⟩
  rw [exchangeEvents_of_reply pf hstep rfl, Machine.trace_cons, Machine.transition, hstep,
    Machine.trace_nil]

include hproc in
/-- `INIT` starts an upload. -/
theorem transfer_init (hlaw : pf.buffering.Lawful) :
    ∃ d', exchange pf c (signCommand p1Init initChunk) d = ⟨d', statusReply apduCodeOk, []⟩ ∧
      d'.Receiving pf [] ∧ ∃ t : Step σ, t.Stored ∧
        (device pf).trace d (exchangeEvents pf c (signCommand p1Init initChunk) d) = [t] := by
  obtain ⟨io, hx, htrace⟩ := transfer_answered pf hproc initChunk p1Init rfl fun _ => rfl
  exact ⟨_, hx, ⟨hproc.2, rfl, hlaw.data_reset _⟩, _, ⟨rfl, rfl⟩, htrace⟩

include hcap in
/-- A payload for which there is room, in terms of `appendEffect`. -/
theorem appendEffect_fits (hroom : (d.received pf).length + chunk.val.length ≤ capacity)
    (result : ChunkResult) :
    appendEffect pf.buffering d.txInitialized d.buffering chunk.val result =
      ⟨d.txInitialized, (pf.buffering.append d.buffering chunk.val).1, result⟩ :=
  if_pos (hcap.fits _ _ hroom).2

include hcap in
/-- A payload for which there is no room. -/
theorem appendEffect_full (hreceived : (d.received pf).length ≤ capacity)
    (hfull : capacity < (d.received pf).length + chunk.val.length) (result : ChunkResult) :
    appendEffect pf.buffering d.txInitialized d.buffering chunk.val result =
      ⟨false, (pf.buffering.append d.buffering chunk.val).1,
        .refused apduCodeOutputBufferTooSmall⟩ := by
  refine if_neg ?_
  rw [(hcap.full _ _ hfull).2]
  omega

include hcap hproc in
/-- `ADD` with room for its payload. -/
theorem transfer_add (hopen : d.txInitialized = true)
    (hroom : (d.received pf).length + chunk.val.length ≤ capacity) :
    ∃ d', exchange pf c (signCommand p1Add chunk) d = ⟨d', statusReply apduCodeOk, []⟩ ∧
      d'.Receiving pf (d.received pf ++ chunk.val) ∧ ∃ t : Step σ, t.Stored ∧
        (device pf).trace d (exchangeEvents pf c (signCommand p1Add chunk) d) = [t] := by
  obtain ⟨io, hx, htrace⟩ := transfer_answered pf hproc chunk p1Add
    (appendEffect_fits pf hcap chunk hroom .more) fun _ => rfl
  exact ⟨_, hx, ⟨hproc.2, hopen, (hcap.fits _ _ hroom).1⟩, _, ⟨rfl, rfl⟩, htrace⟩

include hcap hproc in
/-- `ADD` or `LAST` without room for its payload. -/
theorem transfer_full {p1 : UInt8} (hp1 : p1 = p1Add ∨ p1 = p1Last)
    (hopen : d.txInitialized = true) (hreceived : (d.received pf).length ≤ capacity)
    (hfull : capacity < (d.received pf).length + chunk.val.length) :
    ∃ d', exchange pf c (signCommand p1 chunk) d =
        ⟨d', statusReply apduCodeOutputBufferTooSmall, []⟩ ∧
      ∃ t : Step σ, t.TooLong ∧
        (device pf).trace d (exchangeEvents pf c (signCommand p1 chunk) d) = [t] := by
  have heffect : chunkEffect pf.buffering d.txInitialized d.buffering p1 chunk.val =
      ⟨false, (pf.buffering.append d.buffering chunk.val).1,
        .refused apduCodeOutputBufferTooSmall⟩ := by
    rcases hp1 with rfl | rfl
    · exact appendEffect_full pf hcap chunk hreceived hfull .more
    · exact (if_pos hopen).trans (appendEffect_full pf hcap chunk hreceived hfull .last)
  obtain ⟨io, hx, htrace⟩ := transfer_answered pf hproc chunk _ heffect fun _ => rfl
  exact ⟨_, hx, _, ⟨rfl, rfl⟩, htrace⟩

/-- The decision of the user leads to no call of `tx_parse`. -/
theorem parsed_answer (c : Choice) (d : Device σ) :
    ((device pf).step d c.answer).2.parsed = none := by
  unfold Choice.answer
  cases c.approval with
  | some approval => exact (answered_approve pf d approval.1 approval.2).kept.2.2.2.2
  | none => exact (answered_reject pf d).kept.2.2.2.2

/-- All that follows the first step of an exchange is the decision of the user. -/
theorem trace_exchangeEvents {c : Choice} {a : Apdu} {d d' : Device σ} {o : Output}
    (hstep : (device pf).step d (.apdu a c.refusal c.faults) = (d', o)) :
    ∃ post, (device pf).trace d (exchangeEvents pf c a d) =
        ⟨d, .apdu a c.refusal c.faults, d', o⟩ :: post ∧ ∀ u ∈ post, u.output.parsed = none := by
  cases hreply : o.reply with
  | some response =>
    rw [exchangeEvents_of_reply pf hstep hreply, Machine.trace_cons, Machine.transition, hstep]
    exact ⟨[], rfl, List.forall_mem_nil _⟩
  | none =>
    rw [(exchange_of_review pf hstep hreply).2, Machine.trace_cons, Machine.transition, hstep]
    exact ⟨_, rfl, List.forall_mem_singleton.mpr (parsed_answer pf c d')⟩

include hcap hproc in
/-- `LAST` with room for its payload: the whole buffer is parsed.

**Proof sketch.** The flag is set and the payload fits, so it is appended and the whole buffer is
parsed. -/
theorem transfer_last (hopen : d.txInitialized = true)
    (hroom : (d.received pf).length + chunk.val.length ≤ capacity) :
    Parsed (d.received pf ++ chunk.val) chunk.val
      ((device pf).trace d (exchangeEvents pf c (signCommand p1Last chunk) d)) := by
  have hc := chunkOf_signCommand hproc chunk p1Last
  obtain ⟨io, hstep⟩ := step_chunk pf hc
  have heffect : chunkEffect pf.buffering d.txInitialized d.buffering p1Last chunk.val =
      ⟨d.txInitialized, (pf.buffering.append d.buffering chunk.val).1, .last⟩ :=
    (if_pos hopen).trans (appendEffect_fits pf hcap chunk hroom .last)
  rw [heffect] at hstep
  obtain ⟨-, -, -, hparsed⟩ := chunkStep_last pf
    (d.setUpload ⟨d.txInitialized, (pf.buffering.append d.buffering chunk.val).1, .last⟩)
  generalize chunkStep pf (d.setUpload ⟨d.txInitialized,
    (pf.buffering.append d.buffering chunk.val).1, .last⟩) .last = step at hstep hparsed
  obtain ⟨post, htrace, hpost⟩ := trace_exchangeEvents pf hstep
  have hbytes : step.2.parsed = some (d.received pf ++ chunk.val) :=
    hparsed.trans (congrArg some (hcap.fits _ _ hroom).1)
  rw [htrace]
  exact ⟨[], _, post, rfl, List.forall_mem_nil _, hc, hbytes, hpost⟩

end Chunk

/-! ## The loop -/

/-- What the client and the device have done when a number of commands has been sent, starting in
some world: if all bytes fit the buffer, everything is sent and parsed once and as a whole, and
otherwise the transfer ends with the first chunk for which there is no room. -/
structure Transferred (capacity : ℕ) (bytes last : Bytes) (commands : List Apdu) (w : World σ)
    (run : Reply × World σ) (count : ℕ) : Prop where
  le : count ≤ commands.length
  sent : run.2.sent = w.sent + count
  dev : run.2.dev = (device pf).run w.dev
    (commandEvents pf surroundings w.sent w.dev (commands.take count))
  parsed : bytes.length ≤ capacity → count = commands.length ∧ Parsed bytes last
    ((device pf).trace w.dev (commandEvents pf surroundings w.sent w.dev (commands.take count)))
  cutOff : capacity < bytes.length → run.1.returnCode = apduCodeOutputBufferTooSmall ∧ CutOff
    ((device pf).trace w.dev (commandEvents pf surroundings w.sent w.dev (commands.take count)))

variable {pf surroundings} in
/-- A command that is answered with success comes before the others.

**Proof sketch.** The part of the statement for this command is put in front of those for the
others. -/
theorem Transferred.cons {capacity : ℕ} {bytes last : Bytes} {a : Apdu} {commands : List Apdu}
    {w : World σ} {run : Reply × World σ} {count : ℕ} {t : Step σ} (ht : t.Stored)
    (htrace : (device pf).trace w.dev (exchangeEvents pf (surroundings w.sent) a w.dev) = [t])
    (h : Transferred pf surroundings capacity bytes last commands
      (w.after (exchange pf (surroundings w.sent) a w.dev)) run count) :
    Transferred pf surroundings capacity bytes last (a :: commands) w run (count + 1) := by
  obtain ⟨hle, hsent, hdev, hparsed, hcutOff⟩ := h
  refine ⟨Nat.succ_le_succ hle, hsent.trans (Nat.add_right_comm _ _ _), ?_, fun hfits => ?_,
    fun hlong => ?_⟩
  · rw [List.take_succ_cons, run_commandEvents_cons]
    exact hdev
  · obtain ⟨hall, htr⟩ := hparsed hfits
    rw [List.take_succ_cons, trace_commandEvents_cons, htrace, hall]
    rw [hall] at htr
    exact ⟨rfl, htr.cons ht⟩
  · obtain ⟨hcode, htr⟩ := hcutOff hlong
    rw [List.take_succ_cons, trace_commandEvents_cons, htrace]
    exact ⟨hcode, htr.cons ht⟩

/-- A single command is one exchange. -/
theorem commandEvents_singleton (k : ℕ) (d : Device σ) (a : Apdu) :
    commandEvents pf surroundings k d [a] = exchangeEvents pf (surroundings k) a d :=
  List.append_nil _

variable {pf surroundings} in
/-- The chunk for which there is no room is the last one sent. -/
theorem transferred_full {capacity : ℕ} {bytes last : Bytes} {a : Apdu} (commands : List Apdu)
    {w : World σ} (hlong : capacity < bytes.length) {t : Step σ} (ht : t.TooLong)
    (hx : statusOf (exchange pf (surroundings w.sent) a w.dev).response =
      apduCodeOutputBufferTooSmall)
    (htrace : (device pf).trace w.dev (exchangeEvents pf (surroundings w.sent) a w.dev) = [t]) :
    Transferred pf surroundings capacity bytes last (a :: commands) w
      (chunkReply (exchange pf (surroundings w.sent) a w.dev),
        w.after (exchange pf (surroundings w.sent) a w.dev)) 1 := by
  have htake : (a :: commands).take 1 = [a] := rfl
  refine ⟨Nat.succ_le_succ (Nat.zero_le _), rfl, ?_, fun hfits => absurd hfits (by omega),
    fun _ => ⟨(returnCode_chunkReply _).trans hx, ?_⟩⟩
  · rw [htake, commandEvents_singleton]
    exact dev_exchange pf _ _ _
  · rw [htake, commandEvents_singleton, htrace]
    exact ⟨[], t, rfl, List.forall_mem_nil _, ht⟩

section Loop

variable {capacity : ℕ} (hcap : pf.buffering.HasCapacity capacity)
  (hunlocked : ∀ k, (surroundings k).refusal = none)

include hcap hunlocked in
/-- A round of the loop with a chunk for which there is no room.

**Proof sketch.** The device answers that there is no room, and the loop ends with this answer. -/
theorem sendChunks_full {p1 : UInt8} (hp1 : p1 = p1Add ∨ p1 = p1Last) {w : World σ}
    {received : Bytes} (hw : w.dev.Receiving pf received) (chunk : Chunk) {i n : ℕ}
    (hx : ∀ hlen : chunk.val.length < 256, exchangeChunk pf surroundings w i n hlen =
      exchange pf (surroundings w.sent) (signCommand p1 chunk) w.dev)
    (hreceived : received.length ≤ capacity)
    (hfull : capacity < received.length + chunk.val.length) (rest : List Bytes)
    (commands : List Apdu) (last : Bytes) (result : Reply) :
    Transferred pf surroundings capacity (received ++ chunk.val ++ rest.flatten) last
      (signCommand p1 chunk :: commands) w
      ((sendChunks pf surroundings n i (chunk.val :: rest) result).run w) 1 := by
  obtain ⟨hinit, hopen, rfl⟩ := hw
  have hlen : chunk.val.length < 256 := lt_of_le_of_lt chunk.property (by decide)
  have hrun := run_sendChunks_cons pf surroundings w (i := i) (n := n) hlen rest result
  obtain ⟨d', hanswer, t, ht, htrace⟩ :=
    transfer_full pf hcap ⟨hunlocked _, hinit⟩ chunk hp1 hopen hreceived hfull
  have hstatus : statusOf (exchange pf (surroundings w.sent) (signCommand p1 chunk)
      w.dev).response = apduCodeOutputBufferTooSmall := by
    rw [hanswer]
    exact statusOf_append [] _
  have hlong : capacity < (w.dev.received pf ++ chunk.val ++ rest.flatten).length := by
    rw [List.length_append, List.length_append]
    omega
  dsimp only at hrun
  rw [hx hlen, if_pos (by rw [hstatus]; decide)] at hrun
  rw [hrun]
  exact transferred_full commands hlong ht hstatus htrace

include hcap hunlocked in
/-- A round of the loop with a chunk that is stored.

**Proof sketch.** The device answers with success, so the loop goes on with the next chunk. -/
theorem sendChunks_stored {w : World σ} {received : Bytes} (hw : w.dev.Receiving pf received)
    (chunk : Chunk) {i n : ℕ} (hi : 0 < i) (hadd : 1 + i ≠ n)
    (hroom : received.length + chunk.val.length ≤ capacity) (rest : List Bytes) (result : Reply) :
    let x := exchange pf (surroundings w.sent) (signCommand p1Add chunk) w.dev
    (sendChunks pf surroundings n i (chunk.val :: rest) result).run w =
        (sendChunks pf surroundings n (i + 1) rest (chunkReply x)).run (w.after x) ∧
      (w.after x).dev.Receiving pf (received ++ chunk.val) ∧ ∃ t : Step σ, t.Stored ∧
        (device pf).trace w.dev
          (exchangeEvents pf (surroundings w.sent) (signCommand p1Add chunk) w.dev) = [t] := by
  intro x
  obtain ⟨hinit, hopen, rfl⟩ := hw
  have hlen : chunk.val.length < 256 := lt_of_le_of_lt chunk.property (by decide)
  obtain ⟨d', hstored, hreceiving, hstep⟩ :=
    transfer_add pf hcap ⟨hunlocked _, hinit⟩ chunk hopen hroom
  have hdev : (w.after x).dev = d' := congrArg Exchanged.dev hstored
  have hstatus : statusOf x.response = apduCodeOk := by
    rw [show x.response = _ from congrArg Exchanged.response hstored]
    exact statusOf_ok []
  refine ⟨?_, hdev ▸ hreceiving, hstep⟩
  refine (run_sendChunks_cons pf surroundings w hlen _ result).trans ?_
  rw [exchangeChunk_add pf surroundings w hi hadd hlen]
  exact if_neg (not_not.mpr hstatus)

include hcap hunlocked in
/-- The last round of the loop, with a chunk for which there is room.

**Proof sketch.** The chunk is sent as `LAST`, and the loop ends with its answer whatever this is.
-/
theorem sendChunks_last {w : World σ} {received : Bytes} (hw : w.dev.Receiving pf received)
    (last : Chunk) {i n : ℕ} (hi : 0 < i) (hlast : 1 + i = n)
    (hroom : received.length + last.val.length ≤ capacity) (result : Reply) :
    Transferred pf surroundings capacity (received ++ last.val) last.val
      [signCommand p1Last last] w
      ((sendChunks pf surroundings n i [last.val] result).run w) 1 := by
  obtain ⟨hinit, hopen, rfl⟩ := hw
  have hlen : last.val.length < 256 := lt_of_le_of_lt last.property (by decide)
  have hrun : (sendChunks pf surroundings n i [last.val] result).run w =
      (chunkReply (exchange pf (surroundings w.sent) (signCommand p1Last last) w.dev),
        w.after (exchange pf (surroundings w.sent) (signCommand p1Last last) w.dev)) := by
    refine (run_sendChunks_cons pf surroundings w hlen [] result).trans ?_
    rw [exchangeChunk_last pf surroundings w hi hlast hlen]
    split_ifs <;> rfl
  have htake : [signCommand p1Last last].take 1 = [signCommand p1Last last] := rfl
  rw [hrun]
  refine ⟨le_rfl, rfl, ?_, fun _ => ⟨rfl, ?_⟩, fun hlong => ?_⟩
  · rw [htake, commandEvents_singleton]
    exact dev_exchange pf _ _ _
  · rw [htake, commandEvents_singleton]
    exact transfer_last pf hcap ⟨hunlocked _, hinit⟩ last hopen hroom
  · rw [List.length_append] at hlong
    omega

include hcap hunlocked in
/-- **The loop** of the client, on a device that goes on with an upload.

**Proof sketch.** Induction on the chunks sent as `ADD`: each is stored, and the rest of the loop
starts on a device that has received one chunk more, or there is no room for it. -/
theorem sendChunks_transfer (adds : List Chunk) (last : Chunk) {i n : ℕ} (hi : 0 < i)
    (hn : i + (adds.length + 1) = n) {w : World σ} {received : Bytes}
    (hw : w.dev.Receiving pf received) (hreceived : received.length ≤ capacity) (result : Reply) :
    let chunks := (adds ++ [last]).map Subtype.val
    ∃ count, Transferred pf surroundings capacity (received ++ chunks.flatten) last.val
      (chunkCommands adds last) w ((sendChunks pf surroundings n i chunks result).run w) count := by
  induction adds generalizing i w received result with
  | nil =>
    intro chunks
    have hlast : 1 + i = n := by
      rw [← hn]
      exact Nat.add_comm _ _
    have hbytes : received ++ chunks.flatten = received ++ last.val :=
      congrArg _ (List.append_nil _)
    refine ⟨1, ?_⟩
    rw [hbytes]
    by_cases hroom : received.length + last.val.length ≤ capacity
    · exact sendChunks_last pf surroundings hcap hunlocked hw last hi hlast hroom result
    · have hfull := sendChunks_full pf surroundings hcap hunlocked (.inr rfl) hw last
        (fun hlen => exchangeChunk_last pf surroundings w hi hlast hlen) hreceived
        (Nat.not_le.mp hroom) [] [] last.val result
      rwa [List.flatten_nil, List.append_nil] at hfull
  | cons chunk adds ih =>
    intro chunks
    have hadd : 1 + i ≠ n := by
      rw [← hn, List.length_cons]
      omega
    have hbytes : received ++ chunks.flatten =
        received ++ chunk.val ++ ((adds ++ [last]).map Subtype.val).flatten :=
      (List.append_assoc _ _ _).symm
    rw [hbytes]
    by_cases hroom : received.length + chunk.val.length ≤ capacity
    · obtain ⟨hrun, hnext, t, ht, htrace⟩ := sendChunks_stored pf surroundings hcap hunlocked hw
        chunk hi hadd hroom ((adds ++ [last]).map Subtype.val) result
      obtain ⟨count, hrest⟩ := ih (Nat.succ_pos i) (by rw [← hn, List.length_cons]; omega) hnext
        (by rwa [List.length_append]) (chunkReply _)
      rw [show chunks = chunk.val :: (adds ++ [last]).map Subtype.val from rfl, hrun]
      exact ⟨count + 1, hrest.cons ht htrace⟩
    · exact ⟨1, sendChunks_full pf surroundings hcap hunlocked (.inl rfl) hw chunk
        (fun hlen => exchangeChunk_add pf surroundings w hi hadd hlen) hreceived
        (Nat.not_le.mp hroom) _ _ last.val result⟩

end Loop

/-! ## The whole transfer -/

/-- The chunks of a transaction.

**Proof sketch.** The chunks have at most 250 bytes each, and there is at least one. -/
theorem exists_chunks (stringToBuffer : String → Bytes) (tx : ClientTx) :
    ∃ (adds : List Chunk) (last : Chunk),
      (adds ++ [last]).map Subtype.val = slices chunkSize (encodeTx stringToBuffer tx) := by
  have hle : ∀ x ∈ slices chunkSize (encodeTx stringToBuffer tx), x.length ≤ chunkSize := by
    intro x hx
    obtain ⟨i, -, rfl⟩ := List.mem_map.mp hx
    exact length_slice_le _ _ _
  let chunks : List Chunk := (slices chunkSize (encodeTx stringToBuffer tx)).attachWith _ hle
  have hval : chunks.map Subtype.val = slices chunkSize (encodeTx stringToBuffer tx) :=
    List.attachWith_map_subtype_val hle
  have hne : chunks ≠ [] := by
    intro hnil
    rw [hnil] at hval
    exact (slices_encodeTx stringToBuffer tx).1 hval.symm
  refine ⟨chunks.dropLast, chunks.getLast hne, ?_⟩
  rw [List.dropLast_append_getLast hne, hval]

/-- **Client and device agree** on every transaction, whatever has happened to the device before:
the client sends `INIT`, `ADD`s and one `LAST`, whose payloads of at most `CHUNK_SIZE` bytes make
up the encoding. If this fits the buffer, all of them are sent, and `tx_parse` is called once, at
`LAST`, on the encoding; if not, a chunk is answered with `APDU_CODE_OUTPUT_BUFFER_TOO_SMALL`, it is
the last one sent, `tx_parse` is not called, and no review is shown.

**Proof sketch.** `INIT` empties the buffer. From there on `sendChunks_transfer` follows the loop,
and the exchange of `INIT` is put in front with `Transferred.cons`. -/
theorem transfer_agrees (stringToBuffer : String → Bytes) (tx : ClientTx)
    (hlaw : pf.buffering.Lawful) {capacity : ℕ} (hcap : pf.buffering.HasCapacity capacity)
    (hunlocked : ∀ k, (surroundings k).refusal = none) (w : World σ)
    (hinit : w.dev.store.deviceInitialized = true) :
    ∃ (adds : List Chunk) (last : Chunk),
      prepareChunks stringToBuffer tx = initChunk.val :: (adds ++ [last]).map Subtype.val ∧
      ((adds ++ [last]).map Subtype.val).flatten = encodeTx stringToBuffer tx ∧
      ∃ count, Transferred pf surroundings capacity (encodeTx stringToBuffer tx) last.val
        (uploadCommands adds last) w
        ((signGetDigest pf surroundings (prepareChunks stringToBuffer tx)).run w) count := by
  obtain ⟨adds, last, hchunks⟩ := exists_chunks stringToBuffer tx
  have hflat : ((adds ++ [last]).map Subtype.val).flatten = encodeTx stringToBuffer tx := by
    rw [hchunks, flatten_slices (by decide)]
  refine ⟨adds, last, by rw [hchunks]; rfl, hflat, ?_⟩
  have hproc : Processed (surroundings w.sent) w.dev := ⟨hunlocked _, hinit⟩
  obtain ⟨d', hx, hreceiving, t, ht, htrace⟩ := transfer_init pf hproc hlaw
  obtain ⟨result, hrun⟩ := run_signGetDigest_init pf surroundings stringToBuffer tx w
  have hcount : 1 + (adds.length + 1) =
      1 + (slices chunkSize (encodeTx stringToBuffer tx)).length := by
    rw [← hchunks, List.length_map, List.length_append, List.length_singleton]
  have hafter : (w.after (exchange pf (surroundings w.sent) (signCommand p1Init initChunk)
      w.dev)).dev.Receiving pf [] := by
    rw [hx]
    exact hreceiving
  obtain ⟨count, hloop⟩ := sendChunks_transfer pf surroundings hcap hunlocked adds last Nat.one_pos
    hcount hafter (Nat.zero_le _) result
  rw [hchunks, List.nil_append, flatten_slices (by decide)] at hloop
  refine ⟨count + 1, ?_⟩
  rw [hrun]
  exact hloop.cons ht htrace

end Transfer

/-- The sample buffer has the capacity of its flash half. -/
theorem sampleBuffering_hasCapacity : sampleBuffering.HasCapacity 16384 where
  fits s x h := by
    have hroom : s.length + x.length ≤ 16384 := h
    simp [sampleBuffering, hroom]
  full s x h := by
    have hfull : 16384 < s.length + x.length := h
    simp [sampleBuffering, Nat.not_le.mpr hfull]

/-- All chunks of the sample transaction are sent, to a device with an upload that is still open.

**Proof sketch.** The transaction fits, so by the theorem all commands are sent. -/
theorem transfer_agrees_sample :
    ((signGetDigest hashingPlatform unlocked (prepareChunks utf8 sampleClientTx)).run
      ⟨leftoverDevice, 0, []⟩).2.sent = (prepareChunks utf8 sampleClientTx).length := by
  have hfits : (encodeTx utf8 sampleClientTx).length ≤ 16384 := by
    rw [encodeTx_eq, fields_sampleClientTx]
    decide +kernel
  obtain ⟨w, hw⟩ : ∃ w : World Bytes, w = ⟨leftoverDevice, 0, []⟩ := ⟨_, rfl⟩
  have hinit : w.dev.store.deviceInitialized = true := by
    rw [hw]
    dsimp only
    exact leftoverDevice_ready.deviceInitialized
  obtain ⟨adds, last, hchunks, -, count, htransfer⟩ := transfer_agrees hashingPlatform unlocked utf8
    sampleClientTx sampleBuffering_lawful sampleBuffering_hasCapacity (fun _ => rfl) w hinit
  have hsent := htransfer.sent
  rw [(htransfer.parsed hfits).1, show w.sent = 0 by rw [hw], Nat.zero_add] at hsent
  rw [← hw, hsent, hchunks, uploadCommands, chunkCommands]
  simp

end LedgerArweave
