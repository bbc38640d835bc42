import LedgerArweave.Parser.Read

set_option relaxedAutoImplicit false
set_option autoImplicit false

/-!
# The parser refines the wire format

Every reading function of the parser is related to the codec of the part it reads: where the
codec decodes a value from the bytes at the offset, the function succeeds, advances the offset
by the length of the encoding and stores where the value lies; where the codec rejects, the
function returns an error. In both cases it reads no byte outside the buffer and the 16-bit
offset does not wrap. The relation is closed under sequencing, so it carries over to `_read`
and the codec of whole transactions.

## Main definitions

* `Cursor` — the context stands at an offset of a buffer that is mapped in memory.
* `Reads` — a parser function refines a codec.
* `layout` — where `_read` leaves the elements of a transaction.

## Main results

* `Reads.seq`, `reads_element`, `reads_readTagList` — the relation for the parts.
* `reads_read` — `_read` refines the codec of transactions.
-/

namespace LedgerArweave

open Fallible (exec_bind exec_bind_ok exec_bind_error exec_get)

/-! ## The cursor -/

/-- The state after the offset has advanced by `k`, without truncation, and the object has
changed by `f`. -/
def ParserState.move (s : ParserState) (k : ℕ) (f : ParserTx → ParserTx) : ParserState :=
  ⟨{ s.ctx with offset := s.ctx.offset + k }, f s.tx, s.wrapped⟩

/-- Moving on updates the object. -/
@[simp] theorem ParserState.move_tx (s : ParserState) (k : ℕ) (f : ParserTx → ParserTx) :
    (s.move k f).tx = f s.tx := rfl

/-- Moves add up. -/
@[simp] theorem ParserState.move_move (s : ParserState) (k l : ℕ) (f g : ParserTx → ParserTx) :
    (s.move k f).move l g = s.move (k + l) (g ∘ f) := by
  simp [ParserState.move, Nat.add_assoc]

/-- An error leaves the state. -/
@[simp] theorem exec_parserFail {α : Type} (e : ParserError) (s : ParserState) :
    (parserFail e : ParserM α).exec s = (.error (.error e), s) := rfl

/-- An update of the object is a move of no bytes. -/
theorem exec_modifyTx (f : ParserTx → ParserTx) (s : ParserState) :
    (modifyTx f).exec s = (.ok (), s.move 0 f) := rfl

/-- The context stands at offset `o` of the buffer `b`, which is mapped in memory and short
enough for 16-bit offsets. -/
structure Cursor (m : Memory) (b : Bytes) (o : ℕ) (c : ParserContext) : Prop where
  buffer : c.buffer = m.base
  bufferLen : c.bufferLen = b.length
  offset : c.offset = o
  offset_le : o ≤ b.length
  window : b <+: m.bytes
  small : b.length < 65536

section Cursor

variable {m : Memory} {b : Bytes} {o : ℕ} {s : ParserState}

/-- The bytes of the buffer can be read. -/
theorem Cursor.read {c : ParserContext} (h : Cursor m b o c) {i : ℕ} (hi : o + i < b.length) :
    m.read (c.buffer + c.offset + i) = some b[o + i] := by
  obtain ⟨rest, hrest⟩ := h.window
  have hp : c.buffer + c.offset + i - m.base = o + i := by rw [h.buffer, h.offset]; omega
  rw [Memory.read, if_pos (by rw [h.buffer]; omega), hp, ← hrest,
    List.getElem?_append_left hi, List.getElem?_eq_getElem hi]

/-- Advancing within the buffer moves the cursor. -/
theorem Cursor.move (h : Cursor m b o s.ctx) {k : ℕ} (hk : o + k ≤ b.length)
    (f : ParserTx → ParserTx) : Cursor m b (o + k) (s.move k f).ctx :=
  ⟨h.buffer, h.bufferLen, by simp [ParserState.move, h.offset], hk, h.window, h.small⟩

/-- The state after an advance that does not leave the buffer: no truncation happens. -/
theorem Cursor.exec_ctxCheckAndAdvance (h : Cursor m b o s.ctx) {k : ℕ}
    (hk : o + k ≤ b.length) : (ctxCheckAndAdvance k).exec s = (.ok (), s.move k id) := by
  have hsmall := h.small
  have hnot : ¬ s.ctx.offset + k > s.ctx.bufferLen := by rw [h.offset, h.bufferLen]; omega
  have hmod : u16 (s.ctx.offset + k) = s.ctx.offset + k := by
    rw [u16, h.offset]
    exact Nat.mod_eq_of_lt (by omega)
  have hwrap : ¬ 65536 ≤ s.ctx.offset + k := by rw [h.offset]; omega
  simp [ctxCheckAndAdvance, ctxCheckAvail, exec_bind, hnot, hmod, hwrap, ParserState.move]

/-- The availability check succeeds inside the buffer. -/
theorem Cursor.exec_ctxCheckAvail (h : Cursor m b o s.ctx) {k : ℕ} (hk : o + k ≤ b.length) :
    (ctxCheckAvail k).exec s = (.ok (), s) := by
  have hnot : ¬ s.ctx.offset + k > s.ctx.bufferLen := by rw [h.offset, h.bufferLen]; omega
  simp [ctxCheckAvail, exec_bind, hnot]

/-- The availability check fails past the end of the buffer. -/
theorem Cursor.exec_ctxCheckAvail_error (h : Cursor m b o s.ctx) {k : ℕ}
    (hk : b.length < o + k) :
    (ctxCheckAvail k).exec s = (.error (.error .unexpectedBufferEnd), s) := by
  have hgt : s.ctx.offset + k > s.ctx.bufferLen := by rw [h.offset, h.bufferLen]; omega
  simp [ctxCheckAvail, exec_bind, hgt]

/-- Reading a byte of the buffer. -/
theorem Cursor.exec_readByte (h : Cursor m b o s.ctx) {i : ℕ} (hi : o + i < b.length) :
    (readByte m (s.ctx.buffer + s.ctx.offset + i)).exec s = (.ok b[o + i], s) := by
  rw [readByte, h.read hi]
  rfl

end Cursor

/-! ## Two-byte numbers -/

section ReadU16

variable {m : Memory} {b : Bytes} {o : ℕ} {s : ParserState}

/-- Two bytes and more decode to a number. -/
theorem be16_decode_of_length {bs : Bytes} (h : 2 ≤ bs.length) :
    be16.decode bs = some (bs[0].toNat * 256 + bs[1].toNat, bs.drop 2) := by
  rcases bs with _ | ⟨hi, _ | ⟨lo, bs⟩⟩
  · simp at h
  · simp at h
  · rfl

/-- Fewer than two bytes do not decode. -/
theorem be16_decode_of_length_lt {bs : Bytes} (h : bs.length < 2) : be16.decode bs = none := by
  rcases bs with _ | ⟨hi, _ | ⟨lo, bs⟩⟩
  · rfl
  · rfl
  · simp only [List.length_cons] at h
    omega

/-- Where a number can be decoded at the offset, `parser_readU16` reads it.

**Proof sketch.** Two bytes are there, so the check passes; the product and the sum of a byte times
256 and a byte stay below `2 ^ 16`. -/
theorem parserReadU16_accept (h : Cursor m b o s.ctx) {n : ℕ} {rest : Bytes}
    (hd : be16.decode (b.drop o) = some (n, rest)) :
    (parserReadU16 m).exec s = (.ok n, s.move 2 id) ∧ o + 2 ≤ b.length ∧
      rest = b.drop (o + 2) := by
  have hlen : 2 ≤ (b.drop o).length := by
    by_contra hlt
    rw [be16_decode_of_length_lt (by omega)] at hd
    simp at hd
  rw [be16_decode_of_length hlen] at hd
  simp only [List.getElem_drop, List.drop_drop, Option.some.injEq, Prod.mk.injEq] at hd
  obtain ⟨rfl, rfl⟩ := hd
  rw [List.length_drop] at hlen
  have hhi := h.exec_readByte (i := 0) (by omega)
  have hlo := h.exec_readByte (i := 1) (by omega)
  have h₁ := (b[o + 0]).toNat_lt
  have h₂ := (b[o + 1]).toNat_lt
  have hval : u16 (u16 ((b[o + 0]).toNat * 256) + (b[o + 1]).toNat) =
      (b[o + 0]).toNat * 256 + (b[o + 1]).toNat := by
    simp only [u16]
    omega
  refine ⟨?_, by omega, rfl⟩
  rw [parserReadU16, exec_bind_ok (h.exec_ctxCheckAvail (by omega)), exec_bind_ok (exec_get s)]
  dsimp only
  rw [Nat.add_zero] at hhi
  rw [exec_bind_ok hhi, exec_bind_ok hlo, exec_bind_ok (h.exec_ctxCheckAndAdvance (by omega)),
    hval]
  rfl

/-- Where no number can be decoded at the offset, `parser_readU16` returns an error. -/
theorem parserReadU16_reject (h : Cursor m b o s.ctx) (hd : be16.decode (b.drop o) = none) :
    (parserReadU16 m).exec s = (.error (.error .unexpectedBufferEnd), s) := by
  have hlen : (b.drop o).length < 2 := by
    by_contra hge
    rw [be16_decode_of_length (by omega)] at hd
    simp at hd
  rw [List.length_drop] at hlen
  rw [parserReadU16, exec_bind_error (h.exec_ctxCheckAvail_error (by omega))]

end ReadU16

/-! ## Refinement of a codec -/

/-- The parser function `p` refines the codec `c` on the buffer `b`: it accepts exactly where
the codec does, advances by the length of the encoding and changes `parser_tx_obj` by `store`,
which is told the offset and the value. It neither faults nor wraps the offset. -/
structure Reads {α : Type} (m : Memory) (b : Bytes) (p : ParserM Unit) (c : Codec UInt8 α)
    (store : ℕ → α → ParserTx → ParserTx) : Prop where
  accept : ∀ s o x rest, Cursor m b o s.ctx → c.decode (b.drop o) = some (x, rest) →
    p.exec s = (.ok (), s.move (c.encode x).length (store o x))
  reject : ∀ s o, Cursor m b o s.ctx → c.decode (b.drop o) = none →
    ∃ e s', p.exec s = (.error (.error e), s') ∧ s'.wrapped = s.wrapped ∧
      ∃ o', Cursor m b o' s'.ctx

section Reads

variable {α γ : Type} {m : Memory} {b : Bytes}

/-- After a decoded value the offset is still inside the buffer, and the rest of the buffer is
the rest of the decoding. -/
theorem decode_drop {c : Codec UInt8 α} {o : ℕ} {x : α} {rest : Bytes} (ho : o ≤ b.length)
    (h : c.decode (b.drop o) = some (x, rest)) :
    o + (c.encode x).length ≤ b.length ∧ b.drop (o + (c.encode x).length) = rest := by
  have hlen := c.length_of_decode h
  obtain ⟨-, hsplit⟩ := c.decode_sound _ _ _ h
  rw [List.length_drop] at hlen
  refine ⟨by omega, ?_⟩
  rw [← List.drop_drop, hsplit, List.drop_left]

/-- **Sequencing**: one function after another refines one codec after another.

**Proof sketch.** Behind what the first codec decodes, the cursor stands where the second one
starts. If either does not decode, the function that refines it fails. -/
theorem Reads.seq {p q : ParserM Unit} {c : Codec UInt8 α} {d : Codec UInt8 γ}
    {st : ℕ → α → ParserTx → ParserTx} {st' : ℕ → γ → ParserTx → ParserTx}
    (hp : Reads m b p c st) (hq : Reads m b q d st') :
    Reads m b (do p; q) (c.prod d)
      (fun o x => st' (o + (c.encode x.1).length) x.2 ∘ st o x.1) where
  accept := by
    rintro s o ⟨x, y⟩ rest hs hd
    simp only [Codec.prod, Option.bind_eq_some_iff, Option.map_eq_some_iff, Prod.exists,
      Prod.mk.injEq] at hd
    obtain ⟨x', r, hx, y', r', hy, ⟨rfl, rfl⟩, rfl⟩ := hd
    obtain ⟨hle, hdrop⟩ := decode_drop hs.offset_le hx
    rw [exec_bind_ok (hp.accept s o x' r hs hx),
      hq.accept _ _ y' r' (hs.move hle _) (by rw [hdrop, hy])]
    simp [Codec.prod]
  reject := by
    intro s o hs hd
    rcases hx : c.decode (b.drop o) with _ | ⟨x, r⟩
    · obtain ⟨e, s', he, hw, hc⟩ := hp.reject s o hs hx
      exact ⟨e, s', exec_bind_error he _, hw, hc⟩
    · obtain ⟨hle, hdrop⟩ := decode_drop hs.offset_le hx
      have hy : d.decode (b.drop (o + (c.encode x).length)) = none := by
        simp only [Codec.prod, hx, Option.bind_some, Option.map_eq_none_iff] at hd
        rw [hdrop, hd]
      obtain ⟨e, s', he, hw, hc⟩ := hq.reject _ _ (hs.move hle (st o x)) hy
      refine ⟨e, s', ?_, hw, hc⟩
      rw [exec_bind_ok (hp.accept s o x r hs hx), he]

/-- A check after a function refines the side condition on its codec, if it decides the
condition on every value just stored.

**Proof sketch.** On a value that passes, the check does nothing. On one that does not, it fails,
and the restricted codec does not decode. -/
theorem Reads.check {p q : ParserM Unit} {c : Codec UInt8 α} {st : ℕ → α → ParserTx → ParserTx}
    (hp : Reads m b p c st) (P : α → Prop) [DecidablePred P] (e : ParserError)
    (hq : ∀ (s : ParserState) (o : ℕ) (x : α) (rest : Bytes), Cursor m b o s.ctx →
      c.decode (b.drop o) = some (x, rest) →
      q.exec (s.move (c.encode x).length (st o x)) =
        (if P x then .ok () else .error (.error e), s.move (c.encode x).length (st o x))) :
    Reads m b (do p; q) (c.restrict P) st where
  accept := by
    intro s o x rest hs hd
    simp only [Codec.restrict, Option.filter_eq_some_iff, decide_eq_true_eq] at hd
    rw [exec_bind_ok (hp.accept s o x rest hs hd.1), hq s o x rest hs hd.1, if_pos hd.2]
    rfl
  reject := by
    intro s o hs hd
    rcases hx : c.decode (b.drop o) with _ | ⟨x, r⟩
    · obtain ⟨e, s', he, hw, hc⟩ := hp.reject s o hs hx
      exact ⟨e, s', exec_bind_error he _, hw, hc⟩
    · have hP : ¬ P x := by
        intro hP
        simp [Codec.restrict, hx, hP] at hd
      have hmove := hs.move (decode_drop hs.offset_le hx).1 (st o x)
      refine ⟨e, s.move (c.encode x).length (st o x), ?_, rfl, _, hmove⟩
      rw [exec_bind_ok (hp.accept s o x r hs hx), hq s o x r hs hx, if_neg hP]

/-- Values of an equivalent type are stored through the equivalence. -/
theorem Reads.map {p : ParserM Unit} {c : Codec UInt8 α} {st : ℕ → α → ParserTx → ParserTx}
    (hp : Reads m b p c st) (e : α ≃ γ) :
    Reads m b p (c.map e) (fun o x => st o (e.symm x)) where
  accept := by
    intro s o x rest hs hd
    simp only [Codec.map, Option.map_eq_some_iff, Prod.mk.injEq, Prod.exists] at hd
    obtain ⟨a, r, ha, rfl, rfl⟩ := hd
    simpa [Codec.map] using hp.accept s o a r hs ha
  reject := by
    intro s o hs hd
    simp only [Codec.map, Option.map_eq_none_iff] at hd
    exact hp.reject s o hs hd

end Reads

/-! ## Elements and tags -/

/-- Where an element encoded at offset `o` is recorded. -/
def elementAt (m : Memory) (o : ℕ) (x : Bytes) : ParserElement := ⟨x.length, m.base + (o + 2)⟩

/-- An element has the length of its bytes. -/
@[simp] theorem elementAt_len (m : Memory) (o : ℕ) (x : Bytes) :
    (elementAt m o x).len = x.length := rfl

/-- An element begins behind its length prefix. -/
@[simp] theorem elementAt_ptr (m : Memory) (o : ℕ) (x : Bytes) :
    (elementAt m o x).ptr = m.base + (o + 2) := rfl

/-- Where a tag encoded at offset `o` is recorded. -/
def tagAt (m : Memory) (o : ℕ) (t : Tag) : ParserTag :=
  ⟨elementAt m o t.name, elementAt m (o + (element.encode t.name).length) t.value⟩

/-- Where the tags encoded one after the other from offset `o` are recorded, in the entries
from index `i` on. -/
def storeTags (m : Memory) : ℕ → ℕ → List Tag → (ℕ → ParserTag) → ℕ → ParserTag
  | _, _, [], ts => ts
  | o, i, t :: rest, ts =>
    storeTags m (o + (tag.encode t).length) (i + 1) rest (Function.update ts i (tagAt m o t))

/-- A pointer to an element behaves like one: two changes after each other are one change. -/
def ElementRef.Lawful (v : ElementRef) : Prop :=
  ∀ f g, v.update g ∘ v.update f = v.update (g ∘ f)

section Parts

variable {m : Memory} {b : Bytes}

/-- An element that is cut off is refused when its length has been stored. -/
theorem exec_parserReadElement_short {o n : ℕ} {rest : Bytes} {s : ParserState}
    (hs : Cursor m b o s.ctx) (hn : be16.decode (b.drop o) = some (n, rest))
    (hshort : rest.length < n) (v : ElementRef) :
    (parserReadElement m v).exec s =
        (.error (.error .unexpectedBufferEnd), s.move 2 (v.update fun x => { x with len := n })) ∧
      o + 2 ≤ b.length := by
  obtain ⟨hread, h2, rfl⟩ := parserReadU16_accept hs hn
  rw [List.length_drop] at hshort
  have hs' : ∀ f, Cursor m b (o + 2) (s.move 2 f).ctx := fun f => hs.move h2 f
  refine ⟨?_, h2⟩
  rw [parserReadElement, exec_bind_ok hread, exec_bind_ok (exec_modifyTx _ _),
    ParserState.move_move, exec_bind_error ((hs' _).exec_ctxCheckAvail_error (by omega))]
  rfl

/-- **`parser_readElement` refines the codec of elements.**

**Proof sketch.** The length is read by `parserReadU16_accept`. If the codec decodes, that many
bytes are left and both checks of the length succeed; the element has been assigned its length
and then its pointer. If it does not, either the length is cut off or fewer bytes are left than
it says, and the corresponding check fails. -/
theorem reads_element (v : ElementRef) (hv : v.Lawful) :
    Reads m b (parserReadElement m v) element
      (fun o x => v.update fun _ => elementAt m o x) where
  accept := by
    intro s o x rest hs hd
    simp only [element, Codec.sized, Option.bind_eq_some_iff, Prod.exists] at hd
    obtain ⟨n, r, hn, hr⟩ := hd
    split_ifs at hr with hle
    simp only [Option.some.injEq, Prod.mk.injEq] at hr
    obtain ⟨rfl, rfl⟩ := hr
    obtain ⟨hread, h2, rfl⟩ := parserReadU16_accept hs hn
    have hlen : ((b.drop (o + 2)).take n).length = n := List.length_take_of_le hle
    rw [List.length_drop] at hle
    -- the cursor after the length, whatever has been stored in the meantime
    have hs' : ∀ f, Cursor m b (o + 2) (s.move 2 f).ctx := fun f => hs.move h2 f
    have hptr : ∀ f, (s.move 2 f).ctx.buffer + (s.move 2 f).ctx.offset = m.base + (o + 2) := by
      intro f
      simp [ParserState.move, hs.buffer, hs.offset]
    rw [parserReadElement, exec_bind_ok hread, exec_bind_ok (exec_modifyTx _ _),
      ParserState.move_move, exec_bind_ok ((hs' _).exec_ctxCheckAvail (by omega)),
      exec_bind_ok (exec_get _)]
    dsimp only
    rw [exec_bind_ok (exec_modifyTx _ _), ParserState.move_move,
      (hs' _).exec_ctxCheckAndAdvance (by omega), ParserState.move_move, hptr]
    have hstore : (v.update fun x => { x with ptr := m.base + (o + 2) }) ∘
        (v.update fun x => { x with len := n }) =
        v.update fun _ => ⟨n, m.base + (o + 2)⟩ := hv _ _
    simp only [Function.id_comp, Function.comp_id, hstore, length_element_encode, hlen, elementAt]
    rw [Nat.add_zero, Nat.add_zero, Nat.add_comm 2 n]
  reject := by
    intro s o hs hd
    rcases hn : be16.decode (b.drop o) with _ | ⟨n, r⟩
    · refine ⟨.unexpectedBufferEnd, s, ?_, rfl, o, hs⟩
      rw [parserReadElement, exec_bind_error (parserReadU16_reject hs hn)]
    · have hshort : r.length < n := by
        by_contra hle
        simp only [element, Codec.sized, hn, Option.bind_some, if_pos (Nat.le_of_not_lt hle),
          reduceCtorEq] at hd
      obtain ⟨hexec, h2⟩ := exec_parserReadElement_short hs hn hshort v
      exact ⟨.unexpectedBufferEnd, _, hexec, rfl, _, hs.move h2 _⟩

/-- The pointers to the elements of the object are lawful. -/
theorem ElementRef.lawful :
    format.Lawful ∧ owner.Lawful ∧ target.Lawful ∧ quantity.Lawful ∧ reward.Lawful ∧
      lastTx.Lawful ∧ dataSize.Lawful ∧ dataRoot.Lawful :=
  ⟨fun _ _ => rfl, fun _ _ => rfl, fun _ _ => rfl, fun _ _ => rfl, fun _ _ => rfl,
    fun _ _ => rfl, fun _ _ => rfl, fun _ _ => rfl⟩

/-- The name of a tag is a place for an element. -/
theorem ElementRef.tagKey_lawful (i : ℕ) : (tagKey i).Lawful := by
  intro f g
  funext v
  simp [tagKey]

/-- The value of a tag is a place for an element. -/
theorem ElementRef.tagValue_lawful (i : ℕ) : (tagValue i).Lawful := by
  intro f g
  funext v
  simp [tagValue]

/-- `parser_readTag` refines the codec of tags. -/
theorem reads_tag (i : ℕ) :
    Reads m b (parserReadTag m i) tag
      (fun o t v => { v with tags := Function.update v.tags i (tagAt m o t) }) := by
  have hseq := ((reads_element (m := m) (b := b) _ (ElementRef.tagKey_lawful i)).seq
    (reads_element _ (ElementRef.tagValue_lawful i))).map tagEquiv
  have hstore : (fun o t (v : ParserTx) =>
      { v with tags := Function.update v.tags i (tagAt m o t) }) = fun o (t : Tag) =>
        ((ElementRef.tagValue i).update fun _ =>
            elementAt m (o + (element.encode t.name).length) t.value) ∘
          (ElementRef.tagKey i).update fun _ => elementAt m o t.name := by
    funext o t v
    simp [ElementRef.tagKey, ElementRef.tagValue, tagAt]
  rw [hstore]
  exact hseq

/-- The loop over the tags refines a sequence of tags.

**Proof sketch.** Induction on the number of tags left; each round is `reads_tag`. -/
theorem reads_readTags (k i : ℕ) :
    Reads m b (readTags m k i) (tag.many k)
      (fun o ts v => { v with tags := storeTags m o i ts v.tags }) := by
  induction k generalizing i with
  | zero =>
    constructor
    · intro s o ts rest hs hd
      simp only [Codec.many, Codec.decodeMany, Option.some.injEq, Prod.mk.injEq] at hd
      obtain ⟨rfl, -⟩ := hd
      rfl
    · intro s o hs hd
      simp [Codec.many, Codec.decodeMany] at hd
  | succ k ih =>
    have hseq := (reads_tag (m := m) (b := b) i).seq (ih (i + 1))
    constructor
    · intro s o ts rest hs hd
      simp only [Codec.many, Codec.decodeMany, Option.bind_eq_some_iff, Option.map_eq_some_iff,
        Prod.exists, Prod.mk.injEq] at hd
      obtain ⟨t, r, ht, ts', r', hts, rfl, rfl⟩ := hd
      have hacc := hseq.accept s o (t, ts') r' hs (by simp [Codec.prod, Codec.many, ht, hts])
      simpa [readTags, Codec.prod, Codec.many, storeTags, Function.comp_def] using hacc
    · intro s o hs hd
      apply hseq.reject s o hs
      rcases ht : tag.decode (b.drop o) with _ | ⟨t, r⟩
      · simp [Codec.prod, ht]
      · simpa [Codec.prod, Codec.many, Codec.decodeMany, ht] using hd

/-! ## The parts of a transaction -/

/-- The element recorded for `x` points to the bytes of `x`. -/
theorem Memory.read_elementAt {o : ℕ} {x rest : Bytes} (hw : b <+: m.bytes)
    (hd : b.drop o = element.encode x ++ rest) {i : ℕ} (hi : i < x.length) :
    m.read ((elementAt m o x).ptr + i) = some x[i] := by
  obtain ⟨tail, htail⟩ := hw
  have hlen := congrArg List.length hd
  rw [List.length_drop, List.length_append, length_element_encode] at hlen
  have hsub : m.base + (o + 2) + i - m.base = o + (2 + i) := by omega
  have hget : (element.encode x ++ rest)[2 + i]? = some x[i] := by
    rw [element_encode, List.append_assoc,
      List.getElem?_append_right (by rw [length_be16_encode]; omega), length_be16_encode,
      Nat.add_sub_cancel_left, List.getElem?_append_left hi, List.getElem?_eq_getElem hi]
  rw [Memory.read, elementAt_ptr, if_pos (by omega), hsub, ← htail,
    List.getElem?_append_left (by omega), ← List.getElem?_drop, hd, hget]

/-- The format check refines the restriction of the element to `"2"`.

**Proof sketch.** The check compares the one byte of the element with the character of the supported
format. -/
theorem reads_readFormat :
    Reads m b (readFormat m) (element.restrict fun f => f = formatTwo)
      (fun o x v => { v with format := elementAt m o x }) := by
  apply Reads.check (reads_element .format ElementRef.lawful.1) _ .unexpectedTxVersion
  intro s o x rest hs hd
  have hread := fun i => Memory.read_elementAt (i := i) hs.window (element.decode_sound _ _ _ hd).2
  have hfmt : ((ElementRef.format.update fun _ => elementAt m o x) s.tx).format =
      elementAt m o x := rfl
  rw [exec_bind_ok (exec_get _)]
  simp only [ParserState.move_tx, hfmt]
  rcases x with _ | ⟨c, _ | ⟨c', x⟩⟩
  · rfl
  · have hc : readByte m (m.base + (o + 2)) = pure c := by
      rw [readByte, show m.read (m.base + (o + 2)) = some c from hread 0 (by simp)]
    by_cases h2 : c = 0x32 <;> simp [hc, h2, formatTwo]
  · simp [exec_bind, formatTwo]

/-- The owner check refines the restriction of the element to `RSA_MODULUS_LEN` bytes. -/
theorem reads_readOwner :
    Reads m b (readOwner m) (element.restrict fun x => x.length = rsaModulusLen)
      (fun o x v => { v with owner := elementAt m o x }) := by
  apply Reads.check (reads_element .owner ElementRef.lawful.2.1) _ .unexpectedTxVersion
  intro s o x rest hs hd
  have hown : ((ElementRef.owner.update fun _ => elementAt m o x) s.tx).owner =
      elementAt m o x := rfl
  rw [exec_bind_ok (exec_get _)]
  simp only [ParserState.move_tx, hown, elementAt_len]
  by_cases hx : x.length = rsaModulusLen <;> simp [hx]

/-- The number of tags is stored, and then compared with the maximum. -/
theorem exec_readTagList {o n : ℕ} {rest : Bytes} {s : ParserState} (hs : Cursor m b o s.ctx)
    (hn : be16.decode (b.drop o) = some (n, rest)) :
    (readTagList m).exec s =
      (if n > maxNumberTags then parserFail .valueOutOfRange else readTags m n 0 :
        ParserM Unit).exec (s.move 2 fun v => { v with tagsCount := n }) := by
  rw [readTagList, exec_bind_ok (parserReadU16_accept hs hn).1, exec_bind_ok (exec_modifyTx _ _),
    ParserState.move_move]
  rfl

/-- **The tags part refines the codec of tag lists.**

**Proof sketch.** After the count `n`, a count above the maximum is refused before any tag is
read; the codec refuses such a list after reading it, if it gets that far. Otherwise the loop
reads `n` tags by `reads_readTags`, and the codec has no more to check. -/
theorem reads_readTagList :
    Reads m b (readTagList m) tagList
      (fun o ts v =>
        { v with tagsCount := ts.length, tags := storeTags m (o + 2) 0 ts v.tags }) where
  accept := by
    intro s o ts rest hs hd
    simp only [tagList, Codec.restrict, Codec.counted, Option.filter_eq_some_iff,
      Option.bind_eq_some_iff, Prod.exists, decide_eq_true_eq] at hd
    obtain ⟨⟨n, r, hn, hts⟩, hmax⟩ := hd
    obtain ⟨-, h2, rfl⟩ := parserReadU16_accept hs hn
    have hlen : ts.length = n := (tag.decodeMany_sound n _ _ _ hts).1.1
    subst hlen
    have htags := (reads_readTags (m := m) (b := b) ts.length 0).accept
      _ _ ts rest (hs.move h2 fun v => { v with tagsCount := ts.length }) hts
    rw [exec_readTagList hs hn, if_neg (by omega)]
    simpa [tagList, Codec.many, Codec.restrict, Codec.counted, Function.comp_def, Nat.add_comm]
      using htags
  reject := by
    intro s o hs hd
    rcases hn : be16.decode (b.drop o) with _ | ⟨n, r⟩
    · refine ⟨.unexpectedBufferEnd, s, ?_, rfl, o, hs⟩
      rw [readTagList, exec_bind_error (parserReadU16_reject hs hn)]
    · obtain ⟨-, h2, rfl⟩ := parserReadU16_accept hs hn
      have hs' := hs.move h2 fun v => { v with tagsCount := n }
      rw [exec_readTagList hs hn]
      by_cases hmax : n > maxNumberTags
      · rw [if_pos hmax]
        exact ⟨.valueOutOfRange, _, rfl, rfl, _, hs'⟩
      · rw [if_neg hmax]
        apply (reads_readTags (m := m) (b := b) n 0).reject _ _ hs'
        rcases hts : tag.decodeMany n (b.drop (o + 2)) with _ | ⟨ts, rest⟩
        · exact hts
        · have hlen : ts.length = n := (tag.decodeMany_sound n _ _ _ hts).1.1
          simp only [tagList, Codec.restrict, Codec.counted, hn, Option.bind_some, hts,
            Option.filter_eq_none_iff] at hd
          simp [hlen] at hd
          omega

/-! ## Whole transactions -/

/-- Where `_read` leaves the elements of a transaction encoded at offset `o`. Entries of the
tag array past the count are those of `old`. -/
def layout (m : Memory) (o : ℕ) (t : Transaction) (old : ℕ → ParserTag) : ParserTx :=
  let oOwner := o + (element.encode t.format).length
  let oTarget := oOwner + (element.encode t.owner).length
  let oQuantity := oTarget + (element.encode t.target).length
  let oReward := oQuantity + (element.encode t.quantity).length
  let oLastTx := oReward + (element.encode t.reward).length
  let oTags := oLastTx + (element.encode t.lastTx).length
  let oDataSize := oTags + (tagList.encode t.tags).length
  let oDataRoot := oDataSize + (element.encode t.dataSize).length
  { format := elementAt m o t.format
    owner := elementAt m oOwner t.owner
    target := elementAt m oTarget t.target
    quantity := elementAt m oQuantity t.quantity
    reward := elementAt m oReward t.reward
    lastTx := elementAt m oLastTx t.lastTx
    tagsCount := t.tags.length
    tags := storeTags m (oTags + 2) 0 t.tags old
    dataSize := elementAt m oDataSize t.dataSize
    dataRoot := elementAt m oDataRoot t.dataRoot }

/-- **`_read` refines the codec of transactions.**

**Proof sketch.** Functions that refine the codecs of the fields, one behind the other: `Reads.seq`.
The codec of transactions is their product up to the order of brackets. -/
theorem reads_read : Reads m b (read m) transaction (fun o t v => layout m o t v.tags) := by
  obtain ⟨-, -, hTarget, hQuantity, hReward, hLastTx, hDataSize, hDataRoot⟩ := ElementRef.lawful
  have hseq := (reads_readFormat (m := m) (b := b)).seq <| reads_readOwner.seq <|
    (reads_element .target hTarget).seq <| (reads_element .quantity hQuantity).seq <|
    (reads_element .reward hReward).seq <| (reads_element .lastTx hLastTx).seq <|
    reads_readTagList.seq <| (reads_element .dataSize hDataSize).seq <|
    reads_element .dataRoot hDataRoot
  exact hseq.map wireEquiv

end Parts

end LedgerArweave
