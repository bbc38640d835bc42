import LedgerArweave.Lib.Relational
import LedgerArweave.Parser.Unambiguous

set_option relaxedAutoImplicit false
set_option autoImplicit false

/-!
# What parsing does not depend on

Neither the address of a buffer nor what earlier parses have left in the context and in
`parser_tx_obj` influences the result of `parser_parse`: two runs on the same bytes go through the
same steps.

## Main definitions

* `Aligned` — two parsers stand at the same place of the same bytes.

## Main results

* `parserParse_independent` — the result of `parser_parse` depends on the bytes only.
* `fields_independent` — and so do the fields it finds.
-/

namespace LedgerArweave

open Fallible

/-- Two contexts stand at the same offset of two mapped buffers, and the objects are related. -/
structure Aligned (m m' : Memory) (Q : ParserTx → ParserTx → Prop) (s s' : ParserState) :
    Prop where
  buffer : s.ctx.buffer = m.base
  buffer' : s'.ctx.buffer = m'.base
  bufferLen : s.ctx.bufferLen = s'.ctx.bufferLen
  offset : s.ctx.offset = s'.ctx.offset
  tx : Q s.tx s'.tx

/-- Nothing is known of the objects. -/
def anyTx : ParserTx → ParserTx → Prop := fun _ _ => True

section Same

variable {m m' : Memory} (hbytes : m.bytes = m'.bytes) {Q P : ParserTx → ParserTx → Prop}

/-- Updates of the object that keep the relation agree. -/
theorem agree_modifyTx {f f' : ParserTx → ParserTx} (hf : ∀ v v', Q v v' → P (f v) (f' v')) :
    Agree (Aligned m m' Q) (modifyTx f) (modifyTx f') fun _ => Aligned m m' P :=
  agree_modify fun _ _ h => ⟨h.buffer, h.buffer', h.bufferLen, h.offset, hf _ _ h.tx⟩

include hbytes in
/-- The same byte is read from both buffers. -/
theorem agree_readByte {R : ParserState → ParserState → Prop} (i : ℕ) :
    Agree R (readByte m (m.base + i)) (readByte m' (m'.base + i)) fun _ => R := by
  have hread : m.read (m.base + i) = m'.read (m'.base + i) := by
    simp [Memory.read, hbytes]
  unfold readByte
  rw [hread]
  cases m'.read (m'.base + i) with
  | none => exact agree_throw _
  | some b => exact agree_pure b fun _ _ h => h

/-- Checking for bytes agrees: positions and lengths are the same. -/
theorem agree_ctxCheckAvail (size : ℕ) :
    Agree (Aligned m m' Q) (ctxCheckAvail size) (ctxCheckAvail size) fun _ => Aligned m m' Q := by
  refine agree_get_bind fun s s' h => ?_
  refine Agree.ite (by rw [h.offset, h.bufferLen]) (fun _ => agree_throw _) fun _ => ?_
  exact agree_pure () fun t t' ht => ht.1 ▸ ht.2 ▸ h

/-- Advancing agrees. -/
theorem agree_ctxCheckAndAdvance (size : ℕ) :
    Agree (Aligned m m' Q) (ctxCheckAndAdvance size) (ctxCheckAndAdvance size)
      fun _ => Aligned m m' Q := by
  refine (agree_ctxCheckAvail size).bind fun _ => agree_modify fun s s' h => ?_
  refine ⟨h.buffer, h.buffer', h.bufferLen, ?_, h.tx⟩
  dsimp only
  rw [h.offset]

include hbytes in
/-- Reading a number agrees: the same bytes are read. -/
theorem agree_parserReadU16 :
    Agree (Aligned m m' Q) (parserReadU16 m) (parserReadU16 m') fun _ => Aligned m m' Q := by
  refine (agree_ctxCheckAvail 2).bind fun _ => agree_get_bind fun s s' h => ?_
  dsimp only
  rw [h.buffer, h.buffer', h.offset, Nat.add_assoc, Nat.add_assoc]
  refine (agree_readByte hbytes _).bind fun hi => (agree_readByte hbytes _).bind fun lo => ?_
  exact Agree.mono ((agree_ctxCheckAndAdvance 2).bind fun _ => agree_pure _ fun _ _ h => h)
    (fun t t' ht => ht.1 ▸ ht.2 ▸ h) fun _ _ _ h => h

include hbytes in
/-- Reading an element records the same length and the same offset.

**Proof sketch.** The length is read from the same bytes at the same offset, so the check of the
remaining bytes and the advance agree; the addresses differ by the bases. -/
theorem agree_parserReadElement (v : ElementRef)
    (hQ : ∀ len i x x',
      P (v.update (fun e => { e with ptr := m.base + i }) (v.update (fun e => { e with len }) x))
        (v.update (fun e => { e with ptr := m'.base + i })
          (v.update (fun e => { e with len }) x'))) :
    Agree (Aligned m m' Q) (parserReadElement m v) (parserReadElement m' v)
      fun _ => Aligned m m' P := by
  refine (agree_parserReadU16 hbytes).bind fun len => ?_
  let stored : ParserTx → ParserTx → Prop := fun y y' =>
    ∃ x x', y = v.update (fun e => { e with len }) x ∧ y' = v.update (fun e => { e with len }) x'
  refine (agree_modifyTx (P := stored) fun x x' _ => ⟨x, x', rfl, rfl⟩).bind fun _ => ?_
  refine (agree_ctxCheckAvail len).bind fun _ => agree_get_bind fun s s' h => ?_
  dsimp only
  rw [h.buffer, h.buffer', h.offset]
  refine Agree.mono ((agree_modifyTx (Q := stored) (P := P) ?_).bind fun _ =>
    agree_ctxCheckAndAdvance len) (fun t t' ht => ht.1 ▸ ht.2 ▸ h) fun _ _ _ h => h
  rintro _ _ ⟨x, x', rfl, rfl⟩
  exact hQ _ _ _ _

include hbytes in
/-- Reading tags agrees, whatever the objects hold.

**Proof sketch.** By induction on the number of tags that are left, one `agree_readTag` each. -/
theorem agree_readTags (k i : ℕ) :
    Agree (Aligned m m' anyTx) (readTags m k i) (readTags m' k i)
      fun _ => Aligned m m' anyTx := by
  induction k generalizing i with
  | zero => exact agree_pure () fun _ _ h => h
  | succ k ih =>
    refine Agree.bind ?_ fun _ => ih (i + 1)
    exact (agree_parserReadElement hbytes (P := anyTx) _ fun _ _ _ _ => trivial).bind fun _ =>
      agree_parserReadElement hbytes _ fun _ _ _ _ => trivial

include hbytes in
/-- Reading the format agrees.

**Proof sketch.** What is compared with the supported format is a byte at the same offset. -/
theorem agree_readFormat :
    Agree (Aligned m m' anyTx) (readFormat m) (readFormat m') fun _ => Aligned m m' anyTx := by
  let same : ParserTx → ParserTx → Prop := fun y y' =>
    y.format.len = y'.format.len ∧
      ∃ i, y.format.ptr = m.base + i ∧ y'.format.ptr = m'.base + i
  refine (agree_parserReadElement hbytes (P := same) .format fun len i x x' =>
    ⟨rfl, i, rfl, rfl⟩).bind fun _ => agree_get_bind fun s s' h => ?_
  obtain ⟨hlen, i, hptr, hptr'⟩ := h.tx
  have hend : ∀ t t', t = s ∧ t' = s' → Aligned m m' anyTx t t' := by
    rintro _ _ ⟨rfl, rfl⟩
    exact ⟨h.buffer, h.buffer', h.bufferLen, h.offset, trivial⟩
  refine Agree.ite (by rw [hlen]) (fun _ => agree_throw _) fun _ => ?_
  dsimp only
  rw [hptr, hptr']
  refine (agree_readByte hbytes i).bind fun b => ?_
  exact Agree.ite Iff.rfl (fun _ => agree_throw _) fun _ => agree_pure () hend

include hbytes in
/-- Reading the owner agrees. -/
theorem agree_readOwner :
    Agree (Aligned m m' anyTx) (readOwner m) (readOwner m') fun _ => Aligned m m' anyTx := by
  refine (agree_parserReadElement hbytes (P := fun y y' => y.owner.len = y'.owner.len) .owner
    fun len i x x' => rfl).bind fun _ => agree_get_bind fun s s' h => ?_
  refine Agree.ite (by rw [h.tx]) (fun _ => agree_throw _) fun _ => agree_pure () ?_
  rintro _ _ ⟨rfl, rfl⟩
  exact ⟨h.buffer, h.buffer', h.bufferLen, h.offset, trivial⟩

include hbytes in
/-- Reading the list of tags agrees. -/
theorem agree_readTagList :
    Agree (Aligned m m' anyTx) (readTagList m) (readTagList m')
      fun _ => Aligned m m' anyTx := by
  refine (agree_parserReadU16 hbytes).bind fun n => ?_
  refine (agree_modifyTx (P := anyTx) fun _ _ _ => trivial).bind fun _ => ?_
  exact Agree.ite Iff.rfl (fun _ => agree_throw _) fun _ => agree_readTags hbytes n 0

include hbytes in
/-- `_read` goes through the same steps. -/
theorem agree_read :
    Agree (Aligned m m' anyTx) (read m) (read m') fun _ => Aligned m m' anyTx := by
  have helement : ∀ v, Agree (Aligned m m' anyTx) (parserReadElement m v) (parserReadElement m' v)
      fun _ => Aligned m m' anyTx := fun v =>
    agree_parserReadElement hbytes v fun _ _ _ _ => trivial
  refine (agree_readFormat hbytes).bind fun _ => (agree_readOwner hbytes).bind fun _ => ?_
  refine (helement _).bind fun _ => (helement _).bind fun _ => ?_
  refine (helement _).bind fun _ => (helement _).bind fun _ => ?_
  exact (agree_readTagList hbytes).bind fun _ => (helement _).bind fun _ => helement _

include hbytes in
/-- The result of `parser_parse` depends on the bytes, and on whether the buffer is `NULL`.

**Proof sketch.** Both runs set up contexts of the same length and offset, or are refused; from
there on `_read` agrees. -/
theorem parserParse_result_eq (hnull : m.base = 0 ↔ m'.base = 0) (dataLen : ℕ)
    (s s' : ParserState) :
    ((parserParse m m.base dataLen).exec s).1 = ((parserParse m' m'.base dataLen).exec s').1 := by
  have hparse : Agree (fun _ _ => True) (parserParse m m.base dataLen)
      (parserParse m' m'.base dataLen) fun _ => Aligned m m' anyTx := by
    let cleared : Unit → ParserState → ParserState → Prop := fun _ s s' =>
      s.ctx = ⟨0, 0, 0⟩ ∧ s'.ctx = ⟨0, 0, 0⟩
    refine Agree.ite Iff.rfl (fun _ => agree_throw _) fun _ => ?_
    refine Agree.bind ?_ fun _ => agree_read hbytes
    refine (agree_modify (S := cleared) fun _ _ _ => ⟨rfl, rfl⟩).bind fun _ => ?_
    refine Agree.ite (or_congr_right hnull) (fun _ => agree_throw _) fun _ => ?_
    refine agree_modify fun s s' h => ⟨rfl, rfl, rfl, ?_, trivial⟩
    dsimp only
    rw [h.1, h.2]
  exact (hparse s s' trivial).result_eq

include hbytes in
/-- **Independence**: the result of `parser_parse` on a buffer that is not `NULL` depends on the
bytes only.

**Proof sketch.** Two buffers that are not `NULL` may lie anywhere. -/
theorem parserParse_independent (hbase : 0 < m.base) (hbase' : 0 < m'.base) (dataLen : ℕ)
    (s s' : ParserState) :
    ((parserParse m m.base dataLen).exec s).1 = ((parserParse m' m'.base dataLen).exec s').1 :=
  parserParse_result_eq hbytes (iff_of_false hbase.ne' hbase'.ne') dataLen s s'

include hbytes in
/-- The fields found depend on the bytes only. -/
theorem fields_independent {dataLen : ℕ} (hmap : dataLen ≤ m.bytes.length)
    {s s' t t' : ParserState} (h : (parserParse m m.base dataLen).exec s = (.ok (), t))
    (h' : (parserParse m' m'.base dataLen).exec s' = (.ok (), t')) :
    t.tx.fields m = t'.tx.fields m' := by
  obtain ⟨rest, hd⟩ := fields_of_parserParse hmap h
  obtain ⟨rest', hd'⟩ := fields_of_parserParse (hbytes ▸ hmap) h'
  rw [hbytes, hd'] at hd
  exact congrArg (fun r => (r.getD (t.tx.fields m, [])).1) hd.symm

end Same

end LedgerArweave
