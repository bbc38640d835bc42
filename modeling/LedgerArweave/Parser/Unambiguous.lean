import LedgerArweave.Parser.Refine

set_option relaxedAutoImplicit false
set_option autoImplicit false

/-!
# What the parser accepts

The refinement of `_read` by the wire format, read off for `parser_parse`: which buffers are
accepted, what the recorded elements point to and where they lie. Since the wire format is a
codec, parsing is unambiguous: the accepted part of a buffer is the encoding of the fields,
no truncation of it is accepted and nothing after it matters.

## Main definitions

* `ParserTx.fields` — the transaction a parsed object stands for.
* `Consecutive` — elements one after another, each preceded by its length.

## Main results

* `parserParse_accept`, `parserParse_reject` — `parser_parse` follows the codec.
* `fields_layout` — the recorded elements point to the fields.
* `parse_unambiguous` — unambiguous parsing.
-/

namespace LedgerArweave

open Fallible (exec_bind exec_bind_ok)

variable {m : Memory} {b : Bytes}

/-! ## `parser_parse` follows the codec -/

/-- The context after `parser_init` on a mapped buffer stands at its beginning. -/
theorem exec_parserInit (hm : 0 < m.base) (hpos : 0 < b.length) (s : ParserState) :
    (parserInit m.base b.length).exec s = (.ok (), { s with ctx := ⟨m.base, b.length, 0⟩ }) := by
  have hne : b ≠ [] := List.ne_nil_of_length_pos hpos
  have hbase : m.base ≠ 0 := by omega
  simp [parserInit, parserInitContext, exec_bind, hne, hbase]

private lemma exec_parserParse (hm : 0 < m.base) (hpos : 0 < b.length) (hsmall : b.length < 65536)
    (s : ParserState) :
    (parserParse m m.base b.length).exec s =
      (read m).exec { s with ctx := ⟨m.base, b.length, 0⟩ } := by
  have hu16 : u16 b.length = b.length := Nat.mod_eq_of_lt hsmall
  rw [parserParse, if_neg (by omega), hu16]
  exact exec_bind_ok (exec_parserInit hm hpos s) _

private lemma cursor_init (hw : b <+: m.bytes) (hsmall : b.length < 65536) :
    Cursor m b 0 ⟨m.base, b.length, 0⟩ :=
  ⟨rfl, rfl, rfl, Nat.zero_le _, hw, hsmall⟩

/-- **Acceptance**: where the buffer starts with a transaction, `parser_parse` succeeds, the
offset is the length of its encoding and the object is its layout.

**Proof sketch.** `_read` refines the codec, and it starts at offset zero. -/
theorem parserParse_accept (hm : 0 < m.base) (hw : b <+: m.bytes) (hsmall : b.length < 65536)
    {t : Transaction} {rest : Bytes} (hd : transaction.decode b = some (t, rest))
    (s : ParserState) :
    (parserParse m m.base b.length).exec s =
      (.ok (), ⟨⟨m.base, b.length, (transaction.encode t).length⟩, layout m 0 t s.tx.tags,
        s.wrapped⟩) := by
  have hpos : 0 < b.length := by
    rw [transaction.length_of_decode hd, transaction_encode]
    simp only [List.length_append, length_element_encode]
    omega
  rw [exec_parserParse hm hpos hsmall,
    reads_read.accept _ 0 t rest (cursor_init hw hsmall) (by rwa [List.drop_zero])]
  simp [ParserState.move]

/-- **Rejection**: where it does not, `parser_parse` returns an error.

**Proof sketch.** As for acceptance: where the codec does not decode, what refines it fails. -/
theorem parserParse_reject (hm : 0 < m.base) (hw : b <+: m.bytes) (hsmall : b.length < 65536)
    (hd : transaction.decode b = none) (s : ParserState) :
    ∃ e s', (parserParse m m.base b.length).exec s = (.error (.error e), s') ∧
      s'.wrapped = s.wrapped := by
  rcases Nat.eq_zero_or_pos b.length with h0 | hpos
  · refine ⟨.noData, s, ?_, rfl⟩
    rw [h0, parserParse, if_pos (by omega)]
    rfl
  · obtain ⟨e, s', he, hw, -⟩ :=
      reads_read.reject { s with ctx := ⟨m.base, b.length, 0⟩ } 0 (cursor_init hw hsmall)
        (by rwa [List.drop_zero])
    exact ⟨e, s', by rw [exec_parserParse hm hpos hsmall, he], hw⟩

/-- A successful parse comes from a transaction at the start of the buffer. -/
theorem decode_of_parserParse (hm : 0 < m.base) (hw : b <+: m.bytes) (hsmall : b.length < 65536)
    {s s' : ParserState} (h : (parserParse m m.base b.length).exec s = (.ok (), s')) :
    ∃ t rest, transaction.decode b = some (t, rest) ∧
      s' = ⟨⟨m.base, b.length, (transaction.encode t).length⟩, layout m 0 t s.tx.tags,
        s.wrapped⟩ := by
  rcases hd : transaction.decode b with _ | ⟨t, rest⟩
  · obtain ⟨e, s'', he, -⟩ := parserParse_reject hm hw hsmall hd s
    rw [he] at h
    simp at h
  · rw [parserParse_accept hm hw hsmall hd] at h
    simp only [Prod.mk.injEq, true_and] at h
    exact ⟨t, rest, rfl, h.symm⟩

/-- The same for any length: only the low 16 bits of it count, and a `NULL` buffer or an empty
one is refused.

**Proof sketch.** A length of zero as a `uint16_t` and a `NULL` buffer are refused before anything
is read. Otherwise the parse is one of as many bytes as the low 16 bits say. -/
theorem decode_of_parserParse_size {dataLen : ℕ} (hmap : dataLen ≤ m.bytes.length)
    {s s' : ParserState} (h : (parserParse m m.base dataLen).exec s = (.ok (), s')) :
    ∃ t rest, transaction.decode (m.bytes.take (u16 dataLen)) = some (t, rest) ∧
      s' = ⟨⟨m.base, u16 dataLen, (transaction.encode t).length⟩, layout m 0 t s.tx.tags,
        s.wrapped⟩ := by
  have hlt : u16 dataLen < 65536 := Nat.mod_lt _ (by decide)
  have hle : u16 dataLen ≤ dataLen := Nat.mod_le _ _
  have hlen : (m.bytes.take (u16 dataLen)).length = u16 dataLen := by
    rw [List.length_take]
    omega
  by_cases hempty : u16 dataLen = 0 ∨ m.base = 0
  · by_cases hone : dataLen < 1 <;>
      simp [parserParse, hone, exec_bind, parserInit, parserInitContext, hempty] at h
  · have hnorm : parserParse m m.base dataLen =
        parserParse m m.base (m.bytes.take (u16 dataLen)).length := by
      have htwice : u16 (u16 dataLen) = u16 dataLen := Nat.mod_mod _ _
      rw [hlen, parserParse, parserParse, if_neg (by omega), if_neg (by omega), htwice]
    rw [hnorm] at h
    obtain ⟨t, rest, hd, hs'⟩ := decode_of_parserParse (by omega) (List.take_prefix _ _)
      (by rw [hlen]; exact hlt) h
    rw [hlen] at hs'
    exact ⟨t, rest, hd, hs'⟩

/-- A `NULL` buffer is not parsed. -/
theorem base_pos_of_parserParse {dataLen : ℕ} {s s' : ParserState}
    (h : (parserParse m m.base dataLen).exec s = (.ok (), s')) : 0 < m.base := by
  by_contra hbase
  have hnull : u16 dataLen = 0 ∨ m.base = 0 := .inr (Nat.eq_zero_of_not_pos hbase)
  by_cases hone : dataLen < 1 <;>
    simp [parserParse, hone, exec_bind, parserInit, parserInitContext, hnull] at h

/-! ## What the elements point to -/

/-- The tags of a parsed object. -/
def ParserTx.tagList (v : ParserTx) : List ParserTag := (List.range v.tagsCount).map v.tags

/-- The bytes of a parsed tag. -/
def Memory.derefTag (m : Memory) (t : ParserTag) : Tag := ⟨m.deref t.key, m.deref t.value⟩

/-- The transaction a parsed object stands for. -/
def ParserTx.fields (m : Memory) (v : ParserTx) : Transaction where
  format := m.deref v.format
  owner := m.deref v.owner
  target := m.deref v.target
  quantity := m.deref v.quantity
  reward := m.deref v.reward
  lastTx := m.deref v.lastTx
  tags := v.tagList.map m.derefTag
  dataSize := m.deref v.dataSize
  dataRoot := m.deref v.dataRoot

/-- Where tags encoded one after the other from offset `o` are recorded. -/
def tagsAt (m : Memory) : ℕ → List Tag → List ParserTag
  | _, [] => []
  | o, t :: ts => tagAt m o t :: tagsAt m (o + (tag.encode t).length) ts

/-- Storing tags from index `i` on leaves the entries before it alone. -/
theorem storeTags_of_lt (o i : ℕ) (ts : List Tag) (old : ℕ → ParserTag) {j : ℕ} (hj : j < i) :
    storeTags m o i ts old j = old j := by
  induction ts generalizing o i old with
  | nil => rfl
  | cons t ts ih =>
    rw [storeTags, ih _ _ _ (by omega), Function.update_of_ne (by omega)]

/-- The entries written by `storeTags`. -/
theorem map_storeTags (o i : ℕ) (ts : List Tag) (old : ℕ → ParserTag) :
    (List.range' i ts.length).map (storeTags m o i ts old) = tagsAt m o ts := by
  induction ts generalizing o i old with
  | nil => rfl
  | cons t ts ih =>
    have hhead : storeTags m o i (t :: ts) old i = tagAt m o t := by
      rw [storeTags, storeTags_of_lt _ _ _ _ (by omega), Function.update_self]
    rw [List.length_cons, List.range'_succ, List.map_cons, hhead, tagsAt]
    exact congrArg _ (ih _ _ _)

/-- The tags of a layout lie behind the first six elements and the number of tags. -/
theorem tagList_layout (o : ℕ) (t : Transaction) (old : ℕ → ParserTag) :
    ∃ o', (layout m o t old).tagList = tagsAt m (o' + 2) t.tags ∧
      o' = o + (element.encode t.format).length + (element.encode t.owner).length +
        (element.encode t.target).length + (element.encode t.quantity).length +
        (element.encode t.reward).length + (element.encode t.lastTx).length := by
  refine ⟨_, ?_, rfl⟩
  rw [ParserTx.tagList, List.range_eq_range']
  exact map_storeTags _ 0 t.tags old

/-- An element dereferences to the bytes it was recorded for. -/
theorem deref_elementAt (hw : b <+: m.bytes) {o : ℕ} {x rest : Bytes}
    (hd : b.drop o = element.encode x ++ rest) : m.deref (elementAt m o x) = x := by
  apply List.ext_getElem
  · rw [Memory.length_deref, elementAt_len]
  · intro i h₁ h₂
    simp only [Memory.deref, List.getElem_map, List.getElem_range]
    rw [Memory.read_elementAt hw hd h₂]
    rfl

/-- Dropping an encoding from a word that starts with it. -/
theorem drop_add_of_drop_eq {o : ℕ} {x rest : Bytes} (hd : b.drop o = x ++ rest) :
    b.drop (o + x.length) = rest := by
  rw [← List.drop_drop, hd, List.drop_left]

/-- Tags dereference to the names and values they were recorded for. -/
theorem map_derefTag_tagsAt (hw : b <+: m.bytes) {o : ℕ} {ts : List Tag} {rest : Bytes}
    (hd : b.drop o = ts.flatMap tag.encode ++ rest) :
    (tagsAt m o ts).map m.derefTag = ts := by
  induction ts generalizing o with
  | nil => rfl
  | cons t ts ih =>
    rw [List.flatMap_cons, List.append_assoc] at hd
    have htail := ih (drop_add_of_drop_eq hd)
    rw [tag_encode, List.append_assoc] at hd
    have hname : m.deref (tagAt m o t).key = t.name := deref_elementAt hw hd
    have hvalue : m.deref (tagAt m o t).value = t.value :=
      deref_elementAt hw (drop_add_of_drop_eq hd)
    rw [tagsAt, List.map_cons, htail, Memory.derefTag, hname, hvalue]

/-- **The recorded elements point to the fields.**

**Proof sketch.** Field by field: behind the encodings of the fields before it, the bytes begin with
the encoding of this one. -/
theorem fields_layout (hw : b <+: m.bytes) {o : ℕ} {t : Transaction} {rest : Bytes}
    (hd : b.drop o = transaction.encode t ++ rest) (old : ℕ → ParserTag) :
    (layout m o t old).fields m = t := by
  obtain ⟨o', htags, ho'⟩ := tagList_layout (m := m) o t old
  rw [transaction_encode] at hd
  simp only [List.append_assoc] at hd
  have h₁ := drop_add_of_drop_eq hd
  have h₂ := drop_add_of_drop_eq h₁
  have h₃ := drop_add_of_drop_eq h₂
  have h₄ := drop_add_of_drop_eq h₃
  have h₅ := drop_add_of_drop_eq h₄
  have h₆ := drop_add_of_drop_eq h₅
  have h₇ := drop_add_of_drop_eq h₆
  have h₈ : b.drop (_ + (tagList.encode t.tags).length) = _ :=
    drop_add_of_drop_eq (by rw [h₆, tagList_encode, List.append_assoc])
  have h₉ := drop_add_of_drop_eq h₈
  have htag : (layout m o t old).tagList.map m.derefTag = t.tags := by
    rw [htags, ho']
    exact map_derefTag_tagsAt hw h₇
  rw [ParserTx.fields, htag]
  simp only [layout, deref_elementAt hw hd, deref_elementAt hw h₁, deref_elementAt hw h₂,
    deref_elementAt hw h₃, deref_elementAt hw h₄, deref_elementAt hw h₅, deref_elementAt hw h₈,
    deref_elementAt hw h₉]

/-- The fields of a successfully parsed object are those of a well-formed transaction at the
start of the buffer. -/
theorem fields_of_parserParse {dataLen : ℕ} (hmap : dataLen ≤ m.bytes.length)
    {s s' : ParserState} (h : (parserParse m m.base dataLen).exec s = (.ok (), s')) :
    ∃ rest, transaction.decode (m.bytes.take (u16 dataLen)) = some (s'.tx.fields m, rest) := by
  obtain ⟨t, rest, hd, rfl⟩ := decode_of_parserParse_size hmap h
  have hsplit := (transaction.decode_sound _ _ _ hd).2
  refine ⟨rest, ?_⟩
  rw [fields_layout (o := 0) (List.take_prefix _ _) hsplit]
  exact hd

/-- What is parsed is well-formed. -/
theorem valid_of_parserParse {dataLen : ℕ} (hmap : dataLen ≤ m.bytes.length)
    {s s' : ParserState} (h : (parserParse m m.base dataLen).exec s = (.ok (), s')) :
    transaction.Valid (s'.tx.fields m) := by
  obtain ⟨rest, hd⟩ := fields_of_parserParse hmap h
  exact (transaction.decode_sound _ _ _ hd).1

/-! ## Where the elements lie -/

/-- The elements lie one after another from `p` to `q`, each preceded by its two length
bytes. -/
def Consecutive : ℕ → List ParserElement → ℕ → Prop
  | p, [], q => p = q
  | p, e :: es, q => e.ptr = p + 2 ∧ Consecutive (e.ptr + e.len) es q

/-- Elements that follow on each other, and further ones behind them. -/
theorem Consecutive.append {p q r : ℕ} {es fs : List ParserElement} (he : Consecutive p es q)
    (hf : Consecutive q fs r) : Consecutive p (es ++ fs) r := by
  induction es generalizing p with
  | nil =>
    obtain rfl : p = q := he
    exact hf
  | cons e es ih => exact ⟨he.1, ih he.2⟩

/-- Consecutive elements end behind their beginning. -/
theorem Consecutive.le {p q : ℕ} {es : List ParserElement} (h : Consecutive p es q) : p ≤ q := by
  induction es generalizing p with
  | nil => exact le_of_eq h
  | cons e es ih =>
    have hrest := ih h.2
    have hhead := h.1
    omega

/-- Consecutive elements lie between their ends. -/
theorem Consecutive.mem {p q : ℕ} {es : List ParserElement} (h : Consecutive p es q)
    {e : ParserElement} (he : e ∈ es) : p + 2 ≤ e.ptr ∧ e.ptr + e.len ≤ q := by
  induction es generalizing p with
  | nil => simp at he
  | cons e' es ih =>
    have hhead := h.1
    rcases List.mem_cons.mp he with rfl | he
    · exact ⟨by omega, h.2.le⟩
    · obtain ⟨h₁, h₂⟩ := ih h.2 he
      exact ⟨by omega, h₂⟩

/-- Consecutive elements do not overlap: there are the two length bytes between them. -/
theorem Consecutive.pairwise {p q : ℕ} {es : List ParserElement} (h : Consecutive p es q) :
    es.Pairwise fun e f => e.ptr + e.len + 2 ≤ f.ptr := by
  induction es generalizing p with
  | nil => exact List.Pairwise.nil
  | cons e es ih => exact List.Pairwise.cons (fun f hf => (h.2.mem hf).1) (ih h.2)

/-- The elements before the number of tags, in wire order. -/
def ParserTx.headElements (v : ParserTx) : List ParserElement :=
  [v.format, v.owner, v.target, v.quantity, v.reward, v.lastTx]

/-- The elements after the number of tags, in wire order. -/
def ParserTx.tailElements (v : ParserTx) : List ParserElement :=
  (v.tagList.flatMap fun t => [t.key, t.value]) ++ [v.dataSize, v.dataRoot]

private lemma consecutive_elementAt (o : ℕ) (x : Bytes) (es : List ParserElement) (q : ℕ)
    (h : Consecutive (m.base + (o + (element.encode x).length)) es q) :
    Consecutive (m.base + o) (elementAt m o x :: es) q := by
  refine ⟨by rw [elementAt_ptr]; omega, ?_⟩
  have hend : (elementAt m o x).ptr + (elementAt m o x).len =
      m.base + (o + (element.encode x).length) := by
    rw [elementAt_ptr, elementAt_len, length_element_encode]
    omega
  rwa [hend]

/-- The elements of the tags are consecutive. -/
theorem consecutive_tagsAt (o : ℕ) (ts : List Tag) :
    Consecutive (m.base + o) ((tagsAt m o ts).flatMap fun t => [t.key, t.value])
      (m.base + (o + (ts.flatMap tag.encode).length)) := by
  induction ts generalizing o with
  | nil => rfl
  | cons t ts ih =>
    have hrest := ih (o + (tag.encode t).length)
    show Consecutive (m.base + o) (elementAt m o t.name ::
      elementAt m (o + (element.encode t.name).length) t.value ::
        (tagsAt m (o + (tag.encode t).length) ts).flatMap fun t => [t.key, t.value]) _
    refine consecutive_elementAt o t.name _ _ (consecutive_elementAt _ t.value _ _ ?_)
    simpa only [List.flatMap_cons, tag_encode, List.length_append, ← Nat.add_assoc] using hrest

/-- **The elements lie one after another**, those before and those after the two bytes with
the number of tags.

**Proof sketch.** Each element begins two bytes behind the end of the one before it; the tags begin
behind their number. -/
theorem consecutive_layout (o : ℕ) (t : Transaction) (old : ℕ → ParserTag) :
    let v := layout m o t old
    Consecutive (m.base + o) v.headElements (v.lastTx.ptr + v.lastTx.len) ∧
      Consecutive (v.lastTx.ptr + v.lastTx.len + 2) v.tailElements
        (m.base + (o + (transaction.encode t).length)) := by
  intro v
  obtain ⟨o', htags, ho'⟩ := tagList_layout (m := m) o t old
  have hend : v.lastTx.ptr + v.lastTx.len = m.base + o' := by
    simp only [v, layout, elementAt_ptr, elementAt_len, length_element_encode, ho']
    omega
  constructor
  · rw [hend, ho']
    iterate 6 refine consecutive_elementAt _ _ _ _ ?_
    rfl
  · rw [hend, ParserTx.tailElements, htags, Nat.add_assoc]
    apply (consecutive_tagsAt (o' + 2) t.tags).append
    have hsize : v.dataSize = elementAt m (o' + 2 + (t.tags.flatMap tag.encode).length)
        t.dataSize := by
      simp only [v, layout, tagList_encode, List.length_append, length_be16_encode, ho']
      congr 1
      omega
    have hroot : v.dataRoot = elementAt m (o' + 2 + (t.tags.flatMap tag.encode).length +
        (element.encode t.dataSize).length) t.dataRoot := by
      simp only [v, layout, tagList_encode, List.length_append, length_be16_encode, ho']
      congr 1
      omega
    rw [hsize, hroot]
    refine consecutive_elementAt _ _ _ _ (consecutive_elementAt _ _ _ _ ?_)
    rw [Consecutive, transaction_encode]
    simp only [List.length_append, length_be16_encode, ho']
    omega

/-! ## Unambiguous parsing -/

/-- `parser_parse` on a buffer of its own: nothing but its bytes is mapped. -/
def parseBuffer (base : ℕ) (b : Bytes) (s : ParserState) : Except ParserStop Unit × ParserState :=
  (parserParse ⟨base, b⟩ base b.length).exec s

section Buffer

variable {base : ℕ} {s s' : ParserState}

/-- What a successful parse of a buffer says about the buffer. -/
theorem decode_of_parseBuffer (hbase : 0 < base) (hb : b.length ≤ 65535)
    (h : parseBuffer base b s = (.ok (), s')) :
    ∃ t rest, transaction.decode b = some (t, rest) ∧ s'.tx.fields ⟨base, b⟩ = t ∧
      s'.ctx.offset = (transaction.encode t).length ∧
      s'.tx = layout ⟨base, b⟩ 0 t s.tx.tags := by
  obtain ⟨t, rest, hd, rfl⟩ := decode_of_parserParse (m := ⟨base, b⟩) hbase (List.prefix_refl b)
    (by omega) h
  refine ⟨t, rest, hd, ?_, rfl, rfl⟩
  exact fields_layout (m := ⟨base, b⟩) (o := 0) (List.prefix_refl b)
    (transaction.decode_sound _ _ _ hd).2 _

/-- A buffer that starts with a transaction is accepted with its fields. -/
theorem parseBuffer_accept (hbase : 0 < base) (hb : b.length ≤ 65535) {t : Transaction}
    {rest : Bytes} (hd : transaction.decode b = some (t, rest)) (s : ParserState) :
    ∃ s', parseBuffer base b s = (.ok (), s') ∧ s'.tx.fields ⟨base, b⟩ = t ∧
      s'.ctx.offset = (transaction.encode t).length ∧ s'.wrapped = s.wrapped := by
  refine ⟨_, parserParse_accept (m := ⟨base, b⟩) hbase (List.prefix_refl b) (by omega) hd s,
    ?_, rfl, rfl⟩
  exact fields_layout (m := ⟨base, b⟩) (o := 0) (List.prefix_refl b)
    (transaction.decode_sound _ _ _ hd).2 _

/-- A buffer that does not decode is rejected with an error code. -/
theorem parseBuffer_reject (hbase : 0 < base) (hb : b.length ≤ 65535)
    (hd : transaction.decode b = none) (s : ParserState) :
    ∃ e s', parseBuffer base b s = (.error (.error e), s') ∧ s'.wrapped = s.wrapped :=
  parserParse_reject (m := ⟨base, b⟩) hbase (List.prefix_refl b) (by omega) hd s

/-- Parsing a buffer reads no byte outside it and does not wrap the offset. -/
theorem parseBuffer_safe (hbase : 0 < base) (hb : b.length ≤ 65535) (s : ParserState) :
    (parseBuffer base b s).1 ≠ .error .fault ∧ (parseBuffer base b s).2.wrapped = s.wrapped := by
  rcases hd : transaction.decode b with _ | ⟨t, rest⟩
  · obtain ⟨e, s', he, hw⟩ := parseBuffer_reject hbase hb hd s
    rw [he]
    exact ⟨by simp, hw⟩
  · obtain ⟨s', he, -, -, hw⟩ := parseBuffer_accept hbase hb hd s
    rw [he]
    exact ⟨by simp, hw⟩

/-- All elements together neither overlap nor leave the part that was parsed.

**Proof sketch.** Consecutive elements do not overlap, and all of them lie between the first
position and the last one. -/
theorem slices_layout (base : ℕ) (b : Bytes) (t : Transaction) (old : ℕ → ParserTag) :
    let v := layout ⟨base, b⟩ 0 t old
    (v.headElements ++ v.tailElements).Pairwise (fun e f => e.ptr + e.len ≤ f.ptr) ∧
      ∀ e ∈ v.headElements ++ v.tailElements,
        base ≤ e.ptr ∧ e.ptr + e.len ≤ base + (transaction.encode t).length := by
  intro v
  obtain ⟨hhead, htail⟩ := consecutive_layout (m := ⟨base, b⟩) 0 t old
  have hbetween := htail.le
  simp only [Nat.add_zero, Nat.zero_add] at hhead htail hbetween
  constructor
  · rw [List.pairwise_append]
    refine ⟨hhead.pairwise.imp fun h => by omega, htail.pairwise.imp fun h => by omega, ?_⟩
    intro e he f hf
    have h₁ := (hhead.mem he).2
    have h₂ := (htail.mem hf).1
    omega
  · intro e he
    rcases List.mem_append.mp he with he | he
    · obtain ⟨h₁, h₂⟩ := hhead.mem he
      exact ⟨by omega, by omega⟩
    · obtain ⟨h₁, h₂⟩ := htail.mem he
      have h₃ := hhead.le
      exact ⟨by omega, h₂⟩

/-- The elements of an accepted buffer lie in it. -/
theorem mapped_of_parseBuffer (hbase : 0 < base) (hb : b.length ≤ 65535)
    (h : parseBuffer base b s = (.ok (), s')) :
    ∀ e ∈ s'.tx.headElements ++ s'.tx.tailElements,
      base ≤ e.ptr ∧ e.ptr + e.len ≤ base + b.length := by
  obtain ⟨t, rest, hd, -, -, hlay⟩ := decode_of_parseBuffer hbase hb h
  have hlen := transaction.length_of_decode hd
  intro e he
  rw [hlay] at he
  obtain ⟨hlo, hhi⟩ := (slices_layout base b t s.tx.tags).2 e he
  exact ⟨hlo, by omega⟩

end Buffer

/-- **Parsing is unambiguous.** An accepted buffer consists of the encoding of the parsed
fields, whose elements are slices of it one after another, and an irrelevant remainder; every
truncation of the encoding is rejected and every continuation of it is accepted with the same
fields. A buffer that starts with no such encoding is rejected. No byte outside the buffer is
read and the offset does not wrap.

**Proof sketch.** `parser_parse` follows the codec of transactions, so the statements about
words are the laws of codecs: soundness of decoding for the re-encoding, `Codec.decode_take` for
the truncations and `Codec.decode_append` for the continuations. -/
theorem parse_unambiguous (base : ℕ) (hbase : 0 < base) (b : Bytes) (hb : b.length ≤ 65535)
    (s : ParserState) :
    (∀ s', parseBuffer base b s = (.ok (), s') →
      let v := s'.tx
      let n := s'.ctx.offset
      let t := v.fields ⟨base, b⟩
      n ≤ b.length ∧
      (Consecutive base v.headElements (v.lastTx.ptr + v.lastTx.len) ∧
        Consecutive (v.lastTx.ptr + v.lastTx.len + 2) v.tailElements (base + n)) ∧
      (v.headElements ++ v.tailElements).Pairwise (fun e f => e.ptr + e.len ≤ f.ptr) ∧
      (∀ e ∈ v.headElements ++ v.tailElements,
        base ≤ e.ptr ∧ e.ptr + e.len ≤ base + b.length) ∧
      transaction.encode t = b.take n ∧
      (∀ k < n, ∀ base' > 0, ∀ s₁, ∃ e s₂,
        parseBuffer base' (b.take k) s₁ = (.error (.error e), s₂)) ∧
      ∀ b', b'.length ≤ 65535 → b.take n <+: b' → ∀ base' > 0, ∀ s₁, ∃ s₂,
        parseBuffer base' b' s₁ = (.ok (), s₂) ∧ s₂.tx.fields ⟨base', b'⟩ = t ∧
          s₂.ctx.offset = n) ∧
    ((¬ ∃ t : Transaction, t.format = formatTwo ∧ t.owner.length = rsaModulusLen ∧
        t.tags.length ≤ maxNumberTags ∧ transaction.encode t <+: b) →
      ∃ e s', parseBuffer base b s = (.error (.error e), s')) ∧
    (parseBuffer base b s).1 ≠ .error .fault ∧
    (parseBuffer base b s).2.wrapped = s.wrapped := by
  refine ⟨?_, ?_, parseBuffer_safe hbase hb s⟩
  · intro s' hs'
    obtain ⟨t, rest, hd, hfields, hoff, hlay⟩ := decode_of_parseBuffer hbase hb hs'
    obtain ⟨hvalid, hsplit⟩ := transaction.decode_sound _ _ _ hd
    have hlen := transaction.length_of_decode hd
    have htake : b.take (transaction.encode t).length = transaction.encode t := by
      rw [hsplit, List.take_left]
    dsimp only
    rw [hfields, hoff, htake]
    obtain ⟨hhead, htail⟩ := consecutive_layout (m := ⟨base, b⟩) 0 t s.tx.tags
    obtain ⟨hpair, -⟩ := slices_layout base b t s.tx.tags
    rw [← hlay] at hhead htail hpair
    refine ⟨by omega, ⟨by simpa using hhead, by simpa using htail⟩, hpair,
      mapped_of_parseBuffer hbase hb hs', rfl, ?_, ?_⟩
    · intro k hk base' hbase' s₁
      have hshort : (b.take k).length ≤ 65535 := by
        rw [List.length_take]
        omega
      obtain ⟨e, s₂, he, -⟩ :=
        parseBuffer_reject hbase' hshort (transaction.decode_take hd hk) s₁
      exact ⟨e, s₂, he⟩
    · rintro b' hb' ⟨more, rfl⟩ base' hbase' s₁
      obtain ⟨s₂, he, hf, ho, -⟩ :=
        parseBuffer_accept hbase' hb' (transaction.decode_encode t more hvalid) s₁
      exact ⟨s₂, he, hf, ho⟩
  · intro hno
    have hd : transaction.decode b = none := by
      rw [Codec.decode_eq_none_iff]
      intro t ht hpre
      obtain ⟨hf, ho, hn, -⟩ := (transaction_valid_iff t).mp ht
      exact hno ⟨t, hf, ho, hn, hpre⟩
    obtain ⟨e, s', he, -⟩ := parseBuffer_reject hbase hb hd s
    exact ⟨e, s', he⟩

/-- A small transaction is accepted. -/
theorem parseBuffer_small {owner : Bytes} (howner : owner.length = rsaModulusLen) :
    ∃ s', parseBuffer 1 (transaction.encode (.small owner)) .zero = (.ok (), s') ∧
      s'.tx.fields ⟨1, transaction.encode (.small owner)⟩ = .small owner ∧
      s'.ctx.offset = (transaction.encode (.small owner)).length := by
  have hb : (transaction.encode (.small owner)).length ≤ 65535 := by
    rw [length_encode_small, howner]
    decide
  obtain ⟨s', hs', hfields, hoff, -⟩ := parseBuffer_accept Nat.one_pos hb
    (transaction.decode_encode_self (transaction_valid_small howner)) .zero
  exact ⟨s', hs', hfields, hoff⟩

/-- The small transaction of a zero owner is accepted as a whole, and none of its truncations. -/
theorem parse_unambiguous_sample :
    let b := transaction.encode (.small (List.replicate 512 0))
    ∃ s', parseBuffer 1 b .zero = (.ok (), s') ∧ s'.ctx.offset = b.length ∧
      ∀ k < b.length, ∃ e s₂, parseBuffer 1 (b.take k) .zero = (.error (.error e), s₂) := by
  intro b
  have hb : b.length ≤ 65535 := by
    rw [length_encode_small, List.length_replicate]
    decide
  obtain ⟨s', hs', -, hoff⟩ := parseBuffer_small
    (List.length_replicate : (List.replicate 512 (0 : UInt8)).length = 512)
  have hrun := (parse_unambiguous 1 (by decide) b hb .zero).1 s' hs'
  refine ⟨s', hs', hoff, fun k hk => ?_⟩
  exact hrun.2.2.2.2.2.1 k (by rw [hoff]; exact hk) 1 (by decide) .zero

end LedgerArweave
