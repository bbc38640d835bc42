import LedgerArweave.Parser.Review

set_option relaxedAutoImplicit false
set_option autoImplicit false

/-!
# Names of tags as C strings

A tag name has no terminator, and `parser_printTag` prints it with `%s`, which reads on until a
zero byte. There is one: the length of the data size comes after all tags, and its high byte is
zero because the data size has been printed before any tag, which fails above 200 bytes.

## Main definitions

* `printedTag` — the tag that `parser_getItem` prints.
* `Reaches` — `parser_validate` gets to an item.
* `StringInside`, `ShowsName` — what is read and what is shown of a name.

## Main results

* `exec_of_printedTag`, `getItem_of_printedTag_none` — when `parser_printTag` is called.
* `printTag_inside` — the name is read inside the buffer, and nothing else is shown.
-/

namespace LedgerArweave

open Fallible (exec exec_bind)

/-! ## The calls of `parser_printTag` -/

section Calls

variable (expert : Bool) (tx : ParserTx)

/-- The entry of the tag array that `parser_getItem` hands to `parser_printTag`, if it gets
there. -/
def printedTag (displayIdx : ℕ) : Option ℕ :=
  if displayIdx ≥ parserGetNumItems expert tx then none
  else if displayIdx ≤ 4 then none
  else if displayIdx = 5 ∧ tx.dataRoot.len ≠ 0 then none
  else
    let tagIdx :=
      u16 (displayIdx + 65536 - (constNumUiItems + dataSizeNumUiItems + dataRootNumUiItems tx))
    if tagIdx ≥ maxNumberTags then none else some tagIdx

variable {expert tx} {zx : ZxFormat} {m : Memory} {idx page : ℕ} {o : ItemOut}

/-- Where `parser_getItem` calls `parser_printTag`, it does nothing afterwards. -/
theorem exec_of_printedTag {k : ℕ} (h : printedTag expert tx idx = some k) :
    (parserGetItem zx m expert tx idx page).exec o =
      (parserPrintTag zx m (tx.tags k) page).exec (o.asked idx) := by
  unfold printedTag at h
  dsimp only at h
  split_ifs at h with hidx hfixed hroot htag
  obtain ⟨j, rfl⟩ : ∃ j, idx = j + 5 := ⟨idx - 5, by omega⟩
  rw [exec_parserGetItem_extra zx m tx j (Nat.not_le.mp hidx), getExtraItem, if_neg hroot]
  dsimp only
  rw [if_neg htag, Option.some.inj h]

/-- Elsewhere `parser_getItem` does not look at the tags.

**Proof sketch.** By the index: the fixed items and the data root do not read the array, and every
other index is refused. -/
theorem getItem_of_printedTag_none (h : printedTag expert tx idx = none) (tags : ℕ → ParserTag) :
    (parserGetItem zx m expert { tx with tags := tags } idx page).exec o =
      (parserGetItem zx m expert tx idx page).exec o := by
  by_cases hidx : idx < parserGetNumItems expert tx
  · match idx with
    | 0 | 1 | 2 | 3 | 4 => rfl
    | j + 5 =>
      rw [exec_parserGetItem_extra zx m tx j hidx,
        exec_parserGetItem_extra zx m { tx with tags := tags } j hidx, getExtraItem, getExtraItem]
      unfold printedTag at h
      dsimp only at h
      split_ifs at h with hover hfixed hroot htag
      · omega
      · omega
      · rw [if_pos hroot, if_pos hroot]
      · have htag' : u16 (j + 5 + 65536 - (constNumUiItems + dataSizeNumUiItems +
            dataRootNumUiItems { tx with tags := tags })) ≥ maxNumberTags := htag
        rw [if_neg hroot, if_neg hroot]
        dsimp only
        rw [if_pos htag, if_pos htag']
        rfl
  · have hover : parserGetNumItems expert tx ≤ idx := Nat.not_lt.mp hidx
    have hover' : parserGetNumItems expert { tx with tags := tags } ≤ idx := hover
    simp [parserGetItem, setKey, exec_bind, hover, hover']

/-- Only tags below the count are printed, and only in expert mode.

**Proof sketch.** Past the fixed items and the data root, the index of a shown item is that of a
tag, and the subtraction of `uint16_t` does not wrap. -/
theorem printedTag_lt (hcount : tx.tagsCount ≤ maxNumberTags) {k : ℕ}
    (h : printedTag expert tx idx = some k) :
    k < tx.tagsCount ∧ expert = true ∧ idx = dataRootNumUiItems tx + k + 5 := by
  unfold printedTag at h
  dsimp only at h
  split_ifs at h with hidx hfixed hroot htag
  have hk := Option.some.inj h
  obtain ⟨j, rfl⟩ : ∃ j, idx = j + 5 := ⟨idx - 5, by omega⟩
  obtain ⟨i, hi, rfl⟩ := exists_tag hcount (Nat.not_le.mp hidx) hroot
  have hcount' : tx.tagsCount ≤ 16 := hcount
  have hki : k = i := by
    unfold u16 constNumUiItems dataSizeNumUiItems at hk
    omega
  cases expert with
  | false =>
    have hsimple : parserGetNumItems false tx = 4 := rfl
    omega
  | true => exact ⟨hki ▸ hi, rfl, by omega⟩

end Calls

/-- The loop of `parser_validate` in expert mode gets to an item: everything before it has been
checked. -/
def Reaches (zx : ZxFormat) (m : Memory) (st : CryptoStore) (tx : ParserTx) (idx : ℕ) : Prop :=
  validateTx m st tx = .ok () ∧ idx < parserGetNumItems true tx ∧
    forM (List.range idx) (fun j => ((parserGetItem zx m true tx j 0).exec tmpOut).1) = .ok ()

/-- A loop whose first rounds succeed goes on with the next one. -/
theorem forM_range_of_ok {ε : Type} {f : ℕ → Except ε Unit} {i n : ℕ} (hi : i < n)
    (h : forM (List.range i) f = .ok ()) :
    forM (List.range n) f = (f i).bind fun _ => forM (List.range' (i + 1) (n - (i + 1))) f := by
  have hsplit : List.range n = List.range i ++ i :: List.range' (i + 1) (n - (i + 1)) := by
    have hrange := List.range'_append_1 (s := 0) (m := i) (n := n - i)
    rw [Nat.zero_add, Nat.add_sub_cancel' hi.le] at hrange
    rw [List.range_eq_range', List.range_eq_range', ← hrange, ← List.range'_succ]
    congr 2
    omega
  rw [hsplit, List.forM_append, h]
  rfl

/-- What `parser_validate` does from an item on that it gets to. -/
theorem parserValidate_of_reaches {zx : ZxFormat} {m : Memory} {st : CryptoStore} {tx : ParserTx}
    {idx : ℕ} (h : Reaches zx m st tx idx) :
    parserValidate zx m st true tx =
      ((parserGetItem zx m true tx idx 0).exec tmpOut).1.bind fun _ =>
        forM (List.range' (idx + 1) (parserGetNumItems true tx - (idx + 1))) fun j =>
          ((parserGetItem zx m true tx j 0).exec tmpOut).1 := by
  rw [parserValidate, h.1]
  exact forM_range_of_ok h.2.1 h.2.2

/-! ## Reading a name -/

/-- A C string that starts at an address ends among the first `n` mapped bytes. -/
def StringInside (m : Memory) (n p : ℕ) : Prop :=
  m.base ≤ p ∧ p + (cstr (m.suffix p)).length < m.base + n ∧
    m.read (p + (cstr (m.suffix p)).length) = some 0

/-- A C string stops at its first zero byte.

**Proof sketch.** By induction on the bytes. -/
theorem cstr_stops {b : Bytes} {i : ℕ} (h : b[i]? = some 0) :
    b[(cstr b).length]? = some 0 ∧ (cstr b).length ≤ i := by
  induction b generalizing i with
  | nil => simp at h
  | cons c b ih =>
    by_cases hc : c = 0
    · subst hc
      simp [cstr]
    · have hcons : cstr (c :: b) = c :: cstr b := by
        simp [cstr, hc]
      cases i with
      | zero =>
        rw [List.getElem?_cons_zero] at h
        exact absurd (Option.some.inj h) hc
      | succ i =>
        rw [List.getElem?_cons_succ] at h
        obtain ⟨hzero, hle⟩ := ih h
        rw [hcons, List.length_cons, List.getElem?_cons_succ]
        exact ⟨hzero, Nat.succ_le_succ hle⟩

/-- A zero byte at or after the address is enough. -/
theorem stringInside_of_zero {m : Memory} {n p a : ℕ} (hbase : m.base ≤ p) (hpa : p ≤ a)
    (ha : a < m.base + n) (hzero : m.read a = some 0) : StringInside m n p := by
  have hread : ∀ i, m.read (p + i) = (m.suffix p)[i]? := by
    intro i
    rw [Memory.read, Memory.suffix, if_pos (by omega), if_pos hbase, List.getElem?_drop]
    congr 1
    omega
  have hget : (m.suffix p)[a - p]? = some 0 := by
    rw [← hread, Nat.add_sub_cancel' hpa]
    exact hzero
  obtain ⟨hstop, hle⟩ := cstr_stops hget
  exact ⟨hbase, by omega, (hread _).trans hstop⟩

/-- A key buffer shows a beginning of a name, and holds nothing else. -/
def ShowsName (name outKey : Bytes) : Prop :=
  ∃ shown, shown <+: name ∧ 0 ∉ shown ∧ shown.length < outKey.length ∧
    outKey = shown ++ zeros (outKey.length - shown.length)

/-- What is printed of a name is a beginning of it.

**Proof sketch.** `snprintf` copies the C string at the address of the name, but no more than its
length or the buffer allow, so what is printed is a beginning of the name. -/
theorem showsName_tagKey {m : Memory} {v : ParserTag} (hlo : m.base ≤ v.key.ptr)
    (hhi : v.key.ptr + v.key.len ≤ m.base + m.bytes.length) {keyLen : ℕ} (hkey : 1 ≤ keyLen) :
    ShowsName (m.deref v.key) (tagKey m v keyLen) := by
  have hmax : (if keyLen ≥ v.key.len + 1 then v.key.len + 1 else keyLen) - 1 =
      min v.key.len (keyLen - 1) := by
    split_ifs <;> omega
  have hpos : (if keyLen ≥ v.key.len + 1 then v.key.len + 1 else keyLen) ≠ 0 := by
    split_ifs <;> omega
  have hlen : ((cstr (m.suffix v.key.ptr)).take (min v.key.len (keyLen - 1))).length < keyLen := by
    rw [List.length_take]
    omega
  have hout : tagKey m v keyLen = (cstr (m.suffix v.key.ptr)).take (min v.key.len (keyLen - 1)) ++
      zeros (keyLen - ((cstr (m.suffix v.key.ptr)).take (min v.key.len (keyLen - 1))).length) := by
    rw [tagKey, snprintf, if_neg hpos, hmax, overwrite_zeros, List.append_assoc, List.length_append]
    congr 1
    rw [zeros, zeros, ← List.replicate_one, ← List.replicate_add]
    congr 1
    rw [List.length_replicate]
    omega
  have hlength : (tagKey m v keyLen).length = keyLen := by
    rw [hout, List.length_append, length_zeros]
    omega
  refine ⟨(cstr (m.suffix v.key.ptr)).take (min v.key.len (keyLen - 1)), ?_, ?_, ?_, ?_⟩
  · rw [Memory.deref_eq_take hlo hhi]
    calc (cstr (m.suffix v.key.ptr)).take (min v.key.len (keyLen - 1))
        <+: (cstr (m.suffix v.key.ptr)).take v.key.len :=
          List.take_prefix_take_left (Nat.min_le_left _ _)
      _ <+: (m.suffix v.key.ptr).take v.key.len := List.IsPrefix.take (List.takeWhile_prefix _) _
  · exact fun h => zero_notMem_cstr _ (List.mem_of_mem_take h)
  · rw [hlength]
    exact hlen
  · rw [hlength]
    exact hout

/-! ## The byte that stops it -/

section Stop

variable {m : Memory} {b : Bytes}

/-- The data size is recorded where it is encoded. -/
theorem dataSize_layout {o : ℕ} {t : Transaction} {rest : Bytes}
    (hd : b.drop o = transaction.encode t ++ rest) (old : ℕ → ParserTag) :
    ∃ p rest', (layout m o t old).dataSize = elementAt m p t.dataSize ∧
      b.drop p = element.encode t.dataSize ++ rest' := by
  rw [transaction_encode] at hd
  simp only [← List.append_assoc] at hd
  rw [List.append_assoc, List.append_assoc _ (element.encode t.dataSize)] at hd
  refine ⟨_, _, ?_, drop_add_of_drop_eq hd⟩
  simp only [layout, tagList_encode, List.length_append]
  congr 1
  omega

/-- The first length byte of a short element is zero. -/
theorem read_length_of_short {p : ℕ} {x rest : Bytes} (hw : b <+: m.bytes)
    (hd : b.drop p = element.encode x ++ rest) (hx : x.length < 256) :
    m.read (m.base + p) = some 0 ∧ p < b.length := by
  obtain ⟨tail, htail⟩ := hw
  have hhigh : (element.encode x ++ rest)[0]? = some 0 := by
    rw [element_encode]
    show some (UInt8.ofNat (x.length / 256)) = some 0
    rw [Nat.div_eq_of_lt hx]
    rfl
  rw [← hd, List.getElem?_drop, Nat.add_zero] at hhigh
  have hp : p < b.length := (List.getElem?_eq_some_iff.mp hhigh).1
  refine ⟨?_, hp⟩
  rw [Memory.read, if_pos (by omega), Nat.add_sub_cancel_left, ← htail,
    List.getElem?_append_left hp, hhigh]

end Stop

section Accepted

variable {zx : ZxFormat} {m : Memory} {st : CryptoStore} {dataLen : ℕ} {s s' : ParserState}

/-- What is known of the tags of a parsed transaction: their names lie in the buffer, before the
data size, whose first length byte is zero if it is short.

**Proof sketch.** In the layout of the parsed transaction the names lie before the data size, and
this one before its own length prefix. If the data size is short, the high byte of its length is the
zero where every earlier C string ends. -/
theorem name_of_parserParse (hmap : dataLen ≤ m.bytes.length)
    (hparse : (parserParse m m.base dataLen).exec s = (.ok (), s')) {k : ℕ}
    (hk : k < s'.tx.tagsCount) :
    m.base ≤ (s'.tx.tags k).key.ptr ∧
      (s'.tx.tags k).key.ptr + (s'.tx.tags k).key.len ≤ m.base + m.bytes.length ∧
      (s'.tx.dataSize.len < 256 → StringInside m dataLen (s'.tx.tags k).key.ptr) := by
  obtain ⟨t, rest, hd, hs⟩ := decode_of_parserParse_size hmap hparse
  have htx : s'.tx = layout m 0 t s.tx.tags := congrArg ParserState.tx hs
  have hsplit : (m.bytes.take (u16 dataLen)).drop 0 = transaction.encode t ++ rest :=
    (transaction.decode_sound _ _ _ hd).2
  have hlen : (transaction.encode t).length ≤ (m.bytes.take (u16 dataLen)).length := by
    rw [List.drop_zero] at hsplit
    rw [hsplit, List.length_append]
    omega
  have htake : (m.bytes.take (u16 dataLen)).length ≤ dataLen :=
    (List.length_take_le _ _).trans (Nat.mod_le _ _)
  obtain ⟨-, htail⟩ := consecutive_layout (m := m) 0 t s.tx.tags
  rw [← htx] at htail
  have hmem : s'.tx.tags k ∈ s'.tx.tagList := List.mem_map.mpr ⟨k, List.mem_range.mpr hk, rfl⟩
  have hname : (s'.tx.tags k).key ∈ s'.tx.tagList.flatMap fun t => [t.key, t.value] :=
    List.mem_flatMap.mpr ⟨_, hmem, List.mem_cons_self⟩
  have hpos := htail.mem (List.mem_append_left _ hname)
  have hend := (htail.mem (e := s'.tx.dataSize) (by simp [ParserTx.tailElements])).2
  have hbefore : (s'.tx.tags k).key.ptr + (s'.tx.tags k).key.len + 2 ≤ s'.tx.dataSize.ptr :=
    (List.pairwise_append.mp htail.pairwise).2.2 _ hname _ (by simp)
  have hbase : m.base ≤ (s'.tx.tags k).key.ptr := by
    have hhead := (consecutive_layout (m := m) 0 t s.tx.tags).1.le
    rw [← htx] at hhead
    omega
  refine ⟨hbase, by omega, fun hshort => ?_⟩
  obtain ⟨p, rest', hsize, hdrop⟩ := dataSize_layout (m := m) hsplit s.tx.tags
  rw [← htx] at hsize
  rw [hsize, elementAt_len] at hshort
  obtain ⟨hread, hp⟩ := read_length_of_short (List.take_prefix _ _) hdrop hshort
  rw [hsize, elementAt_ptr] at hbefore
  exact stringInside_of_zero (a := m.base + p) hbase (by omega) (by omega) hread

/-- Once the data size has been printed it is short. -/
theorem short_of_printed {tx : ParserTx} (hcount : tx.tagsCount ≤ maxNumberTags)
    (h : ((parserGetItem zx m true tx 4 0).exec tmpOut).1 = .ok ()) : tx.dataSize.len < 256 := by
  have hidx : 4 < parserGetNumItems true tx := by
    rw [numItems_expert hcount]
    omega
  obtain ⟨text, htext⟩ := (getItem_ok_iff hcount hidx 0 tmpOut).mp h
  have hsize : sizeText m tx.dataSize = .ok text := htext
  unfold sizeText at hsize
  split_ifs at hsize with hlong
  have hle : tx.dataSize.len ≤ 200 := Nat.not_lt.mp hlong
  omega

/-- A call of `parser_printTag`: the tag it gets has its name inside the buffer, followed there by
a zero byte, and for every size of the key buffer a beginning of the name is shown. -/
structure PrintsInside (zx : ZxFormat) (m : Memory) (dataLen : ℕ) (expert : Bool) (tx : ParserTx)
    (idx k : ℕ) : Prop where
  inside : StringInside m dataLen (tx.tags k).key.ptr
  shows : ∀ (page : ℕ) (o : ItemOut), 1 ≤ o.outKey.length →
    ShowsName (m.deref (tx.tags k).key) ((parserGetItem zx m expert tx idx page).exec o).2.outKey

/-- With a data size of fewer than 256 bytes, a name is printed from within the buffer.

**Proof sketch.** What follows the last tag is the length prefix of the data size. Its high byte is
zero, so the C string at the address of a name ends there at the latest. -/
theorem printsInside_of_short (hmap : dataLen ≤ m.bytes.length)
    (hparse : (parserParse m m.base dataLen).exec s = (.ok (), s')) {expert : Bool} {idx k : ℕ}
    (hk : printedTag expert s'.tx idx = some k) (hshort : s'.tx.dataSize.len < 256) :
    PrintsInside zx m dataLen expert s'.tx idx k := by
  have hcount := tagsCount_of_parserParse hmap hparse
  obtain ⟨hlo, hhi, hinside⟩ := name_of_parserParse hmap hparse (printedTag_lt hcount hk).1
  refine ⟨hinside hshort, fun page o ho => ?_⟩
  rw [exec_of_printedTag hk, exec_parserPrintTag, ItemOut.length_outKey_asked]
  exact showsName_tagKey hlo hhi ho

/-- **Tag names are read inside the buffer.** For every buffer that has been parsed, whenever the
loop of `parser_validate` in expert mode gets to an item that prints a tag, and whenever an item
that prints a tag is asked for after that function has succeeded, `%s` meets a zero byte inside the
received buffer, and the key shown is a beginning of the name and nothing else.

**Proof sketch.** In both cases the data size has been printed before, so it has at most 200
bytes, and the high byte of its length, which lies after all names, is zero. -/
theorem printTag_inside (hmap : dataLen ≤ m.bytes.length)
    (hparse : (parserParse m m.base dataLen).exec s = (.ok (), s')) :
    (∀ idx k, printedTag true s'.tx idx = some k → Reaches zx m st s'.tx idx →
      PrintsInside zx m dataLen true s'.tx idx k) ∧
    (parserValidate zx m st true s'.tx = .ok () → ∀ expert idx k,
      printedTag expert s'.tx idx = some k → PrintsInside zx m dataLen expert s'.tx idx k) := by
  have hcount := tagsCount_of_parserParse hmap hparse
  constructor
  · intro idx k hk hreach
    have hfour : 4 < idx := by
      have hidx := (printedTag_lt hcount hk).2.2
      omega
    have hprinted := forM_eq_ok.mp hreach.2.2 4 (List.mem_range.mpr hfour)
    exact printsInside_of_short hmap hparse hk (short_of_printed hcount hprinted)
  · intro hvalid expert idx k hk
    have hfour : 4 < parserGetNumItems true s'.tx := by
      rw [numItems_expert hcount]
      omega
    have hprinted := (parserValidate_eq_ok.mp hvalid).2 4 hfour
    exact printsInside_of_short hmap hparse hk (short_of_printed hcount hprinted)

end Accepted

/-- The tag of a sample, before and after validation has finished.

**Proof sketch.** The theorem applies to what was parsed and validated. -/
theorem printTag_inside_sample :
    let m : Memory := ⟨1, transaction.encode (sampleTx [⟨ascii "n", ascii "a"⟩] [])⟩
    let tx := (sampleState (sampleTx [⟨ascii "n", ascii "a"⟩] [])).tx
    printedTag true tx 5 = some 0 ∧ Reaches sampleFormat m sampleStore tx 5 ∧
      parserValidate sampleFormat m sampleStore true tx = .ok () ∧
      PrintsInside sampleFormat m m.bytes.length true tx 5 0 := by
  intro m tx
  have ht : SampleAccepted (sampleTx [⟨ascii "n", ascii "a"⟩] []) := samples_accepted.1
  have htag : printedTag true tx 5 = some 0 := by decide +kernel
  have hvalid := parserValidate_eq_ok.mp ht.validate
  have hnum : 5 < parserGetNumItems true tx := by decide +kernel
  have hreach : Reaches sampleFormat m sampleStore tx 5 := by
    refine ⟨hvalid.1, hnum, forM_eq_ok.mpr fun j hj => hvalid.2 j ?_⟩
    exact (List.mem_range.mp hj).trans hnum
  exact ⟨htag, hreach, ht.validate,
    (printTag_inside (m := m) le_rfl ht.parse).1 5 0 htag hreach⟩

end LedgerArweave
