import LedgerArweave.Lib.Decimal
import LedgerArweave.Parser.Coverage

set_option relaxedAutoImplicit false
set_option autoImplicit false

/-!
# The amount of a review

The quantity of a transaction is a field of any bytes. The review shows it as a decimal number
with twelve places, without the zeros at its end. The functions of `zxlib` that format it work on
the C string at the beginning of the field, so what is shown is the quantity if it is not empty
and contains no zero byte, and not otherwise: an empty field is shown as zero, and digits after a
zero byte are signed and not shown.

## Main definitions

* `ZxFormat.Amounts` — what the formatting functions do.
* `ShowsAmount` — the amount shown is the amount signed.

## Main results

* `quantityText_spec` — the text of an accepted quantity.
* `quantityText_digits` — which quantities have a text.
* `showsAmount_iff` — when the amount shown is the amount signed.
-/

namespace LedgerArweave

open Decimal (Digits IsDigit isZero)

/-! ## Formatting amounts -/

/-- A whole part and a fraction of `d` digits with the same digits as a number, apart from zeros
in front. -/
structure Pointed (d : ℕ) (number i f : Bytes) : Prop where
  whole : i ≠ []
  places : f.length = d
  digits : (i ++ f).dropWhile isZero = number.dropWhile isZero
  length : (i ++ f).length ≤ max number.length (d + 1)

/-- What `intstr_to_fpstr_inplace`, `z_str3join` and `number_inplace_trimming` do with C strings in
buffers whose lengths fit a `uint8_t`. -/
structure ZxFormat.Amounts (zx : ZxFormat) : Prop where
  /-- Other characters than digits are refused. -/
  refuse : ∀ buf d, ¬ Digits (cstr buf) → (zx.intstrToFpstrInplace buf d).2 = 0
  /-- A decimal point is inserted, and zeros where they are needed. -/
  format : ∀ buf d, 0 < d → d + 2 ≤ buf.length → buf.length < 255 → Digits (cstr buf) →
    (zx.intstrToFpstrInplace buf d).2 ≠ 0 ∧
      (zx.intstrToFpstrInplace buf d).1.length = buf.length ∧
      ∃ i f, Pointed d (cstr buf) i f ∧
        cstr (zx.intstrToFpstrInplace buf d).1 = (i ++ 0x2e :: f).take buf.length
  /-- Texts are joined if they fit. -/
  fits : ∀ buf before after,
    (zx.zStr3join buf before after).2 = true ↔
      (before ++ cstr buf ++ after).length < buf.length
  join : ∀ buf before after, 0 ∉ before → 0 ∉ after →
    (zx.zStr3join buf before after).2 = true →
    (zx.zStr3join buf before after).1.length = buf.length ∧
      cstr (zx.zStr3join buf before after).1 = before ++ cstr buf ++ after
  /-- Zeros at the end are removed but for the first places of a fraction. -/
  trim : ∀ buf n i f, (cstr buf).length < buf.length → cstr buf = i ++ 0x2e :: f → 0x2e ∉ i →
    (zx.numberInplaceTrimming buf n).length = buf.length ∧
      cstr (zx.numberInplaceTrimming buf n) =
        i ++ 0x2e :: (f.take n ++ (f.drop n).rdropWhile isZero)

namespace Pointed

variable {d : ℕ} {number i f : Bytes}

/-- Inserting a point does not change the digits' value. -/
theorem value_eq (h : Pointed d number i f) :
    Decimal.value (i ++ f) = Decimal.value number := by
  rw [← Decimal.value_dropZeros, h.digits, Decimal.value_dropZeros]

/-- What stands around the point of a number are digits.

**Proof sketch.** Apart from zeros in front, they are the digits of the number. -/
theorem isDigits (h : Pointed d number i f) (hnumber : Digits number) : Digits (i ++ f) := by
  intro c hc
  rw [← List.takeWhile_append_dropWhile (p := isZero) (l := i ++ f), h.digits] at hc
  rcases List.mem_append.mp hc with hzero | hrest
  · have hc0 : isZero c = true := List.mem_takeWhile_imp hzero
    rw [beq_iff_eq.mp hc0]
    decide
  · exact hnumber c ((List.dropWhile_suffix _).mem hrest)

/-- The number with its point moved back. -/
theorem read_trimmed (h : Pointed d number i f) (hnumber : Digits number) (n : ℕ) :
    ∃ q, Decimal.read (i ++ 0x2e :: (f.take n ++ (f.drop n).rdropWhile isZero)) = some q ∧
      q * 10 ^ d = Decimal.value number := by
  obtain ⟨hi, hf⟩ := Decimal.digits_append.mp (h.isDigits hnumber)
  have htrim : Digits (f.take n ++ (f.drop n).rdropWhile isZero) := fun c hc =>
    hf c ((Decimal.trimmed_prefix f n).mem hc)
  refine ⟨_, Decimal.read_point h.whole hi htrim, ?_⟩
  rw [Decimal.value_rdropZeros, List.take_append_drop, h.places, ← h.value_eq,
    Decimal.value_append, h.places, add_mul, div_mul_cancel₀ _ (pow_ne_zero d (by norm_num))]
  push_cast
  rfl

end Pointed

/-! ## The text of a quantity -/

section Quantity

variable {zx : ZxFormat} {m : Memory} {c : ParserElement}

/-- The buffer of `parser_printQuantity` after `MEMCPY`. -/
def quantityBuffer (m : Memory) (c : ParserElement) : Bytes :=
  overwrite (zeros uibufferLen) 0 (m.deref c)

/-- A quantity that is not refused fits the buffer. -/
theorem length_quantityBuffer (hlen : c.len ≤ uibufferLen) :
    (quantityBuffer m c).length = uibufferLen := by
  rw [quantityBuffer, length_overwrite, length_zeros]
  rwa [Memory.length_deref, length_zeros, Nat.zero_add]

/-- The C string of the buffer is that at the beginning of the field. -/
theorem cstr_quantityBuffer : cstr (quantityBuffer m c) = cstr (m.deref c) := by
  rw [quantityBuffer, overwrite_zeros, cstr_append_zeros]

/-- The text of a quantity in terms of the buffer. -/
theorem quantityText_eq : quantityText zx m c =
    if c.len > uibufferLen then .error .unexpectedError
    else
      let formatted := zx.intstrToFpstrInplace (quantityBuffer m c) coinAmountDecimalPlaces
      if formatted.2 = 0 then .error .unexpectedValue
      else
        let joined := zx.zStr3join formatted.1 coinDefaultDenomRepr []
        if joined.2 then .ok (cstr ((zx.numberInplaceTrimming joined.1 1).take uibufferLen))
        else .error .unexpectedBufferEnd :=
  rfl

/-- A text that fits the buffer, without zero bytes -/
theorem quantityText_cstr {text : Bytes} (htext : quantityText zx m c = .ok text) :
    text.length ≤ uibufferLen ∧ 0 ∉ text := by
  rw [quantityText_eq] at htext
  dsimp only at htext
  split_ifs at htext
  rw [← Except.ok.inj htext]
  exact ⟨(List.takeWhile_prefix _).length_le.trans (List.length_take_le _ _), zero_notMem_cstr _⟩

/-- The digits of a quantity with their decimal point, cut at the end of the buffer. -/
theorem exists_formatted (hzx : zx.Amounts) (hlen : c.len ≤ uibufferLen)
    (hdigits : Digits (cstr (m.deref c))) :
    let formatted := zx.intstrToFpstrInplace (quantityBuffer m c) coinAmountDecimalPlaces
    formatted.2 ≠ 0 ∧ formatted.1.length = uibufferLen ∧
      ∃ i f, Pointed coinAmountDecimalPlaces (cstr (m.deref c)) i f ∧
        cstr formatted.1 = (i ++ 0x2e :: f).take uibufferLen := by
  have hbuf := length_quantityBuffer (m := m) hlen
  have hformat := hzx.format (quantityBuffer m c) coinAmountDecimalPlaces (by decide)
    (by rw [hbuf]; decide) (by rw [hbuf]; decide) (by rwa [cstr_quantityBuffer])
  rwa [hbuf, cstr_quantityBuffer] at hformat

/-- **The text of a quantity**: the C string at the beginning of the field is a number, and the text
is that number with twelve decimal places, of which zeros at the end are not shown.

**Proof sketch.** What is refused has other characters than digits, so these are digits, and `zxlib`
puts a point among them. Joining succeeds only if the text fits the buffer, so it has not been cut,
and what trimming removes is behind the point. -/
theorem quantityText_spec (hzx : zx.Amounts) {text : Bytes}
    (htext : quantityText zx m c = .ok text) :
    Digits (cstr (m.deref c)) ∧
      ∃ i f, Pointed coinAmountDecimalPlaces (cstr (m.deref c)) i f ∧
        text = coinDefaultDenomRepr ++
          (i ++ 0x2e :: (f.take 1 ++ (f.drop 1).rdropWhile isZero)) := by
  rw [quantityText_eq] at htext
  dsimp only at htext
  split_ifs at htext with hlong hrefused hjoined
  have hlen : c.len ≤ uibufferLen := Nat.not_lt.mp hlong
  have hdigits : Digits (cstr (m.deref c)) := by
    by_contra hno
    exact hrefused (hzx.refuse _ _ (by rwa [cstr_quantityBuffer]))
  obtain ⟨-, hformatLen, i, f, hpoint, hcstr⟩ := exists_formatted hzx hlen hdigits
  have hfits := (hzx.fits _ _ _).mp hjoined
  obtain ⟨hjoinLen, hjoin⟩ := hzx.join _ _ _ (by decide +kernel) List.not_mem_nil hjoined
  -- what was joined has not been cut
  rw [hcstr] at hjoin hfits
  rw [hformatLen] at hjoinLen hfits
  have hwhole : (i ++ 0x2e :: f).take uibufferLen = i ++ 0x2e :: f := by
    refine List.take_of_length_le ?_
    simp only [List.length_append, List.length_take] at hfits ⊢
    omega
  rw [hwhole, List.append_nil, ← List.append_assoc] at hjoin hfits
  have hnoPoint : (0x2e : UInt8) ∉ coinDefaultDenomRepr ++ i := by
    have hi := (Decimal.digits_append.mp (hpoint.isDigits hdigits)).1
    rw [List.mem_append, not_or]
    exact ⟨by decide +kernel, Decimal.notMem_of_digits hi (by decide)⟩
  obtain ⟨htrimLen, htrim⟩ := hzx.trim _ 1 _ f (by rw [hjoin, hjoinLen]; exact hfits) hjoin hnoPoint
  rw [List.take_of_length_le (by rw [htrimLen, hjoinLen]), htrim, Except.ok.injEq] at htext
  exact ⟨hdigits, i, f, hpoint, by rw [← htext, List.append_assoc]⟩

/-- **Numbers** of up to 195 digits have a text.

**Proof sketch.** The formatted digits have at most two characters more than the field, so there is
room for the unit. -/
theorem quantityText_digits (hzx : zx.Amounts) (hlen : c.len ≤ 195) (hdigits : Digits (m.deref c)) :
    ∃ text, quantityText zx m c = .ok text := by
  have hcstr : cstr (m.deref c) = m.deref c :=
    cstr_of_notMem (Decimal.notMem_of_digits hdigits (by decide))
  have hle : c.len ≤ uibufferLen := hlen.trans (by decide)
  obtain ⟨hformatted, hformatLen, i, f, hpoint, htext⟩ :=
    exists_formatted hzx hle (by rwa [hcstr])
  have hshort := hpoint.length
  rw [hcstr, Memory.length_deref, List.length_append] at hshort
  have hjoined : (zx.zStr3join (zx.intstrToFpstrInplace (quantityBuffer m c)
      coinAmountDecimalPlaces).1 coinDefaultDenomRepr []).2 = true := by
    have hticker : coinDefaultDenomRepr.length = 3 := by decide +kernel
    rw [hzx.fits, htext, hformatLen, List.append_nil, List.length_append, hticker,
      List.length_take, List.length_append, List.length_cons, uibufferLen]
    have hplaces : coinAmountDecimalPlaces = 12 := rfl
    omega
  rw [quantityText_eq, if_neg (Nat.not_lt.mpr hle)]
  dsimp only
  rw [if_neg hformatted, if_pos hjoined]
  exact ⟨_, rfl⟩

end Quantity

/-! ## The amount of an accepted transaction -/

/-- **The amount shown is the amount signed**: the quantity is a string of digits, and the pages
shown are, after the denomination, a decimal number that denotes the same amount. -/
def ShowsAmount (quantity : Bytes) (shown : Shown) : Prop :=
  quantity ≠ [] ∧ Digits quantity ∧
    ∃ amount q, shown.texts.flatten = coinDefaultDenomRepr ++ amount ∧
      Decimal.read amount = some q ∧ q * 10 ^ coinAmountDecimalPlaces = Decimal.value quantity

/-- **The amount**, for every accepted transaction and every size of the value buffer of at least 2:
what is shown is what is signed exactly if the quantity is not empty and contains no zero byte.

**Proof sketch.** If the amount is shown, the quantity consists of digits. Conversely, without a
zero byte the C string is the whole field, so the text is its number by `quantityText_spec`; and the
pages make up the text, which has at most 200 characters. -/
theorem showsAmount_iff {zx : ZxFormat} (hzx : zx.Amounts) (hpages : zx.Pages) {m : Memory}
    {dataLen : ℕ} (hmap : dataLen ≤ m.bytes.length) {s s' : ParserState}
    (hparse : (parserParse m m.base dataLen).exec s = (.ok (), s')) {st : CryptoStore}
    {expert : Bool} (hvalid : parserValidate zx m st expert s'.tx = .ok ()) {outValLen : ℕ}
    (hlen : 2 ≤ outValLen) (outKeyLen : ℕ) :
    let quantity := (s'.tx.fields m).quantity
    ShowsAmount quantity (shownItem zx m expert s'.tx outKeyLen outValLen 1) ↔
      quantity ≠ [] ∧ 0 ∉ quantity := by
  intro quantity
  constructor
  · rintro ⟨hne, hdigits, -⟩
    exact ⟨hne, Decimal.notMem_of_digits hdigits (by decide)⟩
  rintro ⟨hne, hfree⟩
  have hcount := tagsCount_of_parserParse hmap hparse
  have hidx : 1 < parserGetNumItems expert s'.tx :=
    lt_of_lt_of_le (by decide) (constNumUiItems_le hcount)
  obtain ⟨text, htext⟩ := ((parserValidate_iff_texts hcount).mp hvalid).2 1 hidx
  obtain ⟨hshort, hfreeText⟩ := quantityText_cstr (c := s'.tx.quantity) htext
  obtain ⟨hdigits, i, f, hpoint, htrimmed⟩ := quantityText_spec hzx (c := s'.tx.quantity) htext
  rw [show cstr (m.deref s'.tx.quantity) = quantity from cstr_of_notMem hfree] at hdigits hpoint
  obtain ⟨q, hread, hvalue⟩ := hpoint.read_trimmed hdigits 1
  refine ⟨hne, hdigits, _, q, ?_, hread, hvalue⟩
  -- the pages of the text, at most 200 of them
  rw [shownItem_eq hpages hlen hcount hidx htext, ← htrimmed]
  refine ((pages_iff (by omega) (.inl rfl)).mpr ⟨?_, hfreeText, hshort.trans ?_⟩).2
  · rw [htrimmed]
    exact List.append_ne_nil_of_left_ne_nil (by decide +kernel) _
  · unfold uibufferLen
    omega

/-! ## Samples -/

/-- The formatting of texts and amounts. -/
def plainFormat : ZxFormat where
  pageStringExt := sampleFormat.pageStringExt
  intstrToFpstrInplace buf decimalPlaces :=
    let number := (cstr buf).dropWhile isZero
    let digits := List.replicate (decimalPlaces + 1 - number.length) 0x30 ++ number
    let point := digits.length - decimalPlaces
    let text := (digits.take point ++ 0x2e :: digits.drop point).take buf.length
    if Digits (cstr buf) then (text ++ zeros (buf.length - text.length), digits.length + 1)
    else (buf, 0)
  zStr3join buf before after :=
    let text := before ++ cstr buf ++ after
    if text.length < buf.length then (text ++ zeros (buf.length - text.length), true)
    else (buf, false)
  numberInplaceTrimming buf places :=
    let text := Decimal.whole (cstr buf) ++ 0x2e :: ((Decimal.fraction (cstr buf)).take places ++
      ((Decimal.fraction (cstr buf)).drop places).rdropWhile isZero)
    if 0x2e ∈ cstr buf then text ++ zeros (buf.length - text.length) else buf

/-- The plain format pages like the sample one. -/
theorem plainFormat_pages : plainFormat.Pages :=
  ⟨sampleFormat_pages.pageCount, sampleFormat_pages.page⟩

/-- A text in a buffer -/
theorem cstr_pad {text : Bytes} (h : 0 ∉ text) (n : ℕ) : cstr (text ++ zeros n) = text := by
  rw [cstr_append_zeros, cstr_of_notMem h]

/-- A text padded with zeros has the length of the buffer. -/
theorem length_pad {text : Bytes} {n : ℕ} (h : text.length ≤ n) :
    (text ++ zeros (n - text.length)).length = n := by
  rw [List.length_append, length_zeros]
  omega

/-- Zeros in front of the digits of a number, then its point.

**Proof sketch.** The zeros in front are dropped again, and they are as many as are missing to one
digit before the point. -/
theorem pointed_pad {number : Bytes} {d : ℕ} (hd : 0 < d) :
    let digits := List.replicate (d + 1 - (number.dropWhile isZero).length) 0x30 ++
      number.dropWhile isZero
    Pointed d number (digits.take (digits.length - d)) (digits.drop (digits.length - d)) := by
  intro digits
  have hlong : d + 1 ≤ digits.length := by
    simp only [digits, List.length_append, List.length_replicate]
    omega
  have hdrop := (List.dropWhile_suffix isZero (l := number)).length_le
  refine ⟨?_, ?_, ?_, ?_⟩
  · refine List.ne_nil_of_length_pos ?_
    rw [List.length_take]
    omega
  · rw [List.length_drop]
    omega
  · rw [List.take_append_drop]
    have hzeros : ∀ c ∈ List.replicate (d + 1 - (number.dropWhile isZero).length) (0x30 : UInt8),
        isZero c = true := by
      intro c hc
      rw [List.eq_of_mem_replicate hc]
      rfl
    rw [List.dropWhile_append_of_pos hzeros, List.dropWhile_idempotent]
  · rw [List.take_append_drop]
    simp only [digits, List.length_append, List.length_replicate]
    omega

/-- The plain format formats amounts like `zxlib`.

**Proof sketch.** Each function takes the C string of its buffer, computes a text and pads it with
zeros again, so what it leaves is read off with `cstr_append_zeros`. -/
theorem plainFormat_amounts : plainFormat.Amounts where
  refuse buf d hdigits := by
    show (if Digits (cstr buf) then _ else (buf, 0)).2 = 0
    rw [if_neg hdigits]
  format buf d hd hroom _ hdigits := by
    have hpoint := @pointed_pad (cstr buf) d hd
    obtain ⟨hi, hf⟩ := Decimal.digits_append.mp (hpoint.isDigits hdigits)
    simp only [plainFormat, if_pos hdigits]
    refine ⟨Nat.succ_ne_zero _, length_pad (List.length_take_le _ _), _, _, hpoint,
      cstr_pad (fun hzero => ?_) _⟩
    rcases List.mem_append.mp (List.mem_of_mem_take hzero) with hmem | hmem
    · exact Decimal.notMem_of_digits hi (by decide) hmem
    · rcases List.mem_cons.mp hmem with hdot | hmem
      · exact absurd hdot (by decide)
      · exact Decimal.notMem_of_digits hf (by decide) hmem
  fits buf before after := by
    simp only [plainFormat]
    split_ifs with h
    · exact iff_of_true rfl h
    · exact iff_of_false nofun h
  join buf before after hbefore hafter hjoined := by
    simp only [plainFormat] at hjoined ⊢
    split_ifs at hjoined ⊢ with hroom
    refine ⟨length_pad hroom.le, cstr_pad ?_ _⟩
    rw [List.mem_append, List.mem_append]
    rintro ((hmem | hmem) | hmem)
    · exact hbefore hmem
    · exact zero_notMem_cstr _ hmem
    · exact hafter hmem
  trim buf n i f hroom hbuf hi := by
    have hkept : i ++ 0x2e :: (f.take n ++ (f.drop n).rdropWhile isZero) <+: cstr buf := by
      rw [hbuf, List.prefix_append_right_inj, List.prefix_cons_inj]
      exact Decimal.trimmed_prefix f n
    have hdot : 0x2e ∈ cstr buf := by
      rw [hbuf]
      exact List.mem_append_right _ List.mem_cons_self
    simp only [plainFormat, if_pos hdot]
    rw [hbuf, Decimal.whole_point hi, Decimal.fraction_point hi]
    exact ⟨length_pad (hkept.length_le.trans hroom.le),
      cstr_pad (fun hzero => zero_notMem_cstr _ (hkept.mem hzero)) _⟩

/-- A transaction with the given quantity -/
def amountTx (quantity : Bytes) : Transaction := { sampleTx [] [] with quantity := quantity }

/-- A transaction that is parsed and validated under the formatting above. -/
def PlainAccepted (t : Transaction) : Prop :=
  parseBuffer 1 (transaction.encode t) .zero = (.ok (), sampleState t) ∧
    parserValidate plainFormat ⟨1, transaction.encode t⟩ sampleStore true (sampleState t).tx =
      .ok ()

/-- The conditions under which a transaction with a given quantity is accepted. -/
theorem amountTx_accepted {quantity : Bytes} (hquantity : quantity.length < 65536)
    (hlen : (transaction.encode (amountTx quantity)).length ≤ 65535)
    (hitems : ∀ idx < parserGetNumItems true (sampleState (amountTx quantity)).tx,
      ((parserGetItem plainFormat ⟨1, transaction.encode (amountTx quantity)⟩ true
        (sampleState (amountTx quantity)).tx idx 0).exec tmpOut).1 = .ok ()) :
    PlainAccepted (amountTx quantity) := by
  have hvalid : transaction.Valid (amountTx quantity) := by
    obtain ⟨hformat, howner, htags, htarget, -, hrest⟩ := (transaction_valid_iff _).mp
      (show transaction.Valid (sampleTx [] []) from sampleTx_valid ⟨by decide, nofun⟩ (by decide))
    exact (transaction_valid_iff _).mpr ⟨hformat, howner, htags, htarget, hquantity, hrest⟩
  exact ⟨sample_parse hvalid hlen, sample_validate rfl hitems⟩

/-- What is shown of the quantity -/
def shownAmount (t : Transaction) : Shown :=
  shownItem plainFormat ⟨1, transaction.encode t⟩ true (sampleState t).tx 40 40 1

/-- One and a half coins are shown. -/
theorem showsAmount_iff_sample :
    let quantity := ascii "1500000000000"
    ShowsAmount quantity (shownAmount (amountTx quantity)) := by
  intro quantity
  have ht : PlainAccepted (amountTx quantity) :=
    amountTx_accepted (by decide +kernel) (by decide +kernel) (by decide +kernel)
  have hfields : ((sampleState (amountTx quantity)).tx.fields
      ⟨1, transaction.encode (amountTx quantity)⟩).quantity = quantity :=
    congrArg Transaction.quantity sample_fields
  have hiff := showsAmount_iff plainFormat_amounts plainFormat_pages
    (m := ⟨1, transaction.encode (amountTx quantity)⟩) le_rfl ht.1 ht.2 (by decide : 2 ≤ 40) 40
  rw [hfields] at hiff
  exact hiff.mpr (by decide +kernel)

/-- An empty quantity is shown as zero, and a zero byte ends the amount that is shown.

**Proof sketch.** Both samples are computed. -/
theorem not_showsAmount :
    let empty := amountTx []
    let zeroByte := amountTx (ascii "1" ++ 0 :: ascii "000")
    (PlainAccepted empty ∧ (shownAmount empty).texts.flatten = ascii "AR 0.0" ∧
      ¬ ShowsAmount empty.quantity (shownAmount empty)) ∧
    PlainAccepted zeroByte ∧ (shownAmount zeroByte).texts.flatten = ascii "AR 0.000000000001" ∧
      ¬ ShowsAmount zeroByte.quantity (shownAmount zeroByte) := by
  refine ⟨⟨?_, ?_, ?_⟩, ?_, ?_, ?_⟩
  · exact amountTx_accepted (by decide +kernel) (by decide +kernel) (by decide +kernel)
  · decide +kernel
  · exact fun h => h.1 rfl
  · exact amountTx_accepted (by decide +kernel) (by decide +kernel) (by decide +kernel)
  · decide +kernel
  · exact fun h => absurd h.2.1 (by decide +kernel)

end LedgerArweave
