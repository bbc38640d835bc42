import LedgerArweave.Lib.JsNumber
import LedgerArweave.Wire
import Mathlib.Data.List.GetD

set_option relaxedAutoImplicit false
set_option autoImplicit false

/-!
# Derivation paths

`serializePathv1` of the JavaScript client writes the five components of a path as 32-bit numbers
whose highest bit says that the component is hardened; `printBIP44Path` writes such numbers as a
path. The printer takes a component for hardened from bit 27 on.

## Main definitions

* `serializePathv1`, `printBIP44Path` — the client.
* `PathItem`, `pathText` — the components of a path, and the path.

## Main results

* `serializePathv1_pathText` — what is written for a path.
* `printBIP44Path_flatMap` — what is printed for the numbers of components.
* `roundTrip_iff` — the paths that are printed as they have been read.

## Implementation notes

A path is read as a list of characters, which are not split into surrogates.
-/

namespace LedgerArweave

/-! ## The client -/

/-- What the functions on paths throw: an error with a text, or the range error of a write. -/
inductive PathError where
  | error (message : String)
  | outOfRange
deriving DecidableEq

/-- `HARDENED` -/
def hardenedBit : ℕ := 0x80000000

/-- The sign of a hardened component -/
def apostrophe : Char := '\x27'

/-- A 32-bit number in four bytes, the lowest first. -/
def uint32LE (n : ℕ) : Bytes :=
  [UInt8.ofNat n, UInt8.ofNat (n / 2 ^ 8), UInt8.ofNat (n / 2 ^ 16), UInt8.ofNat (n / 2 ^ 24)]

/-- `buf.writeUInt32LE(value, …)`: the bytes written. A fraction is cut off. -/
def writeUInt32LE : JsNumber → Except PathError Bytes
  | .finite value =>
    if value < 0 ∨ 0xffffffff < value then .error .outOfRange else .ok (uint32LE ⌊value⌋.toNat)
  | .infinity _ => .error .outOfRange
  | .nan => .ok (uint32LE 0)

/-- `buf.readUInt32LE(offset)` -/
def readUInt32LE (buf : Bytes) (offset : ℕ) : ℕ :=
  (buf.getD offset 0).toNat + (buf.getD (offset + 1) 0).toNat * 2 ^ 8 +
    (buf.getD (offset + 2) 0).toNat * 2 ^ 16 + (buf.getD (offset + 3) 0).toNat * 2 ^ 24

/-- One round of the loop of `serializePathv1`. -/
def serializeChild (child : List Char) : Except PathError Bytes :=
  let hardened := child.getLast? = some apostrophe
  let value : JsNumber := if hardened then .finite hardenedBit else .finite 0
  let child := if hardened then child.dropLast else child
  let childNumber := JsNumber.ofString child
  if childNumber = .nan then
    .error (.error ("Invalid path : " ++ String.ofList child ++
      " is not a number. (e.g \"m/44'/1'/5'/0/3\")"))
  else if childNumber.ge hardenedBit then
    .error (.error "Incorrect child value (bigger or equal to 0x80000000)")
  else writeUInt32LE (value.add childNumber)

/-- `serializePathv1`, of a string. -/
def serializePathv1 (path : String) : Except PathError Bytes :=
  if path.toList.head? ≠ some 'm' then
    .error (.error "Path should start with \"m\" (e.g \"m/44'/472'/5'/0/3\")")
  else
    let pathArray := path.toList.splitOn '/'
    if pathArray.length ≠ 6 then .error (.error "Invalid path. (e.g \"m/44'/1'/5'/0/3\")")
    else (pathArray.tail.mapM serializeChild).map List.flatten

/-- `printBIP44Item`. The operator `&` is that on signed 32-bit numbers. -/
def printBIP44Item (v : ℕ) : String :=
  let hardened := v ≥ 0x8000000
  toString (BitVec.ofNat 32 v &&& 0x7fffffff#32).toInt ++
    if hardened then String.singleton apostrophe else ""

/-- `printBIP44Path` -/
def printBIP44Path (pathBytes : Bytes) : Except PathError String :=
  if pathBytes.length ≠ 20 then .error (.error "Invalid bip44 path")
  else
    let pathValue i := readUInt32LE pathBytes (4 * i)
    .ok ("m/" ++ printBIP44Item (pathValue 0) ++ "/" ++ printBIP44Item (pathValue 1) ++ "/" ++
      printBIP44Item (pathValue 2) ++ "/" ++ printBIP44Item (pathValue 3) ++ "/" ++
      printBIP44Item (pathValue 4))

/-! ## Paths -/

/-- A component of a path. -/
structure PathItem where
  index : ℕ
  hardened : Bool
  index_lt : index < 2 ^ 31

/-- A number in decimal, with the sign of a hardened component. -/
def itemChars (index : ℕ) (hardened : Bool) : List Char :=
  Nat.toDigits 10 index ++ if hardened then [apostrophe] else []

/-- A component as it is written. -/
def PathItem.chars (c : PathItem) : List Char := itemChars c.index c.hardened

/-- A component as a 32-bit number. -/
def PathItem.code (c : PathItem) : ℕ := (if c.hardened then hardenedBit else 0) + c.index

/-- A path of some components. -/
def pathOf (items : List (List Char)) : String := String.ofList (['/'].intercalate (['m'] :: items))

/-- The path of five components. -/
def pathText (cs : Fin 5 → PathItem) : String := pathOf ((List.ofFn cs).map PathItem.chars)

/-! ## Numbers in four bytes -/

/-- A component takes four bytes. -/
theorem length_uint32LE (n : ℕ) : (uint32LE n).length = 4 := rfl

/-- A number in four bytes is read back. -/
theorem readUInt32LE_uint32LE {n : ℕ} (hn : n < 2 ^ 32) (w rest : Bytes) :
    readUInt32LE (w ++ uint32LE n ++ rest) w.length = n := by
  have hget : ∀ i < 4, (w ++ uint32LE n ++ rest).getD (w.length + i) 0 =
      (uint32LE n).getD i 0 := by
    intro i hi
    rw [List.append_assoc, List.getD_append_right _ _ _ _ (Nat.le_add_right _ _),
      Nat.add_sub_cancel_left, List.getD_append _ _ _ _ hi]
  have hzero := hget 0 (by decide)
  rw [Nat.add_zero] at hzero
  rw [readUInt32LE, hzero, hget 1 (by decide), hget 2 (by decide), hget 3 (by decide)]
  simp only [uint32LE, List.getD_cons_zero, List.getD_cons_succ, UInt8.toNat_ofNat']
  omega

/-- Components take four bytes each. -/
theorem length_flatMap_uint32LE (l : List ℕ) : (l.flatMap uint32LE).length = 4 * l.length := by
  induction l with
  | nil => rfl
  | cons n l ih =>
    rw [List.flatMap_cons, List.length_append, ih, length_uint32LE, List.length_cons]
    omega

/-- Numbers written one after the other are read back by their place. -/
theorem readUInt32LE_flatMap {l : List ℕ} (hl : ∀ n ∈ l, n < 2 ^ 32) {i : ℕ} (hi : i < l.length) :
    readUInt32LE (l.flatMap uint32LE) (4 * i) = l[i] := by
  have hsplit : l.flatMap uint32LE =
      (l.take i).flatMap uint32LE ++ uint32LE l[i] ++ (l.drop (i + 1)).flatMap uint32LE := by
    conv_lhs => rw [← List.take_append_drop i l, List.drop_eq_getElem_cons hi]
    rw [List.flatMap_append, List.flatMap_cons, List.append_assoc]
  have hfront : ((l.take i).flatMap uint32LE).length = 4 * i := by
    rw [length_flatMap_uint32LE, List.length_take_of_le hi.le]
  rw [hsplit, ← hfront]
  exact readUInt32LE_uint32LE (hl _ (List.getElem_mem hi)) _ _

/-! ## The characters of a component -/

/-- The decimal digits of a number are digits. -/
theorem isDigit_toDigits {n : ℕ} {c : Char} (hc : c ∈ Nat.toDigits 10 n) : c.isDigit = true :=
  Nat.isDigit_of_mem_toDigits (by decide) (by decide) hc

/-- The sign is the last character of a hardened component, and only of these. -/
theorem getLast?_itemChars (n : ℕ) (hardened : Bool) :
    (itemChars n hardened).getLast? = some apostrophe ↔ hardened = true := by
  cases hardened with
  | true =>
    show (Nat.toDigits 10 n ++ [apostrophe]).getLast? = some apostrophe ↔ _
    rw [List.getLast?_concat]
    exact iff_of_true rfl rfl
  | false =>
    show (Nat.toDigits 10 n ++ []).getLast? = some apostrophe ↔ _
    rw [List.append_nil]
    refine iff_of_false (fun h => ?_) (by decide)
    have hdigit := isDigit_toDigits (List.mem_of_getLast? h)
    exact absurd hdigit (by decide)

/-- The characters determine whether a component is hardened. -/
theorem itemChars_inj {n : ℕ} {hardened hardened' : Bool}
    (h : itemChars n hardened = itemChars n hardened') : hardened = hardened' := by
  rw [Bool.eq_iff_iff, ← getLast?_itemChars n hardened, h, getLast?_itemChars]

/-- A component has no slash. -/
theorem slash_notMem_itemChars (n : ℕ) (hardened : Bool) : '/' ∉ itemChars n hardened := by
  intro hmem
  rcases List.mem_append.mp hmem with hdigit | hsign
  · exact absurd (isDigit_toDigits hdigit) (by decide)
  · split_ifs at hsign
    · exact absurd hsign (by decide)
    · exact absurd hsign List.not_mem_nil

/-- A path is split into its components. -/
theorem splitOn_pathOf {items : List (List Char)} (h : ∀ item ∈ items, '/' ∉ item) :
    (pathOf items).toList.splitOn '/' = ['m'] :: items := by
  rw [pathOf, String.toList_ofList]
  refine List.splitOn_intercalate '/' (fun l hl => ?_) (List.cons_ne_nil _ _)
  rcases List.mem_cons.mp hl with rfl | hitem
  · decide
  · exact h l hitem

/-! ## Writing -/

/-- The code of a component fits 32 bits: bit 31 is the apostrophe. -/
theorem PathItem.code_lt (c : PathItem) : c.code < 2 ^ 32 := by
  have hindex := c.index_lt
  unfold PathItem.code hardenedBit
  split_ifs <;> omega

/-- A number in range is written in four bytes. -/
theorem writeUInt32LE_natCast {n : ℕ} (hn : n < 2 ^ 32) :
    writeUInt32LE (.finite n) = .ok (uint32LE n) := by
  have hrange : ¬ ((n : ℚ) < 0 ∨ 0xffffffff < (n : ℚ)) := by
    rintro (h | h)
    · exact absurd h (not_lt.mpr (Nat.cast_nonneg n))
    · have hle : (n : ℚ) ≤ (0xffffffff : ℕ) := Nat.cast_le.mpr (by omega)
      exact absurd h (not_lt.mpr (by simpa using hle))
  rw [writeUInt32LE, if_neg hrange, Int.floor_natCast, Int.toNat_natCast]

/-- **What is written for a component** is its number.

**Proof sketch.** Without its apostrophe the text is the decimal number of the index, which is below
the hardened bit and is read as such. The sum with the hardened bit is below 2^32, hence a double
and not rounded. -/
theorem serializeChild_chars (c : PathItem) : serializeChild c.chars = .ok (uint32LE c.code) := by
  have hindex := c.index_lt
  have hread : JsNumber.ofString (Nat.toDigits 10 c.index) = .finite c.index :=
    JsNumber.ofString_toDigits (by omega)
  have hlast : c.chars.getLast? = some apostrophe ↔ c.hardened = true := getLast?_itemChars _ _
  have hchild : (if c.chars.getLast? = some apostrophe then c.chars.dropLast else c.chars) =
      Nat.toDigits 10 c.index := by
    unfold PathItem.chars itemChars at hlast ⊢
    cases hhardened : c.hardened with
    | true =>
      rw [hhardened] at hlast
      rw [if_pos (hlast.mpr rfl), if_pos rfl, List.dropLast_concat]
    | false =>
      rw [hhardened] at hlast
      rw [if_neg (mt hlast.mp (by decide)), if_neg (by decide), List.append_nil]
  have hsum : JsNumber.add (if c.chars.getLast? = some apostrophe then .finite hardenedBit
      else .finite 0) (.finite c.index) = .finite c.code := by
    have hround := JsNumber.ofRat_natCast (n := c.code) (c.code_lt.trans (by decide))
    have hcode : ((c.code : ℕ) : ℚ) = (if c.hardened then (hardenedBit : ℚ) else 0) + c.index := by
      unfold PathItem.code
      split_ifs <;> push_cast <;> rfl
    by_cases hhardened : c.hardened = true
    · rw [if_pos (hlast.mpr hhardened)]
      rw [if_pos hhardened] at hcode
      rw [JsNumber.add, ← hcode, hround]
    · rw [if_neg (mt hlast.mp hhardened)]
      rw [if_neg hhardened] at hcode
      rw [JsNumber.add, ← hcode, hround]
  have hsmall : (JsNumber.finite c.index).ge hardenedBit = false := by
    rw [JsNumber.ge, decide_eq_false_iff_not, not_le]
    exact Nat.cast_lt.mpr hindex
  unfold serializeChild
  dsimp only
  rw [hchild, hread, if_neg (by simp), hsmall, if_neg (by decide), hsum,
    writeUInt32LE_natCast c.code_lt]

/-- Components are written one after the other. -/
theorem mapM_serializeChild (cs : List PathItem) :
    (cs.map PathItem.chars).mapM serializeChild = .ok (cs.map fun c => uint32LE c.code) := by
  induction cs with
  | nil => rfl
  | cons c cs ih =>
    rw [List.map_cons, List.mapM_cons, serializeChild_chars, ih]
    rfl

/-- **What is written for a path** are the numbers of its components.

**Proof sketch.** Splitting the text at the slashes gives the components, since none of them has a
slash, and `serializeChild_chars` applies to each. -/
theorem serializePathv1_pathText (cs : Fin 5 → PathItem) :
    serializePathv1 (pathText cs) = .ok ((List.ofFn cs).flatMap fun c => uint32LE c.code) := by
  have hsplit : (pathText cs).toList.splitOn '/' = ['m'] :: (List.ofFn cs).map PathItem.chars := by
    apply splitOn_pathOf
    intro item hitem
    obtain ⟨c, -, rfl⟩ := List.mem_map.mp hitem
    exact slash_notMem_itemChars _ _
  have hhead : (pathText cs).toList.head? = some 'm' := by
    rw [pathText, pathOf, String.toList_ofList]
    rfl
  have hlength : (['m'] :: (List.ofFn cs).map PathItem.chars).length = 6 := by
    rw [List.length_cons, List.length_map, List.length_ofFn]
  unfold serializePathv1
  rw [if_neg (not_not.mpr hhead)]
  dsimp only
  rw [hsplit, if_neg (not_not.mpr hlength), List.tail_cons, mapM_serializeChild]
  rfl

/-! ## Printing -/

/-- What is printed for a number: the lower 31 bits, hardened from bit 27 on.

**Proof sketch.** The mask keeps the lower 31 bits, so the number is printed without a sign. -/
theorem toList_printBIP44Item {v : ℕ} (hv : v < 2 ^ 32) :
    (printBIP44Item v).toList = itemChars (v % 2 ^ 31) (v ≥ 0x8000000) := by
  have hand : (BitVec.ofNat 32 v &&& 0x7fffffff#32).toNat = v % 2 ^ 31 := by
    rw [BitVec.toNat_and, BitVec.toNat_ofNat, Nat.mod_eq_of_lt hv]
    exact Nat.and_two_pow_sub_one_eq_mod v 31
  have hlt : v % 2 ^ 31 < 2 ^ 31 := Nat.mod_lt _ (by decide)
  have hint : (BitVec.ofNat 32 v &&& 0x7fffffff#32).toInt = ((v % 2 ^ 31 : ℕ) : ℤ) := by
    rw [BitVec.toInt_eq_toNat_of_lt (by rw [hand]; omega), hand]
  have htext : toString ((v % 2 ^ 31 : ℕ) : ℤ) = Nat.repr (v % 2 ^ 31) := rfl
  unfold printBIP44Item
  dsimp only
  rw [hint, htext, String.toList_append, Nat.toList_repr, itemChars]
  by_cases hbit : v ≥ 0x8000000
  · rw [if_pos hbit, if_pos (decide_eq_true hbit)]
    rfl
  · rw [if_neg hbit, if_neg (by simpa using hbit)]
    rfl

/-- What is printed for a number, as characters. -/
def printedChars (v : ℕ) : List Char := itemChars (v % 2 ^ 31) (v ≥ 0x8000000)

/-- **What is printed** for the numbers of a path.

**Proof sketch.** The five numbers are read back from the 20 bytes, and each is printed by
`toList_printBIP44Item`. -/
theorem printBIP44Path_flatMap {v : Fin 5 → ℕ} (hv : ∀ i, v i < 2 ^ 32) :
    printBIP44Path ((List.ofFn v).flatMap uint32LE) =
      .ok (pathOf ((List.ofFn v).map printedChars)) := by
  have hfive : List.ofFn v = [v 0, v 1, v 2, v 3, v 4] := rfl
  have hread : ∀ i (hi : i < 5),
      readUInt32LE ((List.ofFn v).flatMap uint32LE) (4 * i) = v ⟨i, hi⟩ := by
    intro i hi
    have hmem : ∀ n ∈ List.ofFn v, n < 2 ^ 32 := by
      intro n hn
      obtain ⟨j, rfl⟩ := List.mem_ofFn.mp hn
      exact hv j
    rw [readUInt32LE_flatMap hmem (hi.trans_eq List.length_ofFn.symm), List.getElem_ofFn]
  have hlen : ((List.ofFn v).flatMap uint32LE).length = 20 := rfl
  unfold printBIP44Path
  rw [if_neg (not_not.mpr hlen)]
  dsimp only
  rw [hread 0 (by decide), hread 1 (by decide), hread 2 (by decide), hread 3 (by decide),
    hread 4 (by decide), hfive]
  congr 1
  apply String.toList_inj.mp
  simp [toList_printBIP44Item (hv _), pathOf, printedChars, List.intercalate]

/-! ## The round trip -/

/-- A path that is written and then printed. -/
def roundTrip (path : String) : Except PathError String :=
  (serializePathv1 path).bind printBIP44Path

/-- The number of a component is printed with its index, hardened if it is or the index has bit
27 or a higher one. -/
theorem printedChars_code (c : PathItem) :
    printedChars c.code = itemChars c.index (c.hardened || decide (0x8000000 ≤ c.index)) := by
  have hindex := c.index_lt
  have hmod : c.code % 2 ^ 31 = c.index := by
    unfold PathItem.code hardenedBit
    split_ifs <;> omega
  have hbit : decide (c.code ≥ 0x8000000) = (c.hardened || decide (0x8000000 ≤ c.index)) := by
    unfold PathItem.code hardenedBit
    cases c.hardened with
    | true => exact decide_eq_true (by simp; omega)
    | false => simp
  rw [printedChars, hmod, hbit]

/-- What a path becomes. -/
theorem roundTrip_pathText (cs : Fin 5 → PathItem) :
    roundTrip (pathText cs) = .ok (pathOf ((List.ofFn cs).map fun c => printedChars c.code)) := by
  have hcodes : List.ofFn (fun i => (cs i).code) = (List.ofFn cs).map PathItem.code := by
    rw [List.map_ofFn]
    rfl
  have hprint := printBIP44Path_flatMap (v := fun i => (cs i).code) fun i => (cs i).code_lt
  rw [hcodes, List.flatMap_map, List.map_map] at hprint
  rw [roundTrip, serializePathv1_pathText]
  exact hprint

/-- Paths of components without slashes are equal only if the components are. -/
theorem pathOf_inj {items items' : List (List Char)} (h : ∀ item ∈ items, '/' ∉ item)
    (h' : ∀ item ∈ items', '/' ∉ item) (heq : pathOf items = pathOf items') : items = items' := by
  have hsplit := splitOn_pathOf h
  rw [heq, splitOn_pathOf h'] at hsplit
  exact (List.cons.inj hsplit).2.symm

/-- **The paths that survive the round trip.** A path of five components below `2 ^ 31` is printed
as it was read exactly if every component that is not hardened is below `2 ^ 27`.

**Proof sketch.** The path is read into its numbers and these are printed, so the question is for
each component alone: it is printed with an apostrophe if it is hardened, or else if it has reached
bit 27. Paths whose components have no slash are told apart by their components. -/
theorem roundTrip_iff (cs : Fin 5 → PathItem) :
    roundTrip (pathText cs) = .ok (pathText cs) ↔
      ∀ i, (cs i).hardened = true ∨ (cs i).index < 0x8000000 := by
  have hitem : ∀ c : PathItem, printedChars c.code = c.chars ↔
      c.hardened = true ∨ c.index < 0x8000000 := by
    intro c
    rw [printedChars_code]
    constructor
    · intro h
      have hsame := itemChars_inj h
      by_contra hno
      obtain ⟨hsoft, hbig⟩ := not_or.mp hno
      rw [Bool.not_eq_true] at hsoft
      rw [hsoft, Bool.false_or, decide_eq_false_iff_not] at hsame
      omega
    · rintro (hhardened | hsmall)
      · rw [PathItem.chars, hhardened, Bool.true_or]
      · rw [PathItem.chars, decide_eq_false (by omega), Bool.or_false]
  rw [roundTrip_pathText]
  constructor
  · intro h i
    have hpaths := pathOf_inj ?_ ?_ (Except.ok.inj h)
    · exact (hitem (cs i)).mp (List.map_inj_left.mp hpaths (cs i) (List.mem_ofFn.mpr ⟨i, rfl⟩))
    · intro item hmem
      obtain ⟨c, -, rfl⟩ := List.mem_map.mp hmem
      exact slash_notMem_itemChars _ _
    · intro item hmem
      obtain ⟨c, -, rfl⟩ := List.mem_map.mp hmem
      exact slash_notMem_itemChars _ _
  · intro h
    rw [pathText]
    congr 2
    refine List.map_congr_left fun c hc => ?_
    obtain ⟨i, rfl⟩ := List.mem_ofFn.mp hc
    exact (hitem (cs i)).mpr (h i)

/-- A component that becomes hardened.

**Proof sketch.** By evaluation: the first component is bit 27 itself. -/
theorem not_roundTrip :
    let cs : Fin 5 → PathItem := fun i =>
      if i = 0 then ⟨134217728, false, by decide⟩ else ⟨0, false, by decide⟩
    pathText cs = "m/134217728/0/0/0/0" ∧
      roundTrip (pathText cs) = .ok "m/134217728'/0/0/0/0" ∧
      roundTrip (pathText cs) ≠ .ok (pathText cs) := by
  intro cs
  have htext : pathText cs = "m/134217728/0/0/0/0" := by decide +kernel
  have hprinted : roundTrip (pathText cs) = .ok "m/134217728'/0/0/0/0" := by
    rw [roundTrip_pathText]
    decide +kernel
  refine ⟨htext, hprinted, ?_⟩
  rw [hprinted, htext]
  decide

end LedgerArweave
