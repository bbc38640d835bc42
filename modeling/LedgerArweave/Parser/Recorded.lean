import LedgerArweave.Lib.Cells
import LedgerArweave.Parser.Unambiguous

set_option relaxedAutoImplicit false
set_option autoImplicit false

/-!
# What a parse leaves behind

The parser stores lengths, addresses and the number of tags as it meets them, before it knows
whether the transaction will be accepted. What it has stored when it stops is a list of assignments
to members of `parser_tx_obj` that can be read off the received bytes alone: the length of an
element once two bytes are there, its address once that many bytes follow, and nothing behind an
element that is cut off or refused.

## Main definitions

* `Slot`, `Member`, `members` — the elements of `parser_tx_obj` and the members they consist of.
* `recorded` — what a parse of the received bytes stores.

## Main results

* `parserParse_tx` — the object after a parse, whether or not it is accepted.
* `nodup_recorded` — no member is stored twice.
* `recorded_eq_nil_of_zero` — a parse that has stored anything does not leave a cleared object.
-/

namespace LedgerArweave

open Fallible

/-! ## The members of the object -/

/-- The elements of a `parser_tx_t`. -/
inductive Slot where
  | format
  | owner
  | target
  | quantity
  | reward
  | lastTx
  | tagKey (i : ℕ)
  | tagValue (i : ℕ)
  | dataSize
  | dataRoot
deriving DecidableEq

namespace Slot

/-- The pointer to an element. -/
def ref : Slot → ElementRef
  | format => .format
  | owner => .owner
  | target => .target
  | quantity => .quantity
  | reward => .reward
  | lastTx => .lastTx
  | tagKey i => .tagKey i
  | tagValue i => .tagValue i
  | dataSize => .dataSize
  | dataRoot => .dataRoot

/-- The element itself. -/
def get (tx : ParserTx) : Slot → ParserElement
  | format => tx.format
  | owner => tx.owner
  | target => tx.target
  | quantity => tx.quantity
  | reward => tx.reward
  | lastTx => tx.lastTx
  | tagKey i => (tx.tags i).key
  | tagValue i => (tx.tags i).value
  | dataSize => tx.dataSize
  | dataRoot => tx.dataRoot

/-- The position of an element in the order in which the elements are read. The number of tags
stands between those of `lastTx` and of the first tag. -/
def rank : Slot → ℕ
  | format => 0
  | owner => 1
  | target => 2
  | quantity => 3
  | reward => 4
  | lastTx => 5
  | tagKey i => 7 + 2 * i
  | tagValue i => 7 + 2 * i + 1
  | dataSize => 7 + 2 * maxNumberTags
  | dataRoot => 7 + 2 * maxNumberTags + 1

variable (v : Slot) (f : ParserElement → ParserElement) (tx : ParserTx)

/-- A slot is a place for an element. -/
theorem lawful_ref : v.ref.Lawful := by
  intro f g
  cases v <;> funext tx <;> simp [ref, ElementRef.format, ElementRef.owner, ElementRef.target,
    ElementRef.quantity, ElementRef.reward, ElementRef.lastTx, ElementRef.tagKey,
    ElementRef.tagValue, ElementRef.dataSize, ElementRef.dataRoot]

/-- An updated slot holds the update. -/
theorem get_update : get (v.ref.update f tx) v = f (get tx v) := by
  cases v with
  | tagKey i => simp [get, ref, ElementRef.tagKey]
  | tagValue i => simp [get, ref, ElementRef.tagValue]
  | _ => rfl

variable {v}

/-- The other slots are left alone.

**Proof sketch.** Slots are different members, or different entries of the array. -/
theorem get_update_of_ne {v' : Slot} (h : v' ≠ v) : get (v.ref.update f tx) v' = get tx v' := by
  cases v with
  | tagKey i =>
    cases v' with
    | tagKey j =>
      have hne : j ≠ i := fun hij => h (congrArg tagKey hij)
      simp [get, ref, ElementRef.tagKey, hne]
    | tagValue j => by_cases hij : j = i <;> simp [get, ref, ElementRef.tagKey, hij]
    | _ => rfl
  | tagValue i =>
    cases v' with
    | tagKey j => by_cases hij : j = i <;> simp [get, ref, ElementRef.tagValue, hij]
    | tagValue j =>
      have hne : j ≠ i := fun hij => h (congrArg tagValue hij)
      simp [get, ref, ElementRef.tagValue, hne]
    | _ => rfl
  | _ => cases v' <;> first | rfl | exact absurd rfl h

variable {f} {tx} in
/-- Updating a slot with what it holds changes nothing. -/
theorem update_self (h : f (get tx v) = get tx v) : v.ref.update f tx = tx := by
  cases v <;> simp only [get] at h <;>
    simp [ref, ElementRef.format, ElementRef.owner, ElementRef.target, ElementRef.quantity,
      ElementRef.reward, ElementRef.lastTx, ElementRef.tagKey, ElementRef.tagValue,
      ElementRef.dataSize, ElementRef.dataRoot, h]

/-- Slots do not overlap the number of tags. -/
@[simp] theorem tagsCount_update (v : Slot) : (v.ref.update f tx).tagsCount = tx.tagsCount := by
  cases v <;> rfl

/-- The number of tags does not overlap the slots. -/
@[simp] theorem get_tagsCount (n : ℕ) (v : Slot) : get { tx with tagsCount := n } v = get tx v := by
  cases v <;> rfl

end Slot

/-- The members of a `parser_tx_t`. -/
inductive Member where
  | len (v : Slot)
  | ptr (v : Slot)
  | tagsCount
deriving DecidableEq

namespace Member

/-- The value of a member. -/
def get (tx : ParserTx) : Member → ℕ
  | len v => (Slot.get tx v).len
  | ptr v => (Slot.get tx v).ptr
  | tagsCount => tx.tagsCount

/-- The assignment of a member. -/
def set (n : ℕ) (tx : ParserTx) : Member → ParserTx
  | len v => v.ref.update (fun x => { x with len := n }) tx
  | ptr v => v.ref.update (fun x => { x with ptr := n }) tx
  | tagsCount => { tx with tagsCount := n }

/-- The position of a member in the order in which the members are stored. -/
def rank : Member → ℕ
  | len v => v.rank
  | ptr v => v.rank
  | tagsCount => 6

/-- A member that is set holds the number. -/
theorem get_set (i : Member) (n : ℕ) (tx : ParserTx) : get (set n tx i) i = n := by
  cases i with
  | len v => rw [set, get, Slot.get_update]
  | ptr v => rw [set, get, Slot.get_update]
  | tagsCount => rfl

/-- Setting a member leaves the other ones alone.

**Proof sketch.** By the kinds of the two members: lengths, addresses and the number of tags do not
overlap, nor do those of different slots. -/
theorem get_set_of_ne {i j : Member} (n : ℕ) (tx : ParserTx) (h : j ≠ i) :
    get (set n tx i) j = get tx j := by
  have hslot : ∀ (v v' : Slot) (f : ParserElement → ParserElement) (field : ParserElement → ℕ),
      (v' = v → ∀ x, field (f x) = field x) →
      field (Slot.get (v.ref.update f tx) v') = field (Slot.get tx v') := by
    intro v v' f field hf
    by_cases hv : v' = v
    · subst hv
      rw [Slot.get_update, hf rfl]
    · rw [Slot.get_update_of_ne _ _ hv]
  cases i with
  | len v =>
    cases j with
    | len v' => exact hslot v v' _ ParserElement.len fun hv => absurd (congrArg len hv) h
    | ptr v' => exact hslot v v' _ ParserElement.ptr fun _ _ => rfl
    | tagsCount => exact Slot.tagsCount_update _ _ _
  | ptr v =>
    cases j with
    | len v' => exact hslot v v' _ ParserElement.len fun _ _ => rfl
    | ptr v' => exact hslot v v' _ ParserElement.ptr fun hv => absurd (congrArg ptr hv) h
    | tagsCount => exact Slot.tagsCount_update _ _ _
  | tagsCount =>
    cases j with
    | len v => exact congrArg ParserElement.len (Slot.get_tagsCount tx n v)
    | ptr v => exact congrArg ParserElement.ptr (Slot.get_tagsCount tx n v)
    | tagsCount => exact absurd rfl h

/-- Setting a member to what it holds changes nothing. -/
theorem set_get (i : Member) (tx : ParserTx) : set (get tx i) tx i = tx := by
  cases i with
  | len v => exact Slot.update_self rfl
  | ptr v => exact Slot.update_self rfl
  | tagsCount => rfl

end Member

/-- The object as the cells its members are. -/
def members : Cells Member ℕ ParserTx where
  get i tx := Member.get tx i
  set i n tx := Member.set n tx i
  get_set := Member.get_set
  get_set_of_ne := Member.get_set_of_ne
  set_get := Member.set_get

/-! ## What the bytes say is stored -/

/-- The assignments made by reading from a given offset on. -/
abbrev Recording := ℕ → List (Member × ℕ)

section Recording

variable (m : Memory) (b : Bytes)

/-- An element: its length, if it can be read, and its address, if as many bytes follow. -/
def recordElement (v : Slot) : Recording := fun o =>
  match be16.decode (b.drop o) with
  | none => []
  | some (n, rest) =>
    (.len v, n) :: if n ≤ rest.length then [(.ptr v, m.base + (o + 2))] else []

/-- What `w` records, and behind it what `w'` does, provided that there is a value of the codec in
front. -/
def Recording.andThen {α : Type} (w : Recording) (c : Codec UInt8 α) (w' : Recording) :
    Recording := fun o =>
  w o ++ match c.decode (b.drop o) with
    | none => []
    | some (x, _) => w' (o + (c.encode x).length)

/-- A tag: its key, and behind it its value. -/
def recordTag (i : ℕ) : Recording :=
  (recordElement m b (.tagKey i)).andThen b element (recordElement m b (.tagValue i))

/-- So many tags from the `i`-th on. -/
def recordTags : ℕ → ℕ → Recording
  | 0, _ => fun _ => []
  | k + 1, i => (recordTag m b i).andThen b tag (recordTags k (i + 1))

/-- The number of tags, and the tags if there are not too many. -/
def recordTagList : Recording := fun o =>
  match be16.decode (b.drop o) with
  | none => []
  | some (n, _) =>
    (.tagsCount, n) :: if n ≤ maxNumberTags then recordTags m b n 0 (o + 2) else []

/-- A transaction. Nothing is stored behind a format other than `"2"` and an owner of another
length than `RSA_MODULUS_LEN`. -/
def recordTransaction : Recording :=
  (recordElement m b .format).andThen b (element.restrict fun f => f = formatTwo) <|
  (recordElement m b .owner).andThen b (element.restrict fun x => x.length = rsaModulusLen) <|
  (recordElement m b .target).andThen b element <|
  (recordElement m b .quantity).andThen b element <|
  (recordElement m b .reward).andThen b element <|
  (recordElement m b .lastTx).andThen b element <|
  (recordTagList m b).andThen b tagList <|
  (recordElement m b .dataSize).andThen b element <|
  recordElement m b .dataRoot

end Recording

/-- The bytes the parser looks at: the length is passed on as a `uint16_t`. -/
def Memory.parsed (m : Memory) : Bytes := m.bytes.take (u16 m.bytes.length)

/-- What a parse of the received bytes stores: nothing if it is refused at once. -/
def recorded (m : Memory) : List (Member × ℕ) :=
  if m.parsed = [] ∨ m.base = 0 then [] else recordTransaction m m.parsed 0

/-! ## The parser stores what the bytes say -/

/-- Wherever it stops, the parser function `p` leaves the effect of the assignments `w`. -/
def Records (m : Memory) (b : Bytes) (p : ParserM Unit) (w : Recording) : Prop :=
  ∀ s o, Cursor m b o s.ctx → (p.exec s).2.tx = members.assign (w o) s.tx

section Records

variable {m : Memory} {b : Bytes}

/-- **Sequencing**: behind a function that refines a codec, the next one stores where that codec
decodes.

**Proof sketch.** If the codec does not decode, the first function fails and only what it has stored
is left. If it does, the second one starts behind what was decoded. -/
theorem Records.seq {α : Type} {p q : ParserM Unit} {c : Codec UInt8 α}
    {st : ℕ → α → ParserTx → ParserTx} {w w' : Recording} (hreads : Reads m b p c st)
    (hp : Records m b p w) (hq : Records m b q w') : Records m b (do p; q) (w.andThen b c w') := by
  intro s o hs
  have hfirst := hp s o hs
  rw [Recording.andThen, Cells.assign_append, ← hfirst]
  rcases hd : c.decode (b.drop o) with _ | ⟨x, rest⟩
  · obtain ⟨e, s', he, -, -⟩ := hreads.reject s o hs hd
    rw [exec_bind_error he, he]
    rfl
  · have hp := hreads.accept s o x rest hs hd
    have hmove := hs.move (decode_drop hs.offset_le hd).1 (st o x)
    rw [exec_bind_ok hp, hp]
    exact hq _ _ hmove

/-- A check stores nothing. -/
theorem Records.check {p q : ParserM Unit} {w : Recording} (hp : Records m b p w)
    (hq : ∀ s, (q.exec s).2 = s) : Records m b (do p; q) w := by
  intro s o hs
  rw [← hp s o hs, exec_bind]
  rcases hrun : p.exec s with ⟨_ | ⟨⟩, s'⟩
  · rfl
  · exact congrArg ParserState.tx (hq s')

/-- `parser_readElement` stores the length before it knows that the element fits.

**Proof sketch.** Without the two bytes of the length nothing is stored. With them the length is
stored, and the address as well if as many bytes follow. -/
theorem records_element (v : Slot) :
    Records m b (parserReadElement m v.ref) (recordElement m b v) := by
  intro s o hs
  rw [recordElement]
  rcases hn : be16.decode (b.drop o) with _ | ⟨n, rest⟩
  · rw [parserReadElement, exec_bind_error (parserReadU16_reject hs hn)]
    rfl
  · dsimp only
    by_cases hfits : n ≤ rest.length
    · have hd : element.decode (b.drop o) = some (rest.take n, rest.drop n) := by
        simp only [element, Codec.sized, hn, Option.bind_some, if_pos hfits]
      have hset : members.assign [(.len v, n), (.ptr v, m.base + (o + 2))] s.tx =
          v.ref.update (fun _ => ⟨n, m.base + (o + 2)⟩) s.tx :=
        congrFun (v.lawful_ref (fun x => { x with len := n })
          fun x => { x with ptr := m.base + (o + 2) }) s.tx
      rw [if_pos hfits, hset, (reads_element v.ref v.lawful_ref).accept s o _ _ hs hd,
        ParserState.move_tx, elementAt, List.length_take_of_le hfits]
    · rw [if_neg hfits, (exec_parserReadElement_short hs hn (Nat.lt_of_not_le hfits) v.ref).1]
      rfl

/-- Reading a tag stores its name, and then its value. -/
theorem records_tag (i : ℕ) : Records m b (parserReadTag m i) (recordTag m b i) :=
  (records_element (.tagKey i)).seq (reads_element _ (ElementRef.tagKey_lawful i))
    (records_element (.tagValue i))

/-- The loop over the tags stores them one after the other.

**Proof sketch.** Induction on the number of tags left. -/
theorem records_readTags (k i : ℕ) : Records m b (readTags m k i) (recordTags m b k i) := by
  induction k generalizing i with
  | zero => exact fun _ _ _ => rfl
  | succ k ih => exact (records_tag i).seq (reads_tag i) (ih (i + 1))

/-- Reading the format stores it, supported or not. -/
theorem records_readFormat : Records m b (readFormat m) (recordElement m b .format) := by
  apply (records_element .format).check
  intro s
  rw [exec_bind_ok (exec_get s)]
  dsimp only
  by_cases hlen : s.tx.format.len ≠ 1
  · rw [if_pos hlen]
    rfl
  · rw [if_neg hlen, exec_bind, readByte]
    cases m.read s.tx.format.ptr with
    | none => rfl
    | some c => by_cases hc : c ≠ 0x32 <;> simp [hc]

/-- Reading the owner stores it, whatever its length. -/
theorem records_readOwner : Records m b (readOwner m) (recordElement m b .owner) := by
  apply (records_element .owner).check
  intro s
  rw [exec_bind_ok (exec_get s)]
  dsimp only
  by_cases hlen : s.tx.owner.len ≠ rsaModulusLen
  · rw [if_pos hlen]
    rfl
  · rw [if_neg hlen]
    rfl

/-- The number of tags is stored before it is compared with the maximum.

**Proof sketch.** The number is read and stored first. If it is too large, nothing else is;
otherwise the tags are read from the first entry on. -/
theorem records_readTagList : Records m b (readTagList m) (recordTagList m b) := by
  intro s o hs
  rw [recordTagList]
  rcases hn : be16.decode (b.drop o) with _ | ⟨n, rest⟩
  · rw [readTagList, exec_bind_error (parserReadU16_reject hs hn)]
    rfl
  · have hs' := hs.move (parserReadU16_accept hs hn).2.1 fun tx => { tx with tagsCount := n }
    rw [exec_readTagList hs hn]
    dsimp only
    by_cases hmax : n ≤ maxNumberTags
    · rw [if_neg (Nat.not_lt.mpr hmax), if_pos hmax]
      exact records_readTags n 0 _ _ hs'
    · rw [if_pos (Nat.lt_of_not_le hmax), if_neg hmax]
      rfl

/-- **`_read` stores what the bytes say**, also where it fails.

**Proof sketch.** Functions that store what the bytes say, one behind the other: `Records.seq`. -/
theorem records_read : Records m b (read m) (recordTransaction m b) := by
  obtain ⟨-, -, hTarget, hQuantity, hReward, hLastTx, hDataSize, -⟩ := ElementRef.lawful
  have hseq := (records_readFormat (m := m) (b := b)).seq reads_readFormat <|
    records_readOwner.seq reads_readOwner <|
    (records_element .target).seq (reads_element .target hTarget) <|
    (records_element .quantity).seq (reads_element .quantity hQuantity) <|
    (records_element .reward).seq (reads_element .reward hReward) <|
    (records_element .lastTx).seq (reads_element .lastTx hLastTx) <|
    records_readTagList.seq reads_readTagList <|
    (records_element .dataSize).seq (reads_element .dataSize hDataSize) <|
    records_element .dataRoot
  exact hseq

end Records

/-- **The object after a parse**, whether or not the parse succeeds.

**Proof sketch.** A parse that is refused at once leaves the object. Otherwise `_read` starts at
offset zero of the bytes looked at. -/
theorem parserParse_tx (m : Memory) (s : ParserState) :
    ((parserParse m m.base m.bytes.length).exec s).2.tx = members.assign (recorded m) s.tx := by
  have hlen : m.parsed.length = u16 m.bytes.length := List.length_take_of_le (Nat.mod_le _ _)
  unfold recorded parserParse
  by_cases hdata : m.bytes.length < 1
  · have hempty : m.parsed = [] := by
      rw [← List.length_eq_zero_iff, hlen, u16]
      omega
    rw [if_pos hdata, if_pos (.inl hempty)]
    rfl
  · rw [if_neg hdata, ← hlen]
    by_cases hinit : m.parsed = [] ∨ m.base = 0
    · have hrefused : m.parsed.length = 0 ∨ m.base = 0 :=
        hinit.imp_left List.length_eq_zero_iff.mpr
      rw [if_pos hinit, parserInit, parserInitContext, if_pos hrefused]
      rfl
    · obtain ⟨hbytes, hbase⟩ := not_or.mp hinit
      have hcursor : Cursor m m.parsed 0 ⟨m.base, m.parsed.length, 0⟩ :=
        ⟨rfl, rfl, rfl, Nat.zero_le _, List.take_prefix _ _, hlen ▸ Nat.mod_lt _ (by decide)⟩
      have hctx := exec_parserInit (Nat.pos_of_ne_zero hbase) (List.length_pos_iff.mpr hbytes) s
      have hread := records_read { s with ctx := ⟨m.base, m.parsed.length, 0⟩ } 0 hcursor
      rw [if_neg hinit, ← hread]
      exact congrArg (fun r => r.2.tx) (exec_bind_ok hctx fun _ => read m)

/-! ## No member is stored twice -/

/-- The assignments are to different members, whose positions are from `lo` to below `hi`. -/
def Recording.Orderly (lo hi : ℕ) (w : Recording) : Prop :=
  ∀ o, ((w o).map Prod.fst).Nodup ∧ ∀ e ∈ w o, lo ≤ e.1.rank ∧ e.1.rank < hi

section Orderly

variable (m : Memory) (b : Bytes)

/-- What is stored behind other members is orderly if its positions follow theirs.

**Proof sketch.** The positions of what is stored first lie below `mid`, those of what is stored
next at or above it. -/
theorem Recording.Orderly.andThen {α : Type} {lo mid hi : ℕ} {w w' : Recording}
    (hw : w.Orderly lo mid) (c : Codec UInt8 α) (hw' : w'.Orderly mid hi) (hlo : lo ≤ mid)
    (hhi : mid ≤ hi) : (w.andThen b c w').Orderly lo hi := by
  intro o
  obtain ⟨hnodup, hrank⟩ := hw o
  have hrest : ∀ L : List (Member × ℕ), (L.map Prod.fst).Nodup →
      (∀ e ∈ L, mid ≤ e.1.rank ∧ e.1.rank < hi) → ((w o ++ L).map Prod.fst).Nodup ∧
        ∀ e ∈ w o ++ L, lo ≤ e.1.rank ∧ e.1.rank < hi := by
    intro L hL hbound
    constructor
    · rw [List.map_append, List.nodup_append]
      refine ⟨hnodup, hL, ?_⟩
      rintro i hi j hj rfl
      obtain ⟨e, he, rfl⟩ := List.mem_map.mp hi
      obtain ⟨e', he', heq⟩ := List.mem_map.mp hj
      have hbelow := (hrank e he).2
      have habove := (hbound e' he').1
      rw [heq] at habove
      omega
    · intro e he
      rcases List.mem_append.mp he with hmem | hmem
      · have := hrank e hmem
        omega
      · have := hbound e hmem
        omega
  rw [Recording.andThen]
  cases c.decode (b.drop o) with
  | none => exact hrest [] List.nodup_nil fun _ h => absurd h List.not_mem_nil
  | some p => exact hrest _ (hw' _).1 (hw' _).2

/-- An element stores its own members only, each once. -/
theorem orderly_recordElement (v : Slot) :
    (recordElement m b v).Orderly v.rank (v.rank + 1) := by
  intro o
  rw [recordElement]
  rcases be16.decode (b.drop o) with _ | ⟨n, rest⟩
  · exact ⟨List.nodup_nil, fun _ h => absurd h List.not_mem_nil⟩
  · dsimp only
    split_ifs <;> simp [Member.rank]

/-- Tags store the members of the entries of the array from the first one on, each once.

**Proof sketch.** By induction on the number of tags: those after the first one have higher
positions. -/
theorem orderly_recordTags (k i : ℕ) :
    (recordTags m b k i).Orderly (7 + 2 * i) (7 + 2 * (i + k)) := by
  induction k generalizing i with
  | zero => exact fun _ => ⟨List.nodup_nil, fun _ h => absurd h List.not_mem_nil⟩
  | succ k ih =>
    have htag : (recordTag m b i).Orderly (7 + 2 * i) (7 + 2 * (i + 1)) :=
      (orderly_recordElement m b (.tagKey i)).andThen b element
        (orderly_recordElement m b (.tagValue i)) (Nat.le_succ _) (Nat.le_succ _)
    have hrest := ih (i + 1)
    rw [Nat.add_right_comm, Nat.add_assoc] at hrest
    exact htag.andThen b tag hrest (by omega) (by omega)

/-- The list of tags stores the count and the members of the array, each once.

**Proof sketch.** The number of tags has the position before those of the array. -/
theorem orderly_recordTagList : (recordTagList m b).Orderly 6 (7 + 2 * maxNumberTags) := by
  intro o
  rw [recordTagList]
  rcases be16.decode (b.drop o) with _ | ⟨n, rest⟩
  · exact ⟨List.nodup_nil, fun _ h => absurd h List.not_mem_nil⟩
  · dsimp only
    by_cases hmax : n ≤ maxNumberTags
    · obtain ⟨hnodup, hrank⟩ := orderly_recordTags m b n 0 (o + 2)
      rw [if_pos hmax, List.map_cons, List.nodup_cons, List.forall_mem_cons]
      refine ⟨⟨?_, hnodup⟩, ⟨le_refl 6, (by decide : 6 < 7 + 2 * maxNumberTags)⟩, ?_⟩
      · intro hmem
        obtain ⟨e, he, heq⟩ := List.mem_map.mp hmem
        have habove := (hrank e he).1
        rw [heq] at habove
        exact absurd habove (by simp [Member.rank])
      · intro e he
        have := hrank e he
        omega
    · rw [if_neg hmax]
      simp [Member.rank, maxNumberTags]

/-- **No member is stored twice.**

**Proof sketch.** In the order in which they are stored, the members have increasing positions:
`Recording.Orderly.andThen`. -/
theorem nodup_recorded : ((recorded m).map Prod.fst).Nodup := by
  have helement := orderly_recordElement m m.parsed
  have htransaction : (recordTransaction m m.parsed).Orderly 0 (9 + 2 * maxNumberTags) :=
    (helement .format).andThen _ _ ((helement .owner).andThen _ _
      ((helement .target).andThen _ _ ((helement .quantity).andThen _ _
        ((helement .reward).andThen _ _ ((helement .lastTx).andThen _ _
          ((orderly_recordTagList m m.parsed).andThen _ _ ((helement .dataSize).andThen _ _
            (helement .dataRoot) (by decide) (by decide)) (by decide) (by decide))
          (by decide) (by decide)) (by decide) (by decide)) (by decide) (by decide))
      (by decide) (by decide)) (by decide) (by decide)) (by decide) (by decide)
  rw [recorded]
  split_ifs
  · exact List.nodup_nil
  · exact (htransaction 0).1

/-- **A parse that has stored anything does not leave a cleared object**: the format has a length,
or it has been given its address.

**Proof sketch.** The first thing stored is the length of the format. If it is zero, the format
fits, and its address is stored as well. -/
theorem recorded_eq_nil_of_zero {tx : ParserTx} (h : members.assign (recorded m) tx = .zero) :
    recorded m = [] := by
  have hstored : ∀ e ∈ recorded m, e.2 = 0 := by
    intro e he
    have hget := members.get_assign (nodup_recorded m) he tx
    rw [h] at hget
    rw [← hget]
    rcases e with ⟨(v | v | _), n⟩
    · cases v <;> rfl
    · cases v <;> rfl
    · rfl
  unfold recorded at hstored ⊢
  split_ifs at hstored ⊢ with hrefused
  · rfl
  · rw [recordTransaction, Recording.andThen, recordElement, List.drop_zero] at hstored ⊢
    rcases hn : be16.decode m.parsed with _ | ⟨n, rest⟩
    · have hd : (element.restrict fun f => f = formatTwo).decode m.parsed = none := by
        simp [Codec.restrict, element, Codec.sized, hn]
      rw [hd]
      rfl
    · rw [hn] at hstored
      have hlen : n = 0 := hstored (.len .format, n) (by simp)
      have haddress := hstored (.ptr .format, m.base + (0 + 2)) (by simp [hlen])
      exact absurd haddress (Nat.succ_ne_zero _)

end Orderly

end LedgerArweave
