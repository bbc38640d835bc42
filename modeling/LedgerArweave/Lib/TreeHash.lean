import LedgerArweave.Lib.Hashed
import Mathlib.Data.List.Induction

set_option relaxedAutoImplicit false
set_option autoImplicit false

/-!
# Tagged hash trees

A tree of words and lists is hashed bottom-up. A word is hashed together with a tag that
carries its length, a list starts from the hash of a tag that carries the number of its
children and folds their hashes into an accumulator one after the other. Every inner
hash is taken of two digests next to each other.

The result binds the whole tree: two trees with the same hash are equal, or two different
words hashed for one of them collide. This needs no injectivity of the tags. A word is told
from a list because no word tag is a list tag, and a longer list from a shorter one because
no tag is as long as two digests, so tags only have to be short, which `Scheme.Fits` bounds.

## Main definitions

* `TreeHash.Item` — trees of words.
* `TreeHash.Scheme` — hash function, digests as words, and the two families of tags.
* `TreeHash.Scheme.hashItem` — the hash of a tree.
* `TreeHash.Scheme.Lawful` — what binding asks of the digests and tags.

## Main results

* `TreeHash.Scheme.hashItem_binding` — equal hashes come from equal trees or from a collision.
-/

namespace TreeHash

/-- Trees whose leaves are words. -/
inductive Item (β : Type) where
  | blob (w : List β)
  | list (items : List (Item β))

/-- The parameters of the construction. -/
structure Scheme (β δ : Type) where
  /-- The hash function. -/
  hash : List β → δ
  /-- A digest as a word. -/
  toWord : δ → List β
  /-- The tag of a word of the given length. -/
  blobTag : ℕ → List β
  /-- The tag of a list with the given number of children. -/
  listTag : ℕ → List β

namespace Scheme

variable {β δ : Type} (S : Scheme β δ)

/-- Fold a digest into the accumulator. -/
def accumulate (acc h : δ) : Hashed β δ := Hashed.hash S.hash (S.toWord acc ++ S.toWord h)

mutual

/-- The hash of a tree. -/
def hashItem : Item β → Hashed β δ
  | .blob w => do
    let tag ← Hashed.hash S.hash (S.blobTag w.length)
    let data ← Hashed.hash S.hash w
    Hashed.hash S.hash (S.toWord tag ++ S.toWord data)
  | .list items => do
    let acc ← Hashed.hash S.hash (S.listTag items.length)
    hashItems acc items

/-- Fold the hashes of some trees into an accumulator. -/
def hashItems (acc : δ) : List (Item β) → Hashed β δ
  | [] => pure acc
  | x :: xs => do
    let h ← hashItem x
    let acc ← S.accumulate acc h
    hashItems acc xs

end

/-- Folding one more tree at the end. -/
theorem hashItems_concat (acc : δ) (xs : List (Item β)) (x : Item β) :
    S.hashItems acc (xs ++ [x]) = (do
      let acc ← S.hashItems acc xs
      let h ← S.hashItem x
      S.accumulate acc h) := by
  induction xs generalizing acc with
  | nil => simp [hashItems]
  | cons y ys ih => simp [hashItems, ih]

/-- The hash of a list with `k` announced children, of which `xs` are folded in. -/
def hashList (k : ℕ) (xs : List (Item β)) : Hashed β δ := do
  let acc ← Hashed.hash S.hash (S.listTag k)
  S.hashItems acc xs

/-- A list hashes like its children folded into the accumulator of its own length. -/
theorem hashItem_list (xs : List (Item β)) :
    S.hashItem (.list xs) = S.hashList xs.length xs := by
  simp only [hashItem, hashList]

/-- The last word hashed for a list with a child: the accumulator of the children before it
next to the digest of that child. -/
def lastPair (k : ℕ) (xs : List (Item β)) (x : Item β) : List β :=
  S.toWord (S.hashList k xs).val ++ S.toWord (S.hashItem x).val

/-- The last word hashed for a blob: the digests of its tag and of its contents. -/
def blobPair (w : List β) : List β :=
  S.toWord (S.hash (S.blobTag w.length)) ++ S.toWord (S.hash w)

/-- The hash of a blob is that of its pair of digests. -/
@[simp] theorem val_hashItem_blob (w : List β) :
    (S.hashItem (.blob w)).val = S.hash (S.blobPair w) := by
  simp [hashItem, blobPair]

/-- For a blob, its tag, its contents and the pair of their digests are hashed. -/
@[simp] theorem asked_hashItem_blob (w : List β) :
    (S.hashItem (.blob w)).asked = [S.blobTag w.length, w, S.blobPair w] := by
  simp [hashItem, blobPair]

/-- The hash of an empty list is that of its tag. -/
@[simp] theorem val_hashList_nil (k : ℕ) :
    (S.hashList k ([] : List (Item β))).val = S.hash (S.listTag k) := by
  simp [hashList, hashItems]

/-- The hash of a list with children is that of the pair hashed last. -/
@[simp] theorem val_hashList_concat (k : ℕ) (xs : List (Item β)) (x : Item β) :
    (S.hashList k (xs ++ [x])).val = S.hash (S.lastPair k xs x) := by
  simp [hashList, hashItems_concat, accumulate, lastPair]

/-- For an empty list, only its tag is hashed. -/
@[simp] theorem asked_hashList_nil (k : ℕ) :
    (S.hashList k ([] : List (Item β))).asked = [S.listTag k] := by
  simp [hashList, hashItems]

/-- For a list with children, the last child is hashed behind the others, and then the pair. -/
@[simp] theorem asked_hashList_concat (k : ℕ) (xs : List (Item β)) (x : Item β) :
    (S.hashList k (xs ++ [x])).asked =
      (S.hashList k xs).asked ++ ((S.hashItem x).asked ++ [S.lastPair k xs x]) := by
  simp [hashList, hashItems_concat, accumulate, lastPair]

/-- What the binding of `hashItem` asks of the parameters, for word lengths and numbers of
children below `N`: digests are words of one length `width`, a word tag is never a list tag,
and no tag is as long as two digests. -/
structure Lawful (N width : ℕ) : Prop where
  length_toWord : ∀ d, (S.toWord d).length = width
  toWord_inj : ∀ d d', S.toWord d = S.toWord d' → d = d'
  tags_ne : ∀ m k, S.blobTag m ≠ S.listTag k
  length_blobTag : ∀ m < N, (S.blobTag m).length ≠ width + width
  length_listTag : ∀ k < N, (S.listTag k).length ≠ width + width

end Scheme

/-- All words of the tree are shorter than `N`, and all its lists have fewer than `N`
children. -/
def Item.Fits {β : Type} (N : ℕ) : Item β → Prop
  | .blob w => w.length < N
  | .list items => items.length < N ∧ ∀ x ∈ items, x.Fits N

namespace Scheme

variable {β δ : Type} {S : Scheme β δ} {N width : ℕ}

/-- Two digests next to each other determine both of them. -/
private lemma Lawful.pair_inj (hS : S.Lawful N width) {a b a' b' : δ}
    (h : S.toWord a ++ S.toWord b = S.toWord a' ++ S.toWord b') : a = a' ∧ b = b' := by
  obtain ⟨ha, hb⟩ := List.append_inj h (by rw [hS.length_toWord, hS.length_toWord])
  exact ⟨hS.toWord_inj _ _ ha, hS.toWord_inj _ _ hb⟩

/-- The last word hashed for a list has the length of two digests. -/
private lemma Lawful.length_lastPair (hS : S.Lawful N width) (k : ℕ) (xs : List (Item β))
    (x : Item β) : (S.lastPair k xs x).length = width + width := by
  rw [lastPair, List.length_append, hS.length_toWord, hS.length_toWord]

/-- The last word hashed for a blob has the length of two digests. -/
private lemma Lawful.length_blobPair (hS : S.Lawful N width) (w : List β) :
    (S.blobPair w).length = width + width := by
  rw [blobPair, List.length_append, hS.length_toWord, hS.length_toWord]

/-- A list never has the digest of a blob tag as its accumulator, unless there is a collision.

**Proof sketch.** The accumulator is the digest of the list tag, which is no blob tag, or of a
pair of digests, which has another length. -/
private lemma hashList_ne_blobTag (hS : S.Lawful N width) {m k : ℕ} (hm : m < N)
    (xs : List (Item β)) (h : (S.hashList k xs).val = S.hash (S.blobTag m)) :
    Collision S.hash ((S.hashList k xs).asked ++ [S.blobTag m]) := by
  have htag : S.blobTag m ∈ (S.hashList k xs).asked ++ [S.blobTag m] := by simp
  rcases List.eq_nil_or_concat' xs with rfl | ⟨ys, y, rfl⟩
  · rw [val_hashList_nil] at h
    exact ⟨S.listTag k, by simp, S.blobTag m, htag, (hS.tags_ne m k).symm, h⟩
  · rw [val_hashList_concat] at h
    apply collision_of_length_ne (by simp) htag h
    rw [hS.length_lastPair]
    exact (hS.length_blobTag m hm).symm

/-- A blob and a list have different hashes, unless there is a collision.

**Proof sketch.** For the empty list the list tag and the blob's pair of digests have
different lengths. Otherwise the two pairs hashed last are equal, so the accumulator of the
list is the digest of the blob's tag, which `hashList_ne_blobTag` excludes. -/
private lemma blob_ne_list (hS : S.Lawful N width) {w : List β} (hw : w.length < N) {k : ℕ}
    (hk : k < N) (xs : List (Item β))
    (h : (S.hashItem (.blob w)).val = (S.hashList k xs).val) :
    Collision S.hash ((S.hashItem (.blob w)).asked ++ (S.hashList k xs).asked) := by
  rw [val_hashItem_blob] at h
  rcases List.eq_nil_or_concat' xs with rfl | ⟨ys, y, rfl⟩
  · rw [val_hashList_nil] at h
    apply collision_of_length_ne (by simp) (by simp) h
    rw [hS.length_blobPair]
    exact (hS.length_listTag k hk).symm
  · rw [val_hashList_concat] at h
    have hws : S.blobPair w ∈
        (S.hashItem (.blob w)).asked ++ (S.hashList k (ys ++ [y])).asked := by simp
    rcases eq_or_collision hws (by simp) h with heq | hcol
    · obtain ⟨hacc, -⟩ := hS.pair_inj heq
      apply (hashList_ne_blobTag hS hw ys hacc.symm).mono
      intro z hz
      simp only [List.mem_append, List.mem_singleton] at hz
      rcases hz with hz | hz <;> simp [hz]
    · exact hcol

/-- Two blobs with the same hash are equal, or there is a collision. -/
private lemma blob_binding (hS : S.Lawful N width) {w w' : List β}
    (h : (S.hashItem (.blob w)).val = (S.hashItem (.blob w')).val) :
    w = w' ∨ Collision S.hash ((S.hashItem (.blob w)).asked ++ (S.hashItem (.blob w')).asked) := by
  rw [val_hashItem_blob, val_hashItem_blob] at h
  have hws : S.blobPair w ∈
      (S.hashItem (.blob w)).asked ++ (S.hashItem (.blob w')).asked := by simp
  rcases eq_or_collision hws (by simp) h with heq | hcol
  · exact eq_or_collision (by simp) (by simp) (hS.pair_inj heq).2
  · exact Or.inr hcol

/-- Two lists with the same hash are equal, or there is a collision, provided this is known
for their members.

**Proof sketch.** Peel the accumulators from the end. If both lists still have a child, the
pairs hashed last are equal, so the accumulators and the last children's hashes are; if only
one has, a list tag and a pair of digests have the same hash. -/
private lemma list_binding (hS : S.Lawful N width) {k m : ℕ} (hk : k < N) (hm : m < N)
    (xs ys : List (Item β))
    (hmem : ∀ x ∈ xs, ∀ y ∈ ys, (S.hashItem x).val = (S.hashItem y).val →
      x = y ∨ Collision S.hash ((S.hashItem x).asked ++ (S.hashItem y).asked))
    (h : (S.hashList k xs).val = (S.hashList m ys).val) :
    xs = ys ∨ Collision S.hash ((S.hashList k xs).asked ++ (S.hashList m ys).asked) := by
  induction xs using List.reverseRecOn generalizing ys with
  | nil =>
    rcases List.eq_nil_or_concat' ys with rfl | ⟨ys, y, rfl⟩
    · exact Or.inl rfl
    · right
      rw [val_hashList_nil, val_hashList_concat] at h
      apply collision_of_length_ne (by simp) (by simp) h
      rw [hS.length_lastPair]
      exact hS.length_listTag k hk
  | append_singleton xs x ih =>
    rcases List.eq_nil_or_concat' ys with rfl | ⟨ys, y, rfl⟩
    · right
      rw [val_hashList_nil, val_hashList_concat] at h
      apply collision_of_length_ne (by simp) (by simp) h
      rw [hS.length_lastPair]
      exact (hS.length_listTag m hm).symm
    · rw [val_hashList_concat, val_hashList_concat] at h
      have hlast : S.lastPair k xs x ∈ (S.hashList k (xs ++ [x])).asked ++
          (S.hashList m (ys ++ [y])).asked := by simp
      rcases eq_or_collision hlast (by simp) h with heq | hcol
      · obtain ⟨hacc, hchild⟩ := hS.pair_inj heq
        have hinit := ih ys (fun a ha b hb => hmem a (by simp [ha]) b (by simp [hb])) hacc
        rcases hinit with rfl | hcol
        · rcases hmem x (by simp) y (by simp) hchild with rfl | hcol
          · exact Or.inl rfl
          · refine Or.inr (hcol.mono fun z hz => ?_)
            rcases List.mem_append.mp hz with hz | hz <;> simp [hz]
        · refine Or.inr (hcol.mono fun z hz => ?_)
          rcases List.mem_append.mp hz with hz | hz <;> simp [hz]
      · exact Or.inr hcol

/-- **The hash binds the tree**: two trees with the same hash are equal, or two different
words hashed for one of them have the same hash.

**Proof sketch.** Induction on the first tree. Two blobs are compared by `blob_binding`, a
blob and a list by `blob_ne_list`, and two lists by `list_binding`, which peels the
accumulators and uses the induction hypothesis for each child. -/
theorem hashItem_binding (hS : S.Lawful N width) :
    ∀ x y : Item β, x.Fits N → y.Fits N → (S.hashItem x).val = (S.hashItem y).val →
      x = y ∨ Collision S.hash ((S.hashItem x).asked ++ (S.hashItem y).asked)
  | .blob w, .blob w', _, _, h => by
    rcases blob_binding hS h with rfl | hcol
    · exact Or.inl rfl
    · exact Or.inr hcol
  | .blob w, .list ys, hx, hy, h => by
    simp only [Item.Fits] at hx hy
    rw [hashItem_list] at h ⊢
    exact Or.inr (blob_ne_list hS hx hy.1 ys h)
  | .list xs, .blob w, hx, hy, h => by
    simp only [Item.Fits] at hx hy
    rw [hashItem_list] at h ⊢
    refine Or.inr ((blob_ne_list hS hy hx.1 xs h.symm).mono fun z hz => ?_)
    exact List.mem_append.mpr (List.mem_append.mp hz).symm
  | .list xs, .list ys, hx, hy, h => by
    simp only [Item.Fits] at hx hy
    rw [hashItem_list, hashItem_list] at h
    rw [hashItem_list, hashItem_list]
    have hmem : ∀ x ∈ xs, ∀ y ∈ ys, (S.hashItem x).val = (S.hashItem y).val →
        x = y ∨ Collision S.hash ((S.hashItem x).asked ++ (S.hashItem y).asked) :=
      fun x hx' y hy' => hashItem_binding hS x y (hx.2 x hx') (hy.2 y hy')
    rcases list_binding hS hx.1 hy.1 xs ys hmem h with rfl | hcol
    · exact Or.inl rfl
    · exact Or.inr hcol
termination_by x => sizeOf x
decreasing_by
  have := List.sizeOf_lt_of_mem hx'
  simp only [Item.list.sizeOf_spec]
  omega

end Scheme

end TreeHash
