import LedgerArweave.Parser.Independent
import LedgerArweave.Parser.Review

set_option relaxedAutoImplicit false
set_option autoImplicit false

/-!
# No residue of earlier transactions

`parser_parse` overwrites only as many entries of the tag array as the transaction has tags; the
others are those of earlier transactions. No function that looks at the parsed object reaches them:
the last item is that of the last tag, and the digest stops there too.

## Main definitions

* `ParserTx.clip` — a parsed object without what lies past its tags.

## Main results

* `exec_parserGetItem_clip`, `parserValidate_clip`, `parserGetDigest_clip` — nothing past the tags
  is looked at.
* `parse_no_residue` — what is parsed does not depend on what has been parsed before.
-/

namespace LedgerArweave

open Fallible (exec exec_bind)

/-! ## The object without what lies past its tags -/

/-- The object with the entries past its tags cleared. -/
def ParserTx.clip (v : ParserTx) : ParserTx :=
  { v with tags := fun k => if k < v.tagsCount then v.tags k else ⟨⟨0, 0⟩, ⟨0, 0⟩⟩ }

section Clip

variable (v : ParserTx)

/-- Clipping keeps the tags below the count. -/
theorem ParserTx.tags_clip {k : ℕ} (hk : k < v.tagsCount) : v.clip.tags k = v.tags k := if_pos hk

/-- Clipping keeps the list of tags. -/
@[simp] theorem ParserTx.tagList_clip : v.clip.tagList = v.tagList :=
  List.map_congr_left fun _ hk => v.tags_clip (List.mem_range.mp hk)

/-- Clipping does not change the number of items. -/
@[simp] theorem parserGetNumItems_clip (expert : Bool) :
    parserGetNumItems expert v.clip = parserGetNumItems expert v := rfl

/-- The digest is taken of the fields and of the list of tags. -/
theorem parserGetDigest_clip (H : Bytes → Digest) (m : Memory) (digestLen : ℕ) :
    parserGetDigest H m v.clip digestLen = parserGetDigest H m v digestLen := by
  unfold parserGetDigest parserApplyDigestTags
  rw [v.tagList_clip]
  rfl

variable {v} (zx : ZxFormat) (m : Memory)

/-- **No item** is that of an entry past the tags.

**Proof sketch.** The item of a tag is one below the count, which clipping keeps; no other item
reads the array. -/
theorem exec_parserGetItem_clip (hcount : v.tagsCount ≤ maxNumberTags) (expert : Bool)
    (idx page : ℕ) (o : ItemOut) :
    exec (parserGetItem zx m expert v.clip idx page) o =
      exec (parserGetItem zx m expert v idx page) o := by
  by_cases hidx : idx < parserGetNumItems expert v
  swap
  · have hge : parserGetNumItems expert v ≤ idx := Nat.not_lt.mp hidx
    simp [parserGetItem, setKey, exec_bind, hge]
  rcases idx with _ | _ | _ | _ | _ | j
  · rfl
  · rfl
  · rfl
  · rfl
  · rfl
  · rw [exec_parserGetItem_extra zx m v j hidx, exec_parserGetItem_extra zx m v.clip j hidx]
    by_cases hroot : j + 5 = 5 ∧ v.dataRoot.len ≠ 0
    · have hroot' : j + 5 = 5 ∧ v.clip.dataRoot.len ≠ 0 := hroot
      rw [getExtraItem, getExtraItem, if_pos hroot, if_pos hroot']
      rfl
    · obtain ⟨k, hk, rfl⟩ := exists_tag hcount hidx hroot
      have hmax := lt_of_lt_of_le hk hcount
      have hclip := @getExtraItem_tag zx m v.clip k hmax page
      rw [show dataRootNumUiItems v.clip = dataRootNumUiItems v from rfl, v.tags_clip hk] at hclip
      rw [hclip, getExtraItem_tag zx m hmax]

/-- Validation does not look at the tags past the count. -/
theorem parserValidate_clip (hcount : v.tagsCount ≤ maxNumberTags) (st : CryptoStore)
    (expert : Bool) : parserValidate zx m st expert v.clip = parserValidate zx m st expert v := by
  have howner : validateTx m st v.clip = validateTx m st v := by
    unfold validateTx checkOwnerPart
    rfl
  unfold parserValidate
  rw [howner, parserGetNumItems_clip]
  simp only [exec_parserGetItem_clip zx m hcount]

end Clip

/-! ## Parsing over different residues -/

/-- Without what lies past the tags, the object does not depend on the entries there were. -/
theorem clip_layout (m : Memory) (o : ℕ) (t : Transaction) (old old' : ℕ → ParserTag) :
    (layout m o t old).clip = (layout m o t old').clip := by
  obtain ⟨o₁, htags, ho₁⟩ := tagList_layout (m := m) o t old
  obtain ⟨o₂, htags', ho₂⟩ := tagList_layout (m := m) o t old'
  rw [ho₁, ← ho₂, ← htags'] at htags
  have hentries : ∀ k < t.tags.length, (layout m o t old).tags k = (layout m o t old').tags k :=
    fun k hk => List.map_inj_left.mp htags k (List.mem_range.mpr hk)
  have hfun : (layout m o t old).clip.tags = (layout m o t old').clip.tags := by
    funext k
    by_cases hk : k < t.tags.length
    · rw [ParserTx.tags_clip _ hk, ParserTx.tags_clip _ hk, hentries k hk]
    · exact (if_neg hk).trans (if_neg hk).symm
  exact congrArg (fun tags => { (layout m o t old).clip with tags := tags }) hfun

/-- **No residue**: whatever two states earlier parses have left, parsing a buffer gives the same
result, and if it succeeds, validation, the number of items, every page of every item in buffers of
any size and the digest are the same, in both display modes.

**Proof sketch.** The result is decided by the bytes. If the parse succeeds, both runs leave the
layout of the decoded transaction, except for the entries past the tags; clipping makes them equal,
and nothing that is computed from the object looks there. -/
theorem parse_no_residue (H : Bytes → Digest) (zx : ZxFormat) (m : Memory) {dataLen : ℕ}
    (hmap : dataLen ≤ m.bytes.length) (s₀ s₀' : ParserState) :
    let run := (parserParse m m.base dataLen).exec s₀
    let run' := (parserParse m m.base dataLen).exec s₀'
    run.1 = run'.1 ∧
      (run.1 = .ok () →
        (∀ st expert, parserValidate zx m st expert run.2.tx =
          parserValidate zx m st expert run'.2.tx) ∧
        (∀ expert, parserGetNumItems expert run.2.tx = parserGetNumItems expert run'.2.tx) ∧
        (∀ expert idx page out, (parserGetItem zx m expert run.2.tx idx page).exec out =
          (parserGetItem zx m expert run'.2.tx idx page).exec out) ∧
        ∀ digestLen, parserGetDigest H m run.2.tx digestLen =
          parserGetDigest H m run'.2.tx digestLen) := by
  intro run run'
  have hsame : run.1 = run'.1 := parserParse_result_eq rfl Iff.rfl dataLen s₀ s₀'
  refine ⟨hsame, fun hok => ?_⟩
  have hparse : (parserParse m m.base dataLen).exec s₀ = (.ok (), run.2) := Prod.ext hok rfl
  have hparse' : (parserParse m m.base dataLen).exec s₀' = (.ok (), run'.2) :=
    Prod.ext (hsame.symm.trans hok) rfl
  have hcount := tagsCount_of_parserParse hmap hparse
  have hcount' := tagsCount_of_parserParse hmap hparse'
  have hclip : run.2.tx.clip = run'.2.tx.clip := by
    obtain ⟨t, rest, hd, hs⟩ := decode_of_parserParse_size hmap hparse
    obtain ⟨t', rest', hd', hs'⟩ := decode_of_parserParse_size hmap hparse'
    rw [hd] at hd'
    obtain ⟨rfl, -⟩ := Prod.mk.inj (Option.some.inj hd')
    rw [hs, hs']
    exact clip_layout m 0 t _ _
  refine ⟨fun st expert => ?_, fun expert => ?_, fun expert idx page out => ?_, fun len => ?_⟩
  · rw [← parserValidate_clip zx m hcount, hclip, parserValidate_clip zx m hcount']
  · rw [← parserGetNumItems_clip, hclip, parserGetNumItems_clip]
  · rw [← exec_parserGetItem_clip zx m hcount, hclip, exec_parserGetItem_clip zx m hcount']
  · rw [← parserGetDigest_clip, hclip, parserGetDigest_clip]

/-- A transaction without tags, parsed before anything else and after one with a tag, has one
number of items.

**Proof sketch.** The earlier parse leaves a tag in the array. -/
theorem parse_no_residue_sample :
    let blob := transaction.encode (sampleTx [] [])
    let tagged := sampleState (sampleTx [⟨ascii "n", ascii "a"⟩] [])
    parserGetNumItems true (parseBuffer 1 blob .zero).2.tx =
      parserGetNumItems true (parseBuffer 1 blob tagged).2.tx := by
  intro blob tagged
  have hsame (b : Bytes) (hok : (parseBuffer 1 b .zero).1 = .ok ()) :
      parserGetNumItems true (parseBuffer 1 b .zero).2.tx =
        parserGetNumItems true (parseBuffer 1 b tagged).2.tx :=
    ((parse_no_residue (fun _ => .zero) sampleFormat ⟨1, b⟩ le_rfl .zero tagged).2 hok).2.1 true
  have hvalid : transaction.Valid (sampleTx [] []) :=
    sampleTx_valid ⟨by decide, by simp⟩ (by decide)
  have hlen : blob.length < 65536 := by decide +kernel
  have haccept := parserParse_accept (m := ⟨1, blob⟩) Nat.one_pos (List.prefix_refl _) hlen
    (transaction.decode_encode_self hvalid) .zero
  exact hsame blob (congrArg Prod.fst haccept)

end LedgerArweave
