import Mathlib.Data.List.Infix
import Mathlib.Logic.Equiv.Defs

set_option relaxedAutoImplicit false
set_option autoImplicit false

/-!
# Self-delimiting codecs

A `Codec` is a format for values of a type `α` as words over symbols of a type `β` in which
the end of a value can be told from the word itself. It consists of an encoder, a decoder
that splits a value off the front of a word, and the two laws that tie them together:
decoding undoes encoding whatever follows, and a word the decoder accepts is an encoding
followed by the remainder. Everything else said here, unique readability, prefix-freeness,
rejection of truncations and independence from what follows, is a consequence of the two.

The combinators (`prod`, `map`, `restrict`, `many`, `counted`, `sized`) build codecs for
structured values from codecs of their parts.

## Main definitions

* `Codec` — a self-delimiting format with its two laws.
* `Codec.prod`, `Codec.map`, `Codec.restrict`, `Codec.many`, `Codec.counted`,
  `Codec.sized` — pairs, change of type, side conditions, a fixed number of items, a
  counted list of items, a word preceded by its length.

## Main results

* `Codec.decode_eq_none_iff` — what the decoder rejects.
* `Codec.decode_append` — bytes after a value do not change what is decoded.
* `Codec.decode_take` — every proper prefix of an encoding is rejected.
* `Codec.encode_append_inj` — unique readability.
-/

/-- A self-delimiting format: valid values, an encoder, a decoder returning the value and
what follows it, and the two laws relating them. -/
structure Codec (β α : Type*) where
  /-- The values the format can express. -/
  Valid : α → Prop
  /-- The word of a value. -/
  encode : α → List β
  /-- Split a value off the front of a word. -/
  decode : List β → Option (α × List β)
  decode_encode : ∀ a rest, Valid a → decode (encode a ++ rest) = some (a, rest)
  decode_sound : ∀ bs a rest, decode bs = some (a, rest) → Valid a ∧ bs = encode a ++ rest

namespace Codec

variable {β α γ : Type*}

/-! ## Consequences of the two laws -/

section Laws

variable (c : Codec β α)

/-- The decoder rejects exactly the words of which no valid encoding is a prefix. -/
theorem decode_eq_none_iff {bs : List β} :
    c.decode bs = none ↔ ∀ a, c.Valid a → ¬ c.encode a <+: bs := by
  constructor
  · rintro h a ha ⟨rest, rfl⟩
    rw [c.decode_encode a rest ha] at h
    simp at h
  · intro h
    rcases hd : c.decode bs with _ | ⟨a, rest⟩
    · rfl
    · obtain ⟨ha, hbs⟩ := c.decode_sound bs a rest hd
      exact absurd ⟨rest, hbs.symm⟩ (h a ha)

/-- An encoding alone decodes to its value with nothing left. -/
theorem decode_encode_self {a : α} (ha : c.Valid a) : c.decode (c.encode a) = some (a, []) := by
  simpa using c.decode_encode a [] ha

/-- What follows a value does not influence how it is decoded. -/
theorem decode_append {bs : List β} {a : α} {rest : List β} (more : List β)
    (h : c.decode bs = some (a, rest)) : c.decode (bs ++ more) = some (a, rest ++ more) := by
  obtain ⟨ha, rfl⟩ := c.decode_sound bs a rest h
  rw [List.append_assoc]
  exact c.decode_encode a (rest ++ more) ha

/-- **Unique readability**: two valid encodings in front of the same word are equal.

**Proof sketch.** Decode the word, once as the one encoding and once as the other. -/
theorem encode_append_inj {a b : α} {r s : List β} (ha : c.Valid a) (hb : c.Valid b)
    (h : c.encode a ++ r = c.encode b ++ s) : a = b ∧ r = s := by
  have hda := c.decode_encode a r ha
  rw [h, c.decode_encode b s hb] at hda
  simp only [Option.some.injEq, Prod.mk.injEq] at hda
  exact ⟨hda.1.symm, hda.2.symm⟩

/-- **Truncations are rejected**: no proper prefix of an encoding decodes.

**Proof sketch.** If a prefix decoded to a value `a'`, appending the cut-off part would decode
to `a'` as well, so `a' = a` and the prefix is already as long as the whole encoding. -/
theorem decode_take {bs : List β} {a : α} {rest : List β} {k : ℕ}
    (h : c.decode bs = some (a, rest)) (hk : k < (c.encode a).length) :
    c.decode (bs.take k) = none := by
  rcases hd : c.decode (bs.take k) with _ | ⟨a', rest'⟩
  · rfl
  · have happ := c.decode_append (bs.drop k) hd
    rw [List.take_append_drop, h] at happ
    obtain ⟨rfl, -⟩ : a = a' ∧ rest = rest' ++ bs.drop k := by simpa using happ
    obtain ⟨-, hbs⟩ := c.decode_sound _ _ _ hd
    have hlen := congrArg List.length hbs
    simp only [List.length_take, List.length_append] at hlen
    omega

/-- The length of an accepted word is the length of the encoding plus what follows. -/
theorem length_of_decode {bs : List β} {a : α} {rest : List β}
    (h : c.decode bs = some (a, rest)) : bs.length = (c.encode a).length + rest.length := by
  obtain ⟨-, rfl⟩ := c.decode_sound bs a rest h
  exact List.length_append

end Laws

/-! ## Combinators -/

/-- A value of one format followed by a value of another. -/
def prod (c : Codec β α) (d : Codec β γ) : Codec β (α × γ) where
  Valid p := c.Valid p.1 ∧ d.Valid p.2
  encode p := c.encode p.1 ++ d.encode p.2
  decode bs :=
    (c.decode bs).bind fun p => (d.decode p.2).map fun q => ((p.1, q.1), q.2)
  decode_encode := by
    rintro ⟨a, b⟩ rest ⟨ha, hb⟩
    simp [List.append_assoc, c.decode_encode a _ ha, d.decode_encode b _ hb]
  decode_sound := by
    rintro bs ⟨a, b⟩ rest h
    simp only [Option.bind_eq_some_iff, Option.map_eq_some_iff, Prod.exists,
      Prod.mk.injEq] at h
    obtain ⟨a', r₁, h₁, b', r₂, h₂, ⟨rfl, rfl⟩, rfl⟩ := h
    obtain ⟨ha, rfl⟩ := c.decode_sound _ _ _ h₁
    obtain ⟨hb, rfl⟩ := d.decode_sound _ _ _ h₂
    exact ⟨⟨ha, hb⟩, by rw [List.append_assoc]⟩

/-- The same words, read as values of an equivalent type. -/
def map (c : Codec β α) (e : α ≃ γ) : Codec β γ where
  Valid g := c.Valid (e.symm g)
  encode g := c.encode (e.symm g)
  decode bs := (c.decode bs).map fun p => (e p.1, p.2)
  decode_encode := by
    intro g rest hg
    rw [c.decode_encode _ rest hg]
    simp
  decode_sound := by
    intro bs g rest h
    simp only [Option.map_eq_some_iff, Prod.mk.injEq, Prod.exists] at h
    obtain ⟨a, r, h, rfl, rfl⟩ := h
    simpa using c.decode_sound _ _ _ h

/-- The values of a format that satisfy a side condition; the decoder checks it. -/
def restrict (c : Codec β α) (p : α → Prop) [DecidablePred p] : Codec β α where
  Valid a := c.Valid a ∧ p a
  encode := c.encode
  decode bs := (c.decode bs).filter fun q => p q.1
  decode_encode := by
    rintro a rest ⟨ha, hp⟩
    simp [c.decode_encode a rest ha, hp]
  decode_sound := by
    intro bs a rest h
    simp only [Option.filter_eq_some_iff, decide_eq_true_eq] at h
    obtain ⟨ha, hbs⟩ := c.decode_sound _ _ _ h.1
    exact ⟨⟨ha, h.2⟩, hbs⟩

/-- Decode `n` items one after another. -/
def decodeMany (c : Codec β α) : ℕ → List β → Option (List α × List β)
  | 0, bs => some ([], bs)
  | n + 1, bs =>
    (c.decode bs).bind fun p => (decodeMany c n p.2).map fun q => (p.1 :: q.1, q.2)

/-- Decoding as many items as were encoded gives them back. -/
theorem decodeMany_encode (c : Codec β α) (as : List α) (rest : List β)
    (h : ∀ a ∈ as, c.Valid a) :
    c.decodeMany as.length (as.flatMap c.encode ++ rest) = some (as, rest) := by
  induction as with
  | nil => rfl
  | cons a as ih =>
    have ha : c.Valid a := h a (by simp)
    have has := ih fun b hb => h b (by simp [hb])
    simp [decodeMany, List.append_assoc, c.decode_encode a _ ha, has]

/-- Items decoded one after another are valid, and their encodings make up the word.

**Proof sketch.** By recursion on the number of items; each step is the soundness of the codec. -/
theorem decodeMany_sound (c : Codec β α) :
    ∀ (n : ℕ) (bs : List β) (as : List α) (rest : List β),
      c.decodeMany n bs = some (as, rest) →
        (as.length = n ∧ ∀ a ∈ as, c.Valid a) ∧ bs = as.flatMap c.encode ++ rest
  | 0, bs, as, rest, h => by
    simp only [decodeMany, Option.some.injEq, Prod.mk.injEq] at h
    obtain ⟨rfl, rfl⟩ := h
    simp
  | n + 1, bs, as, rest, h => by
    simp only [decodeMany, Option.bind_eq_some_iff, Option.map_eq_some_iff, Prod.exists,
      Prod.mk.injEq] at h
    obtain ⟨a, r, h₁, as', r', h₂, rfl, rfl⟩ := h
    obtain ⟨ha, rfl⟩ := c.decode_sound _ _ _ h₁
    obtain ⟨⟨rfl, has⟩, rfl⟩ := decodeMany_sound c n _ _ _ h₂
    refine ⟨⟨rfl, ?_⟩, by simp [List.append_assoc]⟩
    intro b hb
    rcases List.mem_cons.mp hb with rfl | hb
    · exact ha
    · exact has b hb

/-- Exactly `n` items, one after another. -/
def many (c : Codec β α) (n : ℕ) : Codec β (List α) where
  Valid as := as.length = n ∧ ∀ a ∈ as, c.Valid a
  encode as := as.flatMap c.encode
  decode := c.decodeMany n
  decode_encode := by
    rintro as rest ⟨rfl, h⟩
    exact c.decodeMany_encode as rest h
  decode_sound := c.decodeMany_sound n

/-- A list of items preceded by their number. -/
def counted (c : Codec β ℕ) (d : Codec β α) : Codec β (List α) where
  Valid as := c.Valid as.length ∧ ∀ a ∈ as, d.Valid a
  encode as := c.encode as.length ++ as.flatMap d.encode
  decode bs := (c.decode bs).bind fun p => d.decodeMany p.1 p.2
  decode_encode := by
    rintro as rest ⟨hn, h⟩
    simp [List.append_assoc, c.decode_encode _ _ hn, d.decodeMany_encode as rest h]
  decode_sound := by
    intro bs as rest h
    simp only [Option.bind_eq_some_iff, Prod.exists] at h
    obtain ⟨n, r, h₁, h₂⟩ := h
    obtain ⟨hn, rfl⟩ := c.decode_sound _ _ _ h₁
    obtain ⟨⟨rfl, has⟩, rfl⟩ := d.decodeMany_sound n _ _ _ h₂
    exact ⟨⟨hn, has⟩, by rw [List.append_assoc]⟩

/-- A word preceded by its length. -/
def sized (c : Codec β ℕ) : Codec β (List β) where
  Valid w := c.Valid w.length
  encode w := c.encode w.length ++ w
  decode bs :=
    (c.decode bs).bind fun p =>
      if p.1 ≤ p.2.length then some (p.2.take p.1, p.2.drop p.1) else none
  decode_encode := by
    intro w rest hw
    simp [List.append_assoc, c.decode_encode _ _ hw]
  decode_sound := by
    intro bs w rest h
    simp only [Option.bind_eq_some_iff, Prod.exists] at h
    obtain ⟨n, r, h₁, h₂⟩ := h
    obtain ⟨hn, rfl⟩ := c.decode_sound _ _ _ h₁
    split_ifs at h₂ with hle
    simp only [Option.some.injEq, Prod.mk.injEq] at h₂
    obtain ⟨rfl, rfl⟩ := h₂
    have hlen : (r.take n).length = n := List.length_take_of_le hle
    rw [hlen]
    exact ⟨hn, by rw [List.append_assoc, List.take_append_drop]⟩

end Codec
