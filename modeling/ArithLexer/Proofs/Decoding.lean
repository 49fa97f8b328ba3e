import ArithLexer.Text.Utf8
import Mathlib.Data.List.Infix
import Mathlib.Tactic.SplitIfs

/-!
# What a decoder reads

A decoder that reads on may complete a character (`Completes`). Which bytes do
so is told twice: by the table of well-formed sequences (`Sequence`), which the
decoder follows from byte to byte, and by the UTF-8 form of the character, which
is the only sequence for it (`completes_idle_iff`).

From this it follows how any bytes fall into pieces: into characters and, where
none is spelled, into the longest stretches that begin one (`Malformed`).
`splits_iff` says that a decoder finds these pieces, and that no others can be
found. The strict reading accepts the UTF-8 form of a text and nothing else
(`decode?_eq_some_iff`), and the lossy one gives the text back.
-/

namespace ArithLexer.Text

open Decoder

/-! ### One byte -/

/-- A decoder that found some pieces before. -/
def Decoder.behind (found : Array (Option Char)) (d : Decoder) : Decoder :=
  ⟨found ++ d.pieces, d.state⟩

/-- A number with the bits of one more byte behind its own. -/
@[irreducible]
def addBits (bits : Nat) (b : UInt8) : Nat := bits * 64 + (b.toNat - 0x80)

theorem addBits_eq (bits : Nat) (b : UInt8) : addBits bits b = bits * 64 + (b.toNat - 0x80) := by
  unfold addBits
  rfl

/-- A byte that goes on with a character. -/
def Follows (b : UInt8) : Prop := 0x80 ≤ b.toNat ∧ b.toNat ≤ 0xBF

/-- What may come second of three bytes: nothing that has a shorter form, and no surrogate. -/
def SecondOfThree (a b : UInt8) : Prop :=
  Follows b ∧ (a.toNat = 0xE0 → 0xA0 ≤ b.toNat) ∧ (a.toNat = 0xED → b.toNat ≤ 0x9F)

/-- What may come second of four bytes: nothing that has a shorter form or lies past the last
code point. -/
def SecondOfFour (a b : UInt8) : Prop :=
  Follows b ∧ (a.toNat = 0xF0 → 0x90 ≤ b.toNat) ∧ (a.toNat = 0xF4 → b.toNat ≤ 0x8F)

/-- What the first byte of a piece leads to. -/
inductive First (a : UInt8) : Decoder → Prop
  | one : a.toNat ≤ 0x7F → First a ⟨#[some (Char.ofNat a.toNat)], .idle⟩
  | two : 0xC2 ≤ a.toNat → a.toNat ≤ 0xDF →
      First a ⟨#[], .inside 0 0x80 0xBF (a.toNat - 0xC0)⟩
  | three {low high} : 0xE0 ≤ a.toNat → a.toNat ≤ 0xEF →
      (∀ b : UInt8, low.toNat ≤ b.toNat ∧ b.toNat ≤ high.toNat ↔ SecondOfThree a b) →
      First a ⟨#[], .inside 1 low high (a.toNat - 0xE0)⟩
  | four {low high} : 0xF0 ≤ a.toNat → a.toNat ≤ 0xF4 →
      (∀ b : UInt8, low.toNat ≤ b.toNat ∧ b.toNat ≤ high.toNat ↔ SecondOfFour a b) →
      First a ⟨#[], .inside 2 low high (a.toNat - 0xF0)⟩
  | refused : 0x80 ≤ a.toNat → (a.toNat ≤ 0xC1 ∨ 0xF5 ≤ a.toNat) → First a ⟨#[none], .idle⟩

section Feed

variable {s : DecoderState} {b : UInt8} {bytes : List UInt8} {missing bits : Nat}
  {low high : UInt8}

theorem firstByte_eq (found : Array (Option Char)) (b : UInt8) :
    firstByte found b = (firstByte #[] b).behind found := by
  simp only [firstByte, apply_ite (Decoder.behind found)]
  simp [Decoder.behind]

theorem feed_inside (hb : low.toNat ≤ b.toNat ∧ b.toNat ≤ high.toNat) :
    feed ⟨#[], .inside missing low high bits⟩ b =
      match missing with
      | 0 => ⟨#[some (Char.ofNat (addBits bits b))], .idle⟩
      | n + 1 => ⟨#[], .inside n 0x80 0xBF (addBits bits b)⟩ := by
  simp only [← UInt8.le_iff_toNat_le] at hb
  simp only [feed, if_pos hb, addBits_eq]
  cases missing <;> rfl

/-- A byte that is out of bounds starts a piece of its own. -/
theorem feed_inside_of_not (hb : ¬ (low.toNat ≤ b.toNat ∧ b.toNat ≤ high.toNat)) :
    feed ⟨#[], .inside missing low high bits⟩ b = (feed ⟨#[], .idle⟩ b).behind #[none] := by
  simp only [← UInt8.le_iff_toNat_le] at hb
  simp only [feed, if_neg hb]
  exact firstByte_eq _ b

theorem bounds_of_feed (h : none ∉ (feed ⟨#[], .inside missing low high bits⟩ b).pieces) :
    low.toNat ≤ b.toNat ∧ b.toNat ≤ high.toNat := by
  by_contra hb
  rw [feed_inside_of_not hb] at h
  simp [Decoder.behind] at h

theorem first_feed (a : UInt8) : First a (feed ⟨#[], .idle⟩ a) := by
  simp only [feed, firstByte, UInt8.le_iff_toNat_le, ← UInt8.toNat_inj, UInt8.reduceToNat]
  by_cases hone : a.toNat ≤ 0x7F
  · rw [if_pos hone]
    exact .one hone
  rw [if_neg hone]
  by_cases hlow : a.toNat ≤ 0xC1
  · rw [if_pos hlow]
    exact .refused (by omega) (.inl hlow)
  rw [if_neg hlow]
  by_cases htwo : a.toNat ≤ 0xDF
  · rw [if_pos htwo]
    exact .two (by omega) htwo
  rw [if_neg htwo]
  -- the bounds are compared as numbers
  have hthree : ∀ low high : UInt8, (∀ n, low.toNat ≤ n ∧ n ≤ high.toNat ↔
      (0x80 ≤ n ∧ n ≤ 0xBF) ∧ (a.toNat = 0xE0 → 0xA0 ≤ n) ∧ (a.toNat = 0xED → n ≤ 0x9F)) →
      a.toNat ≤ 0xEF → First a ⟨#[], .inside 1 low high (a.toNat - 0xE0)⟩ :=
    fun low high hbounds hle => .three (by omega) hle fun b => hbounds b.toNat
  have hfour : ∀ low high : UInt8, (∀ n, low.toNat ≤ n ∧ n ≤ high.toNat ↔
      (0x80 ≤ n ∧ n ≤ 0xBF) ∧ (a.toNat = 0xF0 → 0x90 ≤ n) ∧ (a.toNat = 0xF4 → n ≤ 0x8F)) →
      0xF0 ≤ a.toNat → a.toNat ≤ 0xF4 → First a ⟨#[], .inside 2 low high (a.toNat - 0xF0)⟩ :=
    fun low high hbounds hge hle => .four hge hle fun b => hbounds b.toNat
  by_cases hshort : a.toNat = 0xE0
  · rw [if_pos hshort]
    exact hthree 0xA0 0xBF (by simp only [UInt8.reduceToNat]; omega) (by omega)
  rw [if_neg hshort]
  by_cases hsurrogate : a.toNat = 0xED
  · rw [if_pos hsurrogate]
    exact hthree 0x80 0x9F (by simp only [UInt8.reduceToNat]; omega) (by omega)
  rw [if_neg hsurrogate]
  by_cases hle : a.toNat ≤ 0xEF
  · rw [if_pos hle]
    exact hthree 0x80 0xBF (by simp only [UInt8.reduceToNat]; omega) hle
  rw [if_neg hle]
  by_cases hlong : a.toNat = 0xF0
  · rw [if_pos hlong]
    exact hfour 0x90 0xBF (by simp only [UInt8.reduceToNat]; omega) (by omega) (by omega)
  rw [if_neg hlong]
  by_cases hmost : a.toNat ≤ 0xF3
  · rw [if_pos hmost]
    exact hfour 0x80 0xBF (by simp only [UInt8.reduceToNat]; omega) (by omega) (by omega)
  rw [if_neg hmost]
  by_cases hlast : a.toNat = 0xF4
  · rw [if_pos hlast]
    exact hfour 0x80 0x8F (by simp only [UInt8.reduceToNat]; omega) (by omega) (by omega)
  rw [if_neg hlast]
  exact .refused (by omega) (.inr (by omega))

/-- What was found before only stands in front. -/
theorem feed_eq (found : Array (Option Char)) (s : DecoderState) (b : UInt8) :
    feed ⟨found, s⟩ b = (feed ⟨#[], s⟩ b).behind found := by
  cases s with
  | idle => exact firstByte_eq found b
  | inside missing low high bits =>
    simp only [feed]
    split
    · cases missing <;> simp [Decoder.behind]
    · rw [firstByte_eq (found.push none), firstByte_eq (#[].push none)]
      simp [Decoder.behind, ← Array.append_assoc]

/-- The pieces that a decoder finds from a state on. -/
def piecesFrom (s : DecoderState) (bytes : List UInt8) : List (Option Char) :=
  (bytes.foldl feed ⟨#[], s⟩).finish.toList

theorem finish_foldl_feed (found : Array (Option Char)) (s : DecoderState) (bytes : List UInt8) :
    (bytes.foldl feed ⟨found, s⟩).finish.toList = found.toList ++ piecesFrom s bytes := by
  induction bytes generalizing found s with
  | nil => cases s <;> simp [piecesFrom, finish]
  | cons b bytes ih =>
    simp only [piecesFrom, List.foldl_cons]
    rw [feed_eq, Decoder.behind, ih, ih]
    simp

theorem piecesFrom_cons (s : DecoderState) (b : UInt8) (bytes : List UInt8) :
    piecesFrom s (b :: bytes) =
      (feed ⟨#[], s⟩ b).pieces.toList ++ piecesFrom (feed ⟨#[], s⟩ b).state bytes :=
  finish_foldl_feed _ _ bytes

end Feed

/-! ### Characters -/

/-- A decoder in a state takes some bytes, and no fewer, for the rest of a character. -/
inductive Completes : DecoderState → List UInt8 → Char → Prop
  | last {s b c} : feed ⟨#[], s⟩ b = ⟨#[some c], .idle⟩ → Completes s [b] c
  | more {s s' b bytes c} : feed ⟨#[], s⟩ b = ⟨#[], s'⟩ → Completes s' bytes c →
      Completes s (b :: bytes) c

/-- The well-formed sequences of bytes, and the code points that they stand for. -/
inductive Sequence : List UInt8 → Nat → Prop
  | one {a} : a.toNat ≤ 0x7F → Sequence [a] a.toNat
  | two {a b} : 0xC2 ≤ a.toNat → a.toNat ≤ 0xDF → Follows b →
      Sequence [a, b] ([b].foldl addBits (a.toNat - 0xC0))
  | three {a b c} : 0xE0 ≤ a.toNat → a.toNat ≤ 0xEF → SecondOfThree a b → Follows c →
      Sequence [a, b, c] ([b, c].foldl addBits (a.toNat - 0xE0))
  | four {a b c d} : 0xF0 ≤ a.toNat → a.toNat ≤ 0xF4 → SecondOfFour a b → Follows c →
      Follows d → Sequence [a, b, c, d] ([b, c, d].foldl addBits (a.toNat - 0xF0))

section Characters

variable {s : DecoderState} {bytes more : List UInt8} {c c' : Char} {n : Nat}

theorem Completes.ne_nil (h : Completes s bytes c) : bytes ≠ [] := by
  cases h <;> simp

/-- No character is completed behind another one without a new start. -/
theorem Completes.eq_of_append (h : Completes s bytes c)
    (h' : Completes s (bytes ++ more) c') : more = [] ∧ c' = c := by
  induction h with
  | last hb =>
    cases h' with
    | last hb' => rw [hb] at hb'; cases hb'; exact ⟨rfl, rfl⟩
    | more hb' _ => rw [hb] at hb'; cases hb'
  | @more s s' b bytes c hb hrest ih =>
    rw [List.cons_append] at h'
    generalize hcons : bytes ++ more = all at h'
    cases h' with
    | last hb' => rw [hb] at hb'; cases hb'
    | more hb' hrest' =>
      rw [hb] at hb'
      cases hb'
      exact ih (hcons ▸ hrest')

/-- Inside a character the next byte has bounds of its own, and those behind it only follow. -/
theorem completes_inside_iff {missing bits : Nat} {low high : UInt8} :
    Completes (.inside missing low high bits) bytes c ↔
      ∃ b rest, bytes = b :: rest ∧ (low.toNat ≤ b.toNat ∧ b.toNat ≤ high.toNat) ∧
        rest.length = missing ∧ (∀ d ∈ rest, Follows d) ∧
        c = Char.ofNat (bytes.foldl addBits bits) := by
  induction missing generalizing low high bits bytes with
  | zero =>
    constructor
    · intro h
      cases h with
      | @last _ b _ hb =>
        have hbounds : low.toNat ≤ b.toNat ∧ b.toNat ≤ high.toNat :=
          bounds_of_feed (by rw [hb]; simp)
        rw [feed_inside hbounds] at hb
        simp only [Decoder.mk.injEq, Array.mk.injEq, List.cons.injEq, Option.some.injEq] at hb
        exact ⟨b, [], rfl, hbounds, rfl, by simp, hb.1.1.symm⟩
      | more hb _ =>
        rw [feed_inside (bounds_of_feed (by rw [hb]; simp))] at hb
        cases hb
    · rintro ⟨b, rest, rfl, hbounds, hlength, -, rfl⟩
      rw [List.eq_nil_of_length_eq_zero hlength]
      exact .last (feed_inside hbounds)
  | succ missing ih =>
    constructor
    · intro h
      cases h with
      | last hb =>
        rw [feed_inside (bounds_of_feed (by rw [hb]; simp))] at hb
        cases hb
      | @more _ _ b _ _ hb hrest =>
        have hbounds : low.toNat ≤ b.toNat ∧ b.toNat ≤ high.toNat :=
          bounds_of_feed (by rw [hb]; simp)
        rw [feed_inside hbounds] at hb
        cases hb
        obtain ⟨d, rest, rfl, hd, hlength, hfollows, hc⟩ := ih.mp hrest
        refine ⟨b, _, rfl, hbounds, by rw [List.length_cons, hlength], ?_, ?_⟩
        · exact List.forall_mem_cons.mpr ⟨hd, hfollows⟩
        · exact hc
    · rintro ⟨b, rest, rfl, hbounds, hlength, hfollows, rfl⟩
      cases rest with
      | nil => cases hlength
      | cons d rest =>
        obtain ⟨hd, hrest⟩ := List.forall_mem_cons.mp hfollows
        exact .more (feed_inside hbounds)
          (ih.mpr ⟨d, rest, rfl, hd, Nat.succ.inj hlength, hrest, rfl⟩)

/-- The decoder follows the table. -/
theorem completes_iff_sequence :
    Completes .idle bytes c ↔ ∃ n, Sequence bytes n ∧ c = Char.ofNat n := by
  constructor
  · intro h
    cases h with
    | @last _ b _ hb =>
      have hfirst := first_feed b
      rw [hb] at hfirst
      cases hfirst with
      | one hone => exact ⟨_, .one hone, rfl⟩
    | @more _ _ a bytes _ ha hrest =>
      have hfirst := first_feed a
      rw [ha] at hfirst
      cases hfirst with
      | two hlow hhigh =>
        obtain ⟨b, rest, rfl, hb, hlength, -, rfl⟩ := completes_inside_iff.mp hrest
        rw [List.eq_nil_of_length_eq_zero hlength]
        exact ⟨_, .two hlow hhigh hb, rfl⟩
      | three hlow hhigh hbounds =>
        obtain ⟨b, rest, rfl, hb, hlength, hfollows, rfl⟩ := completes_inside_iff.mp hrest
        obtain ⟨c, rfl⟩ := List.length_eq_one_iff.mp hlength
        exact ⟨_, .three hlow hhigh ((hbounds b).mp hb) (hfollows c (by simp)), rfl⟩
      | four hlow hhigh hbounds =>
        obtain ⟨b, rest, rfl, hb, hlength, hfollows, rfl⟩ := completes_inside_iff.mp hrest
        obtain ⟨c, d, rfl⟩ := List.length_eq_two.mp hlength
        exact ⟨_, .four hlow hhigh ((hbounds b).mp hb) (hfollows c (by simp))
          (hfollows d (by simp)), rfl⟩
  · rintro ⟨n, hn, rfl⟩
    -- the first byte leads to one state only, and the table tells which
    cases hn with
    | @one a ha =>
      have hfirst := first_feed a
      generalize hfeed : feed ⟨#[], .idle⟩ a = d at hfirst
      cases hfirst with
      | one _ => exact .last hfeed
      | _ => omega
    | @two a b hlow hhigh hb =>
      have hfirst := first_feed a
      generalize hfeed : feed ⟨#[], .idle⟩ a = d at hfirst
      cases hfirst with
      | two _ _ => exact .more hfeed (completes_inside_iff.mpr ⟨b, [], rfl, hb, rfl, by simp, rfl⟩)
      | _ => omega
    | @three a b c hlow hhigh hb hc =>
      have hfirst := first_feed a
      generalize hfeed : feed ⟨#[], .idle⟩ a = d at hfirst
      cases hfirst with
      | three _ _ hbounds =>
        exact .more hfeed (completes_inside_iff.mpr
          ⟨b, [c], rfl, (hbounds b).mpr hb, rfl, by simpa using hc, rfl⟩)
      | _ => omega
    | @four a b c d hlow hhigh hb hc hd =>
      have hfirst := first_feed a
      generalize hfeed : feed ⟨#[], .idle⟩ a = e at hfirst
      cases hfirst with
      | four _ _ hbounds =>
        exact .more hfeed (completes_inside_iff.mpr
          ⟨b, [c, d], rfl, (hbounds b).mpr hb, rfl, by simpa using ⟨hc, hd⟩, rfl⟩)
      | _ => omega

theorem ofNat_toNat {n : Nat} (h : n < 0xD800 ∨ 0xDFFF < n ∧ n < 0x110000) :
    (Char.ofNat n).val.toNat = n := by
  have hvalid : n.isValidChar := h
  rw [Char.ofNat, dif_pos hvalid]
  rfl

theorem Sequence.encode_eq (h : Sequence bytes n) :
    String.utf8EncodeChar (Char.ofNat n) = bytes := by
  cases h with
  | @one a ha =>
    rw [String.utf8EncodeChar, ofNat_toNat (by omega)]
    simp [ha]
  | @two a b hlow hhigh hb =>
    generalize hn : [b].foldl addBits (a.toNat - 0xC0) = n
    simp only [List.foldl_cons, List.foldl_nil, addBits_eq, Follows] at hn hb
    have ha : n / 64 % 0x20 + 0xC0 = a.toNat := by omega
    have hb : n % 0x40 + 0x80 = b.toNat := by omega
    rw [String.utf8EncodeChar, ofNat_toNat (by omega)]
    simp only [ha, hb, UInt8.ofNat_toNat]
    rw [if_neg (by omega), if_pos (by omega)]
  | @three a b c hlow hhigh hb hc =>
    generalize hn : [b, c].foldl addBits (a.toNat - 0xE0) = n
    simp only [List.foldl_cons, List.foldl_nil, addBits_eq, SecondOfThree, Follows] at hn hb hc
    have ha : n / 4096 % 0x10 + 0xE0 = a.toNat := by omega
    have hb : n / 64 % 0x40 + 0x80 = b.toNat := by omega
    have hc : n % 0x40 + 0x80 = c.toNat := by omega
    rw [String.utf8EncodeChar, ofNat_toNat (by omega)]
    simp only [ha, hb, hc, UInt8.ofNat_toNat]
    rw [if_neg (by omega), if_neg (by omega), if_pos (by omega)]
  | @four a b c d hlow hhigh hb hc hd =>
    generalize hn : [b, c, d].foldl addBits (a.toNat - 0xF0) = n
    simp only [List.foldl_cons, List.foldl_nil, addBits_eq, SecondOfFour, Follows] at hn hb hc hd
    have ha : n / 262144 % 0x08 + 0xF0 = a.toNat := by omega
    have hb : n / 4096 % 0x40 + 0x80 = b.toNat := by omega
    have hc : n / 64 % 0x40 + 0x80 = c.toNat := by omega
    have hd : n % 0x40 + 0x80 = d.toNat := by omega
    rw [String.utf8EncodeChar, ofNat_toNat (by omega)]
    simp only [ha, hb, hc, hd, UInt8.ofNat_toNat]
    rw [if_neg (by omega), if_neg (by omega), if_neg (by omega)]

theorem toNat_ofNat_of_lt {n : Nat} (h : n < 256) : (UInt8.ofNat n).toNat = n := by
  rw [UInt8.toNat_ofNat', Nat.mod_eq_of_lt h]

theorem sequence_encode (c : Char) : Sequence (String.utf8EncodeChar c) c.toNat := by
  have hvalid : c.val.toNat < 0xD800 ∨ 0xDFFF < c.val.toNat ∧ c.val.toNat < 0x110000 := c.valid
  change Sequence _ c.val.toNat
  rw [String.utf8EncodeChar]
  generalize c.val.toNat = n at hvalid
  split_ifs with hone htwo hthree
  · have ha := toNat_ofNat_of_lt (n := n) (by omega)
    generalize UInt8.ofNat n = a at ha ⊢
    rw [← ha]
    exact .one (by omega)
  · have ha := toNat_ofNat_of_lt (n := n / 64 % 0x20 + 0xC0) (by omega)
    have hb := toNat_ofNat_of_lt (n := n % 0x40 + 0x80) (by omega)
    generalize UInt8.ofNat (n / 64 % 0x20 + 0xC0) = a at ha ⊢
    generalize UInt8.ofNat (n % 0x40 + 0x80) = b at hb ⊢
    have hn : [b].foldl addBits (a.toNat - 0xC0) = n := by
      simp only [List.foldl_cons, List.foldl_nil, addBits_eq]
      omega
    rw [← hn]
    exact .two (by omega) (by omega) ⟨by omega, by omega⟩
  · have ha := toNat_ofNat_of_lt (n := n / 4096 % 0x10 + 0xE0) (by omega)
    have hb := toNat_ofNat_of_lt (n := n / 64 % 0x40 + 0x80) (by omega)
    have hc := toNat_ofNat_of_lt (n := n % 0x40 + 0x80) (by omega)
    generalize UInt8.ofNat (n / 4096 % 0x10 + 0xE0) = a at ha ⊢
    generalize UInt8.ofNat (n / 64 % 0x40 + 0x80) = b at hb ⊢
    generalize UInt8.ofNat (n % 0x40 + 0x80) = c at hc ⊢
    have hn : [b, c].foldl addBits (a.toNat - 0xE0) = n := by
      simp only [List.foldl_cons, List.foldl_nil, addBits_eq]
      omega
    rw [← hn]
    exact .three (by omega) (by omega) ⟨⟨by omega, by omega⟩, by omega, by omega⟩
      ⟨by omega, by omega⟩
  · have ha := toNat_ofNat_of_lt (n := n / 262144 % 0x08 + 0xF0) (by omega)
    have hb := toNat_ofNat_of_lt (n := n / 4096 % 0x40 + 0x80) (by omega)
    have hc := toNat_ofNat_of_lt (n := n / 64 % 0x40 + 0x80) (by omega)
    have hd := toNat_ofNat_of_lt (n := n % 0x40 + 0x80) (by omega)
    generalize UInt8.ofNat (n / 262144 % 0x08 + 0xF0) = a at ha ⊢
    generalize UInt8.ofNat (n / 4096 % 0x40 + 0x80) = b at hb ⊢
    generalize UInt8.ofNat (n / 64 % 0x40 + 0x80) = c at hc ⊢
    generalize UInt8.ofNat (n % 0x40 + 0x80) = d at hd ⊢
    have hn : [b, c, d].foldl addBits (a.toNat - 0xF0) = n := by
      simp only [List.foldl_cons, List.foldl_nil, addBits_eq]
      omega
    rw [← hn]
    exact .four (by omega) (by omega) ⟨⟨by omega, by omega⟩, by omega, by omega⟩
      ⟨by omega, by omega⟩ ⟨by omega, by omega⟩

/-- Between two characters exactly the UTF-8 form of a character completes it. -/
theorem completes_idle_iff : Completes .idle bytes c ↔ bytes = String.utf8EncodeChar c := by
  rw [completes_iff_sequence]
  constructor
  · rintro ⟨n, hn, rfl⟩
    exact hn.encode_eq.symm
  · rintro rfl
    exact ⟨c.toNat, sequence_encode c, (Char.ofNat_toNat c).symm⟩

/-- No UTF-8 form stands in front of another. -/
theorem eq_of_encode_front {rest rest' : List UInt8}
    (h : String.utf8EncodeChar c ++ rest = String.utf8EncodeChar c' ++ rest') :
    c = c' ∧ rest = rest' := by
  have hfront : ∀ {c c' : Char} {more : List UInt8},
      String.utf8EncodeChar c ++ more = String.utf8EncodeChar c' → more = [] ∧ c' = c := by
    intro c c' more hmore
    refine (completes_idle_iff.mpr rfl).eq_of_append (completes_idle_iff.mpr hmore)
  rcases List.append_eq_append_iff.mp h with ⟨more, hmore, hrest⟩ | ⟨more, hmore, hrest⟩
  · obtain ⟨rfl, rfl⟩ := hfront hmore.symm
    exact ⟨rfl, hrest⟩
  · obtain ⟨rfl, rfl⟩ := hfront hmore.symm
    exact ⟨rfl, hrest.symm⟩

end Characters

/-! ### Pieces -/

/-- Some bytes that begin a character and do not finish it. -/
def Begins (bytes : List UInt8) : Prop :=
  bytes ≠ [] ∧ ∃ c more, more ≠ [] ∧ String.utf8EncodeChar c = bytes ++ more

/-- A malformed piece in front of the rest: no character is spelled there, and the piece is the
longest stretch that begins one, or a single byte if there is none. -/
structure Malformed (bad rest : List UInt8) : Prop where
  no_character : ∀ c, ¬ String.utf8EncodeChar c <+: bad ++ rest
  begins : Begins bad ∨ bad.length = 1
  longest : ∀ other, other <+: bad ++ rest → Begins other → other.length ≤ bad.length

/-- Bytes that fall into characters and malformed pieces. -/
inductive Splits : List UInt8 → List (Option Char) → Prop
  | nil : Splits [] []
  | character {c rest found} : Splits rest found →
      Splits (String.utf8EncodeChar c ++ rest) (some c :: found)
  | malformed {bad rest found} : Malformed bad rest → Splits rest found →
      Splits (bad ++ rest) (none :: found)

/-- The decoder has read some bytes of a piece, and none of them ended it. -/
inductive Begun : List UInt8 → DecoderState → Prop
  | start : Begun [] .idle
  | feed {read s b s'} : Begun read s → feed ⟨#[], s⟩ b = ⟨#[], s'⟩ → Begun (read ++ [b]) s'

section Pieces

variable {s s' : DecoderState} {read bytes bad rest more : List UInt8} {b : UInt8} {c : Char}
  {found found' : List (Option Char)}

theorem Malformed.length_pos (h : Malformed bad rest) : 0 < bad.length := by
  rcases h.begins with ⟨hne, -⟩ | hone
  · exact List.length_pos_iff.mpr hne
  · omega

/-- What is malformed is told by the bytes. -/
theorem Malformed.eq_of_append_eq {bad' rest' : List UInt8} (h : Malformed bad rest)
    (h' : Malformed bad' rest') (heq : bad ++ rest = bad' ++ rest') :
    bad = bad' ∧ rest = rest' := by
  have hle : ∀ {bad rest bad' rest' : List UInt8}, Malformed bad rest → Malformed bad' rest' →
      bad ++ rest = bad' ++ rest' → bad.length ≤ bad'.length := by
    intro bad rest bad' rest' h h' heq
    have hpos := h'.length_pos
    rcases h.begins with hbegins | hone
    · exact h'.longest bad (heq ▸ List.prefix_append _ _) hbegins
    · omega
  exact List.append_inj heq (Nat.le_antisymm (hle h h' heq) (hle h' h heq.symm))

/-- Bytes fall into pieces in one way only. -/
theorem Splits.unique (h : Splits bytes found) (h' : Splits bytes found') : found = found' := by
  induction h generalizing found' with
  | nil =>
    generalize hnil : ([] : List UInt8) = all at h'
    cases h' with
    | nil => rfl
    | @character c rest _ _ =>
      simp at hnil
    | malformed hbad _ =>
      have hlength := congrArg List.length hnil
      have hpos := hbad.length_pos
      simp only [List.length_nil, List.length_append] at hlength
      omega
  | @character c rest found hrest ih =>
    generalize hall : String.utf8EncodeChar c ++ rest = all at h'
    cases h' with
    | nil => simp at hall
    | @character c' rest' found' hrest' =>
      obtain ⟨rfl, rfl⟩ := eq_of_encode_front hall
      rw [ih hrest']
    | malformed hbad _ => exact absurd (hall ▸ List.prefix_append _ _) (hbad.no_character c)
  | @malformed bad rest found hbad hrest ih =>
    generalize hall : bad ++ rest = all at h'
    cases h' with
    | nil =>
      have hlength := congrArg List.length hall
      have hpos := hbad.length_pos
      simp only [List.length_nil, List.length_append] at hlength
      omega
    | @character c' rest' found' hrest' =>
      exact absurd (hall ▸ List.prefix_append _ _) (hbad.no_character c')
    | malformed hbad' hrest' =>
      obtain ⟨rfl, rfl⟩ := hbad.eq_of_append_eq hbad' hall
      rw [ih hrest']

/-- What completes the bytes read so far is what completes a character from the state on. -/
theorem Begun.completes_iff (h : Begun read s) :
    Completes s bytes c ↔ Completes .idle (read ++ bytes) c := by
  induction h generalizing bytes with
  | start => rfl
  | @feed read s b s' _ hb ih =>
    rw [List.append_assoc, ← ih]
    constructor
    · exact .more hb
    · intro h
      cases h with
      | last hb' => rw [hb] at hb'; cases hb'
      | more hb' hrest => rw [hb] at hb'; cases hb'; exact hrest

theorem Begun.read_eq_nil (h : Begun read .idle) : read = [] := by
  generalize hs : DecoderState.idle = s at h
  cases h with
  | start => rfl
  | @feed read s b s' _ hb =>
    subst hs
    cases s with
    | idle =>
      have hfirst := first_feed b
      rw [hb] at hfirst
      cases hfirst
    | inside missing low high bits =>
      rw [feed_inside (bounds_of_feed (by rw [hb]; simp))] at hb
      cases missing <;> cases hb

theorem Begun.read_ne_nil {missing bits : Nat} {low high : UInt8}
    (h : Begun read (.inside missing low high bits)) : read ≠ [] := by
  cases h
  simp

/-- Inside a character there is a byte to go on with. -/
theorem Begun.exists_bounds {missing bits : Nat} {low high : UInt8}
    (h : Begun read (.inside missing low high bits)) :
    ∃ b : UInt8, low.toNat ≤ b.toNat ∧ b.toNat ≤ high.toNat := by
  generalize hs : DecoderState.inside missing low high bits = s at h
  cases h with
  | start => cases hs
  | @feed read s b s' _ hb =>
    subst hs
    cases s with
    | idle =>
      have hfirst := first_feed b
      rw [hb] at hfirst
      cases hfirst with
      | two _ _ => exact ⟨0x80, by decide, by decide⟩
      | three _ _ hbounds =>
        by_cases hsurrogate : b.toNat = 0xED
        · exact ⟨0x80, (hbounds 0x80).mpr ⟨⟨by decide, by decide⟩, by omega, fun _ => by decide⟩⟩
        · exact ⟨0xA0, (hbounds 0xA0).mpr
            ⟨⟨by decide, by decide⟩, fun _ => by decide, fun he => absurd he hsurrogate⟩⟩
      | four _ _ hbounds =>
        by_cases hlast : b.toNat = 0xF4
        · exact ⟨0x80, (hbounds 0x80).mpr ⟨⟨by decide, by decide⟩, by omega, fun _ => by decide⟩⟩
        · exact ⟨0x90, (hbounds 0x90).mpr
            ⟨⟨by decide, by decide⟩, fun _ => by decide, fun he => absurd he hlast⟩⟩
    | inside missing low high bits =>
      rw [feed_inside (bounds_of_feed (by rw [hb]; simp))] at hb
      cases missing with
      | zero => cases hb
      | succ missing => cases hb; exact ⟨0x80, by decide, by decide⟩

section Inside

variable {missing bits : Nat} {low high : UInt8}

/-- A character that is begun can be finished. -/
theorem Begun.exists_completes (h : Begun read (.inside missing low high bits)) :
    ∃ bytes c, Completes (.inside missing low high bits) bytes c := by
  obtain ⟨b, hb⟩ := h.exists_bounds
  refine ⟨b :: List.replicate missing 0x80, _, completes_inside_iff.mpr
    ⟨b, _, rfl, hb, List.length_replicate, ?_, rfl⟩⟩
  intro d hd
  rw [List.eq_of_mem_replicate hd]
  exact ⟨by decide, by decide⟩

/-- The next byte of a character is within the bounds. -/
theorem Begun.bounds_of_encode (h : Begun read (.inside missing low high bits))
    (hc : String.utf8EncodeChar c = read ++ b :: more) :
    low.toNat ≤ b.toNat ∧ b.toNat ≤ high.toNat := by
  have hcompletes := h.completes_iff.mpr (completes_idle_iff.mpr hc.symm)
  obtain ⟨d, rest, hcons, hbounds, -⟩ := completes_inside_iff.mp hcompletes
  cases hcons
  exact hbounds

/-- What was read of a character spells none. -/
theorem Begun.encode_ne (h : Begun read (.inside missing low high bits)) :
    read ≠ String.utf8EncodeChar c ++ more := by
  rintro hread
  obtain ⟨bytes, c', hcompletes⟩ := h.exists_completes
  have hall := h.completes_iff.mp hcompletes
  rw [hread, List.append_assoc] at hall
  have hnil := ((completes_idle_iff.mpr rfl).eq_of_append hall).1
  exact hcompletes.ne_nil (List.append_eq_nil_iff.mp hnil).2

/-- A character that does not go on is malformed. -/
theorem Begun.malformed (h : Begun read (.inside missing low high bits))
    (hrest : ∀ b more, rest = b :: more → ¬ (low.toNat ≤ b.toNat ∧ b.toNat ≤ high.toNat)) :
    Malformed read rest := by
  constructor
  · rintro c ⟨more, hmore⟩
    rcases List.append_eq_append_iff.mp hmore with ⟨after, hread, -⟩ | ⟨after, hc, hafter⟩
    · exact h.encode_ne hread
    · cases after with
      | nil =>
        have hread : read = String.utf8EncodeChar c ++ [] := by simpa using hc.symm
        exact h.encode_ne hread
      | cons b after => exact hrest b _ hafter (h.bounds_of_encode hc)
  · obtain ⟨bytes, c, hcompletes⟩ := h.exists_completes
    have hc := completes_idle_iff.mp (h.completes_iff.mp hcompletes)
    exact .inl ⟨h.read_ne_nil, c, bytes, hcompletes.ne_nil, hc.symm⟩
  · rintro other ⟨more, hmore⟩ ⟨-, c, after, -, hc⟩
    rcases List.append_eq_append_iff.mp hmore with ⟨_, hread, -⟩ | ⟨beyond, hother, hbeyond⟩
    · rw [hread, List.length_append]
      omega
    · cases beyond with
      | nil => rw [hother, List.append_nil]
      | cons b beyond =>
        rw [hother, List.append_assoc] at hc
        exact absurd (h.bounds_of_encode hc) (hrest b _ hbeyond)

end Inside

/-- A byte that begins no character is malformed. -/
theorem malformed_singleton (hb : feed ⟨#[], .idle⟩ b = ⟨#[none], .idle⟩) (rest : List UInt8) :
    Malformed [b] rest := by
  have hnot : ∀ {c more}, String.utf8EncodeChar c ≠ b :: more := by
    intro c more hc
    cases completes_idle_iff.mpr hc.symm with
    | last hb' => rw [hb] at hb'; cases hb'
    | more hb' _ => rw [hb] at hb'; cases hb'
  constructor
  · rintro c ⟨more, hmore⟩
    cases hc : String.utf8EncodeChar c with
    | nil => simp at hc
    | cons d after =>
      rw [hc] at hmore
      cases hmore
      exact hnot hc
  · exact .inr rfl
  · rintro other ⟨more, hmore⟩ ⟨hne, c, after, -, hc⟩
    cases other with
    | nil => exact absurd rfl hne
    | cons d other =>
      cases hmore
      exact absurd hc hnot

/-- What falls into pieces behind a byte falls into pieces with it. -/
theorem splits_cons (ih : ∀ {read s}, Begun read s → Splits (read ++ bytes) (piecesFrom s bytes))
    (b : UInt8) : Splits (b :: bytes) (piecesFrom .idle (b :: bytes)) := by
  have hfirst := first_feed b
  rw [piecesFrom_cons]
  generalize hb : feed ⟨#[], .idle⟩ b = d at hfirst
  cases hfirst with
  | one _ =>
    have hc := completes_idle_iff.mp (.last hb)
    have hsplits := Splits.character (c := Char.ofNat b.toNat) (ih .start)
    rwa [← hc] at hsplits
  | two _ _ => exact ih (.feed .start hb)
  | three _ _ _ => exact ih (.feed .start hb)
  | four _ _ _ => exact ih (.feed .start hb)
  | refused _ _ => exact .malformed (malformed_singleton hb bytes) (ih .start)

theorem splits_piecesFrom (h : Begun read s) (bytes : List UInt8) :
    Splits (read ++ bytes) (piecesFrom s bytes) := by
  induction bytes generalizing read s with
  | nil =>
    cases s with
    | idle => rw [h.read_eq_nil]; exact .nil
    | inside missing low high bits => exact .malformed (h.malformed (by simp)) .nil
  | cons b bytes ih =>
    cases s with
    | idle => rw [h.read_eq_nil]; exact splits_cons ih b
    | inside missing low high bits =>
      by_cases hb : low.toNat ≤ b.toNat ∧ b.toNat ≤ high.toNat
      · have hfeed := @feed_inside b missing bits low high hb
        rw [piecesFrom_cons, hfeed]
        cases missing with
        | zero =>
          have hc := completes_idle_iff.mp (h.completes_iff.mp (.last hfeed))
          have hsplits := Splits.character (c := Char.ofNat (addBits bits b)) (ih .start)
          rwa [← hc, List.append_assoc] at hsplits
        | succ missing =>
          have hsplits := ih (h.feed hfeed)
          rwa [List.append_assoc] at hsplits
      · -- the byte that breaks the character is read once more, from a new start
        have hpieces : piecesFrom (.inside missing low high bits) (b :: bytes) =
            none :: piecesFrom .idle (b :: bytes) := by
          rw [piecesFrom_cons, feed_inside_of_not hb, piecesFrom_cons]
          simp [Decoder.behind]
        rw [hpieces]
        refine .malformed (h.malformed ?_) (splits_cons ih b)
        rintro _ _ hcons
        cases hcons
        exact hb

/-- A decoder finds the pieces that the bytes fall into. -/
theorem splits_iff : Splits bytes found ↔ (pieces bytes).toList = found := by
  have hsplits : Splits bytes (pieces bytes).toList := splits_piecesFrom .start bytes
  constructor
  · exact hsplits.unique
  · rintro rfl
    exact hsplits

end Pieces

/-! ### Texts -/

section Texts

variable {bytes : List UInt8} {found : List (Option Char)} {t : String}

/-- The characters of a text are the pieces of its UTF-8 form. -/
theorem pieces_encode (t : String) : (pieces (encode t)).toList = t.toList.map some := by
  apply splits_iff.mp
  unfold encode
  induction t.toList with
  | nil => exact .nil
  | cons c chars ih => exact .character ih

/-- Bytes without a malformed piece are the UTF-8 form of their characters. -/
theorem Splits.eq_encode (h : Splits bytes found) (hfound : none ∉ found) :
    bytes = encode (String.ofList (found.filterMap id)) := by
  unfold encode
  rw [String.toList_ofList]
  induction h with
  | nil => rfl
  | character _ ih =>
    have hrest := ih (by simp_all)
    rw [List.filterMap_cons_some (by rfl), List.flatMap_cons, ← hrest]
  | malformed _ _ _ => simp at hfound

/-- The strict decoder accepts exactly the UTF-8 forms, each for its own text. -/
theorem decode?_eq_some_iff : decode? bytes = some t ↔ bytes = encode t := by
  constructor
  · intro h
    simp only [decode?] at h
    split at h
    · next hall =>
      cases h
      refine Splits.eq_encode (splits_iff.mpr rfl) fun hnone => ?_
      simpa using Array.all_eq_true_iff_forall_mem.mp hall none (Array.mem_toList_iff.mp hnone)
    · cases h
  · rintro rfl
    have hall : (pieces (encode t)).all Option.isSome = true := by
      rw [← Array.all_toList, pieces_encode]
      simp
    simp [decode?, hall, pieces_encode]

/-- What it accepts is what is valid for strings. -/
theorem decode?_isSome_iff : (decode? bytes).isSome = true ↔ bytes.toByteArray.IsValidUTF8 := by
  constructor
  · intro h
    obtain ⟨t, ht⟩ := Option.isSome_iff_exists.mp h
    exact ⟨t.toList, congrArg List.toByteArray (decode?_eq_some_iff.mp ht)⟩
  · rintro ⟨chars, hchars⟩
    have hbytes : bytes = encode (String.ofList chars) := by
      have hdata := congrArg (fun b : ByteArray => b.data.toList) hchars
      simpa [encode, List.utf8Encode] using hdata
    rw [decode?_eq_some_iff.mpr hbytes]
    rfl

/-- What is malformed is shown. -/
theorem replacement_mem_decodeLossy (h : decode? bytes = none) :
    '\uFFFD' ∈ (decodeLossy bytes).toList := by
  have hnone : none ∈ (pieces bytes).toList := by
    by_contra hfound
    have hbytes := Splits.eq_encode (splits_iff.mpr rfl) hfound
    rw [decode?_eq_some_iff.mpr hbytes] at h
    cases h
  rw [decodeLossy, String.toList_ofList]
  exact List.mem_map.mpr ⟨none, hnone, rfl⟩

theorem decodeLossy_encode (t : String) : decodeLossy (encode t) = t := by
  simp [decodeLossy, pieces_encode, Function.comp_def]

/-- ASCII is its own UTF-8 form. -/
theorem eq_encode_of_ascii (h : ∀ b ∈ bytes, b.toNat ≤ 0x7F) :
    bytes = encode (String.ofList (bytes.map fun b => Char.ofNat b.toNat)) := by
  unfold encode
  rw [String.toList_ofList]
  induction bytes with
  | nil => rfl
  | cons b bytes ih =>
    obtain ⟨hb, hbytes⟩ := List.forall_mem_cons.mp h
    rw [List.map_cons, List.flatMap_cons, (Sequence.one hb).encode_eq, ← ih hbytes]
    rfl

end Texts

end ArithLexer.Text
