import Mathlib.Algebra.Group.Nat.Defs
import Mathlib.Data.List.Basic
import Mathlib.Data.List.ReduceOption
import Synclaire.Lib.Scan

set_option relaxedAutoImplicit false
set_option autoImplicit false

/-!
# UTF-8 text

A text is a list of characters, and `encode` gives its bytes. The decoder takes one byte at a
time: between two bytes it is either between two characters or inside a sequence that has begun.
A sequence that breaks off is reported once and the byte that broke it is looked at afresh, so
that the reported pieces are the maximal ones.

## Main definitions

* `Utf8.encode` — the bytes of a text.
* `Utf8.Partial`, `Utf8.decode` — the decoder; an invalid piece is the token `none`.
* `Utf8.fromUtf8` — the text of valid bytes.
* `Utf8.lossy` — the text of any bytes, with U+FFFD in place of the invalid pieces.
* `Utf8.Partial.Follows` — the decoder is inside a sequence, after these bytes.

## Main results

* `Utf8.encode_of_fromUtf8` — valid bytes are the bytes of their text.
* `Utf8.fromUtf8_encode` — a text is the text of its bytes.
* `Utf8.lossy_eq_append_iff` — where a lossy text begins with ASCII characters.
* `Utf8.lines_lossy` — the lines of a lossy text are the lossy lines of the bytes.
-/

namespace Utf8

/-- The UTF-8 bytes of a text. -/
def encode (s : List Char) : List UInt8 := s.flatMap String.utf8EncodeChar

/-- The bytes of two texts, one after the other. -/
theorem encode_append (s t : List Char) : encode (s ++ t) = encode s ++ encode t :=
  List.flatMap_append

/-! ## The decoder -/

/-- A sequence that has begun: how many bytes are to come after the next one, the range of the
next one, and the bits so far. -/
structure Partial where
  needed : ℕ
  lo : UInt8
  hi : UInt8
  bits : ℕ
  deriving DecidableEq

/-- The first byte of a character. -/
def begins (b : UInt8) : List (Option Char) × Option Partial :=
  if b < 0x80 then ([some (Char.ofNat b.toNat)], none)
  else if b < 0xC2 then ([none], none)
  else if b < 0xE0 then ([], some ⟨0, 0x80, 0xBF, b.toNat - 0xC0⟩)
  else if b < 0xF0 then
    -- no longer form than needed, and no surrogates
    ([], some ⟨1, if b = 0xE0 then 0xA0 else 0x80, if b = 0xED then 0x9F else 0xBF,
      b.toNat - 0xE0⟩)
  else if b < 0xF5 then
    ([], some ⟨2, if b = 0xF0 then 0x90 else 0x80, if b = 0xF4 then 0x8F else 0xBF,
      b.toNat - 0xF0⟩)
  else ([none], none)

/-- A byte that continues the sequence. -/
def Partial.next (p : Partial) (b : UInt8) : List (Option Char) × Option Partial :=
  match p.needed with
  | 0 => ([some (Char.ofNat (p.bits * 64 + (b.toNat - 0x80)))], none)
  | n + 1 => ([], some ⟨n, 0x80, 0xBF, p.bits * 64 + (b.toNat - 0x80)⟩)

/-- One byte: the tokens it completes, and what is pending after it. -/
def step : Option Partial → UInt8 → List (Option Char) × Option Partial
  | none, b => begins b
  | some p, b =>
    if p.lo ≤ b ∧ b ≤ p.hi then p.next b else (none :: (begins b).1, (begins b).2)

/-- The tokens of the bytes: characters, and `none` for each invalid piece. -/
def decode : Option Partial → List UInt8 → List (Option Char)
  | none, [] => []
  | some _, [] => [none]
  | pending, b :: bytes => (step pending b).1 ++ decode (step pending b).2 bytes

/-- The text of valid bytes. -/
def fromUtf8 (bytes : List UInt8) : Option (List Char) :=
  if none ∈ decode none bytes then none else some (decode none bytes).reduceOption

/-- The text of any bytes, with U+FFFD in place of the invalid pieces. -/
def lossy (bytes : List UInt8) : List Char := (decode none bytes).map (·.getD '\uFFFD')

example : lossy [0x41, 0xE2, 0x82, 0x0A, 0xC3, 0xA9] = ['A', '\uFFFD', '\n', 'é'] := by decide

/-! ## What is pending -/

/-- The last `n` bytes of a character with number `v`. -/
def trail : ℕ → ℕ → List UInt8
  | 0, _ => []
  | n + 1, v => UInt8.ofNat (v / 64 ^ n % 64 + 0x80) :: trail n v

/-- The sequence can become the character with number `v`. -/
def Partial.Admits (p : Partial) (v : ℕ) : Prop :=
  v / 64 ^ (p.needed + 1) = p.bits ∧ p.lo.toNat ≤ v / 64 ^ p.needed % 64 + 0x80 ∧
    v / 64 ^ p.needed % 64 + 0x80 ≤ p.hi.toNat

/-- The sequence has begun with the bytes `pre`: what it can become are characters outside of
ASCII whose first bytes these are. -/
structure Partial.Follows (p : Partial) (pre : List UInt8) : Prop where
  lo : 0x80 ≤ p.lo.toNat
  hi : p.hi.toNat ≤ 0xBF
  char : ∀ v, p.Admits v → v.isValidChar ∧ 0x80 ≤ v ∧
    String.utf8EncodeChar (Char.ofNat v) = pre ++ trail (p.needed + 1) v

/-- The number of a character made from it. -/
theorem toNat_ofNat {v : ℕ} (hv : v.isValidChar) : (Char.ofNat v).toNat = v := by
  rw [Char.ofNat, dif_pos hv]
  rfl

/-- The bytes of the character with number `v`. -/
theorem utf8EncodeChar_ofNat {v : ℕ} (hv : v.isValidChar) :
    String.utf8EncodeChar (Char.ofNat v) =
      if v ≤ 0x7f then [UInt8.ofNat v]
      else if v ≤ 0x7ff then UInt8.ofNat (v / 64 + 0xc0) :: trail 1 v
      else if v ≤ 0xffff then UInt8.ofNat (v / 4096 + 0xe0) :: trail 2 v
      else UInt8.ofNat (v / 262144 + 0xf0) :: trail 3 v := by
  have hval : (Char.ofNat v).val.toNat = v := toNat_ofNat hv
  have hmax : v < 0x110000 := by rcases hv with h | h <;> omega
  simp only [String.utf8EncodeChar, hval, trail, Nat.reducePow, Nat.div_one]
  split_ifs with h1 h2 h3
  · rfl
  · rw [Nat.mod_eq_of_lt (a := v / 64) (by omega)]
  · rw [Nat.mod_eq_of_lt (a := v / 4096) (by omega)]
  · rw [Nat.mod_eq_of_lt (a := v / 262144) (by omega)]

/-- The first byte of two. -/
theorem follows_two {b : UInt8} (h1 : 0xC2 ≤ b.toNat) (h2 : b.toNat < 0xE0) :
    Partial.Follows ⟨0, 0x80, 0xBF, b.toNat - 0xC0⟩ [b] := by
  refine ⟨Nat.le_refl 0x80, Nat.le_refl 0xBF, fun v ⟨hbits, _, _⟩ => ?_⟩
  simp only [Nat.reducePow, Nat.reduceAdd] at hbits
  have hvalid : v.isValidChar := by unfold Nat.isValidChar; omega
  refine ⟨hvalid, by omega, ?_⟩
  have hfirst : v / 64 + 0xc0 = b.toNat := by omega
  rw [utf8EncodeChar_ofNat hvalid, if_neg (by omega), if_pos (by omega), hfirst,
    UInt8.ofNat_toNat]
  rfl

/-- The first byte of three. -/
theorem follows_three {b : UInt8} (h1 : 0xE0 ≤ b.toNat) (h2 : b.toNat < 0xF0) :
    Partial.Follows ⟨1, if b = 0xE0 then 0xA0 else 0x80, if b = 0xED then 0x9F else 0xBF,
      b.toNat - 0xE0⟩ [b] := by
  refine ⟨?_, ?_, fun v ⟨hbits, hlo, hhi⟩ => ?_⟩
  · show 0x80 ≤ (if b = 0xE0 then (0xA0 : UInt8) else 0x80).toNat
    split_ifs <;> decide
  · show (if b = 0xED then (0x9F : UInt8) else 0xBF).toNat ≤ 0xBF
    split_ifs <;> decide
  · simp only [Nat.reducePow, Nat.reduceAdd] at hbits hlo hhi
    have hlong : 0x800 ≤ v := by
      by_cases hb : b = 0xE0
      · simp only [if_pos hb, UInt8.reduceToNat] at hlo
        omega
      · have : b.toNat ≠ 0xE0 := fun h => hb (UInt8.toNat_inj.mp h)
        omega
    have hvalid : v.isValidChar := by
      unfold Nat.isValidChar
      by_cases hb : b = 0xED
      · simp only [if_pos hb, UInt8.reduceToNat] at hhi
        simp only [hb, UInt8.reduceToNat] at hbits
        omega
      · have : b.toNat ≠ 0xED := fun h => hb (UInt8.toNat_inj.mp h)
        omega
    refine ⟨hvalid, by omega, ?_⟩
    have hfirst : v / 4096 + 0xe0 = b.toNat := by omega
    rw [utf8EncodeChar_ofNat hvalid, if_neg (by omega), if_neg (by omega), if_pos (by omega),
      hfirst, UInt8.ofNat_toNat]
    rfl

/-- The first byte of four. -/
theorem follows_four {b : UInt8} (h1 : 0xF0 ≤ b.toNat) (h2 : b.toNat < 0xF5) :
    Partial.Follows ⟨2, if b = 0xF0 then 0x90 else 0x80, if b = 0xF4 then 0x8F else 0xBF,
      b.toNat - 0xF0⟩ [b] := by
  refine ⟨?_, ?_, fun v ⟨hbits, hlo, hhi⟩ => ?_⟩
  · show 0x80 ≤ (if b = 0xF0 then (0x90 : UInt8) else 0x80).toNat
    split_ifs <;> decide
  · show (if b = 0xF4 then (0x8F : UInt8) else 0xBF).toNat ≤ 0xBF
    split_ifs <;> decide
  · simp only [Nat.reducePow, Nat.reduceAdd] at hbits hlo hhi
    have hlong : 0x10000 ≤ v := by
      by_cases hb : b = 0xF0
      · simp only [if_pos hb, UInt8.reduceToNat] at hlo
        omega
      · have : b.toNat ≠ 0xF0 := fun h => hb (UInt8.toNat_inj.mp h)
        omega
    have hshort : v < 0x110000 := by
      by_cases hb : b = 0xF4
      · simp only [if_pos hb, UInt8.reduceToNat] at hhi
        simp only [hb, UInt8.reduceToNat] at hbits
        omega
      · have : b.toNat ≠ 0xF4 := fun h => hb (UInt8.toNat_inj.mp h)
        omega
    have hvalid : v.isValidChar := .inr ⟨by omega, hshort⟩
    refine ⟨hvalid, by omega, ?_⟩
    have hfirst : v / 262144 + 0xf0 = b.toNat := by omega
    rw [utf8EncodeChar_ofNat hvalid, if_neg (by omega), if_neg (by omega), if_neg (by omega),
      hfirst, UInt8.ofNat_toNat]
    rfl

/-- A first byte is ASCII, or invalid, or begins a sequence. -/
theorem begins_cases (b : UInt8) :
    (b.toNat < 0x80 ∧ begins b = ([some (Char.ofNat b.toNat)], none)) ∨
    (0x80 ≤ b.toNat ∧ begins b = ([none], none)) ∨
    (0x80 ≤ b.toNat ∧ ∃ p : Partial, begins b = ([], some p) ∧ p.Follows [b]) := by
  unfold begins
  simp only [UInt8.lt_iff_toNat_lt, UInt8.reduceToNat]
  by_cases h1 : b.toNat < 0x80
  · rw [if_pos h1]
    exact .inl ⟨h1, rfl⟩
  have hlarge := Nat.not_lt.mp h1
  rw [if_neg h1]
  by_cases h2 : b.toNat < 0xC2
  · rw [if_pos h2]
    exact .inr (.inl ⟨hlarge, rfl⟩)
  rw [if_neg h2]
  by_cases h3 : b.toNat < 0xE0
  · rw [if_pos h3]
    exact .inr (.inr ⟨hlarge, _, rfl, follows_two (Nat.not_lt.mp h2) h3⟩)
  rw [if_neg h3]
  by_cases h4 : b.toNat < 0xF0
  · rw [if_pos h4]
    exact .inr (.inr ⟨hlarge, _, rfl, follows_three (Nat.not_lt.mp h3) h4⟩)
  rw [if_neg h4]
  by_cases h5 : b.toNat < 0xF5
  · rw [if_pos h5]
    exact .inr (.inr ⟨hlarge, _, rfl, follows_four (Nat.not_lt.mp h4) h5⟩)
  · rw [if_neg h5]
    exact .inr (.inl ⟨hlarge, rfl⟩)

/-- A byte in the range completes the character, or the sequence goes on. -/
theorem Partial.Follows.next {p : Partial} {pre : List UInt8} (h : p.Follows pre) {b : UInt8}
    (hlo : p.lo ≤ b) (hhi : b ≤ p.hi) :
    (∃ p', p.next b = ([], some p') ∧ p'.Follows (pre ++ [b])) ∨
    (∃ c, p.next b = ([some c], none) ∧ 0x80 ≤ c.toNat ∧
      String.utf8EncodeChar c = pre ++ [b]) := by
  obtain ⟨needed, lo, hi, bits⟩ := p
  have hb1 : 0x80 ≤ b.toNat := h.lo.trans (UInt8.le_iff_toNat_le.mp hlo)
  have hb2 : b.toNat ≤ 0xBF := (UInt8.le_iff_toNat_le.mp hhi).trans h.hi
  have hlo' := UInt8.le_iff_toNat_le.mp hlo
  have hhi' := UInt8.le_iff_toNat_le.mp hhi
  cases needed with
  | zero =>
    have hadmits : Partial.Admits ⟨0, lo, hi, bits⟩ (bits * 64 + (b.toNat - 0x80)) := by
      refine ⟨?_, ?_, ?_⟩ <;> simp only [Nat.reducePow, Nat.reduceAdd] at * <;> omega
    obtain ⟨hvalid, hlarge, henc⟩ := h.char _ hadmits
    refine .inr ⟨_, rfl, by rwa [toNat_ofNat hvalid], henc.trans ?_⟩
    have hlast : (bits * 64 + (b.toNat - 0x80)) / 64 ^ 0 % 64 + 0x80 = b.toNat := by
      simp only [Nat.reducePow]
      omega
    rw [trail, hlast, UInt8.ofNat_toNat]
    rfl
  | succ n =>
    refine .inl ⟨_, rfl, Nat.le_refl 0x80, Nat.le_refl 0xBF, fun v hv => ?_⟩
    have hbits : v / 64 ^ (n + 1) = bits * 64 + (b.toNat - 0x80) := hv.1
    have hdiv : v / 64 ^ (n + 2) = v / 64 ^ (n + 1) / 64 := by
      rw [Nat.pow_succ, Nat.div_div_eq_div_mul]
    have hmod : v / 64 ^ (n + 1) % 64 + 0x80 = b.toNat := by
      rw [hbits]
      omega
    obtain ⟨hvalid, hlarge, henc⟩ := h.char v
      ⟨show v / 64 ^ (n + 2) = bits by rw [hdiv, hbits]; omega,
        by rw [hmod]; exact hlo', by rw [hmod]; exact hhi'⟩
    refine ⟨hvalid, hlarge, henc.trans ?_⟩
    rw [trail, hmod, UInt8.ofNat_toNat, List.append_assoc]
    rfl

/-- What is pending after the bytes `pre` of a character. -/
def Follows : Option Partial → List UInt8 → Prop
  | none, pre => pre = []
  | some p, pre => p.Follows pre

/-- **What a byte does**: the sequence goes on, or a character is complete, or an invalid piece
is reported.

**Proof sketch.** Between characters by `begins_cases`. Inside a sequence a byte in the range
continues it, and any other byte is a first byte again. -/
theorem step_cases {pending : Option Partial} {pre : List UInt8} (h : Follows pending pre)
    (b : UInt8) :
    (∃ p, step pending b = ([], some p) ∧ p.Follows (pre ++ [b])) ∨
    (∃ c, step pending b = ([some c], none) ∧ String.utf8EncodeChar c = pre ++ [b] ∧
      (c.toNat < 0x80 → c.toNat = b.toNat)) ∨
    (none ∈ (step pending b).1 ∧ (∃ pre', Follows (step pending b).2 pre') ∧
      ∀ c, some c ∈ (step pending b).1 → c.toNat < 0x80 → c.toNat = b.toNat) := by
  have hascii : b.toNat < 0x80 → (Char.ofNat b.toNat).toNat = b.toNat :=
    fun hb => toNat_ofNat (.inl (by omega))
  cases pending with
  | none =>
    obtain rfl : pre = [] := h
    rcases begins_cases b with ⟨hb, heq⟩ | ⟨-, heq⟩ | ⟨-, p, heq, hp⟩
    · refine .inr (.inl ⟨_, heq, ?_, fun _ => hascii hb⟩)
      rw [utf8EncodeChar_ofNat (.inl (by omega)), if_pos (by omega), UInt8.ofNat_toNat]
      rfl
    · refine .inr (.inr ?_)
      rw [step, heq]
      exact ⟨List.mem_singleton.mpr rfl, ⟨[], rfl⟩, fun c hc => nomatch hc⟩
    · exact .inl ⟨p, heq, hp⟩
  | some p =>
    by_cases hrange : p.lo ≤ b ∧ b ≤ p.hi
    · rw [step, if_pos hrange]
      rcases Partial.Follows.next h hrange.1 hrange.2 with ⟨p', heq, hp'⟩ | ⟨c, heq, hc, henc⟩
      · exact .inl ⟨p', heq, hp'⟩
      · exact .inr (.inl ⟨c, heq, henc, fun hsmall => absurd hc (Nat.not_le.mpr hsmall)⟩)
    · refine .inr (.inr ?_)
      rw [step, if_neg hrange]
      rcases begins_cases b with ⟨hb, heq⟩ | ⟨-, heq⟩ | ⟨-, p', heq, hp'⟩
      · rw [heq]
        refine ⟨List.mem_cons_self, ⟨[], rfl⟩, fun c hc _ => ?_⟩
        obtain rfl : c = Char.ofNat b.toNat := by simpa using hc
        exact hascii hb
      · rw [heq]
        exact ⟨List.mem_cons_self, ⟨[], rfl⟩, fun c hc => by simp at hc⟩
      · rw [heq]
        exact ⟨List.mem_cons_self, ⟨[b], hp'⟩, fun c hc => by simp at hc⟩

/-! ## Valid bytes -/

/-- Bytes that decode to characters only are the bytes of these characters. -/
theorem encode_of_decode {bytes : List UInt8} {pending : Option Partial} {pre : List UInt8}
    (h : Follows pending pre) {s : List Char} (hs : decode pending bytes = s.map some) :
    encode s = pre ++ bytes := by
  induction bytes generalizing pending pre s with
  | nil =>
    cases pending with
    | none =>
      obtain rfl : pre = [] := h
      obtain rfl : s = [] := List.map_eq_nil_iff.mp hs.symm
      rfl
    | some p =>
      have hnone : none ∈ s.map some := hs ▸ List.mem_singleton.mpr rfl
      simp at hnone
  | cons b bytes ih =>
    rw [decode] at hs
    rcases step_cases h b with ⟨p, heq, hp⟩ | ⟨c, heq, henc, -⟩ | ⟨hnone, -, -⟩
    · rw [heq] at hs
      rw [ih (show Follows (some p) _ from hp) hs, List.append_assoc]
      rfl
    · rw [heq] at hs
      obtain ⟨c', s', rfl, hc, hs'⟩ : ∃ c' s', s = c' :: s' ∧ c' = c ∧
          decode none bytes = s'.map some := by
        cases s with
        | nil => cases hs
        | cons c' s' =>
          injection hs with hhead htail
          exact ⟨c', s', rfl, (Option.some.inj hhead).symm, htail⟩
      rw [hc, encode, List.flatMap_cons, henc, ← encode, ih (show Follows none [] from rfl) hs']
      simp
    · have hmem : none ∈ s.map some := hs ▸ List.mem_append_left _ hnone
      simp at hmem

/-- Tokens without an invalid piece are the characters among them. -/
theorem map_some_reduceOption {tokens : List (Option Char)} (h : none ∉ tokens) :
    tokens.reduceOption.map some = tokens := by
  induction tokens with
  | nil => rfl
  | cons token tokens ih =>
    obtain ⟨hne, hmem⟩ := not_or.mp (mt List.mem_cons.mpr h)
    cases token with
    | none => exact absurd rfl hne
    | some c => rw [List.reduceOption_cons_of_some, List.map_cons, ih hmem]

/-- **Valid bytes are the bytes of their text.** -/
theorem encode_of_fromUtf8 {bytes : List UInt8} {s : List Char} (h : fromUtf8 bytes = some s) :
    encode s = bytes := by
  unfold fromUtf8 at h
  split_ifs at h with hnone
  obtain rfl := Option.some.inj h
  exact encode_of_decode (show Follows none [] from rfl) (map_some_reduceOption hnone).symm

/-! ## Any bytes -/

/-- After any bytes something that follows some bytes is pending. -/
theorem step_follows {pending : Option Partial} (h : ∃ pre, Follows pending pre) (b : UInt8) :
    ∃ pre, Follows (step pending b).2 pre := by
  obtain ⟨pre, hpre⟩ := h
  rcases step_cases hpre b with ⟨p, heq, hp⟩ | ⟨c, heq, -, -⟩ | ⟨-, hfollows, -⟩
  · rw [heq]
    exact ⟨_, hp⟩
  · rw [heq]
    exact ⟨[], rfl⟩
  · exact hfollows

/-- The tokens of two stretches of bytes: those of the second depend on the first only by what
is pending between them. -/
theorem decode_append {pending : Option Partial} (h : ∃ pre, Follows pending pre)
    (bytes : List UInt8) : ∃ out between, (∃ pre, Follows between pre) ∧
      ∀ more, decode pending (bytes ++ more) = out ++ decode between more := by
  induction bytes generalizing pending with
  | nil => exact ⟨[], pending, h, fun more => rfl⟩
  | cons b bytes ih =>
    obtain ⟨out, between, hbetween, hdecode⟩ := ih (step_follows h b)
    refine ⟨(step pending b).1 ++ out, between, hbetween, fun more => ?_⟩
    rw [List.cons_append, decode, hdecode, List.append_assoc]

/-- An ASCII byte ends what is pending and is a character of its own. -/
theorem decode_ascii_cons {pending : Option Partial} (h : ∃ pre, Follows pending pre)
    {b : UInt8} (hb : b.toNat < 0x80) (bytes : List UInt8) :
    decode pending (b :: bytes) =
      decode pending [] ++ some (Char.ofNat b.toNat) :: decode none bytes := by
  have hbegins : begins b = ([some (Char.ofNat b.toNat)], none) :=
    if_pos (UInt8.lt_iff_toNat_lt.mpr hb)
  cases pending with
  | none =>
    show (begins b).1 ++ decode (begins b).2 bytes = _
    rw [hbegins]
    rfl
  | some p =>
    obtain ⟨pre, hpre⟩ := h
    have hrange : ¬(p.lo ≤ b ∧ b ≤ p.hi) := by
      intro hrange
      have hlo := Partial.Follows.lo hpre
      have := UInt8.le_iff_toNat_le.mp hrange.1
      omega
    have hstep : step (some p) b = ([none, some (Char.ofNat b.toNat)], none) := by
      rw [step, if_neg hrange, hbegins]
    show (step (some p) b).1 ++ decode (step (some p) b).2 bytes = _
    rw [hstep]
    rfl

/-- An ASCII character among the tokens is one of the bytes. -/
theorem mem_of_mem_decode {c : Char} (hc : c.toNat < 0x80) {bytes : List UInt8}
    {pending : Option Partial} (h : ∃ pre, Follows pending pre)
    (hmem : some c ∈ decode pending bytes) : UInt8.ofNat c.toNat ∈ bytes := by
  induction bytes generalizing pending with
  | nil => cases pending <;> simp [decode] at hmem
  | cons b bytes ih =>
    rw [decode, List.mem_append] at hmem
    rcases hmem with hmem | hmem
    · obtain ⟨pre, hpre⟩ := h
      have heq : c.toNat = b.toNat := by
        rcases step_cases hpre b with ⟨p, heq, -⟩ | ⟨c', heq, -, hsmall⟩ | ⟨-, -, hsmall⟩
        · rw [heq] at hmem
          cases hmem
        · rw [heq] at hmem
          obtain rfl : c = c' := by simpa using hmem
          exact hsmall hc
        · exact hsmall c hmem hc
      rw [heq, UInt8.ofNat_toNat]
      exact List.mem_cons_self
    · exact List.mem_cons_of_mem _ (ih (step_follows h b) hmem)

/-- The first token while a sequence is pending is not an ASCII character. -/
theorem decode_some_cases {p : Partial} {pre : List UInt8} (h : p.Follows pre)
    (bytes : List UInt8) : ∃ token tokens, decode (some p) bytes = token :: tokens ∧
      ∀ c, token = some c → 0x80 ≤ c.toNat := by
  induction bytes generalizing p pre with
  | nil => exact ⟨none, [], rfl, nofun⟩
  | cons b bytes ih =>
    rw [decode, step]
    by_cases hrange : p.lo ≤ b ∧ b ≤ p.hi
    · rw [if_pos hrange]
      rcases h.next hrange.1 hrange.2 with ⟨p', heq, hp'⟩ | ⟨c, heq, hc, -⟩
      · rw [heq]
        exact ih hp'
      · rw [heq]
        exact ⟨some c, _, rfl, fun c' hc' => Option.some.inj hc' ▸ hc⟩
    · rw [if_neg hrange]
      exact ⟨none, _, rfl, nofun⟩

/-- U+FFFD is not an ASCII character. -/
theorem getD_ascii {token : Option Char} {c : Char} (hc : c.toNat < 0x80)
    (h : token.getD '\uFFFD' = c) : token = some c := by
  cases token with
  | none =>
    subst h
    exact absurd hc (by decide)
  | some c' => exact congrArg some h

/-- **A lossy text at an ASCII byte**: the bytes before it and after it decode by themselves. -/
theorem lossy_append_cons {b : UInt8} (hb : b.toNat < 0x80) (bytes more : List UInt8) :
    lossy (bytes ++ b :: more) = lossy bytes ++ Char.ofNat b.toNat :: lossy more := by
  obtain ⟨out, between, hbetween, hdecode⟩ :=
    decode_append ⟨[], show Follows none [] from rfl⟩ bytes
  have hbytes := hdecode []
  rw [List.append_nil] at hbytes
  unfold lossy
  rw [hdecode, decode_ascii_cons hbetween hb, ← List.append_assoc, ← hbytes, List.map_append]
  rfl

/-- ASCII bytes in front are characters of their own. -/
theorem lossy_append_of_ascii {o : List UInt8} (ho : ∀ b ∈ o, b.toNat < 0x80)
    (bytes : List UInt8) :
    lossy (o ++ bytes) = o.map (fun b => Char.ofNat b.toNat) ++ lossy bytes := by
  induction o with
  | nil => rfl
  | cons b o ih =>
    obtain ⟨hb, ho⟩ := List.forall_mem_cons.mp ho
    have hsplit := lossy_append_cons hb [] (o ++ bytes)
    rw [List.nil_append, ih ho] at hsplit
    exact hsplit

/-- ASCII bytes behind are characters of their own. -/
theorem lossy_append_ascii {o : List UInt8} (ho : ∀ b ∈ o, b.toNat < 0x80)
    (bytes : List UInt8) :
    lossy (bytes ++ o) = lossy bytes ++ o.map (fun b => Char.ofNat b.toNat) := by
  cases o with
  | nil => rw [List.append_nil, List.map_nil, List.append_nil]
  | cons b o =>
    obtain ⟨hb, ho⟩ := List.forall_mem_cons.mp ho
    have hrest := lossy_append_of_ascii ho []
    rw [List.append_nil] at hrest
    rw [lossy_append_cons hb, hrest]
    simp [lossy, decode]

/-- An ASCII character of a lossy text is one of the bytes. -/
theorem mem_of_mem_lossy {c : Char} (hc : c.toNat < 0x80) {bytes : List UInt8}
    (h : c ∈ lossy bytes) : UInt8.ofNat c.toNat ∈ bytes := by
  obtain ⟨token, hmem, heq⟩ := List.mem_map.mp h
  rw [getD_ascii hc heq] at hmem
  exact mem_of_mem_decode hc ⟨[], show Follows none [] from rfl⟩ hmem

/-- An ASCII character at the head of a lossy text is the first byte. -/
theorem lossy_eq_cons {c : Char} (hc : c.toNat < 0x80) {bytes : List UInt8} {s : List Char}
    (h : lossy bytes = c :: s) : ∃ rest, bytes = UInt8.ofNat c.toNat :: rest ∧ lossy rest = s := by
  cases bytes with
  | nil => cases h
  | cons b bytes =>
    rcases begins_cases b with ⟨hb, -⟩ | ⟨-, heq⟩ | ⟨-, p, heq, hp⟩
    · rw [← List.nil_append (b :: bytes), lossy_append_cons hb] at h
      obtain ⟨hhead, htail⟩ := List.cons.inj h
      refine ⟨bytes, ?_, htail⟩
      rw [← hhead, toNat_ofNat (.inl (by omega)), UInt8.ofNat_toNat]
    · rw [lossy, decode, step, heq] at h
      obtain ⟨hhead, -⟩ := List.cons.inj h
      exact absurd (getD_ascii hc hhead) nofun
    · obtain ⟨token, tokens, hdecode, htoken⟩ := decode_some_cases hp bytes
      rw [lossy, decode, step, heq, List.nil_append, hdecode] at h
      obtain ⟨hhead, -⟩ := List.cons.inj h
      exact absurd (htoken c (getD_ascii hc hhead)) (Nat.not_le.mpr hc)

/-- **Where a lossy text begins with ASCII characters**, the bytes begin with them. -/
theorem lossy_eq_append_iff {p : List Char} (hp : ∀ c ∈ p, c.toNat < 0x80) {bytes : List UInt8}
    {s : List Char} :
    lossy bytes = p ++ s ↔ ∃ rest, bytes = p.map (fun c => UInt8.ofNat c.toNat) ++ rest ∧
      lossy rest = s := by
  induction p generalizing bytes with
  | nil => exact ⟨fun h => ⟨bytes, rfl, h⟩, fun ⟨_, hbytes, h⟩ => hbytes ▸ h⟩
  | cons c p ih =>
    have hc := hp c List.mem_cons_self
    have hp' : ∀ c' ∈ p, c'.toNat < 0x80 := fun c' hc' => hp c' (List.mem_cons_of_mem _ hc')
    constructor
    · intro h
      obtain ⟨rest, rfl, hrest⟩ := lossy_eq_cons hc h
      obtain ⟨rest', rfl, hrest'⟩ := (ih hp').mp hrest
      exact ⟨rest', rfl, hrest'⟩
    · rintro ⟨rest, rfl, hrest⟩
      have hsmall : (UInt8.ofNat c.toNat).toNat = c.toNat := by
        rw [UInt8.toNat_ofNat']
        omega
      have hchar : Char.ofNat c.toNat = c := Char.ofNat_toNat c
      rw [List.map_cons, List.cons_append, ← List.nil_append (UInt8.ofNat c.toNat :: _),
        lossy_append_cons (by omega), hsmall, hchar, (ih hp').mpr ⟨rest, rfl, hrest⟩]
      rfl

/-! ## The bytes of a text -/

/-- A sequence is completed by the last bytes of a character that it can become.

**Proof sketch.** Induction on the number of bytes: each is in the range and adds its six bits. -/
theorem decode_trail {n v : ℕ} {lo hi : UInt8} {bits : ℕ} (h : Partial.Admits ⟨n, lo, hi, bits⟩ v)
    (bytes : List UInt8) :
    decode (some ⟨n, lo, hi, bits⟩) (trail (n + 1) v ++ bytes) =
      some (Char.ofNat v) :: decode none bytes := by
  induction n generalizing lo hi bits with
  | zero =>
    obtain ⟨hbits, hlo, hhi⟩ := h
    simp only [Nat.reducePow, Nat.zero_add, Nat.div_one] at hbits hlo hhi
    have hbyte : (UInt8.ofNat (v % 64 + 0x80)).toNat = v % 64 + 0x80 := by
      rw [UInt8.toNat_ofNat']
      omega
    have hrange : lo ≤ UInt8.ofNat (v % 64 + 0x80) ∧ UInt8.ofNat (v % 64 + 0x80) ≤ hi := by
      rw [UInt8.le_iff_toNat_le, UInt8.le_iff_toNat_le, hbyte]
      exact ⟨hlo, hhi⟩
    have hvalue : bits * 64 + (v % 64 + 0x80 - 0x80) = v := by omega
    rw [trail, trail, pow_zero, Nat.div_one]
    simp only [List.cons_append, List.nil_append, decode, step, hrange, and_self, if_true,
      Partial.next, hbyte, hvalue]
  | succ n ih =>
    obtain ⟨hbits, hlo, hhi⟩ := h
    have hdiv : v / 64 ^ (n + 2) = v / 64 ^ (n + 1) / 64 := by
      rw [Nat.pow_succ, Nat.div_div_eq_div_mul]
    have hbits : v / 64 ^ (n + 1) / 64 = bits := hdiv ▸ hbits
    have hbyte : (UInt8.ofNat (v / 64 ^ (n + 1) % 64 + 0x80)).toNat =
        v / 64 ^ (n + 1) % 64 + 0x80 := by
      rw [UInt8.toNat_ofNat']
      omega
    have hrange : lo ≤ UInt8.ofNat (v / 64 ^ (n + 1) % 64 + 0x80) ∧
        UInt8.ofNat (v / 64 ^ (n + 1) % 64 + 0x80) ≤ hi := by
      rw [UInt8.le_iff_toNat_le, UInt8.le_iff_toNat_le, hbyte]
      exact ⟨hlo, hhi⟩
    have hadmits : Partial.Admits
        ⟨n, 0x80, 0xBF, bits * 64 + (v / 64 ^ (n + 1) % 64 + 0x80 - 0x80)⟩ v := by
      refine ⟨?_, ?_, ?_⟩
      · show v / 64 ^ (n + 1) = bits * 64 + (v / 64 ^ (n + 1) % 64 + 0x80 - 0x80)
        omega
      · exact Nat.le_add_left 0x80 _
      · show v / 64 ^ n % 64 + 0x80 ≤ 0xBF
        omega
    rw [trail]
    simp only [List.cons_append, decode, step, hrange, and_self, if_true, Partial.next, hbyte,
      List.nil_append]
    exact ih hadmits

/-- A first byte begins the sequence of a character with number `v`, of which `needed + 1` bytes
are to come. -/
def BeginsFor (b : UInt8) (needed v : ℕ) : Prop :=
  ∃ p : Partial, begins b = ([], some p) ∧ p.needed = needed ∧ p.Admits v

/-- A first byte and the last bytes of a character decode to it. -/
theorem BeginsFor.decode {b : UInt8} {n v : ℕ} (h : BeginsFor b n v) (bytes : List UInt8) :
    decode none (b :: trail (n + 1) v ++ bytes) = some (Char.ofNat v) :: decode none bytes := by
  obtain ⟨p, hbegins, rfl, hadmits⟩ := h
  rw [List.cons_append, Utf8.decode, step, hbegins]
  exact decode_trail hadmits bytes

/-- The first byte of two. -/
theorem beginsFor_two {v : ℕ} (h1 : 0x7f < v) (h2 : v ≤ 0x7ff) :
    BeginsFor (UInt8.ofNat (v / 64 + 0xc0)) 0 v := by
  have hbyte : (UInt8.ofNat (v / 64 + 0xc0)).toNat = v / 64 + 0xc0 := by
    rw [UInt8.toNat_ofNat']
    omega
  refine ⟨⟨0, 0x80, 0xBF, v / 64⟩, ?_, rfl, ?_, ?_, ?_⟩
  · unfold begins
    simp only [UInt8.lt_iff_toNat_lt, UInt8.reduceToNat, hbyte]
    rw [if_neg (by omega), if_neg (by omega), if_pos (by omega), Nat.add_sub_cancel]
  all_goals
    simp only [Nat.reducePow, UInt8.reduceToNat]
    omega

/-- The first byte of three. -/
theorem beginsFor_three {v : ℕ} (hv : v.isValidChar) (h1 : 0x7ff < v) (h2 : v ≤ 0xffff) :
    BeginsFor (UInt8.ofNat (v / 4096 + 0xe0)) 1 v := by
  have hbyte : (UInt8.ofNat (v / 4096 + 0xe0)).toNat = v / 4096 + 0xe0 := by
    rw [UInt8.toNat_ofNat']
    omega
  generalize UInt8.ofNat (v / 4096 + 0xe0) = b at hbyte ⊢
  refine ⟨⟨1, if b = 0xE0 then 0xA0 else 0x80, if b = 0xED then 0x9F else 0xBF, v / 4096⟩,
    ?_, rfl, rfl, ?_, ?_⟩
  · unfold begins
    simp only [UInt8.lt_iff_toNat_lt, UInt8.reduceToNat, hbyte]
    rw [if_neg (by omega), if_neg (by omega), if_neg (by omega), if_pos (by omega),
      Nat.add_sub_cancel]
  · show (if b = 0xE0 then (0xA0 : UInt8) else 0x80).toNat ≤ v / 64 % 64 + 0x80
    split_ifs with heq
    · have : v / 4096 + 0xe0 = 0xE0 := by rw [← hbyte, heq]; rfl
      simp only [UInt8.reduceToNat]
      omega
    · exact Nat.le_add_left 0x80 _
  · show v / 64 % 64 + 0x80 ≤ (if b = 0xED then (0x9F : UInt8) else 0xBF).toNat
    split_ifs with heq
    · -- no surrogates
      have : v / 4096 + 0xe0 = 0xED := by rw [← hbyte, heq]; rfl
      simp only [UInt8.reduceToNat]
      rcases hv with h | h <;> omega
    · simp only [UInt8.reduceToNat]
      omega

/-- The first byte of four. -/
theorem beginsFor_four {v : ℕ} (hv : v < 0x110000) (h : 0xffff < v) :
    BeginsFor (UInt8.ofNat (v / 262144 + 0xf0)) 2 v := by
  have hbyte : (UInt8.ofNat (v / 262144 + 0xf0)).toNat = v / 262144 + 0xf0 := by
    rw [UInt8.toNat_ofNat']
    omega
  generalize UInt8.ofNat (v / 262144 + 0xf0) = b at hbyte ⊢
  refine ⟨⟨2, if b = 0xF0 then 0x90 else 0x80, if b = 0xF4 then 0x8F else 0xBF, v / 262144⟩,
    ?_, rfl, rfl, ?_, ?_⟩
  · unfold begins
    simp only [UInt8.lt_iff_toNat_lt, UInt8.reduceToNat, hbyte]
    rw [if_neg (by omega), if_neg (by omega), if_neg (by omega), if_neg (by omega),
      if_pos (by omega), Nat.add_sub_cancel]
  · show (if b = 0xF0 then (0x90 : UInt8) else 0x80).toNat ≤ v / 4096 % 64 + 0x80
    split_ifs with heq
    · have : v / 262144 + 0xf0 = 0xF0 := by rw [← hbyte, heq]; rfl
      simp only [UInt8.reduceToNat]
      omega
    · exact Nat.le_add_left 0x80 _
  · show v / 4096 % 64 + 0x80 ≤ (if b = 0xF4 then (0x8F : UInt8) else 0xBF).toNat
    split_ifs with heq
    · have : v / 262144 + 0xf0 = 0xF4 := by rw [← hbyte, heq]; rfl
      simp only [UInt8.reduceToNat]
      omega
    · simp only [UInt8.reduceToNat]
      omega

/-- The bytes of a character decode to it. -/
theorem decode_utf8EncodeChar (c : Char) (bytes : List UInt8) :
    decode none (String.utf8EncodeChar c ++ bytes) = some c :: decode none bytes := by
  have hvalid : c.toNat.isValidChar := c.valid
  have hmax : c.toNat < 0x110000 := by rcases hvalid with h | h <;> omega
  have hchar : Char.ofNat c.toNat = c := Char.ofNat_toNat c
  have henc := utf8EncodeChar_ofNat hvalid
  rw [hchar] at henc
  rw [henc]
  split_ifs with h1 h2 h3
  · have hbyte : (UInt8.ofNat c.toNat).toNat = c.toNat := by
      rw [UInt8.toNat_ofNat']
      omega
    rw [List.singleton_append, decode_ascii_cons ⟨[], show Follows none [] from rfl⟩
      (b := UInt8.ofNat c.toNat) (by omega), hbyte, hchar]
    rfl
  · rw [(beginsFor_two (by omega) h2).decode, hchar]
  · rw [(beginsFor_three hvalid (by omega) h3).decode, hchar]
  · rw [(beginsFor_four hmax (by omega)).decode, hchar]

/-- The bytes of a text decode to its characters. -/
theorem decode_encode (s : List Char) : decode none (encode s) = s.map some := by
  induction s with
  | nil => rfl
  | cons c s ih =>
    rw [encode, List.flatMap_cons, decode_utf8EncodeChar, ← encode, ih, List.map_cons]

/-- **A text is the text of its bytes.** -/
theorem fromUtf8_encode (s : List Char) : fromUtf8 (encode s) = some s := by
  rw [fromUtf8, decode_encode, if_neg (by simp), List.reduceOption, List.filterMap_map]
  simp

/-- A text is the lossy text of its bytes. -/
theorem lossy_encode (s : List Char) : lossy (encode s) = s := by
  rw [lossy, decode_encode, List.map_map]
  exact List.map_id s

/-- Only the empty text has no bytes. -/
theorem encode_ne_nil {s : List Char} (h : s ≠ []) : encode s ≠ [] := by
  intro hnil
  have htext := lossy_encode s
  rw [hnil] at htext
  exact h htext.symm

/-- The bytes of ASCII characters are their numbers. -/
theorem encode_ascii {s : List Char} (h : ∀ c ∈ s, c.toNat < 0x80) :
    encode s = s.map fun c => UInt8.ofNat c.toNat := by
  induction s with
  | nil => rfl
  | cons c s ih =>
    obtain ⟨hc, hs⟩ := List.forall_mem_cons.mp h
    have hvalid : c.toNat.isValidChar := c.valid
    have henc := utf8EncodeChar_ofNat hvalid
    rw [Char.ofNat_toNat, if_pos (by omega)] at henc
    rw [encode, List.flatMap_cons, ← encode, ih hs, henc]
    rfl

/-- Only ASCII characters have ASCII bytes alone. -/
theorem ascii_of_encode {s : List Char} (h : ∀ b ∈ encode s, b.toNat < 0x80) :
    ∀ c ∈ s, c.toNat < 0x80 := by
  intro c hc
  have hbytes : ∀ b ∈ String.utf8EncodeChar c, b.toNat < 0x80 := fun b hb =>
    h b (List.mem_flatMap.mpr ⟨c, hc, hb⟩)
  have hvalid : c.toNat.isValidChar := c.valid
  have hmax : c.toNat < 0x110000 := by rcases hvalid with h | h <;> omega
  have henc := utf8EncodeChar_ofNat hvalid
  rw [Char.ofNat_toNat] at henc
  rw [henc] at hbytes
  split_ifs at hbytes with h1 h2 h3
  · omega
  all_goals
    have hfirst := hbytes _ List.mem_cons_self
    rw [UInt8.toNat_ofNat'] at hfirst
    omega

/-! ## Lines -/

/-- Every byte leads to a token. -/
theorem decode_cons_ne_nil {pending : Option Partial} (h : ∃ pre, Follows pending pre)
    (b : UInt8) (bytes : List UInt8) : decode pending (b :: bytes) ≠ [] := by
  obtain ⟨pre, hpre⟩ := h
  rw [decode]
  rcases step_cases hpre b with ⟨p, heq, hp⟩ | ⟨c, heq, -⟩ | ⟨hnone, -⟩
  · obtain ⟨token, tokens, hdecode, -⟩ := decode_some_cases hp bytes
    rw [heq, hdecode]
    exact List.cons_ne_nil _ _
  · rw [heq]
    exact List.cons_ne_nil _ _
  · exact List.append_ne_nil_of_left_ne_nil (List.ne_nil_of_mem hnone) _

/-- Only no bytes have no text. -/
theorem lossy_eq_nil_iff {bytes : List UInt8} : lossy bytes = [] ↔ bytes = [] := by
  cases bytes with
  | nil => exact iff_of_true rfl rfl
  | cons b bytes =>
    refine iff_of_false (fun h => ?_) (List.cons_ne_nil b bytes)
    exact decode_cons_ne_nil ⟨[], show Follows none [] from rfl⟩ b bytes (List.map_eq_nil_iff.mp h)

/-- An ASCII character is the last of a lossy text only if it is the last byte. -/
theorem getLast_of_lossy {c : Char} (hc : c.toNat < 0x80) {bytes : List UInt8}
    (h : (lossy bytes).getLast? = some c) : bytes.getLast? = some (UInt8.ofNat c.toNat) := by
  rcases List.eq_nil_or_concat bytes with rfl | ⟨bytes, b, rfl⟩
  · cases h
  · obtain ⟨out, between, hbetween, hdecode⟩ :=
      decode_append ⟨[], show Follows none [] from rfl⟩ bytes
    have hne := decode_cons_ne_nil hbetween b []
    rw [List.concat_eq_append] at h ⊢
    rw [lossy, hdecode, List.map_append, List.getLast?_append_of_ne_nil _
      (by simpa using hne), List.getLast?_map] at h
    obtain ⟨token, hlast, htoken⟩ := Option.map_eq_some_iff.mp h
    rw [getD_ascii hc htoken] at hlast
    have hmem := mem_of_mem_decode hc hbetween (List.mem_of_getLast? hlast)
    rw [List.mem_singleton.mp hmem, List.getLast?_concat]

/-- Without one carriage return at the end. -/
theorem stripLast_lossy (bytes : List UInt8) :
    Scan.stripLast '\r' (lossy bytes) = lossy (Scan.stripLast 13 bytes) := by
  unfold Scan.stripLast
  by_cases hlast : bytes.getLast? = some 13
  · obtain ⟨bytes, rfl⟩ := List.getLast?_eq_some_iff.mp hlast
    have hlossy : lossy (bytes ++ [13]) = lossy bytes ++ ['\r'] :=
      lossy_append_cons (by decide) bytes []
    rw [if_pos hlast, hlossy, if_pos List.getLast?_concat, List.dropLast_concat,
      List.dropLast_concat]
  · rw [if_neg hlast, if_neg fun h => hlast (getLast_of_lossy (by decide) h)]

/-- **The lines of a lossy text** are the lossy lines of the bytes.

**Proof sketch.** Induction on the number of bytes: the first line feed among the bytes is the
first of the text, and the parts before and after it decode by themselves. -/
theorem lines_lossy (bytes : List UInt8) :
    Scan.lines '\n' '\r' (lossy bytes) = (Scan.lines 10 13 bytes).map lossy := by
  have hnewline : ∀ {bytes : List UInt8}, (10 : UInt8) ∉ bytes → '\n' ∉ lossy bytes :=
    fun h hmem => h (mem_of_mem_lossy (by decide) hmem)
  induction hn : bytes.length using Nat.strong_induction_on generalizing bytes with
  | _ n ih =>
    by_cases hmem : (10 : UInt8) ∈ bytes
    · obtain ⟨line, rest, rfl, hline⟩ := List.eq_append_cons_of_mem hmem
      have hlossy : lossy (line ++ 10 :: rest) = lossy line ++ '\n' :: lossy rest :=
        lossy_append_cons (by decide) line rest
      have hlt : rest.length < n := by
        rw [← hn, List.length_append, List.length_cons]
        omega
      rw [hlossy, Scan.lines_append_cons (hnewline hline), Scan.lines_append_cons hline,
        List.map_cons, stripLast_lossy, ih rest.length hlt rest rfl]
    · rw [Scan.lines_of_not_mem (hnewline hmem), Scan.lines_of_not_mem hmem]
      by_cases hnil : bytes = []
      · rw [if_pos hnil, if_pos (lossy_eq_nil_iff.mpr hnil)]
        rfl
      · rw [if_neg hnil, if_neg (mt lossy_eq_nil_iff.mp hnil)]
        rfl

end Utf8
