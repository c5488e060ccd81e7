import Mathlib.Algebra.Order.Floor.Div
import Synclaire.Proxy.Base64

set_option relaxedAutoImplicit false
set_option autoImplicit false

/-!
# What the base64 decoder accepts

The decoder takes off the `=` at the end, however many there are, and takes a byte whenever it has
eight bits. What is left at the end, two, four or six bits, is dropped. So it accepts every text
of the alphabet with any padding, and its result is that of the text with its end put right.

## Main definitions

* `Synclaire.Base64.normalized` — a text of the alphabet with its end put right.
* `Synclaire.Base64.Canonical` — the end of a text is right: full groups of four, at most two `=`,
  and no bit set that no byte takes.

## Main results

* `Synclaire.Base64.encode_shape` — the round trip, and the length and the characters of what is
  encoded.
* `Synclaire.Base64.decode_eq_ok_iff` — the accepted texts, and what they decode to.
* `Synclaire.Base64.decode_language` — with it, the canonical texts are the encodings.

## Implementation notes

A character of the alphabet stands for its position in it, a number of six bits; the facts about
the encoder's words are stated for these numbers.
-/

namespace Synclaire.Base64

/-! ## Words as numbers -/

/-- A byte that is shifted within the word. -/
theorem toNat_shiftLeft (b : UInt8) {k : UInt32} (hk : k.toNat ≤ 24) :
    (b.toUInt32 <<< k).toNat = b.toNat <<< k.toNat := by
  rw [UInt32.toNat_shiftLeft, UInt8.toNat_toUInt32, Nat.mod_eq_of_lt (a := k.toNat) (by omega)]
  refine Nat.mod_eq_of_lt ?_
  rw [Nat.shiftLeft_eq]
  calc b.toNat * 2 ^ k.toNat ≤ b.toNat * 2 ^ 24 := by gcongr; omega
    _ < 2 ^ 32 := by have := b.toNat_lt; omega

/-- The number of a word of three bytes. -/
theorem toNat_wordOf (b1 b2 b3 : UInt8) :
    (wordOf b1 b2 b3).toNat = b1.toNat * 65536 + b2.toNat * 256 + b3.toNat := by
  have hlow : b2.toNat <<< 8 ||| b3.toNat = b2.toNat <<< 8 + b3.toNat :=
    (Nat.shiftLeft_add_eq_or_of_lt b3.toNat_lt _).symm
  have hall : b1.toNat <<< 16 ||| (b2.toNat <<< 8 + b3.toNat) =
      b1.toNat <<< 16 + (b2.toNat <<< 8 + b3.toNat) := by
    have h2 := b2.toNat_lt
    have h3 := b3.toNat_lt
    refine (Nat.shiftLeft_add_eq_or_of_lt ?_ _).symm
    rw [Nat.shiftLeft_eq]
    omega
  rw [wordOf, UInt32.toNat_or, UInt32.toNat_or, toNat_shiftLeft b1 (by decide),
    toNat_shiftLeft b2 (by decide), UInt8.toNat_toUInt32, Nat.or_assoc]
  show b1.toNat <<< 16 ||| (b2.toNat <<< 8 ||| b3.toNat) = _
  rw [hlow, hall, Nat.shiftLeft_eq, Nat.shiftLeft_eq, Nat.add_assoc]

/-- The character of a number of six bits. -/
def sextet (i : ℕ) : Char := base64Chars.getD i 'A'

/-- The position of the character of a number. -/
theorem idxOf_sextet : ∀ i < 64, base64Chars.idxOf (sextet i) = i := by decide +kernel

/-- A character of the alphabet is the one at its position. -/
theorem sextet_idxOf {c : Char} (h : c ∈ base64Chars) : sextet (base64Chars.idxOf c) = c := by
  have hlt := List.idxOf_lt_length_of_mem h
  rw [sextet, List.getD_eq_getElem?_getD, List.getElem?_eq_getElem hlt, List.getElem_idxOf]
  rfl

/-- The character of a word, by the number of the word. -/
theorem charOf_eq (n : UInt32) : charOf n = sextet (n.toNat % 64) := by
  rw [charOf, UInt32.toNat_and]
  exact congrArg sextet (Nat.and_two_pow_sub_one_eq_mod n.toNat 6)

section Word

variable (b1 b2 b3 : UInt8)

/-- The first character of a chunk. -/
theorem charOf_first : charOf (wordOf b1 b2 b3 >>> 18) = sextet (b1.toNat / 4) := by
  have h1 := b1.toNat_lt
  have h2 := b2.toNat_lt
  have h3 := b3.toNat_lt
  rw [charOf_eq, UInt32.toNat_shiftRight, toNat_wordOf, Nat.shiftRight_eq_div_pow]
  refine congrArg sextet ?_
  show (b1.toNat * 65536 + b2.toNat * 256 + b3.toNat) / 262144 % 64 = b1.toNat / 4
  omega

/-- The second character. -/
theorem charOf_second :
    charOf (wordOf b1 b2 b3 >>> 12) = sextet (b1.toNat % 4 * 16 + b2.toNat / 16) := by
  have h2 := b2.toNat_lt
  have h3 := b3.toNat_lt
  rw [charOf_eq, UInt32.toNat_shiftRight, toNat_wordOf, Nat.shiftRight_eq_div_pow]
  refine congrArg sextet ?_
  show (b1.toNat * 65536 + b2.toNat * 256 + b3.toNat) / 4096 % 64 = _
  omega

/-- The third character. -/
theorem charOf_third :
    charOf (wordOf b1 b2 b3 >>> 6) = sextet (b2.toNat % 16 * 4 + b3.toNat / 64) := by
  have h3 := b3.toNat_lt
  rw [charOf_eq, UInt32.toNat_shiftRight, toNat_wordOf, Nat.shiftRight_eq_div_pow]
  refine congrArg sextet ?_
  show (b1.toNat * 65536 + b2.toNat * 256 + b3.toNat) / 64 % 64 = _
  omega

/-- The fourth character. -/
theorem charOf_fourth : charOf (wordOf b1 b2 b3) = sextet (b3.toNat % 64) := by
  rw [charOf_eq, toNat_wordOf]
  refine congrArg sextet ?_
  omega

end Word

/-- Any four characters of the alphabet are a chunk of three bytes. -/
theorem exists_wordOf {a b c d : Char} (ha : a ∈ base64Chars) (hb : b ∈ base64Chars)
    (hc : c ∈ base64Chars) (hd : d ∈ base64Chars) :
    ∃ b1 b2 b3, charOf (wordOf b1 b2 b3 >>> 18) = a ∧ charOf (wordOf b1 b2 b3 >>> 12) = b ∧
      charOf (wordOf b1 b2 b3 >>> 6) = c ∧ charOf (wordOf b1 b2 b3) = d := by
  have hlt : ∀ {c : Char}, c ∈ base64Chars → base64Chars.idxOf c < 64 :=
    fun h => List.idxOf_lt_length_of_mem h
  have ha' := hlt ha
  have hb' := hlt hb
  have hc' := hlt hc
  have hd' := hlt hd
  refine ⟨UInt8.ofNat (base64Chars.idxOf a * 4 + base64Chars.idxOf b / 16),
    UInt8.ofNat (base64Chars.idxOf b % 16 * 16 + base64Chars.idxOf c / 4),
    UInt8.ofNat (base64Chars.idxOf c % 4 * 64 + base64Chars.idxOf d), ?_, ?_, ?_, ?_⟩
  · rw [charOf_first, UInt8.toNat_ofNat']
    refine (congrArg sextet ?_).trans (sextet_idxOf ha)
    omega
  · rw [charOf_second, UInt8.toNat_ofNat', UInt8.toNat_ofNat']
    refine (congrArg sextet ?_).trans (sextet_idxOf hb)
    omega
  · rw [charOf_third, UInt8.toNat_ofNat', UInt8.toNat_ofNat']
    refine (congrArg sextet ?_).trans (sextet_idxOf hc)
    omega
  · rw [charOf_fourth, UInt8.toNat_ofNat']
    refine (congrArg sextet ?_).trans (sextet_idxOf hd)
    omega

/-! ## What the encoder writes -/

/-- **The length of what is encoded**: four characters for each chunk of up to three bytes. -/
theorem length_encodeChunks (bytes : List UInt8) :
    (encodeChunks bytes).length = 4 * (bytes.length ⌈/⌉ 3) := by
  simp only [Nat.ceilDiv_eq_add_pred_div]
  induction bytes using encodeChunks.induct with
  | case1 => rfl
  | case2 b1 => simp [encodeChunks, encodeChunk]
  | case3 b1 b2 => simp [encodeChunks, encodeChunk]
  | case4 b1 b2 b3 rest ih =>
    rw [encodeChunks, List.length_append, ih]
    simp only [encodeChunk, List.length_cons, List.length_nil]
    omega

/-- **The shape of what is encoded**: it decodes to the bytes of the text, has four characters for
each three bytes, rounded up, and consists of characters of the alphabet and at most two `=`. -/
theorem encode_shape (s : Str) :
    decode (encode s) = .ok (Utf8.encode s) ∧
      (encode s).length = 4 * ((Utf8.encode s).length ⌈/⌉ 3) ∧
      ∃ body pad, encode s = body ++ List.replicate pad '=' ∧ pad ≤ 2 ∧
        ∀ c ∈ body, c ∈ base64Chars := by
  obtain ⟨body, pad, hencode, hpad, hmem, -⟩ := encodeChunks_eq (Utf8.encode s)
  exact ⟨decode_encode s, length_encodeChunks _, body, pad, hencode, hpad, hmem⟩

/-! ## The end of a text -/

/-- A character with its last bits cleared: its number becomes a multiple of `m`. -/
def cleared (m : ℕ) (c : Char) : Char := sextet (base64Chars.idxOf c / m * m)

/-- A text of the alphabet with its end put right: the bits that no byte takes are cleared, the
padding is as it should be, and a single character at the end is left out. -/
def normalized : Str → Str
  | [] => []
  | [_] => []
  | [a, b] => [a, cleared 16 b, '=', '=']
  | [a, b, c] => [a, b, cleared 4 c, '=']
  | a :: b :: c :: d :: rest => a :: b :: c :: d :: normalized rest

/-- The end of a text is right: its groups of four are full, with at most two `=`, and the last
character before these has no bits that no byte takes. -/
structure Canonical (t : Str) : Prop where
  /-- The groups are full. -/
  groups : 4 ∣ t.length
  /-- There are at most two `=`. -/
  padding : t.length ≤ (trimEndMatches '=' t).length + 2
  /-- No bits are left over. -/
  leftover : ∀ c ∈ (trimEndMatches '=' t).getLast?,
    4 ^ (t.length - (trimEndMatches '=' t).length) ∣ base64Chars.idxOf c

/-- A character is cleared already if its number is a multiple. -/
theorem cleared_eq_iff {m : ℕ} {c : Char} (h : c ∈ base64Chars) :
    cleared m c = c ↔ m ∣ base64Chars.idxOf c := by
  have hlt : base64Chars.idxOf c < 64 := List.idxOf_lt_length_of_mem h
  have hle : base64Chars.idxOf c / m * m ≤ base64Chars.idxOf c := Nat.div_mul_le_self _ _
  rw [cleared]
  constructor
  · intro heq
    have hidx := idxOf_sextet _ (hle.trans_lt hlt)
    rw [heq] at hidx
    exact Dvd.intro_left _ hidx.symm
  · intro hdvd
    rw [Nat.div_mul_cancel hdvd, sextet_idxOf h]

/-- The last character of a text is cleared and followed by padding already. -/
theorem append_replicate_eq_cleared_iff {c : Char} (hc : c ∈ base64Chars) (front : Str)
    (m pad k : ℕ) :
    front ++ c :: List.replicate pad '=' = front ++ cleared m c :: List.replicate k '=' ↔
      pad = k ∧ m ∣ base64Chars.idxOf c := by
  rw [List.append_right_inj, List.cons.injEq, @eq_comm _ c, cleared_eq_iff hc,
    List.replicate_inj, and_comm]
  simp only [or_true, and_true]

/-- A text is its own normal form where its end is right.

**Proof sketch.** Groups of four are the same on both sides; at the end, each number of
characters that are left asks for its own padding. -/
theorem append_replicate_eq_normalized_iff :
    ∀ (body : Str) (pad : ℕ), (∀ c ∈ body, c ∈ base64Chars) →
      (body ++ List.replicate pad '=' = normalized body ↔
        4 ∣ body.length + pad ∧ pad ≤ 2 ∧ ∀ c ∈ body.getLast?, 4 ^ pad ∣ base64Chars.idxOf c)
  | [], pad, _ => by
    rw [normalized, List.nil_append, List.length_nil, Nat.zero_add, List.getLast?_nil]
    constructor
    · intro h
      have hpad : pad = 0 := by simpa using h
      subst hpad
      exact ⟨Nat.dvd_zero 4, Nat.zero_le 2, nofun⟩
    · rintro ⟨hdvd, hpad, -⟩
      have hzero : pad = 0 := by omega
      rw [hzero, List.replicate_zero]
  | [a], pad, _ => by
    rw [normalized, List.length_singleton]
    refine iff_of_false (List.cons_ne_nil _ _) ?_
    rintro ⟨hdvd, hpad, -⟩
    omega
  | [a, b], pad, h => by
    have hiff : [a, b] ++ List.replicate pad '=' = normalized [a, b] ↔
        pad = 2 ∧ 16 ∣ base64Chars.idxOf b :=
      append_replicate_eq_cleared_iff (h b (by simp)) [a] 16 pad 2
    rw [hiff]
    constructor
    · rintro ⟨rfl, hclear⟩
      exact ⟨Nat.dvd_refl 4, Nat.le_refl 2, fun c hc => Option.some.inj hc ▸ hclear⟩
    · rintro ⟨hdvd, hpad, hleft⟩
      obtain rfl : pad = 2 := by simp at hdvd; omega
      exact ⟨rfl, hleft b rfl⟩
  | [a, b, c], pad, h => by
    have hiff : [a, b, c] ++ List.replicate pad '=' = normalized [a, b, c] ↔
        pad = 1 ∧ 4 ∣ base64Chars.idxOf c :=
      append_replicate_eq_cleared_iff (h c (by simp)) [a, b] 4 pad 1
    rw [hiff]
    constructor
    · rintro ⟨rfl, hclear⟩
      exact ⟨Nat.dvd_refl 4, by decide, fun d hd => Option.some.inj hd ▸ hclear⟩
    · rintro ⟨hdvd, hpad, hleft⟩
      obtain rfl : pad = 1 := by simp at hdvd; omega
      exact ⟨rfl, hleft c rfl⟩
  | a :: b :: c :: d :: rest, pad, h => by
    have ih := append_replicate_eq_normalized_iff rest pad fun e he => h e (by simp [he])
    have hlen : (a :: b :: c :: d :: rest).length + pad = rest.length + pad + 4 := by
      simp only [List.length_cons]
      omega
    rw [normalized, hlen, Nat.dvd_add_self_right]
    simp only [List.cons_append, List.cons.injEq, true_and]
    rw [ih]
    refine and_congr_right fun hdvd => and_congr_right fun hpad => ?_
    cases rest with
    | nil =>
      have hzero : pad = 0 := by
        rw [List.length_nil] at hdvd
        omega
      simp [hzero]
    | cons e rest => simp only [List.getLast?_cons_cons]

/-! ## The decoder -/

/-- A byte that the decoder takes is the number of a character of the alphabet. -/
theorem mem_base64Chars_of_value :
    ∀ b : UInt8, (value b).isSome → b.toNat < 0x80 ∧ Char.ofNat b.toNat ∈ base64Chars :=
  forall_byte (by decide +kernel)

/-- The decoder returns bytes only if it took every byte of the text. -/
theorem isSome_of_decodeLoop {n : UInt32} {bits : ℕ} {output input r : List UInt8}
    (h : decodeLoop n bits output input = .ok r) : ∀ c ∈ input, (value c).isSome := by
  induction input generalizing n bits output with
  | nil => exact nofun
  | cons c input ih =>
    rw [decodeLoop] at h
    cases hvalue : value c with
    | none =>
      rw [hvalue] at h
      cases h
    | some val =>
      rw [hvalue] at h
      refine List.forall_mem_cons.mpr ⟨by rw [hvalue]; rfl, ?_⟩
      dsimp only at h
      split_ifs at h
      · exact ih h
      · exact ih h

/-- What is decoded is text of the alphabet, but for the `=` at the end. -/
theorem mem_of_decode {t : Str} {b : List UInt8} (h : decode t = .ok b) :
    ∀ c ∈ trimEndMatches '=' t, c ∈ base64Chars := by
  have htaken : ∀ b ∈ Utf8.encode (trimEndMatches '=' t),
      b.toNat < 0x80 ∧ Char.ofNat b.toNat ∈ base64Chars := fun b hb =>
    mem_base64Chars_of_value b (isSome_of_decodeLoop h b hb)
  have hascii := Utf8.ascii_of_encode fun b hb => (htaken b hb).1
  intro c hc
  have hbyte : UInt8.ofNat c.toNat ∈ Utf8.encode (trimEndMatches '=' t) := by
    rw [Utf8.encode_ascii hascii]
    exact List.mem_map_of_mem hc
  have hmem := (htaken _ hbyte).2
  have hlt := hascii c hc
  rwa [UInt8.toNat_ofNat', Nat.mod_eq_of_lt (by omega), Char.ofNat_toNat] at hmem

/-- The first two characters of a chunk of one byte, from those of any chunk that begins with it. -/
theorem encodeChunks_one (b1 b2 b3 : UInt8) :
    encodeChunks [b1] = [charOf (wordOf b1 b2 b3 >>> 18),
      cleared 16 (charOf (wordOf b1 b2 b3 >>> 12)), '=', '='] := by
  have h1 := b1.toNat_lt
  have h2 := b2.toNat_lt
  have hfirst : charOf (wordOf b1 0 0 >>> 18) = charOf (wordOf b1 b2 b3 >>> 18) := by
    rw [charOf_first, charOf_first]
  have hsecond : charOf (wordOf b1 0 0 >>> 12) = cleared 16 (charOf (wordOf b1 b2 b3 >>> 12)) := by
    rw [charOf_second, charOf_second, cleared, idxOf_sextet _ (by omega)]
    refine congrArg sextet ?_
    show b1.toNat % 4 * 16 + 0 / 16 = _
    omega
  rw [← hfirst, ← hsecond]
  rfl

/-- The first three characters of a chunk of two bytes. -/
theorem encodeChunks_two (b1 b2 b3 : UInt8) :
    encodeChunks [b1, b2] = [charOf (wordOf b1 b2 b3 >>> 18), charOf (wordOf b1 b2 b3 >>> 12),
      cleared 4 (charOf (wordOf b1 b2 b3 >>> 6)), '='] := by
  have h3 := b3.toNat_lt
  have hfirst : charOf (wordOf b1 b2 0 >>> 18) = charOf (wordOf b1 b2 b3 >>> 18) := by
    rw [charOf_first, charOf_first]
  have hsecond : charOf (wordOf b1 b2 0 >>> 12) = charOf (wordOf b1 b2 b3 >>> 12) := by
    rw [charOf_second, charOf_second]
  have hthird : charOf (wordOf b1 b2 0 >>> 6) = cleared 4 (charOf (wordOf b1 b2 b3 >>> 6)) := by
    rw [charOf_third, charOf_third, cleared, idxOf_sextet _ (by omega)]
    refine congrArg sextet ?_
    show b2.toNat % 16 * 4 + 0 / 64 = _
    omega
  rw [← hfirst, ← hsecond, ← hthird]
  rfl

/-- **What the decoder makes of a text of the alphabet**: the bytes whose encoding is the text with
its end put right.

**Proof sketch.** Recursion on groups of four characters, which are chunks of the encoder; at the
end the decoder stops with two, four or six bits in its word. -/
theorem exists_decodeLoop_eq : ∀ body : Str, (∀ c ∈ body, c ∈ base64Chars) →
    ∃ bytes, encodeChunks bytes = normalized body ∧
      ∀ w output, decodeLoop w 0 output (bytesOf body) = .ok (output ++ bytes)
  | [], _ => ⟨[], rfl, fun w output => by simp [bytesOf, decodeLoop]⟩
  | [a], h => by
    obtain ⟨b1, b2, b3, ha, -⟩ :=
      exists_wordOf (h a (by simp)) (h a (by simp)) (h a (by simp)) (h a (by simp))
    refine ⟨[], rfl, fun w output => ?_⟩
    rw [← ha, bytesOf, List.map_singleton, decodeLoop_charOf (by omega), decodeLoop,
      List.append_nil]
  | [a, b], h => by
    obtain ⟨b1, b2, b3, ha, hb, -⟩ :=
      exists_wordOf (h a (by simp)) (h b (by simp)) (h a (by simp)) (h a (by simp))
    refine ⟨[b1], by rw [← ha, ← hb, encodeChunks_one b1 b2 b3, normalized], fun w output => ?_⟩
    rw [← ha, ← hb]
    simp only [bytesOf, List.map_cons, List.map_nil]
    rw [decodeLoop_one, decodeLoop]
  | [a, b, c], h => by
    obtain ⟨b1, b2, b3, ha, hb, hc, -⟩ :=
      exists_wordOf (h a (by simp)) (h b (by simp)) (h c (by simp)) (h a (by simp))
    refine ⟨[b1, b2], by rw [← ha, ← hb, ← hc, encodeChunks_two b1 b2 b3, normalized],
      fun w output => ?_⟩
    rw [← ha, ← hb, ← hc]
    simp only [bytesOf, List.map_cons, List.map_nil]
    rw [decodeLoop_one, decodeLoop_two, decodeLoop, List.append_assoc]
    rfl
  | a :: b :: c :: d :: rest, h => by
    obtain ⟨bytes, hencode, hdecode⟩ := exists_decodeLoop_eq rest fun e he => h e (by simp [he])
    obtain ⟨b1, b2, b3, ha, hb, hc, hd⟩ :=
      exists_wordOf (h a (by simp)) (h b (by simp)) (h c (by simp)) (h d (by simp))
    refine ⟨b1 :: b2 :: b3 :: bytes, ?_, fun w output => ?_⟩
    · rw [encodeChunks, hencode, normalized, ← ha, ← hb, ← hc, ← hd]
      rfl
    · rw [← ha, ← hb, ← hc, ← hd]
      simp only [bytesOf, List.map_cons]
      rw [decodeLoop_one, decodeLoop_two, decodeLoop_three, ← bytesOf, hdecode]
      simp

/-- The encoder writes different texts for different bytes. -/
theorem encodeChunks_injective : Function.Injective encodeChunks := by
  intro bytes bytes' h
  have hdecode := trimEndMatches_encodeChunks bytes
  rw [h, trimEndMatches_encodeChunks] at hdecode
  exact (Except.ok.inj hdecode).symm

/-- **The accepted texts, and what they decode to**: text of the alphabet with any padding, and
the bytes whose encoding is the text with its end put right. -/
theorem decode_eq_ok_iff (t : Str) (b : List UInt8) :
    decode t = .ok b ↔ (∀ c ∈ trimEndMatches '=' t, c ∈ base64Chars) ∧
      encodeChunks b = normalized (trimEndMatches '=' t) := by
  have hresult : (∀ c ∈ trimEndMatches '=' t, c ∈ base64Chars) → ∃ bytes,
      encodeChunks bytes = normalized (trimEndMatches '=' t) ∧ decode t = .ok bytes := by
    intro hmem
    obtain ⟨bytes, hencode, hdecode⟩ := exists_decodeLoop_eq _ hmem
    refine ⟨bytes, hencode, ?_⟩
    rw [decode, Utf8.encode_ascii fun c hc => ascii_of_mem c (hmem c hc)]
    exact hdecode 0 []
  constructor
  · intro h
    have hmem := mem_of_decode h
    obtain ⟨bytes, hencode, hdecode⟩ := hresult hmem
    obtain rfl := Except.ok.inj (h.symm.trans hdecode)
    exact ⟨hmem, hencode⟩
  · rintro ⟨hmem, hencode⟩
    obtain ⟨bytes, hencode', hdecode⟩ := hresult hmem
    rw [encodeChunks_injective (hencode.trans hencode'.symm), hdecode]

/-- The decoder is not strict: it needs no padding. -/
theorem not_forall_strict :
    ¬∀ (t : Str) (b : List UInt8), decode t = .ok b → t = encodeChunks b := by
  intro h
  have hdecode : decode "Zg".toList = .ok [0x66] := by decide
  exact absurd (h _ _ hdecode) (by decide +kernel)

/-- A text has the right end where it is its own normal form. -/
theorem canonical_iff {t : Str} (h : ∀ c ∈ trimEndMatches '=' t, c ∈ base64Chars) :
    Canonical t ↔ t = normalized (trimEndMatches '=' t) := by
  have hsplit := trimEndMatches_append_replicate_sub '=' t
  have hlen : (trimEndMatches '=' t).length + (t.length - (trimEndMatches '=' t).length) =
      t.length := by
    have := congrArg List.length hsplit
    rwa [List.length_append, List.length_replicate] at this
  have hiff := append_replicate_eq_normalized_iff (trimEndMatches '=' t)
    (t.length - (trimEndMatches '=' t).length) h
  rw [hsplit, hlen] at hiff
  rw [hiff]
  constructor
  · exact fun hc => ⟨hc.groups, by have := hc.padding; omega, hc.leftover⟩
  · rintro ⟨hgroups, hpad, hleft⟩
    exact ⟨hgroups, by omega, hleft⟩

/-- **The language of the decoder.** It accepts the texts of the alphabet with any number of `=` at
the end, and decodes them to the bytes whose encoding is the text with its end put right. So an
accepted text is the encoding of its bytes exactly when its end is right, and all bytes have one
such text.

**Proof sketch.** `decode_eq_ok_iff` says what is accepted, and a text is its own normal form where
its end is right (`canonical_iff`). -/
theorem decode_language :
    (∀ (t : Str) (b : List UInt8), decode t = .ok b ↔
      (∀ c ∈ trimEndMatches '=' t, c ∈ base64Chars) ∧
        encodeChunks b = normalized (trimEndMatches '=' t)) ∧
    (∀ (t : Str) (b : List UInt8), decode t = .ok b → (t = encodeChunks b ↔ Canonical t)) ∧
    ∀ b : List UInt8, ∃! t : Str, Canonical t ∧ decode t = .ok b := by
  have hcanonical : ∀ (t : Str) (b : List UInt8), decode t = .ok b →
      (t = encodeChunks b ↔ Canonical t) := by
    intro t b h
    obtain ⟨hmem, hencode⟩ := (decode_eq_ok_iff t b).mp h
    rw [canonical_iff hmem, hencode]
  refine ⟨decode_eq_ok_iff, hcanonical, fun b => ?_⟩
  have hdecode : decode (encodeChunks b) = .ok b := trimEndMatches_encodeChunks b
  refine ⟨encodeChunks b, ⟨(hcanonical _ b hdecode).mp rfl, hdecode⟩, ?_⟩
  rintro t ⟨hc, ht⟩
  exact (hcanonical t b ht).mpr hc

/-- One byte with its padding. -/
theorem decode_language_padded :
    "Zg==".toList = encodeChunks [0x66] ↔ Canonical "Zg==".toList :=
  decode_language.2.1 "Zg==".toList [0x66] (by decide)

end Synclaire.Base64
