import Mathlib.Tactic.IntervalCases
import Synclaire.Lib.Utf8
import Synclaire.Text

set_option relaxedAutoImplicit false
set_option autoImplicit false

/-!
# Base64

The module `base64`. The encoder makes four characters of six bits from each chunk of three bytes.
The decoder drops the `=` at the end and shifts six bits at a time into a 32-bit word, from which
it takes a byte whenever there are eight.

## Main definitions

* `Synclaire.Base64.encode` — the encoder.
* `Synclaire.Base64.decode` — the decoder.

## Main results

* `Synclaire.Base64.encodeChunks_eq` — what the encoder writes, and that the decoder reads it.
* `Synclaire.Base64.decode_encode` — the round trip.
-/

namespace Synclaire.Base64

/-! ## The encoder -/

/-- `BASE64_CHARS`. -/
def base64Chars : List Char :=
  "ABCDEFGHIJKLMNOPQRSTUVWXYZabcdefghijklmnopqrstuvwxyz0123456789+/".toList

/-- The character of the low six bits of `n`. The index is in range. -/
def charOf (n : UInt32) : Char := base64Chars.getD (n &&& 0x3F).toNat 'A'

/-- The 24 bits of a chunk. -/
def wordOf (b1 b2 b3 : UInt8) : UInt32 :=
  b1.toUInt32 <<< 16 ||| b2.toUInt32 <<< 8 ||| b3.toUInt32

/-- A turn of the loop in `encode`, for a chunk of one to three bytes. -/
def encodeChunk (chunk : List UInt8) : Str :=
  let n := wordOf (chunk.getD 0 0) (chunk.getD 1 0) (chunk.getD 2 0)
  [charOf (n >>> 18), charOf (n >>> 12),
    if 1 < chunk.length then charOf (n >>> 6) else '=', if 2 < chunk.length then charOf n else '=']

/-- The loop of `encode` over the chunks of at most three bytes. -/
def encodeChunks : List UInt8 → Str
  | [] => []
  | [b1] => encodeChunk [b1]
  | [b1, b2] => encodeChunk [b1, b2]
  | b1 :: b2 :: b3 :: rest => encodeChunk [b1, b2, b3] ++ encodeChunks rest

/-- `base64::encode`. -/
def encode (input : Str) : Str := encodeChunks (Utf8.encode input)

example : encode "foob".toList = "Zm9vYg==".toList := by decide +kernel

/-! ## The decoder -/

/-- The six bits of a byte of the alphabet. -/
def value (c : UInt8) : Option UInt32 :=
  if 0x41 ≤ c ∧ c ≤ 0x5A then some (c - 0x41).toUInt32
  else if 0x61 ≤ c ∧ c ≤ 0x7A then some (c - 0x61 + 26).toUInt32
  else if 0x30 ≤ c ∧ c ≤ 0x39 then some (c - 0x30 + 52).toUInt32
  else if c = 0x2B then some 62
  else if c = 0x2F then some 63
  else none

/-- The loop of `decode`, with the word, the number of bits in it that were not taken, and the
output. -/
def decodeLoop (n : UInt32) (bits : ℕ) (output : List UInt8) :
    List UInt8 → Except Str (List UInt8)
  | [] => .ok output
  | c :: input =>
    match value c with
    | none => .error "Invalid base64 character".toList
    | some val =>
      let n := n <<< 6 ||| val
      let bits := bits + 6
      if 8 ≤ bits then
        let byte := (n >>> UInt32.ofNat (bits - 8) &&& 0xFF).toUInt8
        decodeLoop n (bits - 8) (output ++ [byte]) input
      else decodeLoop n bits output input

/-- `base64::decode`. -/
def decode (input : Str) : Except Str (List UInt8) :=
  decodeLoop 0 0 [] (Utf8.encode (trimEndMatches '=' input))

example : decode "Zm9vYg==".toList = .ok [0x66, 0x6F, 0x6F, 0x62] := by decide

/-! ## The round trip -/

/-- The decoder reads the characters of the alphabet. -/
theorem value_getD :
    ∀ i < 64, value (UInt8.ofNat (base64Chars.getD i 'A').toNat) = some (UInt32.ofNat i) := by
  decide +kernel

/-- The index of a character is in range. -/
theorem and_toNat_lt (n : UInt32) : (n &&& 0x3F).toNat < 64 := by
  rw [UInt32.toNat_and]
  exact Nat.lt_of_le_of_lt Nat.and_le_right (by decide)

/-- The decoder reads the bits that the encoder wrote. -/
theorem value_charOf (n : UInt32) : value (UInt8.ofNat (charOf n).toNat) = some (n &&& 0x3F) := by
  rw [charOf, value_getD _ (and_toNat_lt n), UInt32.ofNat_toNat]

/-- The encoder writes characters of the alphabet. -/
theorem charOf_mem (n : UInt32) : charOf n ∈ base64Chars := by
  have h : (n &&& 0x3F).toNat < base64Chars.length := and_toNat_lt n
  rw [charOf, List.getD_eq_getElem?_getD, List.getElem?_eq_getElem h]
  exact List.getElem_mem h

/-- The word of the decoder after a character. -/
def shiftIn (w n : UInt32) : UInt32 := w <<< 6 ||| (n &&& 0x3F)

/-- A character that completes no byte. -/
theorem decodeLoop_charOf {bits : ℕ} (h : bits + 6 < 8) (w n : UInt32) (output input : List UInt8) :
    decodeLoop w bits output (UInt8.ofNat (charOf n).toNat :: input) =
      decodeLoop (shiftIn w n) (bits + 6) output input := by
  rw [decodeLoop, value_charOf]
  exact if_neg (by omega)

/-- A character that completes a byte. -/
theorem decodeLoop_charOf_byte {bits : ℕ} (h : 8 ≤ bits + 6) (w n : UInt32)
    (output input : List UInt8) :
    decodeLoop w bits output (UInt8.ofNat (charOf n).toNat :: input) =
      decodeLoop (shiftIn w n) (bits + 6 - 8)
        (output ++ [(shiftIn w n >>> UInt32.ofNat (bits + 6 - 8) &&& 0xFF).toUInt8]) input := by
  rw [decodeLoop, value_charOf]
  exact if_pos h

/-- The first byte of a chunk is in the first two characters. -/
theorem byte_one (w : UInt32) (b1 b2 b3 : UInt8) :
    (shiftIn (shiftIn w (wordOf b1 b2 b3 >>> 18)) (wordOf b1 b2 b3 >>> 12) >>> 4 &&&
      0xFF).toUInt8 = b1 := by
  apply UInt8.toBitVec_inj.mp
  apply BitVec.eq_of_getLsbD_eq
  intro i hi
  simp only [shiftIn, wordOf]
  interval_cases i <;> simp [BitVec.getLsbD_of_ge]

/-- The second byte is in the first three. -/
theorem byte_two (w : UInt32) (b1 b2 b3 : UInt8) :
    (shiftIn (shiftIn w (wordOf b1 b2 b3 >>> 12)) (wordOf b1 b2 b3 >>> 6) >>> 2 &&&
      0xFF).toUInt8 = b2 := by
  apply UInt8.toBitVec_inj.mp
  apply BitVec.eq_of_getLsbD_eq
  intro i hi
  simp only [shiftIn, wordOf]
  interval_cases i <;> simp [BitVec.getLsbD_of_ge]

/-- The third byte is in the last two. -/
theorem byte_three (w : UInt32) (b1 b2 b3 : UInt8) :
    (shiftIn (shiftIn w (wordOf b1 b2 b3 >>> 6)) (wordOf b1 b2 b3) >>> 0 &&&
      0xFF).toUInt8 = b3 := by
  apply UInt8.toBitVec_inj.mp
  apply BitVec.eq_of_getLsbD_eq
  intro i hi
  simp only [shiftIn, wordOf]
  interval_cases i <;> simp

/-- The bytes of the characters. -/
def bytesOf (s : Str) : List UInt8 := s.map fun c => UInt8.ofNat c.toNat

section Chunk

variable (w : UInt32) (b1 b2 b3 : UInt8) (output input : List UInt8)

/-- The first two characters of a chunk give the first byte. -/
theorem decodeLoop_one :
    decodeLoop w 0 output (UInt8.ofNat (charOf (wordOf b1 b2 b3 >>> 18)).toNat ::
        UInt8.ofNat (charOf (wordOf b1 b2 b3 >>> 12)).toNat :: input) =
      decodeLoop (shiftIn (shiftIn w (wordOf b1 b2 b3 >>> 18)) (wordOf b1 b2 b3 >>> 12)) 4
        (output ++ [b1]) input := by
  have hbyte := byte_one w b1 b2 b3
  rw [decodeLoop_charOf (by omega), decodeLoop_charOf_byte (by omega)]
  exact congrArg (fun b => decodeLoop _ 4 (output ++ [b]) input) hbyte

/-- The third character gives the second byte. -/
theorem decodeLoop_two :
    decodeLoop (shiftIn w (wordOf b1 b2 b3 >>> 12)) 4 output
        (UInt8.ofNat (charOf (wordOf b1 b2 b3 >>> 6)).toNat :: input) =
      decodeLoop (shiftIn (shiftIn w (wordOf b1 b2 b3 >>> 12)) (wordOf b1 b2 b3 >>> 6)) 2
        (output ++ [b2]) input := by
  have hbyte := byte_two w b1 b2 b3
  rw [decodeLoop_charOf_byte (by omega)]
  exact congrArg (fun b => decodeLoop _ 2 (output ++ [b]) input) hbyte

/-- The fourth character gives the third byte. -/
theorem decodeLoop_three :
    decodeLoop (shiftIn w (wordOf b1 b2 b3 >>> 6)) 2 output
        (UInt8.ofNat (charOf (wordOf b1 b2 b3)).toNat :: input) =
      decodeLoop (shiftIn (shiftIn w (wordOf b1 b2 b3 >>> 6)) (wordOf b1 b2 b3)) 0
        (output ++ [b3]) input := by
  have hbyte := byte_three w b1 b2 b3
  rw [decodeLoop_charOf_byte (by omega)]
  exact congrArg (fun b => decodeLoop _ 0 (output ++ [b]) input) hbyte

end Chunk

/-- The characters of the alphabet are ASCII. -/
theorem ascii_of_mem : ∀ c ∈ base64Chars, c.toNat < 0x80 := by
  have hall : (base64Chars.all fun c => c.toNat < 0x80) = true := by decide
  exact fun c hc => of_decide_eq_true (List.all_eq_true.mp hall c hc)

/-- **What the encoder writes, and that the decoder reads it**: characters of the alphabet, from
which the decoder makes the bytes, and at most two `=`.

**Proof sketch.** Induction on the chunks. The decoder begins each chunk with no bits left, and
what is still in its word is shifted out of sight. -/
theorem encodeChunks_eq (bytes : List UInt8) :
    ∃ body pad, encodeChunks bytes = body ++ List.replicate pad '=' ∧ pad ≤ 2 ∧
      (∀ c ∈ body, c ∈ base64Chars) ∧
      ∀ w output, decodeLoop w 0 output (bytesOf body) = .ok (output ++ bytes) := by
  induction bytes using encodeChunks.induct with
  | case1 => exact ⟨[], 0, rfl, by omega, by simp, fun w output => by simp [bytesOf, decodeLoop]⟩
  | case2 b1 =>
    let n := wordOf b1 0 0
    refine ⟨[charOf (n >>> 18), charOf (n >>> 12)], 2, rfl, le_rfl, ?_, fun w output => ?_⟩
    · simp [charOf_mem]
    · simp only [bytesOf, List.map_cons, List.map_nil]
      rw [decodeLoop_one, decodeLoop]
  | case3 b1 b2 =>
    let n := wordOf b1 b2 0
    refine ⟨[charOf (n >>> 18), charOf (n >>> 12), charOf (n >>> 6)], 1, rfl, by omega, ?_,
      fun w output => ?_⟩
    · simp [charOf_mem]
    · simp only [bytesOf, List.map_cons, List.map_nil]
      rw [decodeLoop_one, decodeLoop_two, decodeLoop, List.append_assoc]
      rfl
  | case4 b1 b2 b3 rest ih =>
    obtain ⟨body, pad, hencode, hpad, hmem, hdecode⟩ := ih
    let n := wordOf b1 b2 b3
    refine ⟨charOf (n >>> 18) :: charOf (n >>> 12) :: charOf (n >>> 6) :: charOf n :: body, pad, ?_,
      hpad, ?_, fun w output => ?_⟩
    · rw [encodeChunks, hencode]
      rfl
    · simpa [charOf_mem] using hmem
    · simp only [bytesOf, List.map_cons]
      rw [decodeLoop_one, decodeLoop_two, decodeLoop_three, ← bytesOf, hdecode]
      simp

/-- The decoder reads what the encoder writes, after it took off the padding. -/
theorem trimEndMatches_encodeChunks (bytes : List UInt8) :
    decodeLoop 0 0 [] (Utf8.encode (trimEndMatches '=' (encodeChunks bytes))) = .ok bytes := by
  obtain ⟨body, pad, hencode, -, hmem, hdecode⟩ := encodeChunks_eq bytes
  have hascii : ∀ c ∈ body, c.toNat < 0x80 := fun c hc => ascii_of_mem c (hmem c hc)
  have hpadding : '=' ∉ body := fun h => absurd (hmem _ h) (by decide)
  rw [hencode, trimEndMatches_append_replicate hpadding, Utf8.encode_ascii hascii]
  exact hdecode 0 []

/-- **The round trip**: what was encoded decodes to the bytes of the text. -/
theorem decode_encode (input : Str) : decode (encode input) = .ok (Utf8.encode input) :=
  trimEndMatches_encodeChunks (Utf8.encode input)

/-- What was encoded consists of the alphabet and `=`. -/
theorem mem_encode {input : Str} {c : Char} (h : c ∈ encode input) : c ∈ '=' :: base64Chars := by
  obtain ⟨body, pad, hencode, -, hmem, -⟩ := encodeChunks_eq (Utf8.encode input)
  rw [encode, hencode] at h
  rcases List.mem_append.mp h with h | h
  · exact List.mem_cons_of_mem _ (hmem c h)
  · exact List.mem_cons.mpr (.inl (List.eq_of_mem_replicate h))

/-- Only the empty text is encoded as nothing. -/
theorem encode_ne_nil {input : Str} (h : input ≠ []) : encode input ≠ [] := by
  intro hnil
  have hdecode := decode_encode input
  have hbytes : [] = Utf8.encode input := Except.ok.inj (hnil ▸ hdecode)
  have htext := Utf8.fromUtf8_encode input
  rw [← hbytes] at htext
  exact h (Option.some.inj htext).symm

end Synclaire.Base64
