import Synclaire.Error
import Synclaire.Lib.LeadingBits
import Synclaire.Routing.Basic
import Synclaire.Text

set_option relaxedAutoImplicit false
set_option autoImplicit false

/-!
# Prefixes of addresses

A prefix is an address and a number of leading bits. It contains the addresses of its family that
agree with it on these bits, where a length beyond the width of the address counts as the width.
It is read from a text such as `10.0.0.0/8` by two parsers of the standard library, which take
more than such texts: the number may carry a plus sign, and any `u8` will do.

## Main definitions

* `Synclaire.shl`, `Synclaire.IpPrefix.containsIn` — the match, with its shift as a build executes
  it.
* `Synclaire.IpPrefix.Covers` — agreement on the leading bits.
* `Synclaire.parseU8`, `Synclaire.IpPrefix.parse` — reading a prefix.
* `Synclaire.IpPrefix.IsText` — a text is an address, a slash and a number within its width.
* `Synclaire.IpPrefix.NumberFits` — the number of a text has no plus sign and is within the width.

## Main results

* `Synclaire.IpPrefix.contains_leadingBits` — a prefix contains what agrees on the leading bits.
* `Synclaire.parseU8_eq_some_iff` — what `u8::from_str` reads.
* `Synclaire.IpPrefix.parse_isText_iff` — when what is read is the text of a prefix.

## Implementation notes

The parser of addresses is the library's and is taken as given: `parseAddr` is any function, and
that it reads the text of an address back is asked for where it is needed.
-/

namespace Synclaire

/-! ## Matching -/

/-- `x << n` for a word: an overflow if `n` is not below the width. Without overflow checks the
amount is taken modulo the width. -/
def shl {w : ℕ} (overflowChecks : Bool) (x : BitVec w) (n : ℕ) : Except Panic (BitVec w) :=
  if n < w then .ok (x <<< n)
  else if overflowChecks then .error .arithmeticOverflow
  else .ok (x <<< (n % w))

namespace IpPrefix

/-- `IpPrefix::contains`, with the shift as the build executes it. -/
def containsIn (overflowChecks : Bool) (p : IpPrefix) (ip : IpAddr) : Except Panic Bool :=
  match p.base, ip with
  | .v4 base, .v4 ip =>
    let bits := min p.prefixLen.toNat 32
    if bits = 0 then .ok true
    else do
      let mask ← shl overflowChecks (BitVec.allOnes 32) (32 - bits)
      return base &&& mask == ip &&& mask
  | .v6 base, .v6 ip =>
    let bits := min p.prefixLen.toNat 128
    if bits = 0 then .ok true
    else do
      let mask ← shl overflowChecks (BitVec.allOnes 128) (128 - bits)
      return base &&& mask == ip &&& mask
  | _, _ => .ok false

/-- The address is of the prefix's family and agrees with it on the leading bits. -/
def Covers (p : IpPrefix) (ip : IpAddr) : Prop :=
  match p.base, ip with
  | .v4 base, .v4 ip => LeadingBits.Agree (min p.prefixLen.toNat 32) base ip
  | .v6 base, .v6 ip => LeadingBits.Agree (min p.prefixLen.toNat 128) base ip
  | _, _ => False

/-- A shift by less than the width. -/
theorem shl_of_lt {w : ℕ} {n : ℕ} (h : n < w) (overflowChecks : Bool) (x : BitVec w) :
    shl overflowChecks x n = .ok (x <<< n) := if_pos h

/-- The shift is never by the width: the match is the same in every build, and never panics. -/
theorem containsIn_eq (overflowChecks : Bool) (p : IpPrefix) (ip : IpAddr) :
    p.containsIn overflowChecks ip = .ok (p.contains ip) := by
  obtain ⟨base, prefixLen⟩ := p
  unfold containsIn contains
  cases base with
  | v4 base =>
    cases ip with
    | v4 ip =>
      dsimp only
      by_cases hbits : min prefixLen.toNat 32 = 0
      · rw [if_pos hbits, if_pos hbits]
      · rw [if_neg hbits, if_neg hbits, shl_of_lt (by omega)]
        rfl
    | v6 ip => rfl
  | v6 base =>
    cases ip with
    | v4 ip => rfl
    | v6 ip =>
      dsimp only
      by_cases hbits : min prefixLen.toNat 128 = 0
      · rw [if_pos hbits, if_pos hbits]
      · rw [if_neg hbits, if_neg hbits, shl_of_lt (by omega)]
        rfl

/-- A masked comparison, with the case of no bits apart. -/
theorem masked_eq_iff {w n : ℕ} (h : n ≤ w) (x y : BitVec w) :
    (if n = 0 then true
      else x &&& (BitVec.allOnes w <<< (w - n)) == y &&& (BitVec.allOnes w <<< (w - n))) = true ↔
      LeadingBits.Agree n x y := by
  split_ifs with hn
  · subst hn
    exact iff_of_true rfl fun i hi => absurd hi (Nat.not_lt_zero i)
  · rw [beq_iff_eq]
    exact LeadingBits.and_mask_eq_iff h

/-- A prefix contains what it covers. -/
theorem contains_iff (p : IpPrefix) (ip : IpAddr) : p.contains ip = true ↔ p.Covers ip := by
  obtain ⟨base, prefixLen⟩ := p
  cases base with
  | v4 base =>
    cases ip with
    | v4 ip => exact masked_eq_iff (Nat.min_le_right _ _) base ip
    | v6 ip => exact iff_of_false Bool.false_ne_true id
  | v6 base =>
    cases ip with
    | v4 ip => exact iff_of_false Bool.false_ne_true id
    | v6 ip => exact masked_eq_iff (Nat.min_le_right _ _) base ip

/-- What a longer prefix covers, a shorter one that covers its base does too. -/
theorem Covers.trans {p q : IpPrefix} {ip : IpAddr} (hlen : p.prefixLen ≤ q.prefixLen)
    (hbase : p.Covers q.base) (h : q.Covers ip) : p.Covers ip := by
  obtain ⟨pbase, plen⟩ := p
  obtain ⟨qbase, qlen⟩ := q
  have hle : plen.toNat ≤ qlen.toNat := hlen
  cases qbase with
  | v4 qbase =>
    cases pbase with
    | v4 pbase =>
      cases ip with
      | v4 ip => exact LeadingBits.Agree.trans_of_le hbase h (min_le_min_right _ hle)
      | v6 ip => exact h.elim
    | v6 pbase => exact hbase.elim
  | v6 qbase =>
    cases pbase with
    | v4 pbase => exact hbase.elim
    | v6 pbase =>
      cases ip with
      | v4 ip => exact h.elim
      | v6 ip => exact LeadingBits.Agree.trans_of_le hbase h (min_le_min_right _ hle)

/-- **A prefix contains what agrees with it on the leading bits.** Its match never shifts by the
width of the word, so it is the same with overflow checks and without; it is true exactly for the
addresses of the family whose first bits are those of the base; and a prefix that contains the
base of a longer one contains all of that one.

**Proof sketch.** The shift is by less than the width since the length zero is treated apart, and
the mask it gives compares the leading bits (`LeadingBits.and_mask_eq_iff`). -/
theorem contains_leadingBits :
    (∀ (overflowChecks : Bool) (p : IpPrefix) (ip : IpAddr),
      p.containsIn overflowChecks ip = .ok (p.contains ip)) ∧
    (∀ (p : IpPrefix) (ip : IpAddr), p.contains ip = true ↔ p.Covers ip) ∧
    ∀ (p q : IpPrefix) (ip : IpAddr), p.prefixLen ≤ q.prefixLen → p.contains q.base = true →
      q.contains ip = true → p.contains ip = true := by
  refine ⟨containsIn_eq, contains_iff, fun p q ip hlen hbase h => ?_⟩
  rw [contains_iff] at hbase h ⊢
  exact Covers.trans hlen hbase h

/-- The network `10.1.0.0/16` lies in `10.0.0.0/8`. -/
theorem contains_leadingBits_ten :
    (IpPrefix.mk (.v4 (ipv4 10 0 0 0)) 8).contains (.v4 (ipv4 10 1 2 3)) = true :=
  contains_leadingBits.2.2 ⟨.v4 (ipv4 10 0 0 0), 8⟩ ⟨.v4 (ipv4 10 1 0 0), 16⟩
    (.v4 (ipv4 10 1 2 3)) (by decide) (by decide) (by decide)

end IpPrefix

/-! ## Numbers -/

/-- The loop of `u8::from_str`: each digit is added to ten times the result, and the result has to
fit. -/
def readDigits (result : ℕ) : Str → Option ℕ
  | [] => some result
  | c :: rest =>
    if c.isDigit then
      let result := 10 * result + (c.toNat - '0'.toNat)
      if result < 256 then readDigits result rest else none
    else none

/-- A number without its plus sign. -/
def withoutPlus : Str → Str
  | '+' :: digits => digits
  | digits => digits

/-- `u8::from_str`: at least one digit, after an optional plus sign. -/
def parseU8 (s : Str) : Option UInt8 :=
  if withoutPlus s = [] then none else (readDigits 0 (withoutPlus s)).map UInt8.ofNat

/-- A text of digits, and its number. -/
structure IsNumeral (s : Str) (n : ℕ) : Prop where
  ne_nil : s ≠ []
  isDigit : ∀ c ∈ s, c.isDigit = true
  value : Nat.ofDigitChars 10 s 0 = n

/-- A number grows with each digit. -/
theorem le_ofDigitChars (s : Str) (result : ℕ) : result ≤ Nat.ofDigitChars 10 s result := by
  induction s generalizing result with
  | nil => rw [Nat.ofDigitChars_nil]
  | cons c s ih =>
    rw [Nat.ofDigitChars_cons]
    exact le_trans (by omega) (ih _)

/-- The loop reads the digits of a number that fits. -/
theorem readDigits_eq_some_iff {s : Str} {result n : ℕ} (hresult : result < 256) :
    readDigits result s = some n ↔
      (∀ c ∈ s, c.isDigit = true) ∧ Nat.ofDigitChars 10 s result = n ∧ n < 256 := by
  induction s generalizing result with
  | nil =>
    rw [readDigits, Nat.ofDigitChars_nil, Option.some.injEq]
    exact ⟨fun h => ⟨nofun, h, h ▸ hresult⟩, fun h => h.2.1⟩
  | cons c s ih =>
    rw [readDigits, Nat.ofDigitChars_cons, List.forall_mem_cons]
    have hle := le_ofDigitChars s (10 * result + (c.toNat - '0'.toNat))
    dsimp only
    split_ifs with hdigit hlt
    · rw [ih hlt]
      simp [hdigit]
    · refine iff_of_false nofun ?_
      rintro ⟨-, hvalue, hn⟩
      omega
    · exact iff_of_false nofun fun h => hdigit h.1.1

/-- **What `u8::from_str` reads**: numerals below 256, with or without a plus sign. -/
theorem parseU8_eq_some_iff {s : Str} {v : UInt8} :
    parseU8 s = some v ↔ IsNumeral s v.toNat ∨ ∃ digits, s = '+' :: digits ∧
      IsNumeral digits v.toNat := by
  have hread : ∀ digits : Str, (if digits = [] then none
      else (readDigits 0 digits).map UInt8.ofNat) = some v ↔ IsNumeral digits v.toNat := by
    intro digits
    split_ifs with hnil
    · exact iff_of_false nofun fun h => h.ne_nil hnil
    · rw [Option.map_eq_some_iff]
      constructor
      · rintro ⟨n, hn, rfl⟩
        obtain ⟨hdigits, hvalue, hlt⟩ := (readDigits_eq_some_iff (by decide)).mp hn
        exact ⟨hnil, hdigits, by rw [hvalue, UInt8.toNat_ofNat', Nat.mod_eq_of_lt hlt]⟩
      · intro h
        exact ⟨v.toNat, (readDigits_eq_some_iff (by decide)).mpr ⟨h.isDigit, h.value, v.toNat_lt⟩,
          UInt8.ofNat_toNat⟩
  have hplus : ∀ digits, ¬IsNumeral ('+' :: digits) v.toNat := fun digits h =>
    absurd (h.isDigit '+' List.mem_cons_self) (by decide)
  rw [parseU8, hread]
  fun_cases withoutPlus s with
  | case1 digits =>
    refine ⟨fun h => .inr ⟨digits, rfl, h⟩, ?_⟩
    rintro (h | ⟨digits', heq, h⟩)
    · exact (hplus digits h).elim
    · rwa [(List.cons.inj heq).2]
  | case2 s hno =>
    refine ⟨.inl, ?_⟩
    rintro (h | ⟨digits, rfl, -⟩)
    · exact h
    · exact (hno digits rfl).elim

/-- A digit is the character of its number. -/
theorem digitChar_toNat_sub {c : Char} (h : c.isDigit = true) :
    c.toNat - '0'.toNat < 10 ∧ Nat.digitChar (c.toNat - '0'.toNat) = c := by
  have hchars : ∀ d < 10, Nat.digitChar d = Char.ofNat ('0'.toNat + d) := by decide
  obtain ⟨hle, hge⟩ := Char.isDigit_iff_toNat.mp h
  have hnine : '9'.toNat = '0'.toNat + 9 := rfl
  have hlt : c.toNat - '0'.toNat < 10 := by omega
  refine ⟨hlt, ?_⟩
  rw [hchars _ hlt, Nat.add_sub_cancel' hle, Char.ofNat_toNat]

/-- The text of a number is a numeral. -/
theorem isNumeral_decimal (n : ℕ) : IsNumeral (decimal n) n where
  ne_nil := Nat.toDigits_ne_nil
  isDigit := fun _ hc => Nat.isDigit_of_mem_toDigits (by decide) (by decide) hc
  value := Nat.ofDigitChars_ten_toDigits

/-- Only zero has a zero in front. -/
theorem eq_zero_of_head_decimal {n : ℕ} (h : (decimal n).head? = some '0') : n = 0 := by
  induction n using Nat.strongRecOn with
  | ind n ih =>
    rw [decimal] at h
    by_cases hlt : n < 10
    · rw [Nat.toDigits_of_lt_base hlt] at h
      exact Nat.digitChar_eq_zero.mp (Option.some.inj h)
    · have hdiv : n / 10 = 0 := by
        refine ih (n / 10) (by omega) ?_
        rw [Nat.toDigits_of_base_le (by decide) (by omega),
          List.head?_append_of_ne_nil _ Nat.toDigits_ne_nil] at h
        exact h
      omega

/-- A numeral without zeros in front is the text of its number.

**Proof sketch.** Induction from the last digit: what stands before it is a numeral without zeros
in front, and not `0` itself. -/
theorem eq_decimal_of_isNumeral {s : Str} {n : ℕ} (h : IsNumeral s n)
    (hzero : s.head? = some '0' → s = ['0']) : s = decimal n := by
  obtain ⟨hne, hdigits, rfl⟩ := h
  induction s using List.reverseRecOn with
  | nil => exact (hne rfl).elim
  | append_singleton s c ih =>
    obtain ⟨hlt, hchar⟩ := digitChar_toNat_sub (hdigits c (by simp))
    rw [Nat.ofDigitChars_append, Nat.ofDigitChars_cons, Nat.ofDigitChars_nil]
    by_cases hs : s = []
    · subst hs
      rw [Nat.ofDigitChars_nil, Nat.mul_zero, Nat.zero_add, decimal, Nat.toDigits_of_lt_base hlt,
        hchar]
      rfl
    · have hhead : s.head? ≠ some '0' := by
        intro hs0
        have hone := hzero (by rw [List.head?_append, hs0]; rfl)
        exact hs (List.append_eq_singleton_iff.mp hone |>.resolve_right (by simp)).1
      have hprev := ih (fun h0 => (hhead h0).elim) hs fun d hd => hdigits d (by simp [hd])
      have hpos : 0 < Nat.ofDigitChars 10 s 0 := by
        refine Nat.pos_of_ne_zero fun h0 => hhead ?_
        rw [hprev, h0]
        rfl
      have happend := Nat.toDigits_append_toDigits (b := 10) (by decide) hpos hlt
      rw [Nat.toDigits_of_lt_base hlt, hchar, ← decimal, ← hprev] at happend
      exact happend

/-! ## Reading a prefix -/

/-- The number of bits of an address. -/
def IpAddr.width : IpAddr → ℕ
  | .v4 _ => 32
  | .v6 _ => 128

namespace IpPrefix

variable (parseAddr : Str → Option IpAddr)

/-- `IpPrefix::parse`, over the library's parser of addresses. -/
def parse (s : Str) : Option IpPrefix := do
  let (addrStr, prefixStr) ← splitOnce '/' s
  let base ← parseAddr addrStr
  let prefixLen ← parseU8 prefixStr
  return { base, prefixLen }

/-- The text is one of this prefix: an address, `/`, and a number that is at most the width of the
address and is written as `numeral` says. -/
def IsText (numeral : Str → ℕ → Prop) (s : Str) (p : IpPrefix) : Prop :=
  ∃ addrStr prefixStr, s = addrStr ++ '/' :: prefixStr ∧ parseAddr addrStr = some p.base ∧
    numeral prefixStr p.prefixLen.toNat ∧ p.prefixLen.toNat ≤ p.base.width

/-- If the text is an address and a `u8`, then the number has no plus sign and is at most the width
of the address. -/
def NumberFits (s : Str) : Prop :=
  ∀ addrStr prefixStr base prefixLen, splitOnce '/' s = some (addrStr, prefixStr) →
    parseAddr addrStr = some base → parseU8 prefixStr = some prefixLen →
      prefixStr.head? ≠ some '+' ∧ prefixLen.toNat ≤ base.width

/-- If the text is an address and a `u8`, then the number has no zeros in front. -/
def NoZerosInFront (s : Str) : Prop :=
  ∀ addrStr prefixStr base prefixLen, splitOnce '/' s = some (addrStr, prefixStr) →
    parseAddr addrStr = some base → parseU8 prefixStr = some prefixLen →
      prefixStr.head? = some '0' → prefixStr = ['0']

variable {parseAddr} {s : Str}

/-- What is read. -/
theorem parse_eq_some_iff {p : IpPrefix} :
    parse parseAddr s = some p ↔ ∃ addrStr prefixStr, splitOnce '/' s = some (addrStr, prefixStr) ∧
      parseAddr addrStr = some p.base ∧ parseU8 prefixStr = some p.prefixLen := by
  unfold parse
  constructor
  · intro h
    obtain ⟨⟨addrStr, prefixStr⟩, hsplit, h⟩ := Option.bind_eq_some_iff.mp h
    obtain ⟨base, hbase, h⟩ := Option.bind_eq_some_iff.mp h
    obtain ⟨prefixLen, hlen, h⟩ := Option.bind_eq_some_iff.mp h
    obtain rfl := Option.some.inj h
    exact ⟨addrStr, prefixStr, hsplit, hbase, hlen⟩
  · rintro ⟨addrStr, prefixStr, hsplit, hbase, hlen⟩
    rw [hsplit]
    simp [hbase, hlen]

/-- A numeral has no slash. -/
theorem slash_not_mem_of_isNumeral {n : Str} {v : ℕ} (h : IsNumeral n v) : '/' ∉ n := fun hmem =>
  absurd (h.isDigit _ hmem) (by decide)

/-- What `u8::from_str` reads has no slash. -/
theorem slash_not_mem_of_parseU8 {n : Str} {v : UInt8} (h : parseU8 n = some v) : '/' ∉ n := by
  rcases parseU8_eq_some_iff.mp h with hn | ⟨digits, rfl, hn⟩
  · exact slash_not_mem_of_isNumeral hn
  · exact List.not_mem_cons_of_ne_of_not_mem (by decide) (slash_not_mem_of_isNumeral hn)

/-- A number without a plus sign is a numeral. -/
theorem isNumeral_of_parseU8 {n : Str} {v : UInt8} (h : parseU8 n = some v) :
    IsNumeral n v.toNat ↔ n.head? ≠ some '+' := by
  constructor
  · intro hn hplus
    exact absurd (hn.isDigit '+' (List.mem_of_mem_head? hplus)) (by decide)
  · intro hplus
    rcases parseU8_eq_some_iff.mp h with hn | ⟨digits, rfl, -⟩
    · exact hn
    · exact (hplus rfl).elim

/-- A text that is read is the text of the prefix if its number is written as it should be. -/
theorem isText_iff {numeral : Str → ℕ → Prop} {addrStr prefixStr : Str} {p : IpPrefix}
    (hsplit : splitOnce '/' s = some (addrStr, prefixStr))
    (hbase : parseAddr addrStr = some p.base) (hlen : parseU8 prefixStr = some p.prefixLen) :
    IsText parseAddr numeral s p ↔
      numeral prefixStr p.prefixLen.toNat ∧ p.prefixLen.toNat ≤ p.base.width := by
  obtain ⟨heq, haddr⟩ := splitOnce_eq_some_iff.mp hsplit
  constructor
  · rintro ⟨addrStr', prefixStr', heq', -, hnum, hwidth⟩
    -- the text has one slash only, so it is split there
    obtain ⟨-, -, rfl⟩ := List.append_cons_inj_of_notMem haddr (slash_not_mem_of_parseU8 hlen)
      |>.mp (heq.symm.trans heq')
    exact ⟨hnum, hwidth⟩
  · rintro ⟨hnum, hwidth⟩
    exact ⟨addrStr, prefixStr, heq, hbase, hnum, hwidth⟩

/-- Whatever is asked of the texts that are read is asked of the three parts. -/
theorem forall_parse_iff {numeral : Str → ℕ → Prop} :
    (∀ p, parse parseAddr s = some p → IsText parseAddr numeral s p) ↔
      ∀ addrStr prefixStr base prefixLen, splitOnce '/' s = some (addrStr, prefixStr) →
        parseAddr addrStr = some base → parseU8 prefixStr = some prefixLen →
          numeral prefixStr prefixLen.toNat ∧ prefixLen.toNat ≤ base.width := by
  constructor
  · intro h addrStr prefixStr base prefixLen hsplit hbase hlen
    have hparse : parse parseAddr s = some ⟨base, prefixLen⟩ :=
      parse_eq_some_iff.mpr ⟨addrStr, prefixStr, hsplit, hbase, hlen⟩
    exact (isText_iff hsplit hbase hlen).mp (h _ hparse)
  · intro h p hp
    obtain ⟨addrStr, prefixStr, hsplit, hbase, hlen⟩ := parse_eq_some_iff.mp hp
    exact (isText_iff hsplit hbase hlen).mpr (h _ _ _ _ hsplit hbase hlen)

/-- The text of an address has no slash. -/
theorem slash_not_mem_toStr (ip : IpAddr) : '/' ∉ ip.toStr := by
  have hdigit : ∀ n, Nat.digitChar n ≠ '/' :=
    forall_digitChar (P := (· ≠ '/')) (by decide) (by decide)
  intro hmem
  exact IpAddr.forall_mem_toStr (P := (· ≠ '/')) hdigit (by decide) (by decide) ip _ hmem rfl

/-- **When the parser takes texts of prefixes only.** What is read is an address text, a slash and
a numeral at most the width of the address, exactly if the number has no plus sign and fits; and
the numeral is the usual text of its number exactly if it has no zeros in front either. The text
of a prefix is read as this prefix, where the library reads the text of its address.

**Proof sketch.** The text is split at its only slash (`isText_iff`), and `u8::from_str` reads
numerals below 256, with or without a plus sign (`parseU8_eq_some_iff`). -/
theorem parse_isText_iff (parseAddr : Str → Option IpAddr) :
    (∀ s, (∀ p, parse parseAddr s = some p → IsText parseAddr IsNumeral s p) ↔
      NumberFits parseAddr s) ∧
    (∀ s, (∀ p, parse parseAddr s = some p →
        IsText parseAddr (fun prefixStr n => prefixStr = decimal n) s p) ↔
      NumberFits parseAddr s ∧ NoZerosInFront parseAddr s) ∧
    ∀ p : IpPrefix, parseAddr p.base.toStr = some p.base →
      parse parseAddr (p.base.toStr ++ '/' :: decimal p.prefixLen.toNat) = some p := by
  refine ⟨fun s => ?_, fun s => ?_, fun p hbase => ?_⟩
  · rw [forall_parse_iff]
    constructor
    · intro h addrStr prefixStr base prefixLen hsplit hbase hlen
      exact (h _ _ _ _ hsplit hbase hlen).imp_left (isNumeral_of_parseU8 hlen).mp
    · intro h addrStr prefixStr base prefixLen hsplit hbase hlen
      exact (h _ _ _ _ hsplit hbase hlen).imp_left (isNumeral_of_parseU8 hlen).mpr
  · rw [forall_parse_iff]
    constructor
    · intro h
      refine ⟨fun addrStr prefixStr base prefixLen hsplit hbase hlen => ?_,
        fun addrStr prefixStr base prefixLen hsplit hbase hlen hzero => ?_⟩
      · obtain ⟨hnum, hwidth⟩ := h _ _ _ _ hsplit hbase hlen
        exact ⟨(isNumeral_of_parseU8 hlen).mp (hnum ▸ isNumeral_decimal _), hwidth⟩
      · obtain ⟨rfl, -⟩ := h _ _ _ _ hsplit hbase hlen
        rw [eq_zero_of_head_decimal hzero]
        rfl
    · rintro ⟨hfits, hzeros⟩ addrStr prefixStr base prefixLen hsplit hbase hlen
      obtain ⟨hplus, hwidth⟩ := hfits _ _ _ _ hsplit hbase hlen
      exact ⟨eq_decimal_of_isNumeral ((isNumeral_of_parseU8 hlen).mpr hplus)
        (hzeros _ _ _ _ hsplit hbase hlen), hwidth⟩
  · have hlen := parseU8_eq_some_iff.mpr (.inl (isNumeral_decimal p.prefixLen.toNat))
    exact parse_eq_some_iff.mpr
      ⟨_, _, splitOnce_append_cons (slash_not_mem_toStr p.base) _, hbase, hlen⟩

/-- A parser that knows one address. -/
def readTen (s : Str) : Option IpAddr :=
  if s = "10.0.0.0".toList then some (.v4 (ipv4 10 0 0 0)) else none

/-- The usual text is read. -/
theorem parse_isText_iff_ten :
    parse readTen "10.0.0.0/8".toList = some ⟨.v4 (ipv4 10 0 0 0), 8⟩ :=
  (parse_isText_iff readTen).2.2 ⟨.v4 (ipv4 10 0 0 0), 8⟩ (by decide)

/-- What is read need not be the text of a prefix: the number may be too large. -/
theorem not_forall_isText :
    ¬∀ (parseAddr : Str → Option IpAddr) (s : Str) (p : IpPrefix),
      parse parseAddr s = some p → IsText parseAddr IsNumeral s p := by
  intro h
  have hparse : parse readTen "10.0.0.0/33".toList = some ⟨.v4 (ipv4 10 0 0 0), 33⟩ := by decide
  obtain ⟨-, -, -, -, -, hwidth⟩ := h _ _ _ hparse
  exact absurd hwidth (by decide)

end IpPrefix

end Synclaire
