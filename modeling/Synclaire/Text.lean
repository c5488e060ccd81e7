import Mathlib.Data.List.DropRight
import Synclaire.Lib.Scan
import Synclaire.Values

set_option relaxedAutoImplicit false
set_option autoImplicit false

/-!
# Methods of `str`

## Main definitions

* `Synclaire.stripPrefix`, `Synclaire.splitOnce`, `Synclaire.trim`, `Synclaire.trimEndMatches`,
  `Synclaire.lines` — the methods of these names.
* `Synclaire.Printable` — texts of printable ASCII characters.

## Main results

* `Synclaire.stripPrefix_eq_some_iff`, `Synclaire.eq_append_of_splitOnce` — what was taken apart
  makes up the text.
* `Synclaire.Printable.socketAddr` — the texts of addresses are printable.
-/

namespace Synclaire

/-- What holds of the first 256 numbers holds of every byte. -/
theorem forall_byte {P : UInt8 → Prop} (h : ∀ n : Fin 256, P (UInt8.ofNat n)) (b : UInt8) :
    P b := by
  have hb := h ⟨b.toNat, b.toNat_lt⟩
  rwa [UInt8.ofNat_toNat] at hb

/-- `char::is_whitespace`: the Unicode property `White_Space`. -/
def isWhitespace (c : Char) : Bool :=
  (0x9 ≤ c.toNat && c.toNat ≤ 0xD) || c.toNat = 0x20 || c.toNat = 0x85 || c.toNat = 0xA0 ||
    c.toNat = 0x1680 || (0x2000 ≤ c.toNat && c.toNat ≤ 0x200A) || c.toNat = 0x2028 ||
    c.toNat = 0x2029 || c.toNat = 0x202F || c.toNat = 0x205F || c.toNat = 0x3000

/-- `str::trim`. -/
def trim (s : Str) : Str := (s.dropWhile isWhitespace).rdropWhile isWhitespace

/-- `str::trim_end_matches`, for a character. -/
def trimEndMatches (c : Char) (s : Str) : Str := s.rdropWhile (· = c)

/-- `str::strip_prefix`. -/
def stripPrefix (pre s : Str) : Option Str := s.dropPrefix? pre

/-- `str::split_once`, for a character. -/
def splitOnce (c : Char) : Str → Option (Str × Str)
  | [] => none
  | d :: s =>
    if d = c then some ([], s) else (splitOnce c s).map fun parts => (d :: parts.1, parts.2)

/-- `str::lines`. -/
def lines (s : Str) : List Str := Scan.lines '\n' '\r' s

/-- The prefix and the rest make up the text. -/
theorem stripPrefix_eq_some_iff {pre s t : Str} : stripPrefix pre s = some t ↔ s = pre ++ t := by
  rw [stripPrefix, List.dropPrefix?_eq_some_iff]
  constructor
  · rintro ⟨pre', rfl, hpre⟩
    rw [eq_of_beq hpre]
  · rintro rfl
    exact ⟨pre, rfl, beq_self_eq_true pre⟩

/-- The characters at the end are taken off, where no other ones are. -/
theorem trimEndMatches_append_replicate {c : Char} {s : Str} (h : c ∉ s) (n : ℕ) :
    trimEndMatches c (s ++ List.replicate n c) = s := by
  unfold trimEndMatches
  induction n with
  | zero =>
    rw [List.replicate_zero, List.append_nil, List.rdropWhile_eq_self_iff]
    intro hne hlast
    exact h (of_decide_eq_true hlast ▸ List.getLast_mem hne)
  | succ n ih =>
    rw [List.replicate_succ', ← List.append_assoc, List.rdropWhile_concat_pos _ _ _ (by simp), ih]

/-- The text is what stays, and the characters that were taken off. -/
theorem trimEndMatches_append_replicate_sub (c : Char) (s : Str) :
    trimEndMatches c s ++ List.replicate (s.length - (trimEndMatches c s).length) c = s := by
  have hsplit : trimEndMatches c s ++ s.rtakeWhile (· = c) = s := List.rdropWhile_append_rtakeWhile
  have hlen := congrArg List.length hsplit
  rw [List.length_append] at hlen
  have hend : s.rtakeWhile (· = c) =
      List.replicate (s.length - (trimEndMatches c s).length) c := by
    refine List.eq_replicate_iff.mpr ⟨by omega, fun d hd => ?_⟩
    have hp : decide (d = c) = true := List.mem_rtakeWhile_imp (p := (· = c)) hd
    exact of_decide_eq_true hp
  rw [← hend, hsplit]

/-- Text without white space at its ends stays. -/
theorem trim_eq_self {s : Str} (hhead : ∀ c ∈ s.head?, isWhitespace c = false)
    (hlast : ∀ c ∈ s.getLast?, isWhitespace c = false) : trim s = s := by
  have hfront : s.dropWhile isWhitespace = s := by
    cases s with
    | nil => rfl
    | cons c s => exact List.dropWhile_cons_of_neg (by simp [hhead c rfl])
  rw [trim, hfront, List.rdropWhile_eq_self_iff]
  intro hne h
  rw [hlast _ (List.getLast?_eq_some_getLast hne)] at h
  exact Bool.false_ne_true h

/-- White space in front is trimmed. -/
theorem trim_append_left {o : Str} (h : ∀ c ∈ o, isWhitespace c = true) (s : Str) :
    trim (o ++ s) = trim s := by
  rw [trim, List.dropWhile_append_of_pos h]
  rfl

/-- White space behind is trimmed. -/
theorem trim_append_right {o : Str} (h : ∀ c ∈ o, isWhitespace c = true) (s : Str) :
    trim (s ++ o) = trim s := by
  have hdrop : ∀ t : Str, (t ++ o).rdropWhile isWhitespace = t.rdropWhile isWhitespace := by
    intro t
    unfold List.rdropWhile
    rw [List.reverse_append, List.dropWhile_append_of_pos fun c hc => h c (List.mem_reverse.mp hc)]
  unfold trim
  rw [List.dropWhile_append]
  split_ifs with hempty
  · have hnil : o.dropWhile isWhitespace = [] := List.dropWhile_eq_nil_iff.mpr h
    rw [hnil, List.isEmpty_iff.mp hempty]
  · exact hdrop _

/-- Text is split at the first `c`. -/
theorem splitOnce_append_cons {c : Char} {s : Str} (h : c ∉ s) (t : Str) :
    splitOnce c (s ++ c :: t) = some (s, t) := by
  induction s with
  | nil => exact if_pos rfl
  | cons d s ih =>
    obtain ⟨hne, hmem⟩ := not_or.mp (mt List.mem_cons.mpr h)
    rw [List.cons_append, splitOnce, if_neg (Ne.symm hne), ih hmem]
    rfl

/-- A line ends before a carriage return and a line feed. -/
theorem lines_append_crlf {s : Str} (h : '\n' ∉ s) (t : Str) :
    lines (s ++ '\r' :: '\n' :: t) = s :: lines t := by
  have hmem : '\n' ∉ s ++ ['\r'] := by simp [h]
  have hsplit : s ++ '\r' :: '\n' :: t = (s ++ ['\r']) ++ '\n' :: t := by simp
  rw [lines, hsplit, Scan.lines_append_cons hmem, Scan.stripLast, if_pos List.getLast?_concat,
    List.dropLast_concat]
  rfl

/-- The two parts make up the text, and the separator is not in the first. -/
theorem eq_append_of_splitOnce {c : Char} {s : Str} {parts : Str × Str}
    (h : splitOnce c s = some parts) : s = parts.1 ++ c :: parts.2 ∧ c ∉ parts.1 := by
  induction s generalizing parts with
  | nil => cases h
  | cons d s ih =>
    rw [splitOnce] at h
    split_ifs at h with heq
    · obtain rfl := Option.some.inj h
      rw [heq]
      exact ⟨rfl, List.not_mem_nil⟩
    · obtain ⟨parts', hparts', rfl⟩ := Option.map_eq_some_iff.mp h
      obtain ⟨hjoined, hmem⟩ := ih hparts'
      exact ⟨congrArg (d :: ·) hjoined, List.not_mem_cons_of_ne_of_not_mem (Ne.symm heq) hmem⟩

/-- A text is split at the first separator. -/
theorem splitOnce_eq_some_iff {c : Char} {s a b : Str} :
    splitOnce c s = some (a, b) ↔ s = a ++ c :: b ∧ c ∉ a := by
  constructor
  · intro h
    exact eq_append_of_splitOnce h
  · rintro ⟨rfl, ha⟩
    exact splitOnce_append_cons ha b

/-! ## The characters of addresses -/

/-- What holds of the sixteen digits, and of the star that stands for larger numbers. -/
theorem forall_digitChar {P : Char → Prop} (hdigits : ∀ n < 16, P (Nat.digitChar n))
    (hstar : P '*') (n : ℕ) : P (Nat.digitChar n) := by
  by_cases hn : n < 16
  · exact hdigits n hn
  · rw [Nat.digitChar_eq_star.mpr (Nat.not_lt.mp hn)]
    exact hstar

section Chars

variable {P : Char → Prop} (hdigit : ∀ n, P (Nat.digitChar n)) (hdot : P '.') (hcolon : P ':')

include hdigit

/-- The digits of a number in front of a text. -/
theorem forall_mem_toDigitsCore (b fuel n : ℕ) {s : Str} (hs : ∀ c ∈ s, P c) :
    ∀ c ∈ Nat.toDigitsCore b fuel n s, P c := by
  induction fuel generalizing n s with
  | zero => exact hs
  | succ fuel ih =>
    have hcons : ∀ c ∈ Nat.digitChar (n % b) :: s, P c :=
      List.forall_mem_cons.mpr ⟨hdigit (n % b), hs⟩
    rw [Nat.toDigitsCore]
    split_ifs
    · exact hcons
    · exact ih (n / b) hcons

/-- The characters of a number in decimal. -/
theorem forall_mem_decimal (n : ℕ) : ∀ c ∈ decimal n, P c :=
  forall_mem_toDigitsCore hdigit 10 (n + 1) n nofun

/-- The characters of a number in hexadecimal. -/
theorem forall_mem_hexadecimal (n : ℕ) : ∀ c ∈ hexadecimal n, P c :=
  forall_mem_toDigitsCore hdigit 16 (n + 1) n nofun

include hdot in
/-- The characters of an IPv4 address. -/
theorem forall_mem_showIpv4 (bits : BitVec 32) : ∀ c ∈ showIpv4 bits, P c := by
  have hdecimal := fun n => forall_mem_decimal hdigit n
  unfold showIpv4
  simp only [List.forall_mem_append, List.forall_mem_cons]
  exact ⟨⟨⟨hdecimal _, hdot, hdecimal _⟩, hdot, hdecimal _⟩, hdot, hdecimal _⟩

include hcolon in
/-- The characters of segments. -/
theorem forall_mem_fmtSubslice (segments : List ℕ) : ∀ c ∈ fmtSubslice segments, P c := by
  unfold fmtSubslice List.intercalate
  induction segments with
  | nil => exact nofun
  | cons n segments ih =>
    have hn := forall_mem_hexadecimal hdigit n
    cases segments with
    | nil => simpa using hn
    | cons m segments =>
      rw [List.map_cons, List.map_cons, List.intersperse_cons_cons, List.flatten_cons,
        List.flatten_cons]
      simp only [List.forall_mem_append, List.forall_mem_singleton]
      exact ⟨hn, hcolon, ih⟩

include hdot hcolon in
/-- The characters of an IPv6 address. -/
theorem forall_mem_showIpv6 (bits : BitVec 128) : ∀ c ∈ showIpv6 bits, P c := by
  have hmapped : ∀ c ∈ "::ffff:".toList, P c := by
    have hf : P 'f' := hdigit 15
    simp [hcolon, hf]
  have hgap : ∀ c ∈ "::".toList, P c := by simp [hcolon]
  have hsegments := forall_mem_fmtSubslice hdigit hcolon
  unfold showIpv6
  dsimp only
  split_ifs
  · exact List.forall_mem_append.mpr ⟨hmapped, forall_mem_showIpv4 hdigit hdot _⟩
  · exact List.forall_mem_append.mpr
      ⟨List.forall_mem_append.mpr ⟨hsegments _, hgap⟩, hsegments _⟩
  · exact hsegments _

include hdot hcolon in
/-- **The characters of an IP address**: digits, dots and colons. -/
theorem IpAddr.forall_mem_toStr (ip : IpAddr) : ∀ c ∈ ip.toStr, P c := by
  cases ip with
  | v4 bits => exact forall_mem_showIpv4 hdigit hdot bits
  | v6 bits => exact forall_mem_showIpv6 hdigit hdot hcolon bits

end Chars

/-! ## Printable texts -/

/-- All characters are printable ASCII characters. -/
def Printable (s : Str) : Prop := ∀ c ∈ s, 0x20 ≤ c.toNat ∧ c.toNat < 0x7F

-- by the characters of the text, not by all characters there are
instance (s : Str) : Decidable (Printable s) :=
  List.decidableBAll (fun c : Char => 0x20 ≤ c.toNat ∧ c.toNat < 0x7F) s

namespace Printable

/-- The empty text. -/
theorem nil : Printable [] := by simp [Printable]

/-- Printable texts one after the other. -/
theorem append {s t : Str} (hs : Printable s) (ht : Printable t) : Printable (s ++ t) := by
  intro c hc
  rcases List.mem_append.mp hc with hc | hc
  · exact hs c hc
  · exact ht c hc

/-- A printable character in front. -/
theorem cons {c : Char} {s : Str} (hc : 0x20 ≤ c.toNat ∧ c.toNat < 0x7F) (hs : Printable s) :
    Printable (c :: s) :=
  List.forall_mem_cons.mpr ⟨hc, hs⟩

/-- A control character is not in a printable text. -/
theorem not_mem {s : Str} (hs : Printable s) {c : Char} (hc : c.toNat < 0x20) : c ∉ s := by
  intro h
  have := (hs c h).1
  omega

/-- The digits are printable. -/
theorem digitChar (n : ℕ) : 0x20 ≤ n.digitChar.toNat ∧ n.digitChar.toNat < 0x7F :=
  forall_digitChar (P := fun c => 0x20 ≤ c.toNat ∧ c.toNat < 0x7F) (by decide) (by decide) n

/-- A number in decimal is printable. -/
theorem decimal (n : ℕ) : Printable (decimal n) := forall_mem_decimal digitChar n

/-- The text of an IPv4 address is printable. -/
theorem showIpv4 (bits : BitVec 32) : Printable (showIpv4 bits) :=
  forall_mem_showIpv4 digitChar (by decide) bits

/-- The text of an IPv6 address is printable. -/
theorem showIpv6 (bits : BitVec 128) : Printable (showIpv6 bits) :=
  forall_mem_showIpv6 digitChar (by decide) (by decide) bits

/-- The text of a socket address is printable. -/
theorem socketAddr (addr : SocketAddr) : Printable addr.toStr := by
  cases addr with
  | v4 ip port => exact (showIpv4 ip).append ((decimal _).cons (by decide))
  | v6 ip port flowinfo scopeId =>
    have hscope :
        Printable (if scopeId = 0 then [] else '%' :: Synclaire.decimal scopeId.toNat) := by
      split_ifs
      · exact nil
      · exact (decimal _).cons (by decide)
    exact (((showIpv6 ip).append hscope).append
      (((decimal _).cons (by decide)).cons (by decide))).cons (by decide)

end Printable

end Synclaire
