import Mathlib.Algebra.Group.Nat.Defs
import Mathlib.Data.List.Basic
import Mathlib.Tactic.Common

set_option relaxedAutoImplicit false
set_option autoImplicit false

/-!
# Standard-library values: text, time and addresses

The values the sources take from Rust's standard library, with the `Display` texts that are
hashed or quoted in error messages.

## Main definitions

* `Synclaire.Str` — a `str`, as its characters.
* `Synclaire.Instant`, `Synclaire.Duration` — time in nanoseconds.
* `Synclaire.IpAddr`, `Synclaire.SocketAddr` — addresses and their texts.
* `Synclaire.usizeMax`, `Synclaire.saturatingMul` — `usize` bounds.

## Implementation notes

An `Instant` counts nanoseconds from some origin; `now` is always passed in, so a run chooses
the readings of the clock. A `Duration` is bounded as in the library (`u64` seconds).
-/

namespace Synclaire

/-! ## Text -/

/-- A `str`, as the list of its characters. -/
abbrev Str := List Char

/-- A number in decimal, as `{}` prints it. -/
def decimal (n : ℕ) : Str := Nat.toDigits 10 n

/-- A number in lower-case hexadecimal, as `{:x}` prints it. -/
def hexadecimal (n : ℕ) : Str := Nat.toDigits 16 n

/-! ## Machine sizes -/

/-- `usize::MAX` on a 64-bit target. -/
def usizeMax : ℕ := 2 ^ 64 - 1

/-- `usize::saturating_mul`. -/
def saturatingMul (a b : ℕ) : ℕ := min (a * b) usizeMax

/-! ## Time -/

/-- A reading of the monotonic clock, in nanoseconds. -/
abbrev Instant := ℕ

/-- A span of time: `u64` seconds and less than a second of nanoseconds. -/
structure Duration where
  /-- The whole span in nanoseconds. -/
  nanos : ℕ
  /-- The seconds fit in a `u64`. -/
  bounded : nanos < 2 ^ 64 * 10 ^ 9
  deriving DecidableEq

/-- `Duration::from_secs`. -/
def Duration.fromSecs (secs : UInt64) : Duration where
  nanos := secs.toNat * 10 ^ 9
  bounded := by
    have := secs.toNat_lt
    omega

/-- `Duration::checked_add`. -/
def Duration.checkedAdd (a b : Duration) : Option Duration :=
  if h : a.nanos + b.nanos < 2 ^ 64 * 10 ^ 9 then some ⟨a.nanos + b.nanos, h⟩ else none

/-- `now.duration_since(earlier)` in nanoseconds: saturates at zero. -/
def Instant.durationSince (now earlier : Instant) : ℕ := now - earlier

/-- The fractional digits `fmt_decimal` writes: it stops at the first zero remainder. -/
def fractionDigits : ℕ → ℕ → ℕ → Str
  | 0, _, _ => []
  | fuel + 1, fraction, divisor =>
    if fraction = 0 then []
    else
      Nat.digitChar (fraction / divisor) ::
        fractionDigits fuel (fraction % divisor) (divisor / 10)

/-- `fmt_decimal`: an integer part, a fraction in units of `10 * divisor`, and a suffix. -/
def fmtDecimal (integer fraction divisor : ℕ) (suffix : Str) : Str :=
  let digits := fractionDigits 9 fraction divisor
  decimal integer ++ (if digits = [] then [] else '.' :: digits) ++ suffix

/-- The `Debug` text of a duration. -/
def Duration.debug (d : Duration) : Str :=
  let secs := d.nanos / 10 ^ 9
  let nanos := d.nanos % 10 ^ 9
  if 0 < secs then fmtDecimal secs nanos (10 ^ 8) "s".toList
  else if 10 ^ 6 ≤ nanos then fmtDecimal (nanos / 10 ^ 6) (nanos % 10 ^ 6) (10 ^ 5) "ms".toList
  else if 10 ^ 3 ≤ nanos then fmtDecimal (nanos / 10 ^ 3) (nanos % 10 ^ 3) (10 ^ 2) "µs".toList
  else fmtDecimal nanos 0 1 "ns".toList

example : (Duration.fromSecs 2).debug = "2s".toList := by decide

/-! ## Addresses -/

/-- An IP address, as its bits. -/
inductive IpAddr
  | v4 (bits : BitVec 32)
  | v6 (bits : BitVec 128)
  deriving DecidableEq

/-- A socket address. -/
inductive SocketAddr
  | v4 (ip : BitVec 32) (port : UInt16)
  | v6 (ip : BitVec 128) (port : UInt16) (flowinfo scopeId : UInt32)
  deriving DecidableEq

/-- `SocketAddr::ip`. -/
def SocketAddr.ip : SocketAddr → IpAddr
  | .v4 ip _ => .v4 ip
  | .v6 ip _ _ _ => .v6 ip

/-- `SocketAddr::port`. -/
def SocketAddr.port : SocketAddr → UInt16
  | .v4 _ port => port
  | .v6 _ port _ _ => port

/-- An IPv4 address from its octets. -/
def ipv4 (a b c d : UInt8) : BitVec 32 := a.toBitVec ++ b.toBitVec ++ c.toBitVec ++ d.toBitVec

/-- The text of an IPv4 address. -/
def showIpv4 (bits : BitVec 32) : Str :=
  decimal (bits.extractLsb' 24 8).toNat ++ '.' :: decimal (bits.extractLsb' 16 8).toNat ++
    '.' :: decimal (bits.extractLsb' 8 8).toNat ++ '.' :: decimal (bits.extractLsb' 0 8).toNat

/-- `Ipv6Addr::segments`. -/
def ipv6Segments (bits : BitVec 128) : List ℕ :=
  (List.range 8).map fun i => (bits.extractLsb' (16 * (7 - i)) 16).toNat

/-- A run of zero segments: its start and its length. -/
structure Span where
  start : ℕ
  len : ℕ
  deriving DecidableEq

/-- The scan for the first longest run of zero segments, from segment `i` on. -/
def longestZeros : ℕ → List ℕ → (current longest : Span) → Span
  | _, [], _, longest => longest
  | i, segment :: rest, current, longest =>
    if segment = 0 then
      let current := ⟨if current.len = 0 then i else current.start, current.len + 1⟩
      longestZeros (i + 1) rest current (if longest.len < current.len then current else longest)
    else longestZeros (i + 1) rest ⟨0, 0⟩ longest

/-- Segments in hexadecimal, separated by colons. -/
def fmtSubslice (segments : List ℕ) : Str := [':'].intercalate (segments.map hexadecimal)

/-- The text of an IPv6 address: IPv4-mapped addresses keep their dotted part, and the first
longest run of at least two zero segments is written `::`. -/
def showIpv6 (bits : BitVec 128) : Str :=
  if bits.extractLsb' 32 96 = 0xffff then "::ffff:".toList ++ showIpv4 (bits.extractLsb' 0 32)
  else
    let segments := ipv6Segments bits
    let zeroes := longestZeros 0 segments ⟨0, 0⟩ ⟨0, 0⟩
    if 1 < zeroes.len then
      fmtSubslice (segments.take zeroes.start) ++ "::".toList ++
        fmtSubslice (segments.drop (zeroes.start + zeroes.len))
    else fmtSubslice segments

/-- The text of an IP address. -/
def IpAddr.toStr : IpAddr → Str
  | .v4 bits => showIpv4 bits
  | .v6 bits => showIpv6 bits

/-- The text of a socket address; the flow label is not printed. -/
def SocketAddr.toStr : SocketAddr → Str
  | .v4 ip port => showIpv4 ip ++ ':' :: decimal port.toNat
  | .v6 ip port _ scopeId =>
    '[' :: showIpv6 ip ++ (if scopeId = 0 then [] else '%' :: decimal scopeId.toNat) ++
      ']' :: ':' :: decimal port.toNat

example : (SocketAddr.v4 (ipv4 10 0 0 1) 8001).toStr = "10.0.0.1:8001".toList := by decide

example : (SocketAddr.v6 0x20010db8000000000000000000000001 443 0 3).toStr =
    "[2001:db8::1%3]:443".toList := by decide

end Synclaire
