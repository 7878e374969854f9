import LsServer.Lua.Bytes
import Mathlib.Algebra.Order.Field.Rat
import Mathlib.Algebra.Order.Monoid.WithTop
import Mathlib.Data.Int.Log
import Mathlib.Data.Rat.Floor

/-!
# `tonumber` on strings

`tonumber s` is `luaO_str2num` (lobject.c) followed by the length check of `luaB_tonumber`: the
string is read as an integer (`l_str2int`: decimal unless it overflows, hexadecimal modulo
`2 ^ 64`), else as a double (`l_str2d`: `strtod`, after rejecting a string whose first special
character is `n` or `N`).

A number is represented by its mathematical value `Number`: a rational, or an infinity for a numeral
that overflows a double. Lua compares an integer with a double by value (lvm.c `LEnum`,
`luaV_equalobj`), so `≤` and `=` of `Number` are Lua's. There is no NaN: `strtod` only returns it
for the text `nan`, which `l_str2d` rejects.

Source: lobject.c `l_str2dloc` 228-235, `l_str2d` 251-270, `l_str2int` 276-305, `luaO_str2num`
308-320; lbaselib.c `luaB_tonumber` 81-111, without a base.

* `str2int` skips white space, reads a sign, then `0x` or decimal digits. A decimal numeral that
  does not fit is no integer and is read as a double; a hexadecimal one wraps.
* `strtod` is that of the C library in the C locale: decimal and hexadecimal mantissas, with
  exponents. The texts `inf` and `infinity` do not get there, for the `n` in them. A result is
  rounded to the nearest double, ties to even (`toDouble`), with subnormal numbers.
* A zero byte ends a text in C. It is no digit and no space, so here the text behind it is a rest
  and there is no number, as there is none by the length check.

Out of scope: `tonumber` with a base, numbers with the decimal point of another locale (`l_str2d`
258-267), and the sign of zero, which no comparison sees.
-/

namespace LsServer.Lua

/-- The value of a Lua number other than NaN. -/
abbrev Number := WithBot (WithTop ℚ)

/-- The value of an integer. -/
def ofInt (n : Int) : Number := (((n : ℚ) : WithTop ℚ) : Number)

def skipSpaces (s : Bytes) : Bytes := s.dropWhile isspace

/-- `isneg`: reads an optional sign. -/
def isneg : Bytes → Bool × Bytes
  | 45 :: s => (true, s)
  | 43 :: s => (false, s)
  | s => (false, s)

/-- Reads the prefix `0x` or `0X`. -/
def hexPrefix : Bytes → Option Bytes
  | 48 :: x :: s => if x = 120 ∨ x = 88 then some s else none
  | _ => none

/-! ## Integers -/

/-- The hexadecimal digits of `l_str2int`: the accumulator wraps at 64 bits. -/
def readHexInt (s : Bytes) : Nat :=
  (s.takeWhile isxdigit).foldl (fun a c => (a * 16 + hexavalue c) % 2 ^ 64) 0

/-- The decimal digits of `l_str2int`: `none` when the value does not fit (`MAXBY10`,
`MAXLASTD`). -/
def readDecInt (neg : Bool) : Nat → Bytes → Option Nat
  | a, [] => some a
  | a, c :: s =>
    let d := c.toNat - 48
    if (2 ^ 63 - 1) / 10 ≤ a ∧
        ((2 ^ 63 - 1) / 10 < a ∨ (2 ^ 63 - 1) % 10 + (if neg then 1 else 0) < d) then none
    else readDecInt neg (a * 10 + d) s

/-- `l_castU2S(neg ? 0u - a : a)`. -/
def castU2S (neg : Bool) (a : Nat) : Int :=
  let u := if neg then (2 ^ 64 - a) % 2 ^ 64 else a
  if u < 2 ^ 63 then u else (u : Int) - 2 ^ 64

/-- `l_str2int`. The remaining text after the digits must be spaces. -/
def str2int (s : Bytes) : Option Int :=
  let (neg, s) := isneg (skipSpaces s)
  match hexPrefix s with
  | some h =>
    if h.takeWhile isxdigit = [] ∨ skipSpaces (h.dropWhile isxdigit) ≠ [] then none
    else some (castU2S neg (readHexInt h))
  | none =>
    match readDecInt neg 0 (s.takeWhile isdigit) with
    | none => none
    | some a =>
      if s.takeWhile isdigit = [] ∨ skipSpaces (s.dropWhile isdigit) ≠ [] then none
      else some (castU2S neg a)

/-! ## Doubles -/

/-- The multiple of `u` nearest to `q ≥ 0`, ties to the even multiple. -/
def roundHalfEven (u q : ℚ) : ℚ :=
  let m := ⌊q / u⌋
  let r := q / u - m
  if r < 1 / 2 ∨ (r = 1 / 2 ∧ m % 2 = 0) then m * u else (m + 1) * u

/-- The double nearest to the magnitude `q`: 53 bits, least exponent `-1022`, infinity past the
largest double. -/
def toDouble (neg : Bool) (q : ℚ) : Number :=
  if q = 0 then ofInt 0
  else
    let e := max (Int.log 2 q) (-1022)
    let v := roundHalfEven ((2 : ℚ) ^ (e - 52)) q
    if (2 : ℚ) ^ (1024 : Int) ≤ v then (if neg then ⊥ else ((⊤ : WithTop ℚ) : Number))
    else (((if neg then -v else v : ℚ) : WithTop ℚ) : Number)

/-- The value the digits spell in base `b`. -/
def digitsVal (b : Nat) (ds : Bytes) : Nat := ds.foldl (fun a c => a * b + hexavalue c) 0

/-- Reads `digits [. digits]`: the mantissa digits, how many stand after the point, the rest. -/
def readMantissa (digit : UInt8 → Bool) (s : Bytes) : Bytes × Nat × Bytes :=
  let ip := s.takeWhile digit
  match s.dropWhile digit with
  | 46 :: t => (ip ++ t.takeWhile digit, (t.takeWhile digit).length, t.dropWhile digit)
  | t => (ip, 0, t)

/-- Reads an exponent mark (`e` or `p`), an optional sign and at least one digit; reads nothing
when one of them is missing. -/
def readExponent (mark : UInt8) : Bytes → Int × Bytes
  | c :: s =>
    if c = mark ∨ c + 32 = mark then
      let (neg, t) := isneg s
      if t.takeWhile isdigit = [] then (0, c :: s)
      else
        let e : Int := digitsVal 10 (t.takeWhile isdigit)
        (if neg then -e else e, t.dropWhile isdigit)
    else (0, c :: s)
  | [] => (0, [])

/-- `strtod` in the C locale, without the texts `inf` and `nan`: the value and the rest, `none`
when nothing is recognized. -/
def strtod (s : Bytes) : Option (Number × Bytes) :=
  let (neg, s) := isneg (skipSpaces s)
  let hex := (hexPrefix s).bind fun h =>
    let (ds, frac, t) := readMantissa isxdigit h
    if ds = [] then none
    else
      let (e, rest) := readExponent 112 t
      some (toDouble neg (digitsVal 16 ds * (2 : ℚ) ^ (e - 4 * frac)), rest)
  match hex with
  | some r => some r
  | none =>
    let (ds, frac, t) := readMantissa isdigit s
    if ds = [] then none
    else
      let (e, rest) := readExponent 101 t
      some (toDouble neg (digitsVal 10 ds * (10 : ℚ) ^ (e - frac)), rest)

/-- `l_str2d`: rejects `inf` and `nan` by the first of the characters `.xXnN`. -/
def str2d (s : Bytes) : Option Number :=
  match s.find? fun c => c = 46 ∨ c = 120 ∨ c = 88 ∨ c = 110 ∨ c = 78 with
  | some 110 => none
  | some 78 => none
  | _ =>
    match strtod s with
    | some (v, rest) => if skipSpaces rest = [] then some v else none
    | none => none

/-- `tonumber(s)`. -/
def tonumber (s : Bytes) : Option Number :=
  match str2int s with
  | some n => some (ofInt n)
  | none => str2d s

/-- The spellings of one number, an overflow and rejected texts. -/
example : tonumber (bytes " 0x10 ") = some (ofInt 16) ∧
    tonumber (bytes "0xffffffffffffffff") = some (ofInt (-1)) ∧
    tonumber (bytes "-12") = some (ofInt (-12)) ∧ tonumber (bytes "1 2") = none ∧
    tonumber (bytes "") = none ∧ tonumber (bytes "inf") = none := by
  decide +kernel

end LsServer.Lua
