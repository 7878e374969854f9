import LsServer.Lua.Bytes
import Mathlib.Algebra.Order.Field.Rat
import Mathlib.Data.Nat.Log
import Mathlib.Tactic.FieldSimp

/-!
# `string.sub` and the format `<d`

`sub` is `string.sub` (lstrlib.c `str_sub`), with positions that count from the end where they are
negative. `packDouble` and `unpackDouble` are the format `<d` of `string.pack` and `string.unpack`
for an integer argument: a binary64, least significant byte first. An integer is rounded to the
nearest double, ties to even, as the C conversion does.

`unpackDouble_packDouble`: an integer below `2 ^ 53` comes back unchanged.

Source: lstrlib.c `posrelatI` 71-80, `getendpos` 87-97, `str_sub` 100-109, the cases `Kint`, `Kuint`
and `Kdouble` of `str_pack` 1601-1697 and `str_unpack` 1754-1825, `copywithendian` 1589-1598.

* `posrelatI` and `getendpos` clip a position to the string; a start behind the end gives the empty
  string.
* A double is read and written by its bits: `doubleBits` of a natural number, and `doubleValue` of
  64 bits, which is `none` for an infinity and NaN.
* `unpackDouble` is for a double that is then used as an integer, as a length for `string.sub` is.
  It is `none` where that raises.
* `packDouble` is for a natural number, the length of a text.
-/

namespace LsServer.Lua

/-! ## Substrings -/

/-- `posrelatI`. -/
def posrelatI (pos : Int) (len : Nat) : Nat :=
  if 0 < pos then pos.toNat
  else if pos = 0 then 1
  else if pos < -(len : Int) then 1
  else (len + pos + 1).toNat

/-- `getendpos`. -/
def getendpos (pos : Int) (len : Nat) : Nat :=
  if (len : Int) < pos then len
  else if 0 ≤ pos then pos.toNat
  else if pos < -(len : Int) then 0
  else (len + pos + 1).toNat

/-- `s:sub(i, j)`. -/
def sub (s : Bytes) (i j : Int) : Bytes :=
  let first := posrelatI i s.length
  let last := getendpos j s.length
  if first ≤ last then (s.drop (first - 1)).take (last - first + 1) else []

/-- The first `k` bytes. -/
theorem sub_one (s : Bytes) (k : Nat) : sub s 1 k = s.take k := by
  have hfirst : posrelatI 1 s.length = 1 := by simp [posrelatI]
  have hlast : getendpos k s.length = min k s.length := by
    unfold getendpos
    split
    · omega
    · rw [if_pos (by omega)]
      omega
  unfold sub
  simp only [hfirst, hlast]
  split
  · rw [Nat.sub_self, List.drop_zero, show min k s.length - 1 + 1 = min k s.length by omega,
      ← List.take_eq_take_min]
  · have hk : min k s.length = 0 := by omega
    rw [List.take_eq_take_min, hk, List.take_zero]

/-- What stands from position `k + 1` on. -/
theorem sub_drop {s : Bytes} {j : Int} (hlast : getendpos j s.length = s.length) (k : Nat) :
    sub s ((k : Int) + 1) j = s.drop k := by
  have hfirst : posrelatI ((k : Int) + 1) s.length = k + 1 := by
    unfold posrelatI
    rw [if_pos (by omega)]
    omega
  unfold sub
  simp only [hfirst, hlast]
  split
  · rw [Nat.add_sub_cancel]
    exact List.take_of_length_le (by rw [List.length_drop]; omega)
  · exact (List.drop_eq_nil_of_le (by omega)).symm

theorem sub_neg_one (s : Bytes) (k : Nat) : sub s ((k : Int) + 1) (-1) = s.drop k := by
  refine sub_drop ?_ k
  unfold getendpos
  rw [if_neg (by omega), if_neg (by omega)]
  split <;> omega

theorem sub_length (s : Bytes) (k : Nat) : sub s ((k : Int) + 1) s.length = s.drop k := by
  refine sub_drop ?_ k
  unfold getendpos
  rw [if_neg (by omega), if_pos (by omega)]
  omega

/-! ## Doubles -/

/-- The `n` low bytes of `v`, least significant first. -/
def packLE (n v : Nat) : Bytes := (packBE n v).reverse

/-- The number the bytes spell, least significant first. -/
def unpackLE (b : Bytes) : Nat := unpackBE b.reverse

theorem packLE_length (n v : Nat) : (packLE n v).length = n := by
  rw [packLE, List.length_reverse, packBE_length]

theorem unpackLE_packLE {n v : Nat} (h : v < 256 ^ n) : unpackLE (packLE n v) = v := by
  rw [unpackLE, packLE, List.reverse_reverse, unpackBE_packBE_of_lt h]

/-- `n / d` rounded to the nearest integer, ties to even. -/
def roundDiv (n d : Nat) : Nat :=
  if 2 * (n % d) < d ∨ (2 * (n % d) = d ∧ n / d % 2 = 0) then n / d else n / d + 1

/-- The bits of `(double)n`. A significand that rounds up to `2 ^ 53` carries into the exponent. -/
def doubleBits (n : Nat) : Nat :=
  if n = 0 then 0
  else
    let e := Nat.log 2 n
    (1022 + e) * 2 ^ 52 + if e ≤ 52 then n * 2 ^ (52 - e) else roundDiv n (2 ^ (e - 52))

/-- The value of the double with the bits `v`; `none` for an infinity and NaN. -/
def doubleValue (v : Nat) : Option ℚ :=
  let e : Nat := v / 2 ^ 52 % 2 ^ 11
  let m : Nat := v % 2 ^ 52
  let q : ℚ := if e = 0 then m * 2 ^ (-1074 : Int) else (2 ^ 52 + m) * 2 ^ ((e : Int) - 1075)
  if e = 2047 then none else some (if v < 2 ^ 63 then q else -q)

/-- `luaV_flttointeger`: a double that is an integer and fits. -/
def toInteger (q : ℚ) : Option Int :=
  if q.den = 1 ∧ -2 ^ 63 ≤ q.num ∧ q.num < 2 ^ 63 then some q.num else none

/-- `string.pack("<d", n)`. -/
def packDouble (n : Nat) : Bytes := packLE 8 (doubleBits n)

/-- `string.unpack("<d", s)`, used as an integer; `none` where the text is too short, and where the
use as an integer raises. -/
def unpackDouble (s : Bytes) : Option Int :=
  if s.length < 8 then none else (doubleValue (unpackLE (s.take 8))).bind toInteger

theorem packDouble_length (n : Nat) : (packDouble n).length = 8 := packLE_length _ _

/-- **An integer below `2 ^ 53` is a double.** -/
theorem doubleValue_doubleBits {n : Nat} (h : n < 2 ^ 53) :
    doubleValue (doubleBits n) = some (n : ℚ) ∧ doubleBits n < 2 ^ 63 := by
  by_cases hn : n = 0
  · subst hn
    simp [doubleBits, doubleValue]
  · have he : Nat.log 2 n ≤ 52 := Nat.lt_succ_iff.mp (Nat.log_lt_of_lt_pow hn h)
    obtain ⟨e, he'⟩ : ∃ e, Nat.log 2 n = e := ⟨_, rfl⟩
    rw [he'] at he
    have hlow : 2 ^ 52 ≤ n * 2 ^ (52 - e) := by
      calc 2 ^ 52 = 2 ^ e * 2 ^ (52 - e) := by rw [← pow_add]; congr 1; omega
        _ ≤ n * 2 ^ (52 - e) := Nat.mul_le_mul_right _ (he' ▸ Nat.pow_log_le_self 2 hn)
    have hhigh : n * 2 ^ (52 - e) < 2 ^ 53 := by
      calc n * 2 ^ (52 - e) < 2 ^ (e + 1) * 2 ^ (52 - e) :=
            Nat.mul_lt_mul_of_pos_right (he' ▸ Nat.lt_pow_succ_log_self (by decide) n)
              (by positivity)
        _ = 2 ^ 53 := by rw [← pow_add]; congr 1; omega
    obtain ⟨m, hm⟩ : ∃ m, n * 2 ^ (52 - e) = 2 ^ 52 + m := Nat.exists_eq_add_of_le hlow
    have hbits : doubleBits n = (1023 + e) * 2 ^ 52 + m := by
      simp only [doubleBits, if_neg hn, he', if_pos he]
      omega
    have hlt : m < 2 ^ 52 := by omega
    have hexp : doubleBits n / 2 ^ 52 % 2 ^ 11 = 1023 + e := by omega
    have hsig : doubleBits n % 2 ^ 52 = m := by omega
    have hsmall : doubleBits n < 2 ^ 63 := by omega
    have hcast : ((2 : ℚ) ^ 52 + m) = n * 2 ^ (52 - e) := by exact_mod_cast hm.symm
    have hpow : (2 : ℚ) ^ (52 - e) * 2 ^ (((1023 + e : Nat) : Int) - 1075) = 1 := by
      have hsum : ((52 - e : Nat) : Int) + (((1023 + e : Nat) : Int) - 1075) = 0 := by omega
      rw [← zpow_natCast, ← zpow_add₀ (by norm_num), hsum, zpow_zero]
    refine ⟨?_, hsmall⟩
    unfold doubleValue
    simp only [hexp, hsig]
    rw [if_neg (show ¬ 1023 + e = 2047 by omega), if_pos hsmall,
      if_neg (show ¬ 1023 + e = 0 by omega), hcast, mul_assoc, hpow, mul_one]

theorem toInteger_natCast {n : Nat} (h : n < 2 ^ 63) : toInteger (n : ℚ) = some (n : Int) := by
  unfold toInteger
  rw [Rat.num_natCast, Rat.den_natCast, if_pos ⟨rfl, by omega, by omega⟩]

/-- **Reading back a length.** -/
theorem unpackDouble_packDouble {n : Nat} (h : n < 2 ^ 53) (s : Bytes) :
    unpackDouble (packDouble n ++ s) = some (n : Int) := by
  obtain ⟨hvalue, hbits⟩ := doubleValue_doubleBits h
  have hlen : ¬ (packDouble n ++ s).length < 8 := by
    rw [List.length_append, packDouble_length]
    omega
  have hread : unpackLE ((packDouble n ++ s).take 8) = doubleBits n := by
    rw [List.take_left' (packDouble_length n), packDouble, unpackLE_packLE (by omega)]
  rw [unpackDouble, if_neg hlen, hread, hvalue, Option.bind_some, toInteger_natCast (by omega)]

/-- The prefix of a name of 19 bytes. -/
example : packDouble 19 = [0, 0, 0, 0, 0, 0, 0x33, 0x40] := by decide +kernel

end LsServer.Lua
