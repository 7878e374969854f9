import LsServer.Crypt.Hash
import Mathlib.Data.Nat.ModEq
import Mathlib.Tactic.IntervalCases
import Mathlib.Tactic.Ring

/-!
# `crypt.dhexchange`, `crypt.dhsecret` (lua-crypt.c)

The key exchange over the largest 64-bit prime `P`. A key is eight bytes, least significant first,
and not zero. `mulModP` doubles and adds modulo `P` without leaving 64 bits; `powModP` squares and
multiplies.

Source: lualib-src/lua-crypt.c `read64` 709-723, `P` 793, `mul_mod_p` 796-815, `pow_mod_p` 818-828,
`powmodp` 832-836, `push64` 839-851, `ldhsecret` 854-866, `G` 868, `ldhexchange` 871-888.

* `addModP m a` is the addition of the source: where the sum would reach `P` it subtracts `P - a`,
  so nothing passes 2^64.
* `mulLoop` takes the bits of one factor, least significant first, and doubles the other.
* `powLoop` is the square-and-multiply recursion of `pow_mod_p`; `dhexchange x` is `5 ^ x`, as `G`
  is 5.
* `dhexchange` and `dhsecret` raise (`none`) for a key that is zero, and `push64` writes eight
  bytes.

Results:
* `mulModP_toNat`, `powModP_toNat`: the word arithmetic is arithmetic modulo `P`;
* `dhsecret_comm`: both sides of an exchange compute the same secret.

Out of scope: `randomkey` (345-365), whose keys are parameters of the programs that use them, and
everything about what an eavesdropper can compute.
-/

namespace LsServer.Crypt

open LsServer.Lua

/-! ## Eight bytes and a word -/

theorem wordLE_bytesLE_append (v : UInt32) (s : Bytes) : wordLE (bytesLE v ++ s) = v := by
  apply UInt32.toBitVec_inj.mp
  simp only [wordLE, bytesLE, List.cons_append, List.nil_append, List.getD_cons_zero,
    List.getD_cons_succ, UInt32.toBitVec_or, UInt32.toBitVec_shiftLeft, UInt8.toBitVec_toUInt32,
    UInt32.toBitVec_toUInt8, UInt32.toBitVec_shiftRight]
  apply BitVec.eq_of_getLsbD_eq
  intro i hi
  interval_cases i <;> simp

/-- `xx[0] | xx[1] << 32`, the words being those of the eight bytes. -/
def qwordLE (b : Bytes) : UInt64 :=
  (wordLE b).toUInt64 ||| ((wordLE (b.drop 4)).toUInt64 <<< 32)

/-- `push64`. -/
def push64 (r : UInt64) : Bytes := bytesLE r.toUInt32 ++ bytesLE (r >>> 32).toUInt32

theorem push64_length (r : UInt64) : (push64 r).length = 8 := rfl

/-- **Reading back what `push64` wrote.** -/
theorem qwordLE_push64 (r : UInt64) : qwordLE (push64 r) = r := by
  have hlow : wordLE (push64 r) = r.toUInt32 := wordLE_bytesLE_append _ _
  have hhigh : wordLE ((push64 r).drop 4) = (r >>> 32).toUInt32 := by
    have := wordLE_bytesLE_append (r >>> 32).toUInt32 []
    rwa [List.append_nil] at this
  unfold qwordLE
  rw [hlow, hhigh]
  apply UInt64.toBitVec_inj.mp
  simp only [UInt64.toBitVec_or, UInt64.toBitVec_shiftLeft, UInt64.toBitVec_shiftRight,
    UInt32.toBitVec_toUInt64, UInt64.toBitVec_toUInt32]
  apply BitVec.eq_of_getLsbD_eq
  intro i hi
  interval_cases i <;> simp

/-! ## Arithmetic modulo `P` -/

/-- `P`, the largest 64-bit prime. -/
def dhP : UInt64 := 0xffffffffffffffc5

/-- `m + a` modulo `P`, as `mul_mod_p` computes it. -/
def addModP (m a : UInt64) : UInt64 := if dhP - a ≤ m then m - (dhP - a) else m + a

/-- `2 a` modulo `P`, as `mul_mod_p` computes it. -/
def doubleModP (a : UInt64) : UInt64 := if dhP - a ≤ a then a * 2 - dhP else a * 2

/-- The loop of `mul_mod_p`; `b` is shifted to zero in at most 64 rounds. -/
def mulLoop : Nat → UInt64 → UInt64 → UInt64 → UInt64
  | 0, m, _, _ => m
  | n + 1, m, a, b =>
    if b = 0 then m
    else mulLoop n (if b &&& 1 = 1 then addModP m a else m) (doubleModP a) (b >>> 1)

/-- `mul_mod_p`. -/
def mulModP (a b : UInt64) : UInt64 := mulLoop 64 0 a b

/-- `pow_mod_p`, for an exponent that is not zero; it is one after at most 63 halvings. -/
def powLoop : Nat → UInt64 → UInt64 → UInt64
  | 0, a, _ => a
  | n + 1, a, b =>
    if b = 1 then a
    else
      let t := powLoop n a (b >>> 1)
      let t := mulModP t t
      if b % 2 = 1 then mulModP t a else t

/-- `powmodp`. -/
def powModP (a b : UInt64) : UInt64 := powLoop 64 (if dhP < a then a % dhP else a) b

/-- `crypt.dhexchange`; `none` where the C function raises. -/
def dhexchange (x : Bytes) : Option Bytes :=
  if x.length = 8 ∧ qwordLE x ≠ 0 then some (push64 (powModP 5 (qwordLE x))) else none

/-- `crypt.dhsecret`. -/
def dhsecret (x y : Bytes) : Option Bytes :=
  if x.length = 8 ∧ y.length = 8 ∧ qwordLE x ≠ 0 ∧ qwordLE y ≠ 0 then
    some (push64 (powModP (qwordLE x) (qwordLE y)))
  else none

/-! ## Correctness -/

theorem dhP_toNat : dhP.toNat = 2 ^ 64 - 59 := rfl

theorem sub_toNat {a : UInt64} (ha : a.toNat < dhP.toNat) :
    (dhP - a).toNat = dhP.toNat - a.toNat :=
  UInt64.toNat_sub_of_le _ _ (UInt64.le_iff_toNat_le.mpr ha.le)

theorem addModP_toNat {m a : UInt64} (hm : m.toNat < dhP.toNat) (ha : a.toNat < dhP.toNat) :
    (addModP m a).toNat = (m.toNat + a.toNat) % dhP.toNat := by
  have hP := dhP_toNat
  have hs := sub_toNat ha
  unfold addModP
  by_cases h : dhP - a ≤ m
  · have hle := UInt64.le_iff_toNat_le.mp h
    rw [if_pos h, UInt64.toNat_sub_of_le _ _ h, Nat.mod_eq_sub_mod (by omega),
      Nat.mod_eq_of_lt (by omega)]
    omega
  · have hlt : m.toNat < (dhP - a).toNat := UInt64.lt_iff_toNat_lt.mp (UInt64.not_le.mp h)
    rw [if_neg h, UInt64.toNat_add, Nat.mod_eq_of_lt (a := m.toNat + a.toNat) (by omega),
      Nat.mod_eq_of_lt (by omega)]

theorem doubleModP_toNat {a : UInt64} (ha : a.toNat < dhP.toNat) :
    (doubleModP a).toNat = 2 * a.toNat % dhP.toNat := by
  have hP := dhP_toNat
  have hs := sub_toNat ha
  have htwo : (2 : UInt64).toNat = 2 := rfl
  unfold doubleModP
  by_cases h : dhP - a ≤ a
  · have hle := UInt64.le_iff_toNat_le.mp h
    have hmod : 2 * a.toNat % dhP.toNat = 2 * a.toNat - dhP.toNat := by
      rw [Nat.mod_eq_sub_mod (by omega), Nat.mod_eq_of_lt (by omega)]
    -- the product may leave 64 bits, the difference does not
    rw [if_pos h, UInt64.toNat_sub, UInt64.toNat_mul, htwo, hmod]
    omega
  · have hlt : a.toNat < (dhP - a).toNat := UInt64.lt_iff_toNat_lt.mp (UInt64.not_le.mp h)
    rw [if_neg h, UInt64.toNat_mul, htwo, Nat.mod_eq_of_lt (a := a.toNat * 2) (by omega),
      Nat.mod_eq_of_lt (by omega)]
    omega

/-- One round keeps `m + a b`, modulo `p`: the odd case. -/
theorem round_odd_mod (m a k p : Nat) :
    ((m + a) % p + 2 * a % p * k) % p = (m + a * (2 * k + 1)) % p := by
  have h : (m + a) % p + 2 * a % p * k ≡ m + a + 2 * a * k [MOD p] :=
    (Nat.mod_modEq _ _).add ((Nat.mod_modEq _ _).mul_right _)
  rw [h, show m + a + 2 * a * k = m + a * (2 * k + 1) by ring]

/-- The even case. -/
theorem round_even_mod (m a k p : Nat) : (m + 2 * a % p * k) % p = (m + a * (2 * k)) % p := by
  have h : m + 2 * a % p * k ≡ m + 2 * a * k [MOD p] :=
    Nat.ModEq.add_left _ ((Nat.mod_modEq _ _).mul_right _)
  rw [h, show m + 2 * a * k = m + a * (2 * k) by ring]

/-- The loop adds `a b` to `m`. -/
theorem mulLoop_toNat {n : Nat} {m a b : UInt64} (hm : m.toNat < dhP.toNat)
    (ha : a.toNat < dhP.toNat) (hb : b.toNat < 2 ^ n) :
    (mulLoop n m a b).toNat = (m.toNat + a.toNat * b.toNat) % dhP.toNat := by
  induction n generalizing m a b with
  | zero =>
    have hb0 : b.toNat = 0 := by simpa using hb
    rw [mulLoop, hb0, Nat.mul_zero, Nat.add_zero, Nat.mod_eq_of_lt hm]
  | succ n ih =>
    have hP : 0 < dhP.toNat := by decide
    have hshift : (b >>> 1).toNat = b.toNat / 2 := by
      rw [UInt64.toNat_shiftRight, Nat.shiftRight_eq_div_pow]
      rfl
    have hand : (b &&& 1 = 1) ↔ b.toNat % 2 = 1 := by
      rw [← UInt64.toNat_inj, UInt64.toNat_and]
      exact iff_of_eq (congrArg (· = 1) (Nat.and_one_is_mod b.toNat))
    have hdbl : (doubleModP a).toNat = 2 * a.toNat % dhP.toNat := doubleModP_toNat ha
    have hhalf : b.toNat / 2 < 2 ^ n := by rw [Nat.pow_succ] at hb; omega
    have ha' : (doubleModP a).toNat < dhP.toNat := by
      rw [hdbl]
      exact Nat.mod_lt _ hP
    unfold mulLoop
    by_cases hb0 : b = 0
    · rw [if_pos hb0, hb0]
      exact (Nat.mod_eq_of_lt hm).symm
    rw [if_neg hb0]
    by_cases hodd : b.toNat % 2 = 1
    · have hm' : (addModP m a).toNat < dhP.toNat := by
        rw [addModP_toNat hm ha]
        exact Nat.mod_lt _ hP
      rw [if_pos (hand.mpr hodd), ih hm' ha' (hshift ▸ hhalf), addModP_toNat hm ha, hdbl, hshift]
      rw [round_odd_mod, show 2 * (b.toNat / 2) + 1 = b.toNat by omega]
    · rw [if_neg (mt hand.mp hodd), ih hm ha' (hshift ▸ hhalf), hdbl, hshift]
      rw [round_even_mod, show 2 * (b.toNat / 2) = b.toNat by omega]

/-- `mul_mod_p` multiplies modulo `P`. -/
theorem mulModP_toNat {a : UInt64} (ha : a.toNat < dhP.toNat) (b : UInt64) :
    (mulModP a b).toNat = a.toNat * b.toNat % dhP.toNat := by
  have h := mulLoop_toNat (n := 64) (m := 0) (b := b) (by decide) ha b.toNat_lt
  simpa [mulModP] using h

theorem powLoop_toNat {n : Nat} {a b : UInt64} (ha : a.toNat < dhP.toNat) (hb0 : b ≠ 0)
    (hb : b.toNat < 2 ^ (n + 1)) :
    (powLoop n a b).toNat = a.toNat ^ b.toNat % dhP.toNat := by
  have hpos : b.toNat ≠ 0 := fun h => hb0 (UInt64.toNat_inj.mp h)
  induction n generalizing b with
  | zero =>
    have hb1 : b.toNat = 1 := by omega
    rw [powLoop, hb1, Nat.pow_one, Nat.mod_eq_of_lt ha]
  | succ n ih =>
    have hP : 0 < dhP.toNat := by decide
    have hone : (1 : UInt64).toNat = 1 := rfl
    have hshift : (b >>> 1).toNat = b.toNat / 2 := by
      rw [UInt64.toNat_shiftRight, Nat.shiftRight_eq_div_pow]
      rfl
    have hmod : (b % 2 = 1) ↔ b.toNat % 2 = 1 := by
      rw [← UInt64.toNat_inj, UInt64.toNat_mod]
      rfl
    unfold powLoop
    by_cases hb1 : b = 1
    · rw [if_pos hb1, hb1, hone, Nat.pow_one, Nat.mod_eq_of_lt ha]
    rw [if_neg hb1]
    have hge : 2 ≤ b.toNat := by
      have : b.toNat ≠ 1 := fun h => hb1 (UInt64.toNat_inj.mp h)
      omega
    have hhalf : (b >>> 1).toNat ≠ 0 := by rw [hshift]; omega
    have ht := ih (b := b >>> 1) (fun h => hhalf (by rw [h]; rfl))
      (by rw [hshift]; rw [Nat.pow_succ] at hb; omega) hhalf
    rw [hshift] at ht
    generalize powLoop n a (b >>> 1) = t at ht
    have htP : t.toNat < dhP.toNat := ht ▸ Nat.mod_lt _ hP
    have hsq : (mulModP t t).toNat = a.toNat ^ (2 * (b.toNat / 2)) % dhP.toNat := by
      rw [mulModP_toNat htP, ht, ← Nat.mul_mod, ← Nat.pow_add, ← two_mul]
    have hsqP : (mulModP t t).toNat < dhP.toNat := hsq ▸ Nat.mod_lt _ hP
    by_cases hodd : b.toNat % 2 = 1
    · simp only [if_pos (hmod.mpr hodd)]
      rw [mulModP_toNat hsqP, hsq, Nat.mod_mul_mod, ← Nat.pow_succ,
        show (2 * (b.toNat / 2)).succ = b.toNat by omega]
    · simp only [if_neg (mt hmod.mp hodd)]
      rw [hsq, show 2 * (b.toNat / 2) = b.toNat by omega]

/-- **`powmodp` is the power modulo `P`.** -/
theorem powModP_toNat {a b : UInt64} (ha : a.toNat < dhP.toNat) (hb : b ≠ 0) :
    (powModP a b).toNat = a.toNat ^ b.toNat % dhP.toNat := by
  have hle : ¬ dhP < a := UInt64.not_lt.mpr (UInt64.le_iff_toNat_le.mpr ha.le)
  rw [powModP, if_neg hle]
  exact powLoop_toNat ha hb (lt_of_lt_of_le b.toNat_lt (by decide))

/-! ## Key agreement -/

/-- Both sides raise `5` to the product of their keys. -/
theorem powModP_comm {x y : UInt64} (hx : x ≠ 0) (hy : y ≠ 0) :
    powModP (powModP 5 x) y = powModP (powModP 5 y) x := by
  have h5 : (5 : UInt64).toNat < dhP.toNat := by decide
  have hP : 0 < dhP.toNat := by decide
  have hlt : ∀ z : UInt64, z ≠ 0 → (powModP 5 z).toNat < dhP.toNat := fun z hz =>
    powModP_toNat h5 hz ▸ Nat.mod_lt _ hP
  apply UInt64.toNat_inj.mp
  rw [powModP_toNat (hlt x hx) hy, powModP_toNat (hlt y hy) hx, powModP_toNat h5 hx,
    powModP_toNat h5 hy, ← Nat.pow_mod, ← Nat.pow_mod, ← Nat.pow_mul, ← Nat.pow_mul,
    Nat.mul_comm]

/-- No power of `5` vanishes modulo `P`. -/
theorem powModP_ne_zero {x : UInt64} (hx : x ≠ 0) : powModP 5 x ≠ 0 := by
  intro h
  have hpow : (powModP 5 x).toNat = 5 ^ x.toNat % dhP.toNat := powModP_toNat (by decide) hx
  rw [h] at hpow
  have hdvd : dhP.toNat ∣ 5 ^ x.toNat := Nat.dvd_of_mod_eq_zero hpow.symm
  have hcop : Nat.Coprime dhP.toNat (5 ^ x.toNat) :=
    Nat.Coprime.pow_right _ (by decide +kernel)
  exact absurd (Nat.Coprime.eq_one_of_dvd hcop hdvd) (by decide)

theorem dhexchange_eq_some {x e : Bytes} : dhexchange x = some e ↔
    x.length = 8 ∧ qwordLE x ≠ 0 ∧ e = push64 (powModP 5 (qwordLE x)) := by
  unfold dhexchange
  split
  · rename_i h
    simp only [Option.some.injEq, h, ne_eq, not_false_eq_true, true_and]
    exact eq_comm
  · rename_i h
    simp only [reduceCtorEq, false_iff]
    exact fun ⟨h1, h2, _⟩ => h ⟨h1, h2⟩

/-- **Both sides compute the same secret.** -/
theorem dhsecret_comm {x y ex ey : Bytes} (hx : dhexchange x = some ex)
    (hy : dhexchange y = some ey) :
    ∃ s, dhsecret ex y = some s ∧ dhsecret ey x = some s ∧ s.length = 8 := by
  obtain ⟨hxl, hx0, rfl⟩ := dhexchange_eq_some.mp hx
  obtain ⟨hyl, hy0, rfl⟩ := dhexchange_eq_some.mp hy
  refine ⟨push64 (powModP (powModP 5 (qwordLE x)) (qwordLE y)), ?_, ?_, push64_length _⟩
  · simp [dhsecret, qwordLE_push64, push64_length, hyl, hy0, powModP_ne_zero hx0]
  · simp [dhsecret, qwordLE_push64, push64_length, hxl, hx0, powModP_ne_zero hy0,
      powModP_comm hx0 hy0]

end LsServer.Crypt
