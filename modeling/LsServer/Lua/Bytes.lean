import Mathlib.Data.List.Induction
import Mathlib.Tactic.Positivity
import Mathlib.Tactic.Ring

/-!
# Lua strings and `string.pack`

A Lua string is a list of bytes. `packBE n v` and `unpackBE` are the big-endian integer formats
of `string.pack` / `string.unpack` (`>In`, lstrlib.c `packint` and `unpackint`), `packS2` is the
format `>s2`. A format that raises returns `none`.

`unpackBE_packBE` and `packBE_unpackBE` say the integer formats are inverse on `n` bytes.

Source: lstrlib.c `packint` 1568-1582, `str_pack` 1601-1697, `unpackint` 1728-1751, `str_unpack`
1754-1825; lctype.c for the classes of characters; lobject.c `tostringbuff` 355-368.

* `packBE n v` writes the `n` low bytes of `v`, as `packint` does. A caller whose format checks the
  range (`unsigned overflow`) says so itself, as `packS2` does.
* `unpackBE` reads all bytes that it is given; a caller cuts them out, and says what happens where
  the string is too short.
* Integers are not negative here: what is packed are lengths, sessions and handles.
* `packS2` is `>s2`: the length in two bytes and the text. It raises for a text of 65536 bytes and
  more.
* `tostring` is the text of a natural number. It is injective, and has no digit too many.

Out of scope: alignment, native sizes and the other formats. `<d` is in `Strings`, the little-endian
integers of `packLE` as well.
-/

namespace LsServer.Lua

/-- A Lua string. -/
abbrev Bytes := List UInt8

instance : LawfulBEq Bytes := inferInstance

/-- The bytes of an ASCII literal. -/
def bytes (s : String) : Bytes := s.toList.map fun c => c.toNat.toUInt8

/-- `lisspace` (lctype.c). -/
def isspace (c : UInt8) : Bool := c == 32 || (9 ≤ c && c ≤ 13)

/-- `lisdigit`. -/
def isdigit (c : UInt8) : Bool := 48 ≤ c && c ≤ 57

/-- `lisxdigit`. -/
def isxdigit (c : UInt8) : Bool := isdigit c || (97 ≤ c && c ≤ 102) || (65 ≤ c && c ≤ 70)

/-- `luaO_hexavalue`. -/
def hexavalue (c : UInt8) : Nat :=
  if isdigit c then c.toNat - 48 else if 97 ≤ c then c.toNat - 97 + 10 else c.toNat - 65 + 10

/-- The decimal digits of `n` (`tostring` of a non-negative integer). -/
def tostring (n : Nat) : Bytes := (Nat.toDigits 10 n).map fun c => c.toNat.toUInt8

/-! ## Big-endian integers -/

/-- The `n` low bytes of `v`, most significant first (`packint`). -/
def packBE : Nat → Nat → Bytes
  | 0, _ => []
  | n + 1, v => (v / 256 ^ n).toUInt8 :: packBE n v

/-- The number the bytes spell, most significant first (`unpackint`, unsigned). -/
def unpackBE (b : Bytes) : Nat := b.foldl (fun v c => v * 256 + c.toNat) 0

/-- `string.pack(">s2", s)`: raises when the length does not fit in two bytes. -/
def packS2 (s : Bytes) : Option Bytes :=
  if s.length < 2 ^ 16 then some (packBE 2 s.length ++ s) else none

theorem packBE_length (n v : Nat) : (packBE n v).length = n := by
  induction n with
  | zero => rfl
  | succ n ih => simp [packBE, ih]

theorem unpackBE_append (a b : Bytes) :
    unpackBE (a ++ b) = unpackBE a * 256 ^ b.length + unpackBE b := by
  induction b using List.reverseRecOn with
  | nil => simp [unpackBE]
  | append_singleton b c ih =>
    have h1 : unpackBE (a ++ (b ++ [c])) = unpackBE (a ++ b) * 256 + c.toNat := by
      simp [unpackBE, List.foldl_append]
    have h2 : unpackBE (b ++ [c]) = unpackBE b * 256 + c.toNat := by
      simp [unpackBE, List.foldl_append]
    rw [h1, h2, ih, List.length_append, List.length_singleton, Nat.pow_succ]
    ring

theorem unpackBE_lt (b : Bytes) : unpackBE b < 256 ^ b.length := by
  induction b using List.reverseRecOn with
  | nil => simp [unpackBE]
  | append_singleton b c ih =>
    have hc := c.toNat_lt
    have h1 : unpackBE [c] = c.toNat := by simp [unpackBE]
    rw [unpackBE_append, List.length_append, List.length_singleton, Nat.pow_one, Nat.pow_succ, h1]
    omega

/-- **Reading back what was packed.** -/
theorem unpackBE_packBE (n v : Nat) : unpackBE (packBE n v) = v % 256 ^ n := by
  induction n with
  | zero => simp [packBE, unpackBE, Nat.mod_one]
  | succ n ih =>
    have hb : unpackBE [(v / 256 ^ n).toUInt8] = v / 256 ^ n % 256 := by
      simp [unpackBE]
    rw [packBE, ← List.singleton_append, unpackBE_append, packBE_length, ih, hb, Nat.pow_succ,
      Nat.mod_mul]
    ring

/-- **Packing what was read.** -/
theorem packBE_unpackBE (b : Bytes) : packBE b.length (unpackBE b) = b := by
  have key : ∀ (b : Bytes) (v : Nat), packBE b.length (v * 256 ^ b.length + unpackBE b) = b := by
    intro b
    induction b with
    | nil => intro v; rfl
    | cons c b ih =>
      intro v
      have hs : unpackBE (c :: b) = c.toNat * 256 ^ b.length + unpackBE b := by
        have := unpackBE_append [c] b
        simpa [unpackBE] using this
      have hlt := unpackBE_lt b
      have hsum : v * 256 ^ (b.length + 1) + unpackBE (c :: b) =
          (v * 256 + c.toNat) * 256 ^ b.length + unpackBE b := by
        rw [hs, Nat.pow_succ]; ring
      have hdiv : ((v * 256 + c.toNat) * 256 ^ b.length + unpackBE b) / 256 ^ b.length =
          v * 256 + c.toNat := by
        rw [Nat.mul_comm, Nat.mul_add_div (by positivity), Nat.div_eq_of_lt hlt, Nat.add_zero]
      rw [List.length_cons, packBE, hsum, hdiv, ih]
      congr 1
      apply UInt8.toNat_inj.mp
      simp
  have := key b 0
  simpa using this

theorem unpackBE_packBE_of_lt {n v : Nat} (h : v < 256 ^ n) : unpackBE (packBE n v) = v := by
  rw [unpackBE_packBE, Nat.mod_eq_of_lt h]

/-! ## Decimal digits -/

theorem tostring_of_lt {n : Nat} (h : n < 10) : tostring n = [(48 + n).toUInt8] := by
  unfold tostring
  rw [Nat.toDigits_of_lt_base h, List.map_cons, Nat.toNat_digitChar_of_lt_ten h]
  rfl

theorem tostring_of_le {n : Nat} (h : 10 ≤ n) :
    tostring n = tostring (n / 10) ++ [(48 + n % 10).toUInt8] := by
  unfold tostring
  rw [Nat.toDigits_of_base_le (by decide) h, List.map_append, List.map_cons,
    Nat.toNat_digitChar_of_lt_ten (Nat.mod_lt _ (by decide))]
  rfl

theorem tostring_ne_nil (n : Nat) : tostring n ≠ [] := by
  unfold tostring
  simp [Nat.toDigits_ne_nil]

/-- Digits are different bytes. -/
theorem toUInt8_digit_inj {a b : Nat} (ha : a < 10) (hb : b < 10)
    (h : (48 + a).toUInt8 = (48 + b).toUInt8) : a = b := by
  have hnat := congrArg UInt8.toNat h
  simp only [Nat.toUInt8_eq, UInt8.toNat_ofNat'] at hnat
  omega

/-- **A number is known by its digits.** -/
theorem tostring_injective : Function.Injective tostring := by
  intro m
  induction m using Nat.strong_induction_on with
  | _ m ih =>
    intro n h
    rcases Nat.lt_or_ge m 10 with hm | hm <;> rcases Nat.lt_or_ge n 10 with hn | hn
    · rw [tostring_of_lt hm, tostring_of_lt hn] at h
      exact toUInt8_digit_inj hm hn (List.singleton_inj.mp h)
    · rw [tostring_of_lt hm, tostring_of_le hn] at h
      have hnil : ([] : Bytes) ++ [(48 + m).toUInt8] = _ := h
      exact absurd (List.append_inj' hnil rfl).1.symm (tostring_ne_nil _)
    · rw [tostring_of_le hm, tostring_of_lt hn] at h
      have hnil : _ = ([] : Bytes) ++ [(48 + n).toUInt8] := h
      exact absurd (List.append_inj' hnil rfl).1 (tostring_ne_nil _)
    · rw [tostring_of_le hm, tostring_of_le hn] at h
      obtain ⟨hq, hr⟩ := List.append_inj' h rfl
      have hdiv : m / 10 = n / 10 := ih (m / 10) (by omega) hq
      have hmod : m % 10 = n % 10 := toUInt8_digit_inj (Nat.mod_lt _ (by decide))
        (Nat.mod_lt _ (by decide)) (List.singleton_inj.mp hr)
      omega

end LsServer.Lua
