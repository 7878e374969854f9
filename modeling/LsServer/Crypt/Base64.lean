import LsServer.Lua.Bytes
import Mathlib.Tactic.IntervalCases

/-!
# `crypt.base64encode`, `crypt.base64decode` (lua-crypt.c)

The encoder works three bytes at a time. The decoder reads groups of four symbols; it skips every
byte outside the alphabet, takes a missing symbol at the end of the text for `=`, and raises
(`none`) on a group with a misplaced or superfluous `=` or with spare bits set. So many texts
decode to the same bytes.

Source: lualib-src/lua-crypt.c `lb64encode` 893-933, `b64index` 936-946, `lb64decode` 949-1012.

* `encoding` is the alphabet, 64 bytes; `enc` looks six bits up. The last group of one or two bytes
  is filled up with `=`.
* `decoding` is the table of `b64index`, which has -2 for `=` and -1 for all bytes outside the
  alphabet.
* `readSymbols` collects four symbols; `decodeGroup` gives three bytes, or two or one at `=`.
* What the decoder accepts is no canonical form: `dQ==` and `d Q==` decode alike. Whoever compares
  texts before decoding must not take them for different users.

Results: `base64decode_encode` (decoding inverts encoding), `mem_base64encode` (the alphabet of
the output).
-/

namespace LsServer.Crypt

open LsServer.Lua

/-- The table `encoding`. -/
def encoding : Bytes := bytes "ABCDEFGHIJKLMNOPQRSTUVWXYZabcdefghijklmnopqrstuvwxyz0123456789+/"

/-- `encoding[i]`. -/
def enc (i : Nat) : UInt8 := encoding.getD i 0

/-- `crypt.base64encode`. The shifts and masks of `v` are written as quotients and remainders. -/
def base64encode : Bytes → Bytes
  | a :: b :: c :: t =>
    let v := a.toNat * 65536 + b.toNat * 256 + c.toNat
    enc (v / 262144) :: enc (v / 4096 % 64) :: enc (v / 64 % 64) :: enc (v % 64) :: base64encode t
  | [a, b] =>
    let v := a.toNat * 256 + b.toNat
    [enc (v / 1024), enc (v / 16 % 64), enc (v % 16 * 4), 61]
  | [a] => [enc (a.toNat / 4), enc (a.toNat % 4 * 16), 61, 61]
  | [] => []

/-- The table `decoding`, from the byte 43 on. -/
def decoding : List Int :=
  [62, -1, -1, -1, 63, 52, 53, 54, 55, 56, 57, 58, 59, 60, 61, -1, -1, -1, -2, -1, -1, -1,
   0, 1, 2, 3, 4, 5, 6, 7, 8, 9, 10, 11, 12, 13, 14, 15, 16, 17, 18, 19, 20, 21, 22, 23, 24, 25,
   -1, -1, -1, -1, -1, -1,
   26, 27, 28, 29, 30, 31, 32, 33, 34, 35, 36, 37, 38, 39, 40, 41, 42, 43, 44, 45, 46, 47, 48,
   49, 50, 51]

/-- `b64index`: a six-bit value, `-1` to skip, `-2` for `=`. -/
def b64index (c : UInt8) : Int := if c < 43 then -1 else decoding.getD (c.toNat - 43) (-1)

/-- The next `n` symbols of the text; the text's end stands for `=`. -/
def readSymbols : Nat → Bytes → List Int × Bytes
  | 0, t => ([], t)
  | n + 1, [] => (List.replicate (n + 1) (-2), [])
  | n + 1, c :: t =>
    if b64index c = -1 then readSymbols (n + 1) t
    else (b64index c :: (readSymbols n t).1, (readSymbols n t).2)

/-- The bytes of one group of four symbols. -/
def decodeGroup (c : List Int) : Option Bytes :=
  match c with
  | [c0, c1, c2, c3] =>
    match c.count (-2) with
    | 0 =>
      let v := c0.toNat * 262144 + c1.toNat * 4096 + c2.toNat * 64 + c3.toNat
      some [(v / 65536).toUInt8, (v / 256 % 256).toUInt8, (v % 256).toUInt8]
    | 1 =>
      if c3 ≠ -2 ∨ c2.toNat % 4 ≠ 0 then none
      else
        let v := c0.toNat * 1024 + c1.toNat * 16 + c2.toNat / 4
        some [(v / 256).toUInt8, (v % 256).toUInt8]
    | 2 =>
      if c3 ≠ -2 ∨ c2 ≠ -2 ∨ c1.toNat % 16 ≠ 0 then none
      else some [(c0.toNat * 4 + c1.toNat / 16).toUInt8]
    | _ => none
  | _ => none

/-- The loop over the groups; each reads at least one byte. -/
def decodeGroups : Nat → Bytes → Option Bytes
  | 0, _ => some []
  | _, [] => some []
  | n + 1, t =>
    match decodeGroup (readSymbols 4 t).1 with
    | none => none
    | some b => (decodeGroups n (readSymbols 4 t).2).map (b ++ ·)

/-- `crypt.base64decode`; `none` where the C function raises. -/
def base64decode (t : Bytes) : Option Bytes := decodeGroups t.length t

/-! ## The output alphabet -/

theorem b64index_enc : ∀ i, i < 64 → b64index (enc i) = i := by decide +kernel

theorem b64index_pad : b64index 61 = -2 := by decide

theorem enc_ne_pad : ∀ i, i < 64 → b64index (enc i) ≠ -1 ∧ b64index (enc i) ≠ -2 := by
  decide +kernel

/-- A byte of the output is a letter, a digit, `+`, `/` or `=`. -/
def isB64 (c : UInt8) : Bool := b64index c != -1

theorem isB64_enc {i : Nat} (h : i < 64) : isB64 (enc i) = true := by
  unfold isB64
  rw [bne_iff_ne]
  exact (enc_ne_pad i h).1

theorem base64encode_induct {P : Bytes → Prop} (h0 : P []) (h1 : ∀ a, P [a])
    (h2 : ∀ a b, P [a, b]) (h3 : ∀ a b c t, P t → P (a :: b :: c :: t)) : ∀ t, P t
  | [] => h0
  | [a] => h1 a
  | [a, b] => h2 a b
  | a :: b :: c :: t => h3 a b c t (base64encode_induct h0 h1 h2 h3 t)

theorem mem_base64encode {s : Bytes} {c : UInt8} (h : c ∈ base64encode s) : isB64 c = true := by
  have hpad : isB64 61 = true := by decide
  induction s using base64encode_induct with
  | h0 => exact absurd h List.not_mem_nil
  | h1 a =>
    have ha := a.toNat_lt
    simp only [base64encode, List.mem_cons, List.not_mem_nil, or_false] at h
    rcases h with rfl | rfl | rfl | rfl
    · exact isB64_enc (by omega)
    · exact isB64_enc (by omega)
    · exact hpad
    · exact hpad
  | h2 a b =>
    have ha := a.toNat_lt
    have hb := b.toNat_lt
    simp only [base64encode, List.mem_cons, List.not_mem_nil, or_false] at h
    rcases h with rfl | rfl | rfl | rfl
    · exact isB64_enc (by omega)
    · exact isB64_enc (by omega)
    · exact isB64_enc (by omega)
    · exact hpad
  | h3 a b d t ih =>
    have ha := a.toNat_lt
    have hb := b.toNat_lt
    have hd := d.toNat_lt
    simp only [base64encode, List.mem_cons] at h
    rcases h with rfl | rfl | rfl | rfl | h
    · exact isB64_enc (by omega)
    · exact isB64_enc (by omega)
    · exact isB64_enc (by omega)
    · exact isB64_enc (by omega)
    · exact ih h

/-- A separator that is no base64 character does not occur in an encoding. -/
theorem not_mem_base64encode {s : Bytes} {c : UInt8} (hc : isB64 c = false) :
    c ∉ base64encode s := fun h => by
  rw [mem_base64encode h] at hc
  exact Bool.noConfusion hc

/-! ## Decoding inverts encoding -/

theorem readSymbols_enc {n i : Nat} (h : i < 64) (t : Bytes) :
    readSymbols (n + 1) (enc i :: t) = ((i : Int) :: (readSymbols n t).1, (readSymbols n t).2) := by
  rw [readSymbols, if_neg (enc_ne_pad i h).1, b64index_enc i h]

theorem readSymbols_pad (n : Nat) (t : Bytes) :
    readSymbols (n + 1) (61 :: t) = (-2 :: (readSymbols n t).1, (readSymbols n t).2) := by
  rw [readSymbols, if_neg (by decide), b64index_pad]

theorem decodeGroups_cons {n : Nat} {t b : Bytes} (ht : t ≠ [])
    (hb : decodeGroup (readSymbols 4 t).1 = some b) :
    decodeGroups (n + 1) t = (decodeGroups n (readSymbols 4 t).2).map (b ++ ·) := by
  cases t with
  | nil => exact absurd rfl ht
  | cons c t => rw [decodeGroups, hb]; exact List.cons_ne_nil c t

/-- A byte is what its number converts to. -/
theorem toUInt8_toNat_eq {v : Nat} {a : UInt8} (h : v = a.toNat) : v.toUInt8 = a := by
  subst h
  simp

theorem decodeGroups_encode (s : Bytes) :
    ∀ n, (base64encode s).length ≤ n → decodeGroups n (base64encode s) = some s := by
  induction s using base64encode_induct with
  | h0 => intro n _; cases n <;> rfl
  | h1 a =>
    intro n hn
    have ha := a.toNat_lt
    obtain ⟨n, rfl⟩ : ∃ m, n = m + 1 := ⟨n - 1, by simp [base64encode] at hn; omega⟩
    have hr : readSymbols 4 (base64encode [a]) =
        ([((a.toNat / 4 : Nat) : Int), ((a.toNat % 4 * 16 : Nat) : Int), -2, -2], []) := by
      simp only [base64encode]
      rw [readSymbols_enc (by omega), readSymbols_enc (by omega), readSymbols_pad, readSymbols_pad]
      rfl
    have hg : decodeGroup (readSymbols 4 (base64encode [a])).1 = some [a] := by
      rw [hr]
      have hcount : ([((a.toNat / 4 : Nat) : Int), ((a.toNat % 4 * 16 : Nat) : Int), -2, -2] :
          List Int).count (-2) = 2 := by
        rw [List.count_cons_of_ne (by omega), List.count_cons_of_ne (by omega)]
        rfl
      simp only [decodeGroup, hcount, Int.toNat_natCast]
      rw [if_neg (by omega), toUInt8_toNat_eq (a := a) (by omega)]
    rw [decodeGroups_cons (by simp [base64encode]) hg, hr]
    cases n <;> rfl
  | h2 a b =>
    intro n hn
    have ha := a.toNat_lt
    have hb := b.toNat_lt
    obtain ⟨n, rfl⟩ : ∃ m, n = m + 1 := ⟨n - 1, by simp [base64encode] at hn; omega⟩
    have hr : readSymbols 4 (base64encode [a, b]) =
        ([(((a.toNat * 256 + b.toNat) / 1024 : Nat) : Int),
          (((a.toNat * 256 + b.toNat) / 16 % 64 : Nat) : Int),
          (((a.toNat * 256 + b.toNat) % 16 * 4 : Nat) : Int), -2], []) := by
      simp only [base64encode]
      rw [readSymbols_enc (by omega), readSymbols_enc (by omega), readSymbols_enc (by omega),
        readSymbols_pad]
      rfl
    have hg : decodeGroup (readSymbols 4 (base64encode [a, b])).1 = some [a, b] := by
      rw [hr]
      have hcount : ([(((a.toNat * 256 + b.toNat) / 1024 : Nat) : Int),
          (((a.toNat * 256 + b.toNat) / 16 % 64 : Nat) : Int),
          (((a.toNat * 256 + b.toNat) % 16 * 4 : Nat) : Int), -2] : List Int).count (-2) = 1 := by
        rw [List.count_cons_of_ne (by omega), List.count_cons_of_ne (by omega),
          List.count_cons_of_ne (by omega)]
        rfl
      simp only [decodeGroup, hcount, Int.toNat_natCast]
      rw [if_neg (by omega), toUInt8_toNat_eq (a := a) (by omega),
        toUInt8_toNat_eq (a := b) (by omega)]
    rw [decodeGroups_cons (by simp [base64encode]) hg, hr]
    cases n <;> rfl
  | h3 a b c t ih =>
    intro n hn
    have ha := a.toNat_lt
    have hb := b.toNat_lt
    have hc := c.toNat_lt
    simp only [base64encode, List.length_cons] at hn
    obtain ⟨n, rfl⟩ : ∃ m, n = m + 1 := ⟨n - 1, by omega⟩
    generalize hv : a.toNat * 65536 + b.toNat * 256 + c.toNat = v at hn
    have hr : readSymbols 4 (base64encode (a :: b :: c :: t)) =
        ([((v / 262144 : Nat) : Int), ((v / 4096 % 64 : Nat) : Int), ((v / 64 % 64 : Nat) : Int),
          ((v % 64 : Nat) : Int)], base64encode t) := by
      simp only [base64encode, hv]
      rw [readSymbols_enc (by omega), readSymbols_enc (by omega), readSymbols_enc (by omega),
        readSymbols_enc (by omega)]
      simp [readSymbols]
    have hg : decodeGroup (readSymbols 4 (base64encode (a :: b :: c :: t))).1 =
        some [a, b, c] := by
      rw [hr]
      have hcount : ([((v / 262144 : Nat) : Int), ((v / 4096 % 64 : Nat) : Int),
          ((v / 64 % 64 : Nat) : Int), ((v % 64 : Nat) : Int)] : List Int).count (-2) = 0 := by
        rw [List.count_cons_of_ne (by omega), List.count_cons_of_ne (by omega),
          List.count_cons_of_ne (by omega), List.count_cons_of_ne (by omega), List.count_nil]
      simp only [decodeGroup, hcount, Int.toNat_natCast]
      rw [toUInt8_toNat_eq (a := a) (by omega), toUInt8_toNat_eq (a := b) (by omega),
        toUInt8_toNat_eq (a := c) (by omega)]
    rw [decodeGroups_cons (by simp [base64encode]) hg, hr, ih n (by omega)]
    rfl

/-- **Decoding inverts encoding.** -/
theorem base64decode_encode (s : Bytes) : base64decode (base64encode s) = some s :=
  decodeGroups_encode s _ (le_refl _)

theorem base64encode_injective : Function.Injective base64encode := fun a b h => by
  have := congrArg base64decode h
  rwa [base64decode_encode, base64decode_encode, Option.some.injEq] at this

end LsServer.Crypt
