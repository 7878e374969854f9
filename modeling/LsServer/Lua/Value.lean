import LsServer.Lua.Number
import Mathlib.Data.List.DropRight

/-!
# Lua values

A number is an integer or a double. The value of a double does not tell the sign of a zero, nor is
it defined for NaN, so a double carries its sign bit.

`numberText` is the text of a number in a concatenation (lobject.c `tostringbuff`): `%d` of an
integer, `%.14g` of a double with `.0` behind it where it looks like an integer. It has no quotes,
backslashes and line breaks (`numeral_numberText`).

Source: lobject.h for the variants of a value, lobject.c `tostringbuff` 355-368 with
`LUA_NUMBER_FMT` (luaconf.h), which is `%.14g`.

* A `Value` is `nil`, a boolean, a number, a string, or an `object`: anything that is a reference,
  by its number in the memory.
* `truthy` is Lua's test: all but `nil` and `false`.
* `formatG` is `%.14g`: 14 significant digits, rounded half to even from the exact value, without
  zeros at the end, with an exponent where that is below -4 or not below 14.

`isnumeral` says which bytes can be in the text of a number; the modules that put such a text into a
program need no more than that.
-/

namespace LsServer.Lua

/-- An integer, a double with its sign bit, or NaN. -/
inductive LuaNumber
  | int (n : Int)
  | float (neg : Bool) (v : Number)
  | nan (neg : Bool)
  deriving DecidableEq

/-- `luaO_str2num` as `luaB_tonumber` uses it. -/
def str2num (s : Bytes) : Option LuaNumber :=
  match str2int s with
  | some n => some (.int n)
  | none => (str2d s).map (.float (isneg (skipSpaces s)).1)

/-- A value. A table, function, userdata or coroutine is a reference. -/
inductive Value
  | nil
  | boolean (b : Bool)
  | number (n : LuaNumber)
  | string (s : Bytes)
  | object (r : Nat)
  deriving DecidableEq

/-- Every value but `nil` and `false`. -/
def Value.truthy : Value → Bool
  | .nil => false
  | .boolean b => b
  | _ => true

/-! ## The text of a number -/

/-- The 14 decimal digits nearest to `q > 0`, and the exponent of the first. -/
def decimal14 (q : ℚ) : Nat × Int :=
  let e := Int.log 10 q
  let m := (roundHalfEven 1 (q / (10 : ℚ) ^ (e - 13))).num.toNat
  if 10 ^ 14 ≤ m then (10 ^ 13, e + 1) else (m, e)

/-- Digits behind a point, if there are any. -/
def fraction (ds : Bytes) : Bytes := if ds = [] then [] else 46 :: ds

/-- `%.14g` of `q > 0`. -/
def formatG (q : ℚ) : Bytes :=
  let (m, e) := decimal14 q
  let ds := tostring m
  let short := ds.rdropWhile (· == 48)
  if -4 ≤ e ∧ e < 14 then
    if 0 ≤ e then ds.take (e.toNat + 1) ++ fraction (short.drop (e.toNat + 1))
    else [48, 46] ++ List.replicate (-e - 1).toNat 48 ++ short
  else
    short.take 1 ++ fraction (short.drop 1) ++ [101, if e < 0 then 45 else 43] ++
      (if e.natAbs < 10 then [48] else []) ++ tostring e.natAbs

/-- `%.14g` of the absolute value of a double. -/
def formatDouble : Number → Bytes
  | some (some q) => if q = 0 then [48] else formatG |q|
  | _ => bytes "inf"

def signText (neg : Bool) : Bytes := if neg then [45] else []

/-- `tostringbuff`. -/
def numberText : LuaNumber → Bytes
  | .int n => signText (n < 0) ++ tostring n.natAbs
  | .float neg v =>
    let buff := signText neg ++ formatDouble v
    if buff.all (fun c => c = 45 || isdigit c) then buff ++ [46, 48] else buff
  | .nan neg => signText neg ++ bytes "nan"

example : (str2num (bytes "2528")).map numberText = some (bytes "2528") ∧
    (str2num (bytes "2528.0")).map numberText = some (bytes "2528.0") ∧
    (str2num (bytes "-0.0")).map numberText = some (bytes "-0.0") ∧
    (str2num (bytes "0.1")).map numberText = some (bytes "0.1") ∧
    (str2num (bytes "-12345.678e20")).map numberText = some (bytes "-1.2345678e+24") ∧
    (str2num (bytes "1e400")).map numberText = some (bytes "inf") := by
  decide +kernel

/-- The characters of a numeral. -/
def isnumeral (c : UInt8) : Bool := isdigit c || c ∈ [43, 45, 46, 97, 101, 102, 105, 110]

/-- A text of numeral characters. -/
def Numeral (s : Bytes) : Prop := ∀ c ∈ s, isnumeral c = true

instance (s : Bytes) : Decidable (Numeral s) := List.decidableBAll (fun c => isnumeral c = true) s

theorem Numeral.append {a b : Bytes} (ha : Numeral a) (hb : Numeral b) : Numeral (a ++ b) :=
  List.forall_mem_append.mpr ⟨ha, hb⟩

theorem Numeral.subset {a b : Bytes} (hb : Numeral b) (h : a ⊆ b) : Numeral a :=
  fun c hc => hb c (h hc)

theorem isnumeral_digit : ∀ {d : Nat}, d < 10 → isnumeral (48 + d).toUInt8 = true := by
  decide

theorem numeral_tostring (n : Nat) : Numeral (tostring n) := by
  induction n using Nat.strong_induction_on with
  | _ n ih =>
    have hlast : ∀ d < 10, Numeral [(48 + d).toUInt8] :=
      fun d hd => List.forall_mem_singleton.mpr (isnumeral_digit hd)
    rcases Nat.lt_or_ge n 10 with hn | hn
    · rw [tostring_of_lt hn]
      exact hlast n hn
    · rw [tostring_of_le hn]
      exact (ih (n / 10) (by omega)).append (hlast _ (Nat.mod_lt _ (by decide)))

theorem numeral_fraction {ds : Bytes} (h : Numeral ds) : Numeral (fraction ds) := by
  unfold fraction
  split
  · simp [Numeral]
  · exact List.forall_mem_cons.mpr ⟨by decide, h⟩

theorem numeral_formatG (q : ℚ) : Numeral (formatG q) := by
  unfold formatG
  generalize decimal14 q = x
  obtain ⟨m, e⟩ := x
  have hds := numeral_tostring m
  have hshort : Numeral ((tostring m).rdropWhile (· == 48)) :=
    hds.subset (List.rdropWhile_prefix _ _).subset
  have hdrop : ∀ k, Numeral (((tostring m).rdropWhile (· == 48)).drop k) :=
    fun k => hshort.subset (List.drop_subset _ _)
  dsimp only
  split
  · split
    · exact (hds.subset (List.take_subset _ _)).append (numeral_fraction (hdrop _))
    · refine (Numeral.append (by decide) fun c hc => ?_).append hshort
      rw [(List.mem_replicate.mp hc).2]
      decide
  · refine (((hshort.subset (List.take_subset _ _)).append
      (numeral_fraction (hdrop _))).append ?_).append ?_ |>.append (numeral_tostring _)
    · split <;> decide
    · split <;> decide

theorem numeral_signText (neg : Bool) : Numeral (signText neg) := by
  cases neg <;> decide

theorem numeral_formatDouble (v : Number) : Numeral (formatDouble v) := by
  unfold formatDouble
  split
  · split
    · decide
    · exact numeral_formatG _
  · decide

/-- **A number is written in numeral characters.** -/
theorem numeral_numberText (n : LuaNumber) : Numeral (numberText n) := by
  cases n with
  | int n => exact (numeral_signText _).append (numeral_tostring _)
  | float neg v =>
    have hbuff := (numeral_signText neg).append (numeral_formatDouble v)
    unfold numberText
    dsimp only
    split
    · exact hbuff.append (by decide)
    · exact hbuff
  | nan neg => exact (numeral_signText neg).append (by decide)

end LsServer.Lua
