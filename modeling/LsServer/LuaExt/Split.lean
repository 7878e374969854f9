import LsServer.Lua.Match
import LsServer.Lua.Value

/-!
# `string.split` (LuaExt.lua)

The delimiter is put as it is between `[^` and `]*`. Of the 256 bytes only `%` then does not stand
for itself: it escapes the bracket that should close the set. `string.gsub` stops at
`#s + 1` pieces if not before; there are never more, since no two matches end at one position.

Source: LuaExt.lua 71-85, `string.split(s, delim, number)`; the loop is that of `string.gsub`
(lstrlib.c 942-983).

* `stringSplit` compiles the pattern of the delimiter and collects the pieces. With `number` each
  piece goes through `tonumber`, and stays a string where that gives nothing (`piece`).
* Where the delimiter is not one byte the source calls `Split`, a global function that is defined
  nowhere, so it raises (`SplitError.noSplit`); the empty delimiter is such a case.
* The pattern `[^%]*` has no end of its set (`malformed pattern`), so that call raises for every
  string. `[^^]*` and `[^]]*` are read as their delimiter: `matchbracketclass` takes the first byte
  behind `[^` for itself, and so does `classend`.

Results:
* `split_eq_splitOn`: the pieces are those of `List.splitOn`;
* `stringSplit_iff`: splitting undoes joining for every delimiter but `%`.

Out of scope: the metatable of strings, through which the calls `s:split(d)` and `delim:len()` go.
-/

namespace LsServer.LuaExt

open LsServer.Lua

/-- Why `string.split` raises: a malformed pattern, or the call of the global `Split`, which
nothing defines. -/
inductive SplitError
  | pattern (e : PatError)
  | noSplit
  deriving DecidableEq

/-- What the callback of `string.gsub` inserts. -/
def piece (number : Bool) (v : Bytes) : Value :=
  if number then ((str2num v).map Value.number).getD (.string v) else .string v

/-- `string.split(s, delim, number)`; `number` is given as whether it is true. -/
def stringSplit (s delim : Bytes) (number : Bool) : Except SplitError (List Value) :=
  if delim.length = 1 then
    match compile (bytes "[^" ++ delim ++ bytes "]*") with
    | .ok items => .ok ((gsub items s).map (piece number))
    | .error e => .error (.pattern e)
  else .error .noSplit

/-- The pieces that joining with `d` makes `s` of. -/
structure Splits (s : Bytes) (d : UInt8) (pieces : List Bytes) : Prop where
  clean : ∀ p ∈ pieces, d ∉ p
  joined : [d].intercalate pieces = s
  count : pieces.length = s.count d + 1

/-! ## The pieces -/

/-- A text is cut at its first separator, if it has one. -/
theorem sep_induction {d : UInt8} {P : Bytes → Prop} (hclean : ∀ a, d ∉ a → P a)
    (hcut : ∀ a rest, d ∉ a → P rest → P (a ++ d :: rest)) (s : Bytes) : P s := by
  induction hs : s.length using Nat.strong_induction_on generalizing s with
  | _ m ih =>
    by_cases hd : d ∈ s
    · obtain ⟨a, rest, rfl, ha⟩ := List.eq_append_cons_of_mem hd
      rw [List.length_append, List.length_cons] at hs
      exact hcut a rest ha (ih rest.length (by omega) rest rfl)
    · exact hclean s hd

/-- **The pieces of `gsub` are those of `splitOn`**, from any position behind the last match. -/
theorem gsubPieces_splitOn {d : UInt8} {n : Nat} {s : Bytes} {last : Option Bytes}
    (hn : 2 * s.length + 2 ≤ n) (hlast : ∀ e, last = some e → s.length < e.length) :
    gsubPieces [.star (notSep d)] n s last = s.splitOn d := by
  induction s using sep_induction (d := d) generalizing n last with
  | hclean a ha =>
    have hend : last ≠ some [] := fun h => absurd (hlast _ h) (by simp)
    obtain ⟨n, rfl⟩ : ∃ k, n = k + 1 + 1 := ⟨n - 2, by omega⟩
    rw [gsubPieces_last ha hend, List.splitOn_eq_singleton ha]
  | hcut a rest ha ih =>
    rw [List.length_append, List.length_cons] at hn hlast
    obtain ⟨n, rfl⟩ : ∃ k, n = k + 1 + 1 := ⟨n - 2, by omega⟩
    have hnew : last ≠ some (d :: rest) := by
      intro h
      have hlt := hlast _ h
      rw [List.length_cons] at hlt
      omega
    have htake : (a ++ d :: rest).take ((a ++ d :: rest).length - (d :: rest).length) = a := by
      rw [List.length_append, Nat.add_sub_cancel, List.take_left]
    rw [gsubPieces_match (matchAt_notSep_append ha rest) hnew, htake,
      gsubPieces_skip (matchAt_notSep_append (a := []) (by simp) rest),
      List.splitOn_append_cons_self_of_not_mem ha]
    congr 1
    refine ih (by omega) fun e he => ?_
    obtain rfl := Option.some.inj he
    exact Nat.lt_succ_self _

theorem split_eq_splitOn (s : Bytes) (d : UInt8) : split s d = s.splitOn d :=
  gsubPieces_splitOn (Nat.le_refl _) (by simp)

/-- `splitOn` undoes joining. -/
theorem splits_splitOn (s : Bytes) (d : UInt8) : Splits s d (s.splitOn d) := by
  refine ⟨?_, List.intercalate_splitOn d, ?_⟩
  · induction s using sep_induction (d := d) with
    | hclean a ha =>
      rw [List.splitOn_eq_singleton ha]
      exact List.forall_mem_singleton.mpr ha
    | hcut a rest ha ih =>
      rw [List.splitOn_append_cons_self_of_not_mem ha]
      exact List.forall_mem_cons.mpr ⟨ha, ih⟩
  · induction s using sep_induction (d := d) with
    | hclean a ha =>
      rw [List.splitOn_eq_singleton ha, List.count_eq_zero_of_not_mem ha]
      rfl
    | hcut a rest ha ih =>
      rw [List.splitOn_append_cons_self_of_not_mem ha, List.length_cons, ih, List.count_append,
        List.count_eq_zero_of_not_mem ha, List.count_cons_self, Nat.zero_add]

/-! ## The pattern -/

/-- A byte other than `%` stands for itself between `[^` and `]`, also `^`, `]` and `-`. -/
theorem compile_delim {d : UInt8} (hd : d ≠ 37) :
    compile (bytes "[^" ++ [d] ++ bytes "]*") = .ok [.star (notSep d)] := by
  have htext : bytes "[^" ++ [d] ++ bytes "]*" = [91, 94, d, 93, 42] := rfl
  have hscan : scanSet true [d, 93, 42] = .ok ([d], [42]) := by
    simp [scanSet, hd]
    rfl
  have hels : setElems [d] = [.lit d] := by
    simp [setElems, hd]
  rw [htext]
  simp [compile, compileAux, readClass, hscan, readSuffix, hels, notSep, Bind.bind, Except.bind]

/-- `%` escapes the bracket. -/
theorem compile_percent : compile (bytes "[^" ++ [37] ++ bytes "]*") = .error .missingBracket := by
  decide +kernel

theorem stringSplit_of_ne {d : UInt8} (hd : d ≠ 37) (s : Bytes) :
    stringSplit s [d] false = .ok ((s.splitOn d).map .string) := by
  rw [stringSplit, if_pos List.length_singleton, compile_delim hd, ← split_eq_splitOn]
  rfl

theorem stringSplit_percent (s : Bytes) :
    stringSplit s [37] false = .error (.pattern .missingBracket) := by
  rw [stringSplit, if_pos List.length_singleton, compile_percent]

/-- **When splitting undoes joining**: for every delimiter but `%`. -/
theorem stringSplit_iff (s : Bytes) (d : UInt8) :
    (∃ pieces, stringSplit s [d] false = .ok (pieces.map .string) ∧ Splits s d pieces) ↔
      d ≠ 37 := by
  constructor
  · rintro ⟨pieces, h, -⟩ rfl
    rw [stringSplit_percent] at h
    exact absurd h (by simp)
  · intro hd
    exact ⟨s.splitOn d, stringSplit_of_ne hd s, splits_splitOn s d⟩

/-- `50%off` cannot be split at its `%`. -/
theorem stringSplit_raises :
    stringSplit (bytes "50%off") (bytes "%") false = .error (.pattern .missingBracket) ∧
      ¬ ∀ (s : Bytes) (d : UInt8), ∃ pieces,
        stringSplit s [d] false = .ok (pieces.map .string) ∧ Splits s d pieces := by
  have hraises : stringSplit (bytes "50%off") (bytes "%") false =
      .error (.pattern .missingBracket) := by
    decide +kernel
  refine ⟨hraises, fun h => ?_⟩
  obtain ⟨pieces, hok, -⟩ := h (bytes "50%off") 37
  have hraises' : stringSplit (bytes "50%off") [37] false = .error (.pattern .missingBracket) :=
    hraises
  rw [hraises'] at hok
  exact absurd hok (by simp)

end LsServer.LuaExt
