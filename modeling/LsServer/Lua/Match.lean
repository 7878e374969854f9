import LsServer.Lua.Pattern
import Mathlib.Data.List.Infix
import Mathlib.Data.List.TakeWhile

/-!
# What patterns match

Texts that are put together with a separator, and the patterns that take them apart: captures of
`[^d]*` end at the next separator, a capture of `.*` ends at the last one that leaves enough of
them for the rest of the pattern. `split` is `string.split` (LuaExt.lua) for a delimiter of one
byte.

The separator `d` is one byte that is no special character, and `[^d]*` is the class of everything
else (`notSep`). The items of a concrete pattern are compiled once and then matched item by item:
`match_field` for a capture of `[^d]*` with the separator behind it, `match_greedy` for `.*`, and
`match_last` for the last field, which takes all that is left.

`maxTry_of_fails` and `maxTry_some` say what the backtracking of a greedy item comes to: it gives
back bytes until the rest of the pattern matches, so a rest that needs `n` separators is tried in
vain as long as fewer are left.

Results:
* `count_le_of_matchAt`: a pattern needs as many separators as it names;
* `match_field`, `match_greedy`, `match_last`: one capture of a pattern;
* `split_one`, `split_two`: the pieces of a text with no separator, or one.
-/

namespace LsServer.Lua

/-! ## Separators -/

/-- `[^d]`. -/
def notSep (d : UInt8) : CharClass := .set true [.lit d]

theorem matches_notSep (d c : UInt8) : CharClass.matches c (notSep d) = !(d == c) := by
  simp only [notSep, CharClass.matches, List.any_cons, List.any_nil, SetElem.matches, Bool.or_false]
  cases d == c <;> rfl

theorem takeWhile_notSep {d : UInt8} {a : Bytes} (ha : d ∉ a) :
    a.takeWhile (CharClass.matches · (notSep d)) = a := by
  rw [List.takeWhile_eq_self_iff]
  intro c hc
  rw [matches_notSep]
  have hne : d ≠ c := fun h => ha (h ▸ hc)
  simpa using hne

theorem takeWhile_notSep_append {d : UInt8} {a : Bytes} (ha : d ∉ a) (rest : Bytes) :
    (a ++ d :: rest).takeWhile (CharClass.matches · (notSep d)) = a := by
  have hall : ∀ c ∈ a, CharClass.matches c (notSep d) = true := by
    rw [← List.takeWhile_eq_self_iff]
    exact takeWhile_notSep ha
  rw [List.takeWhile_append_of_pos hall, List.takeWhile_cons_of_neg, List.append_nil]
  simp [matches_notSep]

/-! ## The retry loop -/

/-- The longest repetition is tried first. -/
theorem maxExpand_first {cls : CharClass} {k : Cont} {s : Bytes} {caps : List Cap}
    {r : Bytes × List Cap}
    (h : k (s.drop (s.takeWhile (CharClass.matches · cls)).length) caps = some r) :
    maxExpand cls k s caps = some r := by
  unfold maxExpand
  generalize (s.takeWhile (CharClass.matches · cls)).length = n at h
  cases n with
  | zero => exact h
  | succ n => simp only [maxTry, h]

/-- Shorter repetitions are tried where the longer ones fail. -/
theorem maxTry_of_fails {k : Cont} {s : Bytes} {caps : List Cap} {r : Bytes × List Cap} {n m : Nat}
    (hfail : ∀ i, n < i → k (s.drop i) caps = none) (h : k (s.drop n) caps = some r)
    (hle : n ≤ m) : maxTry k s caps m = some r := by
  induction m with
  | zero =>
    obtain rfl : n = 0 := by omega
    exact h
  | succ m ih =>
    rw [maxTry]
    rcases Nat.lt_or_ge m n with hlt | hge
    · obtain rfl : n = m + 1 := by omega
      rw [h]
    · rw [hfail (m + 1) (by omega)]
      exact ih hge

theorem maxTry_some {k : Cont} {s : Bytes} {caps : List Cap} {r : Bytes × List Cap} {m : Nat}
    (h : maxTry k s caps m = some r) : ∃ i, k (s.drop i) caps = some r := by
  induction m with
  | zero => exact ⟨0, h⟩
  | succ m ih =>
    rw [maxTry] at h
    split at h
    · rename_i hk
      exact ⟨m + 1, hk.trans h⟩
    · exact ih h

theorem minExpand_some {cls : CharClass} {k : Cont} {s : Bytes} {caps : List Cap}
    {r : Bytes × List Cap} (h : minExpand cls k s caps = some r) :
    ∃ t, t <:+ s ∧ k t caps = some r := by
  induction s with
  | nil =>
    rw [minExpand] at h
    split at h
    · rename_i hk
      exact ⟨[], List.suffix_refl _, hk.trans h⟩
    · exact absurd h (by simp)
  | cons a s ih =>
    rw [minExpand] at h
    split at h
    · rename_i hk
      exact ⟨a :: s, List.suffix_refl _, hk.trans h⟩
    · split at h
      · obtain ⟨t, ht, hk⟩ := ih h
        exact ⟨t, ht.trans (List.suffix_cons a s), hk⟩
      · exact absurd h (by simp)

/-- What follows an item matches a suffix; a literal byte is the byte in front of it. -/
theorem Item.run_some {k : Cont} {i : Item} {s : Bytes} {caps : List Cap} {r : Bytes × List Cap}
    (h : i.run k s caps = some r) :
    ∃ t caps', t <:+ s ∧ k t caps' = some r ∧ ∀ d, i = .one (.lit d) → s = d :: t := by
  cases i with
  | openCap => exact ⟨s, _, List.suffix_refl _, h, nofun⟩
  | closeCap => exact ⟨s, _, List.suffix_refl _, h, nofun⟩
  | endOfSubject =>
    obtain ⟨-, h⟩ := Option.ite_none_right_eq_some.mp h
    exact ⟨s, _, List.suffix_refl _, h, nofun⟩
  | one cls =>
    cases s with
    | nil => exact absurd h (by simp [Item.run])
    | cons a s =>
      obtain ⟨hm, h⟩ := Option.ite_none_right_eq_some.mp h
      refine ⟨s, _, List.suffix_cons a s, h, fun d hd => ?_⟩
      obtain rfl := Item.one.inj hd
      rw [show d = a by simpa [CharClass.matches] using hm]
  | opt cls =>
    cases s with
    | nil => exact ⟨[], _, List.suffix_refl _, h, nofun⟩
    | cons a s =>
      simp only [Item.run] at h
      split at h
      · split at h
        · rename_i hk
          exact ⟨s, _, List.suffix_cons a s, hk.trans h, nofun⟩
        · exact ⟨a :: s, _, List.suffix_refl _, h, nofun⟩
      · exact ⟨a :: s, _, List.suffix_refl _, h, nofun⟩
  | star cls =>
    obtain ⟨j, hk⟩ := maxTry_some h
    exact ⟨s.drop j, _, List.drop_suffix j s, hk, nofun⟩
  | plus cls =>
    cases s with
    | nil => exact absurd h (by simp [Item.run])
    | cons a s =>
      obtain ⟨-, h⟩ := Option.ite_none_right_eq_some.mp h
      obtain ⟨j, hk⟩ := maxTry_some h
      exact ⟨s.drop j, _, (List.drop_suffix j s).trans (List.suffix_cons a s), hk, nofun⟩
  | minus cls =>
    obtain ⟨t, ht, hk⟩ := minExpand_some h
    exact ⟨t, _, ht, hk, nofun⟩

/-- **A pattern needs the separators it names.** -/
theorem count_le_of_matchAt {items : List Item} {d : UInt8} {s : Bytes} {caps : List Cap}
    {r : Bytes × List Cap} (h : matchAt items s caps = some r) :
    items.count (.one (.lit d)) ≤ s.count d := by
  induction items generalizing s caps with
  | nil => simp
  | cons i items ih =>
    obtain ⟨t, caps', ht, hk, hlit⟩ := Item.run_some h
    have hrest := ih hk
    by_cases hi : i = .one (.lit d)
    · rw [hlit d hi, hi, List.count_cons_self, List.count_cons_self]
      omega
    · rw [List.count_cons_of_ne hi]
      exact hrest.trans (ht.sublist.count_le d)

/-! ## Captures -/

theorem matchAt_cons (i : Item) (items : List Item) :
    matchAt (i :: items) = i.run (matchAt items) := rfl

/-- A capture ends in front of a separator. -/
theorem matchAt_close {d : UInt8} (a rest : Bytes) (caps : List Cap) (items : List Item) :
    matchAt (.closeCap :: .one (.lit d) :: items) (d :: rest) (.opened (a ++ d :: rest) :: caps) =
      matchAt items rest (.closed a :: caps) := by
  have hclose : endCapture (d :: rest) (.opened (a ++ d :: rest) :: caps) = .closed a :: caps := by
    rw [endCapture, List.length_append, Nat.add_sub_cancel, List.take_left]
  have hone : CharClass.matches d (.lit d) = true := by simp [CharClass.matches]
  simp only [matchAt_cons, Item.run, hclose, hone, if_true]

/-- `([^d]*)d`: up to the next separator. -/
theorem match_field {d : UInt8} {a rest : Bytes} {caps : List Cap} {items : List Item}
    {r : Bytes × List Cap} (ha : d ∉ a)
    (h : matchAt items rest (.closed a :: caps) = some r) :
    matchAt (.openCap :: .star (notSep d) :: .closeCap :: .one (.lit d) :: items)
      (a ++ d :: rest) caps = some r := by
  rw [matchAt_cons]
  refine maxExpand_first ?_
  rwa [takeWhile_notSep_append ha, List.drop_left, ← matchAt, matchAt_close]

/-- `(.*)d`: up to the last separator that leaves enough of them. -/
theorem match_greedy {d : UInt8} {a rest : Bytes} {caps : List Cap} {items : List Item}
    {r : Bytes × List Cap} (hcount : rest.count d ≤ items.count (.one (.lit d)))
    (h : matchAt items rest (.closed a :: caps) = some r) :
    matchAt (.openCap :: .star .any :: .closeCap :: .one (.lit d) :: items)
      (a ++ d :: rest) caps = some r := by
  have hall : (a ++ d :: rest).takeWhile (CharClass.matches · .any) = a ++ d :: rest := by
    rw [List.takeWhile_eq_self_iff]
    exact fun _ _ => rfl
  refine maxTry_of_fails (n := a.length) (fun i hi => ?_) ?_ ?_
  · -- a separator further on is one of those the rest needs
    by_contra hne
    obtain ⟨q, hq⟩ := Option.ne_none_iff_exists'.mp hne
    have hneed := count_le_of_matchAt (d := d) hq
    rw [List.count_cons_of_ne (by simp), List.count_cons_self] at hneed
    have hsuffix : (a ++ d :: rest).drop i <:+ rest := by
      have hdrop : (a ++ d :: rest).drop i = rest.drop (i - a.length - 1) := by
        rw [List.drop_append, List.drop_eq_nil_of_le hi.le, List.nil_append,
          show i - a.length = i - a.length - 1 + 1 by omega, List.drop_succ_cons]
        rfl
      rw [hdrop]
      exact List.drop_suffix _ _
    have hle := hsuffix.sublist.count_le d
    omega
  · rwa [List.drop_left, ← matchAt, matchAt_close]
  · rw [hall, List.length_append]
    omega

/-- The last capture takes all that is left. -/
theorem match_last {cls : CharClass} {a : Bytes} {caps : List Cap}
    (ha : a.takeWhile (CharClass.matches · cls) = a) :
    matchAt [.openCap, .star cls, .closeCap] a caps = some ([], .closed a :: caps) := by
  have hclose : endCapture [] (.opened a :: caps) = .closed a :: caps := by
    rw [endCapture, List.length_nil, Nat.sub_zero, List.take_length]
  rw [matchAt_cons]
  refine maxExpand_first ?_
  rw [ha, List.drop_length, ← matchAt, matchAt_cons]
  simp only [Item.run, hclose]
  rfl

/-- A match at the start is the first one. -/
theorem strMatch_of_matchAt {items : List Item} {s e : Bytes} {caps : List Cap}
    (h : matchAt items s [] = some (e, caps)) :
    strMatch items s = some (pushCaptures s e caps) := by
  cases s with
  | nil => rw [strMatch, h, Option.map_some]
  | cons a s => simp only [strMatch, h]

/-! ## Pieces -/

/-- `string.split(s, d)`. -/
def split (s : Bytes) (d : UInt8) : List Bytes := gsub [.star (notSep d)] s

example : compile (bytes "[^:]*") = .ok [.star (notSep 58)] := by decide +kernel

theorem matchAt_notSep {d : UInt8} {a : Bytes} (ha : d ∉ a) :
    matchAt [.star (notSep d)] a [] = some ([], []) := by
  refine maxExpand_first ?_
  rw [takeWhile_notSep ha, List.drop_length]
  rfl

theorem matchAt_notSep_append {d : UInt8} {a : Bytes} (ha : d ∉ a) (rest : Bytes) :
    matchAt [.star (notSep d)] (a ++ d :: rest) [] = some (d :: rest, []) := by
  refine maxExpand_first ?_
  rw [takeWhile_notSep_append ha, List.drop_left]
  rfl

/-- A match that ends further on is a piece. -/
theorem gsubPieces_match {items : List Item} {n : Nat} {s e : Bytes} {last : Option Bytes}
    (h : matchAt items s [] = some (e, [])) (hlast : last ≠ some e) :
    gsubPieces items (n + 1) s last =
      s.take (s.length - e.length) :: gsubPieces items n e (some e) := by
  simp only [gsubPieces, h, if_pos hlast, pushCaptures]
  rfl

/-- A match that ends where the last one did is none: the next byte is skipped. -/
theorem gsubPieces_skip {items : List Item} {n : Nat} {c : UInt8} {s : Bytes}
    (h : matchAt items (c :: s) [] = some (c :: s, [])) :
    gsubPieces items (n + 1) (c :: s) (some (c :: s)) =
      gsubPieces items n s (some (c :: s)) := by
  simp [gsubPieces, h]

theorem gsubPieces_end {items : List Item} {n : Nat} (h : matchAt items [] [] = some ([], [])) :
    gsubPieces items (n + 1) [] (some []) = [] := by
  simp [gsubPieces, h]

/-- The last piece. -/
theorem gsubPieces_last {d : UInt8} {a : Bytes} (ha : d ∉ a) {last : Option Bytes}
    (hlast : last ≠ some []) (n : Nat) :
    gsubPieces [.star (notSep d)] (n + 1 + 1) a last = [a] := by
  rw [gsubPieces_match (matchAt_notSep ha) hlast, gsubPieces_end (matchAt_notSep (by simp)),
    List.length_nil, Nat.sub_zero, List.take_length]

theorem split_one {d : UInt8} {a : Bytes} (ha : d ∉ a) : split a d = [a] :=
  gsubPieces_last ha (by simp) (2 * a.length)

theorem split_two {d : UInt8} {a b : Bytes} (ha : d ∉ a) (hb : d ∉ b) :
    split (a ++ d :: b) d = [a, b] := by
  have hfuel : 2 * (a ++ d :: b).length + 2 = 2 * (a.length + b.length) + 1 + 1 + 1 + 1 := by
    simp only [List.length_append, List.length_cons]
    omega
  have htake : (a ++ d :: b).take ((a ++ d :: b).length - (d :: b).length) = a := by
    rw [List.length_append, Nat.add_sub_cancel, List.take_left]
  rw [split, gsub, hfuel, gsubPieces_match (matchAt_notSep_append ha b) (by simp), htake,
    gsubPieces_skip (matchAt_notSep_append (a := []) (by simp) b), gsubPieces_last hb (by simp)]

end LsServer.Lua
