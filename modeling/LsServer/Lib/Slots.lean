import Mathlib.Data.List.Basic

/-!
# Lists in slots

Entries with keys lie in slots, each a list; `place` says which slot a key belongs to. It may
change, and then the entries of one slot are moved: taken out, and linked again at their new places,
first to last. If only the keys of that slot have new places, all entries are where they belong, and
those of one key are still in their order (`under`).

The order of two entries of one key is worth something and that of other entries is not: what a slot
holds besides, and which slot it is, may differ between two ways to fill the slots. So `under` looks
at one key at its place, and it is what an abstract model keeps of the slots.

A place that changes for keys of several slots at once needs several moves. `under_keep` is for the
keys whose place stays, and for a change of `place` that concerns no entry at all.

Results:
* `placed_move`, `under_move`: moving a slot;
* `under_keep`: places that stay.

A slot that is cleared (`clear`) loses its entries; `under_clear` says that no other key notices.
-/

namespace LsServer.Lib

/-- The entries, by slot. -/
def Slots (S K α : Type) := S → List (K × α)

namespace Slots

variable {S K α : Type} [DecidableEq S]

/-- Adds an entry at the end of a slot. -/
def link (W : Slots S K α) (s : S) (x : K × α) : Slots S K α :=
  fun t => if t = s then W t ++ [x] else W t

/-- Empties a slot. -/
def clear (W : Slots S K α) (s : S) : Slots S K α := fun t => if t = s then [] else W t

/-- Links entries at their places, one after the other. -/
def linkAll (place : K → S) (W : Slots S K α) (xs : List (K × α)) : Slots S K α :=
  xs.foldl (fun W x => W.link (place x.1) x) W

/-- Moves the entries of a slot. -/
def move (place : K → S) (s : S) (W : Slots S K α) : Slots S K α :=
  (W.clear s).linkAll place (W s)

/-- Every entry is where it belongs. -/
def Placed (place : K → S) (W : Slots S K α) : Prop := ∀ s, ∀ x ∈ W s, place x.1 = s

/-- The entries of a key, where it belongs. -/
def under [DecidableEq K] (place : K → S) (W : Slots S K α) (k : K) : List (K × α) :=
  (W (place k)).filter fun x => x.1 = k

theorem linkAll_apply (place : K → S) (W : Slots S K α) (xs : List (K × α)) (t : S) :
    W.linkAll place xs t = W t ++ xs.filter fun x => place x.1 = t := by
  unfold linkAll
  induction xs generalizing W with
  | nil => simp
  | cons x xs ih =>
    rw [List.foldl_cons, ih, link]
    by_cases h : place x.1 = t
    · simp [h]
    · simp [h, Ne.symm h]

theorem placed_link {place : K → S} {W : Slots S K α} (hW : Placed place W) (x : K × α) :
    Placed place (W.link (place x.1) x) := by
  intro t y hy
  unfold link at hy
  split at hy
  · rename_i ht
    rcases List.mem_append.mp hy with hy | hy
    · exact hW t y hy
    · rw [List.mem_singleton.mp hy, ht]
  · exact hW t y hy

/-- **A moved slot**: the entries are placed anew if those of the other slots stay. -/
theorem placed_move {place' : K → S} {W : Slots S K α} {s : S}
    (hkeep : ∀ t, t ≠ s → ∀ x ∈ W t, place' x.1 = t) : Placed place' (W.move place' s) := by
  intro t x hx
  rw [move, linkAll_apply] at hx
  rcases List.mem_append.mp hx with hx | hx
  · unfold clear at hx
    split at hx
    · exact absurd hx (by simp)
    · rename_i ht
      exact hkeep t ht x hx
  · simpa using (List.mem_filter.mp hx).2

variable [DecidableEq K]

theorem under_link (place : K → S) (W : Slots S K α) (x : K × α) (k : K) :
    (W.link (place x.1) x).under place k = W.under place k ++ if x.1 = k then [x] else [] := by
  unfold under link
  by_cases hk : x.1 = k
  · rw [if_pos (by rw [hk]), List.filter_append, if_pos hk]
    simp [hk]
  · rw [if_neg hk, List.append_nil]
    split
    · rw [List.filter_append]
      simp [hk]
    · rfl

omit [DecidableEq S] in
/-- A slot without the key. -/
theorem filter_eq_nil {place : K → S} {W : Slots S K α} (hW : Placed place W) {s : S} {k : K}
    (h : place k ≠ s) : ((W s).filter fun x => x.1 = k) = [] := by
  refine List.filter_eq_nil_iff.mpr fun x hx hk => h ?_
  rw [← hW s x hx, of_decide_eq_true hk]

omit [DecidableEq S] in
/-- Where no key of the slot has a new place, its entries are found at the new place. -/
theorem filter_keep {place place' : K → S} {W : Slots S K α} (hW : Placed place W) {k : K}
    (hkeep : ∀ x ∈ W (place k), place' x.1 = place k) :
    ((W (place' k)).filter fun x => x.1 = k) = (W (place k)).filter fun x => x.1 = k := by
  by_cases hsame : place k = place' k
  · rw [hsame]
  · rw [filter_eq_nil hW hsame]
    refine (List.filter_eq_nil_iff.mpr fun x hx hk => hsame ?_).symm
    have hstay := hkeep x hx
    rwa [of_decide_eq_true hk, eq_comm] at hstay

omit [DecidableEq S] in
/-- **Places that stay** leave the entries of every key in their order. -/
theorem under_keep {place place' : K → S} {W : Slots S K α} (hW : Placed place W)
    (hkeep : ∀ t, ∀ x ∈ W t, place' x.1 = t) (k : K) : W.under place' k = W.under place k :=
  filter_keep hW (hkeep _)

/-- **A moved slot** leaves the entries of every key in their order. -/
theorem under_move {place place' : K → S} {W : Slots S K α} {s : S} (hW : Placed place W)
    (hkeep : ∀ t, t ≠ s → ∀ x ∈ W t, place' x.1 = t) (k : K) :
    (W.move place' s).under place' k = W.under place k := by
  have hmoved : ((W s).filter fun x => place' x.1 = place' k).filter (fun x => x.1 = k) =
      (W s).filter fun x => x.1 = k := by
    rw [List.filter_filter]
    refine List.filter_congr fun x _ => ?_
    by_cases hk : x.1 = k
    · simp [hk]
    · simp [hk]
  rw [under, move, linkAll_apply, List.filter_append, hmoved]
  unfold under clear
  by_cases hs : place k = s
  · -- the entries of `k` are moved, and there is none where they go
    rw [hs]
    split
    · rfl
    · rename_i hne
      rw [filter_eq_nil hW fun h : place k = place' k => hne (h.symm.trans hs), List.nil_append]
  · rw [filter_eq_nil hW hs, List.append_nil, ← filter_keep hW (hkeep _ hs)]
    split
    · rename_i hto
      rw [hto, filter_eq_nil hW hs]
      rfl
    · rfl

/-- Emptying the slot of a key, where there is no other one. -/
theorem under_clear (place : K → S) (W : Slots S K α) (s : S) (k : K) :
    (W.clear s).under place k = if place k = s then [] else W.under place k := by
  unfold under clear
  split
  · rfl
  · rfl

omit [DecidableEq K] in
theorem placed_clear {place : K → S} {W : Slots S K α} (hW : Placed place W) (s : S) :
    Placed place (W.clear s) := by
  intro t x hx
  unfold clear at hx
  split at hx
  · exact absurd hx (by simp)
  · exact hW t x hx

omit [DecidableEq K] in
theorem clear_of_nil {W : Slots S K α} {s : S} (h : W s = []) : W.clear s = W := by
  funext t
  unfold clear
  split
  · rename_i ht
    rw [ht, h]
  · rfl

end Slots

end LsServer.Lib
