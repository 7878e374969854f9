import Mathlib.Data.List.Basic

/-!
# Ring buffers

A `RingBuffer` holds a queue in cells `head`, `head + 1`, …, `tail - 1`, modulo its capacity. A push
that fills the last cell moves the queue to the front of a larger ring. Cells at `cap` and beyond do
not exist, so what they read does not matter.

* `head = tail` is the empty ring, so a push that makes them equal has to expand at once, and a ring
  between two pushes has at least one free cell.
* `expand` copies all `cap` cells, first to last, to the front. How much larger the new ring is is a
  parameter (`grow`); it only has to be larger.
* `lengthOf` computes the length from the two ends alone, for a reader that has copied them.

The bounds of the ends are fields, so `pop` and `push` carry them on. A queue is its `toList`, and
no other module looks at the cells.

Results:
* `toList_push`: a push adds an element at the end, also where the ring grows;
* `pop_eq_none`, `toList_of_pop`: a pop takes the first one.
-/

namespace LsServer.Lib

/-- A ring whose ends are inside. -/
structure RingBuffer (α : Type) where
  cap : Nat
  head : Nat
  tail : Nat
  cell : Nat → α
  head_lt : head < cap
  tail_lt : tail < cap

namespace RingBuffer

variable {α : Type}

/-- The empty ring with `cap` cells. -/
def empty (cap : Nat) (h : 0 < cap) (d : α) : RingBuffer α := ⟨cap, 0, 0, fun _ => d, h, h⟩

/-- The position behind `i`. -/
def next (cap i : Nat) : Nat := if cap ≤ i + 1 then 0 else i + 1

theorem next_lt {cap i : Nat} (h : i < cap) : next cap i < cap := by
  unfold next
  split <;> omega

theorem cap_pos (r : RingBuffer α) : 0 < r.cap := Nat.lt_of_le_of_lt (Nat.zero_le _) r.head_lt

/-- Moves the `cap` elements of a full ring to the front of a larger one. -/
def expand (grow : Nat → Nat) (hgrow : ∀ n, 0 < n → n < grow n) (r : RingBuffer α) :
    RingBuffer α where
  cap := grow r.cap
  head := 0
  tail := r.cap
  cell := fun i => r.cell ((r.head + i) % r.cap)
  head_lt := Nat.lt_of_le_of_lt (Nat.zero_le _) (hgrow r.cap r.cap_pos)
  tail_lt := hgrow r.cap r.cap_pos

/-- Writes at the tail, and expands the ring if that has filled it. -/
def push (grow : Nat → Nat) (hgrow : ∀ n, 0 < n → n < grow n) (r : RingBuffer α) (a : α) :
    RingBuffer α :=
  let r' : RingBuffer α := { r with
    tail := next r.cap r.tail
    cell := fun i => if i = r.tail then a else r.cell i
    tail_lt := next_lt r.tail_lt }
  if r'.head = r'.tail then r'.expand grow hgrow else r'

/-- Reads at the head. -/
def pop (r : RingBuffer α) : Option (α × RingBuffer α) :=
  if r.head = r.tail then none
  else some (r.cell r.head, { r with head := next r.cap r.head, head_lt := next_lt r.head_lt })

/-- How many elements there are. -/
def lengthOf (cap head tail : Nat) : Nat :=
  if head ≤ tail then tail - head else tail + cap - head

@[inherit_doc lengthOf]
def length (r : RingBuffer α) : Nat := lengthOf r.cap r.head r.tail

/-- The elements, first to last. -/
def toList (r : RingBuffer α) : List α :=
  (List.range r.length).map fun i => r.cell ((r.head + i) % r.cap)

/-- No two of less than `cap` successive positions are the same. -/
theorem mod_ne {h i j cap : Nat} (hi : i < j) (hj : j < cap) : (h + i) % cap ≠ (h + j) % cap := by
  intro heq
  have hdvd : cap ∣ (h + j) - (h + i) :=
    Nat.dvd_of_mod_eq_zero (Nat.sub_mod_eq_zero_of_mod_eq heq.symm)
  have hle := Nat.le_of_dvd (by omega) hdvd
  omega

theorem mod_next {cap i : Nat} (h : i < cap) : next cap i = (i + 1) % cap := by
  unfold next
  split
  · rw [show i + 1 = cap by omega, Nat.mod_self]
  · rw [Nat.mod_eq_of_lt (by omega)]

@[simp] theorem toList_empty (cap : Nat) (h : 0 < cap) (d : α) : (empty cap h d).toList = [] := rfl

theorem length_lt (r : RingBuffer α) : r.length < r.cap := by
  have hh := r.head_lt
  have ht := r.tail_lt
  unfold length lengthOf
  split <;> omega

theorem length_toList (r : RingBuffer α) : r.toList.length = r.length := by
  rw [toList, List.length_map, List.length_range]

/-- The tail is `length` positions behind the head. -/
theorem tail_eq (r : RingBuffer α) : r.tail = (r.head + r.length) % r.cap := by
  have hh := r.head_lt
  have ht := r.tail_lt
  unfold length lengthOf
  split
  · rw [show r.head + (r.tail - r.head) = r.tail by omega, Nat.mod_eq_of_lt ht]
  · rw [show r.head + (r.tail + r.cap - r.head) = r.tail + r.cap by omega, Nat.add_mod_right,
      Nat.mod_eq_of_lt ht]

theorem toList_expand (grow : Nat → Nat) (hgrow : ∀ n, 0 < n → n < grow n) (r : RingBuffer α) :
    (r.expand grow hgrow).toList =
      (List.range r.cap).map fun i => r.cell ((r.head + i) % r.cap) := by
  have hlen : (r.expand grow hgrow).length = r.cap := by
    simp [length, lengthOf, expand]
  unfold toList
  rw [hlen]
  refine List.map_congr_left fun i hi => ?_
  have hlt : i < grow r.cap := Nat.lt_trans (List.mem_range.mp hi) (hgrow _ r.cap_pos)
  simp only [expand, Nat.zero_add]
  rw [Nat.mod_eq_of_lt hlt]

/-- The tail goes one on: either the ring is full, or it holds one more. -/
theorem length_next {cap head tail : Nat} (hh : head < cap) (ht : tail < cap) :
    (head = next cap tail → lengthOf cap head tail + 1 = cap) ∧
      (head ≠ next cap tail → lengthOf cap head (next cap tail) = lengthOf cap head tail + 1) := by
  unfold lengthOf next
  constructor <;> intro h <;> split at h <;> repeat' split
  all_goals omega

/-- The head goes one on: a ring that is not empty holds one less. -/
theorem length_drop {cap head tail : Nat} (hh : head < cap) (ht : tail < cap) (h : head ≠ tail) :
    lengthOf cap head tail = lengthOf cap (next cap head) tail + 1 := by
  unfold lengthOf next
  repeat' split
  all_goals omega

/-- **A push adds an element at the end.** -/
theorem toList_push (grow : Nat → Nat) (hgrow : ∀ n, 0 < n → n < grow n) (r : RingBuffer α)
    (a : α) : (r.push grow hgrow a).toList = r.toList ++ [a] := by
  have hlen := length_next r.head_lt r.tail_lt
  -- the elements and the new one, where they are before the ring expands
  have hcells : (List.range (r.length + 1)).map (fun i =>
      if (r.head + i) % r.cap = r.tail then a else r.cell ((r.head + i) % r.cap)) =
        r.toList ++ [a] := by
    rw [List.range_succ, List.map_append, List.map_singleton, if_pos r.tail_eq.symm, toList]
    congr 1
    refine List.map_congr_left fun i hi => if_neg ?_
    rw [r.tail_eq]
    exact mod_ne (List.mem_range.mp hi) r.length_lt
  rw [← hcells]
  unfold push
  dsimp only
  split
  · rename_i hfull
    rw [toList_expand, show r.length + 1 = r.cap from hlen.1 hfull]
  · rename_i hfull
    unfold toList
    rw [show length { r with
      tail := next r.cap r.tail
      cell := fun i => if i = r.tail then a else r.cell i
      tail_lt := next_lt r.tail_lt } = r.length + 1 from hlen.2 hfull]

theorem pop_eq_none {r : RingBuffer α} : r.pop = none ↔ r.toList = [] := by
  have hh := r.head_lt
  have ht := r.tail_lt
  rw [← List.length_eq_zero_iff, length_toList]
  unfold pop length lengthOf
  by_cases heq : r.head = r.tail
  · simp [heq]
  · rw [if_neg heq]
    simp only [reduceCtorEq, false_iff]
    split <;> omega

/-- **A pop takes the first element.** -/
theorem toList_of_pop {r r' : RingBuffer α} {a : α} (h : r.pop = some (a, r')) :
    r.toList = a :: r'.toList := by
  have hh := r.head_lt
  have ht := r.tail_lt
  unfold pop at h
  split at h
  · exact absurd h (by simp)
  · rename_i hne
    obtain ⟨rfl, rfl⟩ := Prod.mk.inj (Option.some.inj h)
    have hlen : r.length = length { r with
        head := next r.cap r.head, head_lt := next_lt r.head_lt } + 1 :=
      length_drop r.head_lt r.tail_lt hne
    unfold toList
    rw [hlen, List.range_succ_eq_map, List.map_cons, Nat.add_zero, Nat.mod_eq_of_lt hh,
      List.map_map]
    congr 1
    refine List.map_congr_left fun i _ => ?_
    simp only [Function.comp, mod_next hh, Nat.mod_add_mod]
    congr 2
    omega

end RingBuffer

end LsServer.Lib
