import LsServer.Lib.Run
import LsServer.Lib.Slots
import Mathlib.Data.Nat.Bitwise

/-!
# Timeouts (skynet_timer.c)

The timer has one slot for each of the next ticks of the current block of 256, and slots of growing
width for what is further away, on four levels. `timer_shift` counts a tick, and where a block ends
it moves the slot that the new block comes from. The counter has 32 bits and starts again at zero.

Refined to an agenda: the deadlines of all timeouts, as numbers without a bound. A node lies where
`add_node` would put it now, and the nodes of one deadline lie in their order (`Keeps`).

`timer_execute` gives up the lock while it sends. What is added then is due at a later tick, so it
lies in another slot, and an update is one step here.

Source: skynet-src/skynet_timer.c, `link_clear` and `link` 51-65, `add_node` 68-86, `timer_add`
89-99, `move_list` 102-109, `timer_shift` 112-132, `dispatch_list` 135-150, `timer_execute` 153-163,
`timer_update` 166-178, `timer_create_timer` 181-202, `skynet_timeout` 205-224, `skynet_updatetime`
246-260.

* `add_node` compares the tick of a node with the counter, from the lowest 8 bits on and then 6 bits
  at a time (`findLevel`).
* `timer_shift` moves a slot of the lowest level at whose bits the new tick is not zero; at the wrap
  of the counter it moves the slot `t[3][0]`.
* A timeout of zero or less is sent at once and never gets into the timer. A time is an `int`, so a
  deadline is less than 2^31 ticks away.
* `updatetime` says how many ticks have passed, `update` is one of them; a clock that goes backwards
  loses no tick.

Results:
* `slotOf_mod`: the slot of a deadline, without the bound of the counter;
* `loc_succ`: what a tick moves;
* `timer_exact`: an update sends the timeouts whose deadline it is, in the order they were made.

Out of scope: `TI->starttime`, the time of day, and a message that cannot be delivered since its
service is gone.
-/

namespace LsServer.Skynet

open LsServer.Lib

/-- `near[i]` and `t[i][j]`. -/
inductive Slot
  | near (i : Nat)
  | t (i j : Nat)
  deriving DecidableEq

/-- `struct timer_event`. -/
structure TimerEvent where
  handle : Nat
  session : Nat
  deriving DecidableEq

/-- `struct timer`. A node is its `expire` and its event. `rounds` is how often
`skynet_updatetime` has still to call `timer_update`. -/
structure Timer where
  lists : Slots Slot Nat TimerEvent
  time : Nat
  current : Nat
  currentPoint : Nat
  rounds : Nat

/-- `timer_create_timer` and `skynet_timer_init`: the hundredths of the second, `gettime()`. -/
def Timer.create (current point : Nat) : Timer := ⟨fun _ => [], 0, current, point, 0⟩

/-- The loop of `add_node`, with `n` of its three rounds to go. -/
def findLevel (time current : Nat) : Nat → Nat → Nat → Nat
  | 0, i, _ => i
  | n + 1, i, mask =>
    if time ||| (mask - 1) = current ||| (mask - 1) then i
    else findLevel time current n (i + 1) (mask <<< 6)

/-- Where `add_node` links a node. -/
def slotOf (current time : Nat) : Slot :=
  if time ||| 255 = current ||| 255 then .near (time &&& 255)
  else
    let i := findLevel time current 3 0 (256 <<< 6)
    .t i ((time >>> (8 + i * 6)) &&& 63)

/-- `add_node` as part of `timer_add`. -/
def timerAdd (T : Timer) (e : TimerEvent) (time : Nat) : Timer :=
  let expire := (time + T.time) % 2 ^ 32
  { T with lists := T.lists.link (slotOf T.time expire) (expire, e) }

/-- The loop of `timer_shift` with the list it moves; behind `n` rounds there is no list. -/
def shiftLoop (ct : Nat) : Nat → Nat → Nat → Nat → Option Slot
  | 0, _, _, _ => none
  | n + 1, mask, time, i =>
    if ct &&& (mask - 1) = 0 then
      if time &&& 63 ≠ 0 then some (.t i (time &&& 63))
      else shiftLoop ct n (mask <<< 6) (time >>> 6) (i + 1)
    else none

/-- The list that `timer_shift` moves. -/
def shiftSlot (ct : Nat) : Option Slot :=
  if ct = 0 then some (.t 3 0) else shiftLoop ct 4 256 (ct >>> 8) 0

/-- `timer_shift`. -/
def timerShift (T : Timer) : Timer :=
  let ct := (T.time + 1) % 2 ^ 32
  match shiftSlot ct with
  | some s => { T with time := ct, lists := T.lists.move (slotOf ct) s }
  | none => { T with time := ct }

/-- `timer_execute`: the list of this tick, and what `dispatch_list` sends. -/
def timerExecute (T : Timer) : Timer × List TimerEvent :=
  let s := Slot.near (T.time &&& 255)
  ({ T with lists := T.lists.clear s }, (T.lists s).map Prod.snd)

/-- `timer_update`. -/
def timerUpdate (T : Timer) : Timer × List TimerEvent :=
  let (T, early) := timerExecute T
  let (T, late) := timerExecute (timerShift T)
  (T, early ++ late)

/-- What happens to the timer: `skynet_timeout` with an `int` time, `skynet_updatetime` up to its
loop at `gettime() = cp`, a round of this loop. -/
inductive TimerOp
  | timeout (e : TimerEvent) (time : Int)
  | updatetime (cp : Nat)
  | update
  deriving DecidableEq

/-- One operation, with what it sends. There is one timer thread, and `skynet_timeout` may come
between its rounds. -/
def Timer.step (T : Timer) : TimerOp → Option (Timer × List TimerEvent)
  | .timeout e time =>
    if time ≤ 0 then some (T, [e])
    else if time < 2 ^ 31 then some (timerAdd T e time.toNat, [])
    else none
  | .updatetime cp =>
    if T.rounds ≠ 0 then none
    -- time diff error
    else if cp < T.currentPoint then some ({ T with currentPoint := cp }, [])
    else
      let diff := (cp - T.currentPoint) % 2 ^ 32
      some ({ T with currentPoint := cp, current := T.current + diff, rounds := diff }, [])
  | .update =>
    if T.rounds = 0 then none else some (timerUpdate { T with rounds := T.rounds - 1 })

/-- **The timer.** -/
def timers (current point : Nat) : Machine Timer TimerOp TimerEvent :=
  ⟨.create current point, Timer.step⟩

/-! ## The agenda -/

/-- The number of ticks, and the deadlines of the timeouts in the order they were made. -/
abbrev Plan := Nat × List (Nat × TimerEvent)

def TimerOp.plan (p : Plan) : TimerOp → Plan
  | .timeout e time => (p.1, if 0 < time then p.2 ++ [(p.1 + time.toNat, e)] else p.2)
  | .updatetime _ => p
  | .update => (p.1 + 1, p.2)

/-- The plan of some operations. -/
def planOf (ops : List TimerOp) : Plan := ops.foldl TimerOp.plan (0, [])

/-! ## The slot of a deadline -/

/-- The bits from `k` on decide. -/
theorem or_mask_eq_iff (a b k : Nat) :
    a ||| (2 ^ k - 1) = b ||| (2 ^ k - 1) ↔ a / 2 ^ k = b / 2 ^ k := by
  rw [← Nat.shiftRight_eq_div_pow, ← Nat.shiftRight_eq_div_pow]
  constructor
  · intro h
    refine Nat.eq_of_testBit_eq fun i => ?_
    have hbit := congrArg (Nat.testBit · (k + i)) h
    have hout : ¬ k + i < k := by omega
    simpa [Nat.testBit_two_pow_sub_one, hout] using hbit
  · intro h
    refine Nat.eq_of_testBit_eq fun i => ?_
    rw [Nat.testBit_or, Nat.testBit_or, Nat.testBit_two_pow_sub_one]
    by_cases hi : i < k
    · simp [hi]
    · have hbit := congrArg (Nat.testBit · (i - k)) h
      simp only [Nat.testBit_shiftRight] at hbit
      rw [show k + (i - k) = i by omega] at hbit
      rw [hbit]

/-- The slot of the deadline `D` at tick `n`. -/
def loc (n D : Nat) : Slot :=
  if D / 2 ^ 8 = n / 2 ^ 8 then .near (D % 2 ^ 8)
  else if D / 2 ^ 14 = n / 2 ^ 14 then .t 0 (D / 2 ^ 8 % 2 ^ 6)
  else if D / 2 ^ 20 = n / 2 ^ 20 then .t 1 (D / 2 ^ 14 % 2 ^ 6)
  else if D / 2 ^ 26 = n / 2 ^ 26 then .t 2 (D / 2 ^ 20 % 2 ^ 6)
  else .t 3 (D / 2 ^ 26 % 2 ^ 6)

theorem slotOf_eq (current time : Nat) : slotOf current time = loc current time := by
  have h8 := or_mask_eq_iff time current 8
  have h14 := or_mask_eq_iff time current 14
  have h20 := or_mask_eq_iff time current 20
  have h26 := or_mask_eq_iff time current 26
  have hand : ∀ x k, x &&& (2 ^ k - 1) = x % 2 ^ k := fun x k => Nat.and_two_pow_sub_one_eq_mod x k
  have hnear := hand time 8
  have hlevel := fun x => hand x 6
  unfold slotOf loc findLevel findLevel findLevel findLevel
  simp only [Nat.reducePow, Nat.reduceSub, Nat.reduceShiftLeft] at h8 h14 h20 h26 hnear hlevel ⊢
  simp only [h8, h14, h20, h26, hnear, hlevel]
  split_ifs <;> simp [Nat.shiftRight_eq_div_pow]

/-- The counter wraps around, but no deadline is that far away. -/
theorem loc_mod {n D : Nat} (hle : n ≤ D) (hlt : D < n + 2 ^ 31) :
    loc (n % 2 ^ 32) (D % 2 ^ 32) = loc n D := by
  have h8 : D % 2 ^ 32 / 2 ^ 8 = n % 2 ^ 32 / 2 ^ 8 ↔ D / 2 ^ 8 = n / 2 ^ 8 := by omega
  have h14 : D % 2 ^ 32 / 2 ^ 14 = n % 2 ^ 32 / 2 ^ 14 ↔ D / 2 ^ 14 = n / 2 ^ 14 := by omega
  have h20 : D % 2 ^ 32 / 2 ^ 20 = n % 2 ^ 32 / 2 ^ 20 ↔ D / 2 ^ 20 = n / 2 ^ 20 := by omega
  have h26 : D % 2 ^ 32 / 2 ^ 26 = n % 2 ^ 32 / 2 ^ 26 ↔ D / 2 ^ 26 = n / 2 ^ 26 := by omega
  have hnear : D % 2 ^ 32 % 2 ^ 8 = D % 2 ^ 8 := by omega
  have hlevel0 : D % 2 ^ 32 / 2 ^ 8 % 2 ^ 6 = D / 2 ^ 8 % 2 ^ 6 := by omega
  have hlevel1 : D % 2 ^ 32 / 2 ^ 14 % 2 ^ 6 = D / 2 ^ 14 % 2 ^ 6 := by omega
  have hlevel2 : D % 2 ^ 32 / 2 ^ 20 % 2 ^ 6 = D / 2 ^ 20 % 2 ^ 6 := by omega
  have hlevel3 : D % 2 ^ 32 / 2 ^ 26 % 2 ^ 6 = D / 2 ^ 26 % 2 ^ 6 := by omega
  unfold loc
  simp only [h8, h14, h20, h26, hnear, hlevel0, hlevel1, hlevel2, hlevel3]

/-- The list that the end of a block moves, at the tick `n`. -/
theorem shiftSlot_eq {ct : Nat} (h : ct < 2 ^ 32) : shiftSlot ct =
    if ct % 2 ^ 8 ≠ 0 then none
    else if ct / 2 ^ 8 % 2 ^ 6 ≠ 0 then some (.t 0 (ct / 2 ^ 8 % 2 ^ 6))
    else if ct / 2 ^ 14 % 2 ^ 6 ≠ 0 then some (.t 1 (ct / 2 ^ 14 % 2 ^ 6))
    else if ct / 2 ^ 20 % 2 ^ 6 ≠ 0 then some (.t 2 (ct / 2 ^ 20 % 2 ^ 6))
    else some (.t 3 (ct / 2 ^ 26 % 2 ^ 6)) := by
  -- one round of the loop, at a level
  have hround : ∀ n k m i, shiftLoop ct (n + 1) (2 ^ k) (ct / 2 ^ m) i =
      if ct % 2 ^ k = 0 then
        if ct / 2 ^ m % 2 ^ 6 ≠ 0 then some (.t i (ct / 2 ^ m % 2 ^ 6))
        else shiftLoop ct n (2 ^ (k + 6)) (ct / 2 ^ (m + 6)) (i + 1)
      else none := by
    intro n k m i
    have hidx : ct / 2 ^ m &&& 63 = ct / 2 ^ m % 2 ^ 6 := Nat.and_two_pow_sub_one_eq_mod _ 6
    rw [shiftLoop, Nat.and_two_pow_sub_one_eq_mod, hidx, Nat.shiftLeft_eq, ← Nat.pow_add,
      Nat.shiftRight_eq_div_pow, Nat.div_div_eq_div_mul, ← Nat.pow_add]
  unfold shiftSlot
  by_cases hzero : ct = 0
  · subst hzero
    rfl
  · rw [if_neg hzero, Nat.shiftRight_eq_div_pow]
    change shiftLoop ct (3 + 1) (2 ^ 8) (ct / 2 ^ 8) 0 = _
    rw [hround]
    by_cases h8 : ct % 2 ^ 8 = 0
    · rw [if_pos h8, if_neg (not_not.mpr h8)]
      by_cases hidx0 : ct / 2 ^ 8 % 2 ^ 6 = 0
      · have h14 : ct % 2 ^ 14 = 0 := by omega
        rw [if_neg (not_not.mpr hidx0), if_neg (not_not.mpr hidx0), hround, if_pos h14]
        by_cases hidx1 : ct / 2 ^ 14 % 2 ^ 6 = 0
        · have h20 : ct % 2 ^ 20 = 0 := by omega
          rw [if_neg (not_not.mpr hidx1), if_neg (not_not.mpr hidx1), hround, if_pos h20]
          by_cases hidx2 : ct / 2 ^ 20 % 2 ^ 6 = 0
          · have h26 : ct % 2 ^ 26 = 0 := by omega
            have hidx3 : ct / 2 ^ 26 % 2 ^ 6 ≠ 0 := by omega
            rw [if_neg (not_not.mpr hidx2), if_neg (not_not.mpr hidx2), hround,
              if_pos h26, if_pos hidx3]
          · rw [if_pos hidx2, if_pos hidx2]
        · rw [if_pos hidx1, if_pos hidx1]
      · rw [if_pos hidx0, if_pos hidx0]
    · rw [if_neg h8, if_pos h8]

/-- **What a tick moves**: a deadline that is still ahead has the same slot afterwards, if this slot
is not the one that is moved. -/
theorem loc_succ {n D : Nat} (hle : n + 1 ≤ D) (hlt : D < n + 2 ^ 31)
    (h : shiftSlot ((n + 1) % 2 ^ 32) ≠ some (loc n D)) : loc (n + 1) D = loc n D := by
  have hmod : (n + 1) % 2 ^ 32 % 2 ^ 8 = (n + 1) % 2 ^ 8 := by omega
  have hidx0 : (n + 1) % 2 ^ 32 / 2 ^ 8 % 2 ^ 6 = (n + 1) / 2 ^ 8 % 2 ^ 6 := by omega
  have hidx1 : (n + 1) % 2 ^ 32 / 2 ^ 14 % 2 ^ 6 = (n + 1) / 2 ^ 14 % 2 ^ 6 := by omega
  have hidx2 : (n + 1) % 2 ^ 32 / 2 ^ 20 % 2 ^ 6 = (n + 1) / 2 ^ 20 % 2 ^ 6 := by omega
  have hidx3 : (n + 1) % 2 ^ 32 / 2 ^ 26 % 2 ^ 6 = (n + 1) / 2 ^ 26 % 2 ^ 6 := by omega
  rw [shiftSlot_eq (Nat.mod_lt _ (by decide)), hmod, hidx0, hidx1, hidx2, hidx3] at h
  clear hmod hidx0 hidx1 hidx2 hidx3
  unfold loc at h ⊢
  by_cases h8 : (n + 1) % 2 ^ 8 ≠ 0
  · -- the block goes on
    have e8 : (n + 1) / 2 ^ 8 = n / 2 ^ 8 := by omega
    have e14 : (n + 1) / 2 ^ 14 = n / 2 ^ 14 := by omega
    have e20 : (n + 1) / 2 ^ 20 = n / 2 ^ 20 := by omega
    have e26 : (n + 1) / 2 ^ 26 = n / 2 ^ 26 := by omega
    rw [e8, e14, e20, e26]
  · rw [if_neg h8] at h
    rw [not_not] at h8
    have n8 : D / 2 ^ 8 ≠ n / 2 ^ 8 := by omega
    rw [if_neg n8] at h ⊢
    by_cases i0 : (n + 1) / 2 ^ 8 % 2 ^ 6 ≠ 0
    · -- the next block of 256 starts
      have e14 : (n + 1) / 2 ^ 14 = n / 2 ^ 14 := by omega
      have e20 : (n + 1) / 2 ^ 20 = n / 2 ^ 20 := by omega
      have e26 : (n + 1) / 2 ^ 26 = n / 2 ^ 26 := by omega
      rw [if_pos i0] at h
      rw [e14, e20, e26, if_neg fun hD => h ?_]
      rw [if_pos (by omega), hD]
    · rw [if_neg i0] at h
      rw [not_not] at i0
      have n14 : D / 2 ^ 14 ≠ n / 2 ^ 14 := by omega
      rw [if_neg n14] at h ⊢
      by_cases i1 : (n + 1) / 2 ^ 14 % 2 ^ 6 ≠ 0
      · have e20 : (n + 1) / 2 ^ 20 = n / 2 ^ 20 := by omega
        have e26 : (n + 1) / 2 ^ 26 = n / 2 ^ 26 := by omega
        rw [if_pos i1] at h
        have hD : D / 2 ^ 14 ≠ (n + 1) / 2 ^ 14 := fun hD => h (by
          rw [if_pos (by omega), hD])
        rw [e20, e26, if_neg (by omega), if_neg hD]
      · rw [if_neg i1] at h
        rw [not_not] at i1
        have n20 : D / 2 ^ 20 ≠ n / 2 ^ 20 := by omega
        rw [if_neg n20] at h ⊢
        by_cases i2 : (n + 1) / 2 ^ 20 % 2 ^ 6 ≠ 0
        · have e26 : (n + 1) / 2 ^ 26 = n / 2 ^ 26 := by omega
          rw [if_pos i2] at h
          have hD : D / 2 ^ 20 ≠ (n + 1) / 2 ^ 20 := fun hD => h (by
            rw [if_pos (by omega), hD])
          rw [e26, if_neg (by omega), if_neg (by omega), if_neg hD]
        · rw [if_neg i2] at h
          rw [not_not] at i2
          have n26 : D / 2 ^ 26 ≠ n / 2 ^ 26 := by omega
          rw [if_neg n26] at h ⊢
          have hD : D / 2 ^ 26 ≠ (n + 1) / 2 ^ 26 := fun hD => h (by rw [hD])
          rw [if_neg (by omega), if_neg (by omega), if_neg (by omega), if_neg hD]

theorem slotOf_mod {n D : Nat} (hle : n ≤ D) (hlt : D < n + 2 ^ 31) :
    slotOf (n % 2 ^ 32) (D % 2 ^ 32) = loc n D := by
  rw [slotOf_eq, loc_mod hle hlt]

/-! ## The invariant -/

/-- The entries that are still ahead at tick `n`, with the `expire` `k`. -/
def ahead (n k : Nat) (xs : List (Nat × TimerEvent)) : List (Nat × TimerEvent) :=
  (xs.filter fun x => n < x.1 ∧ x.1 % 2 ^ 32 = k).map fun x => (k, x.2)

theorem ahead_snoc {n D : Nat} (hlt : n < D) (k : Nat) (xs : List (Nat × TimerEvent))
    (e : TimerEvent) :
    ahead n k (xs ++ [(D, e)]) = ahead n k xs ++ if D % 2 ^ 32 = k then [(k, e)] else [] := by
  unfold ahead
  rw [List.filter_append, List.map_append]
  congr 1
  by_cases hk : D % 2 ^ 32 = k
  · subst hk
    simp [hlt]
  · rw [if_neg hk]
    simpa using fun _ => hk

/-- The timer keeps the plan: every node is where `add_node` would put it now, and the nodes of one
deadline are in their order. -/
structure Keeps (p : Plan) (T : Timer) : Prop where
  time : T.time = p.1 % 2 ^ 32
  bound : ∀ x ∈ p.2, x.1 < p.1 + 2 ^ 31
  placed : Slots.Placed (slotOf T.time) T.lists
  under : ∀ k, T.lists.under (slotOf T.time) k = ahead p.1 k p.2

/-- A node has a deadline that is ahead. -/
theorem Keeps.deadline {p : Plan} {T : Timer} (h : Keeps p T) {s : Slot}
    {x : Nat × TimerEvent} (hx : x ∈ T.lists s) :
    ∃ D, p.1 < D ∧ D < p.1 + 2 ^ 31 ∧ x.1 = D % 2 ^ 32 := by
  have hunder : x ∈ T.lists.under (slotOf T.time) x.1 :=
    List.mem_filter.mpr ⟨by rwa [h.placed s x hx], by simp⟩
  rw [h.under] at hunder
  obtain ⟨y, hy, -⟩ := List.mem_map.mp hunder
  obtain ⟨hmem, hD⟩ := List.mem_filter.mp hy
  obtain ⟨hlt, hmod⟩ := of_decide_eq_true hD
  exact ⟨y.1, hlt, h.bound y hmem, hmod.symm⟩

/-- Only a tick itself has its slot. -/
theorem slotOf_eq_near {t k : Nat} (h : slotOf t k = .near (t &&& 255)) : k = t := by
  have hand : t &&& 255 = t % 2 ^ 8 := Nat.and_two_pow_sub_one_eq_mod t 8
  rw [slotOf_eq, hand] at h
  unfold loc at h
  split at h
  · have hmod := Slot.near.inj h
    omega
  · repeat' split at h
    all_goals exact absurd h (by simp)

/-- **No node is due at the tick that has been**: an early `timer_execute` sends nothing. -/
theorem Keeps.near_nil {p : Plan} {T : Timer} (h : Keeps p T) :
    T.lists (.near (T.time &&& 255)) = [] := by
  refine List.eq_nil_iff_forall_not_mem.mpr fun x hx => ?_
  obtain ⟨D, hgt, hlt, hmod⟩ := h.deadline hx
  rw [slotOf_eq_near (h.placed _ x hx), h.time] at hmod
  omega

theorem keeps_create (current point : Nat) : Keeps (0, []) (.create current point) where
  time := rfl
  bound := fun _ h => absurd h (by simp)
  placed := fun _ _ h => absurd h (by simp [Timer.create])
  under := fun _ => rfl

/-- **`timer_add`.** -/
theorem keeps_timerAdd {p : Plan} {T : Timer} (h : Keeps p T) (e : TimerEvent) {time : Int}
    (hpos : 0 < time) (hlt : time < 2 ^ 31) :
    Keeps (TimerOp.plan p (.timeout e time)) (timerAdd T e time.toNat) := by
  have hexpire : (time.toNat + T.time) % 2 ^ 32 = (p.1 + time.toNat) % 2 ^ 32 := by
    rw [h.time, Nat.add_mod_mod, Nat.add_comm]
  have hplan : TimerOp.plan p (.timeout e time) = (p.1, p.2 ++ [(p.1 + time.toNat, e)]) := by
    rw [TimerOp.plan, if_pos hpos]
  rw [hplan, timerAdd, hexpire]
  refine ⟨h.time, ?_, Slots.placed_link h.placed (_, e), fun k => ?_⟩
  · intro x hx
    rcases List.mem_append.mp hx with hx | hx
    · exact h.bound x hx
    · rw [List.mem_singleton.mp hx]
      dsimp only
      omega
  · rw [Slots.under_link (slotOf T.time) T.lists (_, e), h.under, ahead_snoc (by omega)]
    by_cases hk : (p.1 + time.toNat) % 2 ^ 32 = k
    · rw [if_pos hk, if_pos hk, hk]
    · rw [if_neg hk, if_neg hk]

/-- `timer_shift`: the slots of the next tick, with the nodes that are due now. -/
theorem keeps_timerShift {p : Plan} {T : Timer} (h : Keeps p T) :
    (timerShift T).time = (p.1 + 1) % 2 ^ 32 ∧
      Slots.Placed (slotOf (timerShift T).time) (timerShift T).lists ∧
      ∀ k, (timerShift T).lists.under (slotOf (timerShift T).time) k = ahead p.1 k p.2 := by
  have hct : (T.time + 1) % 2 ^ 32 = (p.1 + 1) % 2 ^ 32 := by
    rw [h.time, Nat.mod_add_mod]
  -- a node that is not moved is where it belongs
  have hkeep : ∀ t, shiftSlot ((p.1 + 1) % 2 ^ 32) ≠ some t → ∀ x ∈ T.lists t,
      slotOf ((p.1 + 1) % 2 ^ 32) x.1 = t := by
    intro t ht x hx
    obtain ⟨D, hgt, hlt, hmod⟩ := h.deadline hx
    have hslot := h.placed t x hx
    rw [h.time, hmod, slotOf_mod hgt.le hlt] at hslot
    rw [hmod, slotOf_mod hgt (by omega), loc_succ hgt hlt (by rw [hslot]; exact ht), hslot]
  cases hs : shiftSlot ((p.1 + 1) % 2 ^ 32) with
  | none =>
    have heq : timerShift T = { T with time := (p.1 + 1) % 2 ^ 32 } := by
      simp only [timerShift, hct, hs]
    have hall : ∀ t, ∀ x ∈ T.lists t, slotOf ((p.1 + 1) % 2 ^ 32) x.1 = t :=
      fun t => hkeep t fun heq => absurd (hs.symm.trans heq) (by simp)
    rw [heq]
    exact ⟨rfl, hall, fun k => (Slots.under_keep h.placed hall k).trans (h.under k)⟩
  | some s =>
    have heq : timerShift T = { T with
        time := (p.1 + 1) % 2 ^ 32
        lists := T.lists.move (slotOf ((p.1 + 1) % 2 ^ 32)) s } := by
      simp only [timerShift, hct, hs]
    have hother : ∀ t, t ≠ s → ∀ x ∈ T.lists t, slotOf ((p.1 + 1) % 2 ^ 32) x.1 = t :=
      fun t ht => hkeep t (by rw [hs]; simpa using Ne.symm ht)
    rw [heq]
    exact ⟨rfl, Slots.placed_move hother,
      fun k => (Slots.under_move h.placed hother k).trans (h.under k)⟩

/-- **`timer_update`** sends what is due at the next tick, in the order of the timeouts. -/
theorem keeps_timerUpdate {p : Plan} {T : Timer} (h : Keeps p T) :
    Keeps (p.1 + 1, p.2) (timerUpdate T).1 ∧
      (timerUpdate T).2 = (p.2.filter fun x => x.1 = p.1 + 1).map Prod.snd := by
  have hearly : timerExecute T = (T, []) := by
    rw [timerExecute, h.near_nil, Slots.clear_of_nil h.near_nil]
    rfl
  obtain ⟨htime, hplaced, hunder⟩ := keeps_timerShift h
  have hupdate : timerUpdate T = timerExecute (timerShift T) := by
    rw [timerUpdate, hearly]
    rfl
  rw [hupdate]
  generalize timerShift T = S at htime hplaced hunder
  -- the slot of the new tick holds the nodes of this `expire`
  have hslot : slotOf S.time S.time = .near (S.time &&& 255) := if_pos rfl
  have hnear : S.lists (.near (S.time &&& 255)) = ahead p.1 S.time p.2 := by
    rw [← hunder, Slots.under, hslot, List.filter_eq_self.mpr]
    exact fun x hx => decide_eq_true (slotOf_eq_near (hplaced _ x hx))
  have hdue : ∀ x ∈ p.2, (p.1 < x.1 ∧ x.1 % 2 ^ 32 = S.time) ↔ x.1 = p.1 + 1 := by
    intro x hx
    have hbound := h.bound x hx
    omega
  refine ⟨⟨htime, fun x hx => ?_, Slots.placed_clear hplaced _, fun k => ?_⟩, ?_⟩
  · exact (h.bound x hx).trans (by dsimp only; omega)
  · have hclear := Slots.under_clear (slotOf S.time) S.lists (.near (S.time &&& 255)) k
    rw [hunder] at hclear
    refine hclear.trans ?_
    unfold ahead
    split
    · rename_i hk
      obtain rfl := slotOf_eq_near hk
      rw [List.filter_eq_nil_iff.mpr, List.map_nil]
      intro x hx hgt
      have hbound := h.bound x hx
      have hmod := of_decide_eq_true hgt
      omega
    · rename_i hk
      congr 1
      refine List.filter_congr fun x hx => decide_eq_decide.mpr ?_
      have hne : x.1 = p.1 + 1 → x.1 % 2 ^ 32 ≠ k := fun heq hmod => hk (by
        rw [← hmod, heq, ← htime, hslot])
      dsimp only
      omega
  · change (S.lists (.near (S.time &&& 255))).map Prod.snd = _
    rw [hnear, ahead, List.map_map]
    congr 1
    exact List.filter_congr fun x hx => decide_eq_decide.mpr (hdue x hx)

/-- An update leaves the clock. -/
theorem timerUpdate_clock (T : Timer) :
    (timerUpdate T).1.current = T.current ∧ (timerUpdate T).1.rounds = T.rounds := by
  unfold timerUpdate timerExecute timerShift
  dsimp only
  split
  · exact ⟨rfl, rfl⟩
  · exact ⟨rfl, rfl⟩

/-! ## Runs -/

theorem planOf_snoc (ops : List TimerOp) (op : TimerOp) :
    planOf (ops ++ [op]) = TimerOp.plan (planOf ops) op := by
  rw [planOf, List.foldl_append]
  rfl

theorem Keeps.of_eq {p : Plan} {T U : Timer} (h : Keeps p T) (hlists : U.lists = T.lists)
    (htime : U.time = T.time) : Keeps p U :=
  ⟨htime ▸ h.time, h.bound, by rw [hlists, htime]; exact h.placed,
    fun k => by rw [hlists, htime]; exact h.under k⟩

/-- What an operation sends, by the plan. -/
def TimerOp.sends (p : Plan) : TimerOp → List TimerEvent
  | .timeout e time => if time ≤ 0 then [e] else []
  | .updatetime _ => []
  | .update => (p.2.filter fun x => x.1 = p.1 + 1).map Prod.snd

variable {current point : Nat}

/-- **Inversion of an operation.** -/
theorem keeps_step {p : Plan} (i : (timers current point).Item) (h : Keeps p i.pre) :
    Keeps (i.ev.plan p) i.post ∧ i.out = i.ev.sends p ∧
      (i.pre.current = current + p.1 + i.pre.rounds →
        i.post.current = current + (i.ev.plan p).1 + i.post.rounds) := by
  have hstep : Timer.step i.pre i.ev = some (i.post, i.out) := i.ok
  generalize i.pre = T, i.ev = op, i.post = T', i.out = out at h hstep
  cases op with
  | timeout e time =>
    simp only [Timer.step] at hstep
    split at hstep
    · rename_i hle
      obtain ⟨rfl, rfl⟩ := Prod.mk.inj (Option.some.inj hstep)
      have hplan : TimerOp.plan p (.timeout e time) = p := by
        rw [TimerOp.plan, if_neg (by omega)]
      rw [hplan, TimerOp.sends, if_pos hle]
      exact ⟨h, rfl, id⟩
    · rename_i hpos
      split at hstep
      · rename_i hlt
        obtain ⟨rfl, rfl⟩ := Prod.mk.inj (Option.some.inj hstep)
        rw [TimerOp.sends, if_neg hpos]
        exact ⟨keeps_timerAdd h e (by omega) hlt, rfl, id⟩
      · exact absurd hstep (by simp)
  | updatetime cp =>
    simp only [Timer.step] at hstep
    split at hstep
    · exact absurd hstep (by simp)
    · rename_i hrounds
      split at hstep
      · obtain ⟨rfl, rfl⟩ := Prod.mk.inj (Option.some.inj hstep)
        exact ⟨h.of_eq rfl rfl, rfl, id⟩
      · obtain ⟨rfl, rfl⟩ := Prod.mk.inj (Option.some.inj hstep)
        refine ⟨h.of_eq rfl rfl, rfl, fun hcurrent => ?_⟩
        dsimp only [TimerOp.plan]
        omega
  | update =>
    simp only [Timer.step] at hstep
    split at hstep
    · exact absurd hstep (by simp)
    · rename_i hrounds
      obtain ⟨hkeeps, hsends⟩ := keeps_timerUpdate (h.of_eq (U := { T with
        rounds := T.rounds - 1 }) rfl rfl)
      obtain ⟨hcurrent, hleft⟩ := timerUpdate_clock { T with rounds := T.rounds - 1 }
      rw [Option.some.inj hstep] at hkeeps hsends hcurrent hleft
      refine ⟨hkeeps, hsends, fun hclock => ?_⟩
      rw [hcurrent, hleft]
      dsimp only [TimerOp.plan]
      omega

theorem run_keeps {tr : List (timers current point).Item} {T : Timer}
    (h : (timers current point).Run tr T) :
    Keeps (planOf (tr.map Machine.Item.ev)) T ∧
      T.current = current + (planOf (tr.map Machine.Item.ev)).1 + T.rounds := by
  refine h.history (J := fun tr T => Keeps (planOf (tr.map Machine.Item.ev)) T ∧
    T.current = current + (planOf (tr.map Machine.Item.ev)).1 + T.rounds) ?_ ?_
  · exact ⟨keeps_create current point, rfl⟩
  rintro tr i - ⟨hkeeps, hclock⟩
  obtain ⟨hpost, -, hclock'⟩ := keeps_step i hkeeps
  rw [List.map_append, List.map_singleton, planOf_snoc]
  exact ⟨hpost, hclock' hclock⟩

/-- **A timeout is sent by the update whose tick is its deadline**, and by no other one, in the
order of the timeouts with this deadline; the counter may wrap around. The clock is ahead of the
ticks by the rounds that `skynet_updatetime` has still to make. -/
theorem timer_exact {tr : List (timers current point).Item} {i : (timers current point).Item}
    {T : Timer} (h : (timers current point).Run (tr ++ [i]) T) :
    i.out = i.ev.sends (planOf (tr.map Machine.Item.ev)) ∧
      T.time = (planOf ((tr ++ [i]).map Machine.Item.ev)).1 % 2 ^ 32 ∧
      T.current = current + (planOf ((tr ++ [i]).map Machine.Item.ev)).1 + T.rounds := by
  obtain ⟨hkeeps, hclock⟩ := run_keeps h
  exact ⟨(keeps_step i (run_keeps h.split.1).1).2.1, hkeeps.time, hclock⟩

/-- Two timeouts with one deadline, made at two ticks; the clock is two ticks ahead. -/
def twoTimeouts : List TimerOp :=
  [.timeout ⟨1, 5⟩ 2, .updatetime 12, .update, .timeout ⟨2, 6⟩ 1, .timeout ⟨3, 7⟩ 0, .update]

theorem timer_exact_twoTimeouts : ∃ (tr : List (timers 0 10).Item) (i : (timers 0 10).Item),
    (tr ++ [i]).map Machine.Item.ev = twoTimeouts ∧
      i.out = i.ev.sends (planOf (tr.map Machine.Item.ev)) ∧ i.out = [⟨1, 5⟩, ⟨2, 6⟩] := by
  have h : ((timers 0 10).items (timers 0 10).init twoTimeouts).map (fun tr =>
      decide (tr.map Machine.Item.ev = twoTimeouts ∧
        tr.getLast?.map Machine.Item.out = some [⟨1, 5⟩, ⟨2, 6⟩])) = some true := by
    decide +kernel
  obtain ⟨tr, hrun, hP⟩ := Machine.exists_run h
  obtain ⟨hev, hlast⟩ := of_decide_eq_true hP
  rcases List.eq_nil_or_concat' tr with rfl | ⟨a, i, rfl⟩
  · exact absurd hlast (by simp)
  · exact ⟨a, i, hev, (timer_exact hrun).1, by simpa using hlast⟩

end LsServer.Skynet
