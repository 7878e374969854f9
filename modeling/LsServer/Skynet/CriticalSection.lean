import LsServer.Skynet.Scheduler
import Mathlib.Logic.Function.Basic

/-!
# Critical sections (skynet/queue.lua)

`skynet.queue` makes a lock: a function that calls another one, `f`, when no other coroutine is in
an `f` of this lock. A coroutine that must wait is put into `thread_queue`. The last `f` of a
coroutine hands the lock to the first one there and wakes it; until that runs, the lock has a
`current_thread` but no calls (`ref = 0`). A coroutine may enter its own lock again.

A service has any number of locks, over one scheduler. An `f` may sleep, call `runTimeout` or enter
other locks, and it may raise.

`skynet.wakeup` looks at `sleep_session` only, so some other code can wake a coroutine that stands
in the line of a lock, and a second token of an earlier `skynet.wait` does the same when it is taken
out of `wakeup_queue` later: `open_channel` of clusterd.lua makes two when an address comes while it
waits for one. The lock then finds `ref` in use, its `assert` fails, and the coroutine stays in
`thread_queue`. `Item.Awaited` is what the results assume of the other wakers.

Out of scope: `skynet.killthread` of a coroutine that waits for a lock or is in its `f`, and a
`skynet.wait` with a token that is not the coroutine.

Results:
* `Item.did`: a step keeps the invariant;
* `critical_section`: one coroutine at a time, in the order in which they asked, none is forgotten,
  and the `assert` of the lock holds, if the others wake only whom they may.
-/

namespace LsServer.Skynet.CriticalSection

open LsServer.Lib

abbrev LockId := Nat

/-- The locals of `skynet.queue`. -/
structure Lock where
  currentThread : Option Thread
  ref : Int
  threadQueue : List Thread

/-- A service. `calls` are the locks whose `f` a coroutine is in, the innermost first; `waits` is
the lock in whose `skynet.wait` it is. -/
structure Service where
  sched : State
  lock : LockId → Lock
  calls : Thread → List LockId
  waits : Thread → Option LockId

/-- What happens next: a coroutine calls a lock; its innermost `f` returns or raises; anything else
that concerns the scheduler. -/
inductive Event
  | enter (k : Thread) (q : LockId)
  | leave (k : Thread) (ok : Bool)
  | other (e : Skynet.Event)
  deriving DecidableEq

/-- What a lock does: it calls `f`, it ends with the result of `f` or its error, its `assert`
fails. -/
inductive Act
  | entered (k : Thread) (q : LockId)
  | left (k : Thread) (q : LockId) (ok : Bool)
  | failed (k : Thread) (q : LockId)
  deriving DecidableEq

/-- Whom the event calls `skynet.wakeup` for. -/
def wakes : Skynet.Event → Option Thread
  | .wakeup k => some k
  | _ => none

/-- `current_thread = thread`, `ref = ref + 1`, and the call of `f`. -/
def acquire (s : Service) (k : Thread) (q : LockId) : Service × List Act :=
  ({ s with
      lock := Function.update s.lock q
        { s.lock q with currentThread := some k, ref := (s.lock q).ref + 1 }
      calls := Function.update s.calls k (q :: s.calls k) },
    [.entered k q])

/-- `xpcall_ret`, after the `f` that `k` is in. -/
def release (s : Service) (k : Thread) (q : LockId) (rest : List LockId) (ok : Bool) :
    Service × List Act :=
  let l := s.lock q
  let s := { s with calls := Function.update s.calls k rest }
  if l.ref - 1 = 0 then
    ({ s with
        lock := Function.update s.lock q ⟨l.threadQueue.head?, l.ref - 1, l.threadQueue.tail⟩
        sched :=
          match l.threadQueue.head? with
          | some j => wakeup s.sched j
          | none => s.sched },
      [.left k q ok])
  else ({ s with lock := Function.update s.lock q { l with ref := l.ref - 1 } }, [.left k q ok])

/-- `skynet.wait` has returned to the lock that `k` waits in. -/
def goOn (s : Service) (k : Thread) : Service × List Act :=
  match s.waits k with
  | none => (s, [])
  | some q =>
    let s := { s with waits := Function.update s.waits k none }
    if (s.lock q).ref = 0 then acquire s k q else (s, [.failed k q])

/-- One event, if it can happen: code runs in a coroutine that does not sleep. -/
def step (s : Service) : Event → Option (Service × List Act)
  | .enter k q =>
    if s.sched.waiting.get k ≠ none then none
    else if (s.lock q).currentThread = none ∨ (s.lock q).currentThread = some k then
      some (acquire s k q)
    else
      (Skynet.step s.sched (.wait k)).map fun x =>
        ({ s with
            sched := x.1
            lock := Function.update s.lock q
              { s.lock q with threadQueue := (s.lock q).threadQueue ++ [k] }
            waits := Function.update s.waits k (some q) }, [])
  | .leave k ok =>
    if s.sched.waiting.get k ≠ none then none
    else
      match s.calls k with
      | [] => none
      | q :: rest => some (release s k q rest ok)
  | .other .dispatchWakeup =>
    (Skynet.step s.sched .dispatchWakeup).map fun x =>
      let s' := { s with sched := x.1 }
      match s.sched.wakeupQueue.head? with
      | some k => if x.1.waiting.get k = none then goOn s' k else (s', [])
      | none => (s', [])
  | .other (.wakeup k) => some ({ s with sched := wakeup s.sched k }, [])
  | .other e => (Skynet.step s.sched e).map fun x => ({ s with sched := x.1 }, [])

/-- **A service with locks.** -/
def services : Machine Service Event Act where
  init := ⟨Skynet.machine.init, fun _ => ⟨none, 0, []⟩, fun _ => [], fun _ => none⟩
  step := step

/-- A step of the service. -/
abbrev Item := services.Item

/-- **What the others may do**: they call `skynet.wakeup` for a coroutine that does not sleep, which
does nothing, or for one that is in a `skynet.wait` outside of the locks and has not been woken. -/
def Item.Awaited (i : Item) : Prop :=
  match i.ev with
  | .other (.wakeup k) => i.pre.sched.sleepSession.get k = none ∨
      i.pre.sched.waiting.get k = some .wait ∧ k ∉ i.pre.sched.wakeupQueue ∧ i.pre.waits k = none
  | _ => True

instance (i : Item) : Decidable i.Awaited := by
  unfold Item.Awaited
  split <;> infer_instance

/-- What taking a lock changes. -/
structure Acquired (s t : Service) (k : Thread) (q : LockId) : Prop where
  sched : t.sched = s.sched
  waits : t.waits = s.waits
  self : t.lock q = { s.lock q with currentThread := some k, ref := (s.lock q).ref + 1 }
  other : ∀ p, p ≠ q → t.lock p = s.lock p
  callsSelf : t.calls k = q :: s.calls k
  calls : ∀ j, j ≠ k → t.calls j = s.calls j

theorem acquire_spec (s : Service) (k : Thread) (q : LockId) :
    Acquired s (acquire s k q).1 k q where
  sched := rfl
  waits := rfl
  self := Function.update_self ..
  other := fun _ hp => Function.update_of_ne hp ..
  callsSelf := Function.update_self ..
  calls := fun _ hj => Function.update_of_ne hj ..

/-- What the end of an `f` changes: the lock is kept, or passed on. -/
structure Released (s t : Service) (k : Thread) (q : LockId) (rest : List LockId) : Prop where
  waits : t.waits = s.waits
  other : ∀ p, p ≠ q → t.lock p = s.lock p
  callsSelf : t.calls k = rest
  calls : ∀ j, j ≠ k → t.calls j = s.calls j
  kept : (s.lock q).ref - 1 ≠ 0 →
    t.sched = s.sched ∧ t.lock q = { s.lock q with ref := (s.lock q).ref - 1 }
  passed : (s.lock q).ref - 1 = 0 →
    t.lock q = ⟨(s.lock q).threadQueue.head?, 0, (s.lock q).threadQueue.tail⟩ ∧
    ((s.lock q).threadQueue.head? = none → t.sched = s.sched) ∧
    ∀ j, (s.lock q).threadQueue.head? = some j → t.sched = wakeup s.sched j

theorem release_spec (s : Service) (k : Thread) (q : LockId) (rest : List LockId) (ok : Bool) :
    Released s (release s k q rest ok).1 k q rest := by
  unfold release
  dsimp only
  split
  · rename_i hzero
    refine ⟨rfl, fun _ hp => Function.update_of_ne hp .., Function.update_self ..,
      fun _ hj => Function.update_of_ne hj .., fun hne => absurd hzero hne, fun _ => ⟨?_, ?_, ?_⟩⟩
    · simp [hzero]
    · intro hnone
      simp [hnone]
    · intro j hsome
      simp [hsome]
  · rename_i hne
    exact ⟨rfl, fun _ hp => Function.update_of_ne hp .., Function.update_self ..,
      fun _ hj => Function.update_of_ne hj .., fun _ => ⟨rfl, Function.update_self ..⟩,
      fun hzero => absurd hzero hne⟩

/-! ## The scheduler under the locks -/

/-- What a step of the scheduler does to a coroutine in `skynet.wait`: it stays there, or it is the
one that is woken. -/
theorem moved_wait {s s' : State} {e : Skynet.Event} {acts : List Skynet.Act}
    (h : Moved s e s' acts) (hs : Consistent s) {k : Thread}
    (hk : s.waiting.get k = some .wait) :
    (s'.waiting.get k = some .wait ∧
      (k ∈ s'.wakeupQueue ↔ k ∈ s.wakeupQueue ∨ wakes e = some k) ∧
      (e = .dispatchWakeup → s.wakeupQueue.head? ≠ some k)) ∨
    (s'.waiting.get k = none ∧ e = .dispatchWakeup ∧ s.wakeupQueue = k :: s'.wakeupQueue) := by
  have hne : ∀ j, s.waiting.get j ≠ some .wait → k ≠ j := fun j hj heq => hj (heq ▸ hk)
  cases h with
  | runTimeout hj =>
    refine Or.inl ⟨?_, by simp [runTimeout, suspendSleep, wakes], by simp⟩
    exact (Table.get_set_ne (hne _ (by simp [hj]))).trans hk
  | sleep hj =>
    refine Or.inl ⟨?_, by simp [suspendSleep, wakes], by simp⟩
    exact (Table.get_set_ne (hne _ (by simp [hj]))).trans hk
  | wait hj =>
    refine Or.inl ⟨?_, by simp [suspendSleep, wakes], by simp⟩
    exact (Table.get_set_ne (hne _ (by simp [hj]))).trans hk
  | @wakeup j hj hq =>
    rw [(hs.wakeup hj hq).1]
    exact Or.inl ⟨hk, by simp [wakes, eq_comm], by simp⟩
  | @finish q r x hx hr =>
    rw [hs.finish_eq hx]
    refine Or.inl ⟨hk, ?_, by simp⟩
    have hco : x.co ≠ some k := fun hco => by
      rw [hs.owner q x k hx hco] at hk
      exact absurd hk (by simp)
    simp [wakes, hco]
  | @stale j ks hq hj =>
    have hkj : k ≠ j := by
      rintro rfl
      obtain ⟨n, hn⟩ := hs.session k _ hk
      exact absurd (hj.symm.trans hn) (by simp)
    exact Or.inl ⟨hk, by simp [hq, hkj, wakes], by simp [hq, Ne.symm hkj]⟩
  | @woken j k' ks n w hq hn ht hw t hset =>
    rw [goOn_waiting, goOn_wakeupQueue]
    by_cases hkj : k = j
    · subst hkj
      exact Or.inr ⟨Table.get_del_self _ _, rfl, hq⟩
    · exact Or.inl ⟨(Table.get_del_ne hkj).trans hk, by simp [hq, hkj, wakes],
        by simp [hq, Ne.symm hkj]⟩
  | broken hq ht => exact Or.inl ⟨hk, by simp [wakes], by simp⟩
  | fired hq ht hw hwait =>
    rw [goOn_waiting, goOn_wakeupQueue]
    refine Or.inl ⟨?_, by simp [wakes], by simp⟩
    exact (Table.get_del_ne (hne _ (by simpa [hw] using hwait))).trans hk

/-! ## The invariant -/

/-- **The invariant of the locks.** -/
structure Inv (s : Service) : Prop where
  consistent : Consistent s.sched
  asleep : ∀ k q, s.waits k = some q → s.sched.waiting.get k = some .wait ∧
    (k ∈ s.sched.wakeupQueue ↔ (s.lock q).currentThread = some k) ∧
    ((s.lock q).currentThread = some k ∨ k ∈ (s.lock q).threadQueue)
  queue : ∀ q, ∀ k ∈ (s.lock q).threadQueue, s.waits k = some q ∧
    (s.lock q).currentThread ≠ some k
  nodup : ∀ q, (s.lock q).threadQueue.Nodup
  free : ∀ q, (s.lock q).currentThread = none → (s.lock q).threadQueue = []
  inside : ∀ k q, q ∈ s.calls k → (s.lock q).currentThread = some k ∧ s.waits k ≠ some q
  ref : ∀ q, (s.lock q).ref = match (s.lock q).currentThread with
    | none => 0
    | some k => ((s.calls k).count q : Int)
  handed : ∀ k q, (s.lock q).currentThread = some k → q ∉ s.calls k → s.waits k = some q

theorem inv_init : Inv services.init := by
  refine ⟨consistent_init, ?_, ?_, ?_, ?_, ?_, ?_, ?_⟩ <;> simp [services]

/-- A coroutine that runs waits in no lock. -/
theorem Inv.awake {s : Service} (hs : Inv s) {k : Thread} (hk : s.sched.waiting.get k = none) :
    s.waits k = none := by
  cases hw : s.waits k with
  | none => rfl
  | some q => exact absurd ((hs.asleep k q hw).1.symm.trans hk) (by simp)

/-- The coroutines that wait in locks do not notice. -/
def Unnoticed (s : Service) (sched : State) (k : Option Thread) : Prop :=
  ∀ j q, some j ≠ k → s.waits j = some q → sched.waiting.get j = some .wait ∧
    (j ∈ sched.wakeupQueue ↔ j ∈ s.sched.wakeupQueue)

/-- The scheduler moves, the locks do not. -/
theorem Inv.of_sched {s : Service} (hs : Inv s) {sched : State} (hcons : Consistent sched)
    (h : Unnoticed s sched none) : Inv { s with sched := sched } := by
  refine { hs with consistent := hcons, asleep := fun k q hk => ?_ }
  obtain ⟨-, hcur, hor⟩ := hs.asleep k q hk
  obtain ⟨hwait, hmem⟩ := h k q (by simp) hk
  exact ⟨hwait, hmem.trans hcur, hor⟩

/-- **The lock is taken** by a coroutine that it is free for, or that it has been handed to. -/
theorem Inv.acquired {s : Service} (hs : Inv s) {k : Thread} {q : LockId} {sched : State}
    (hcons : Consistent sched) (h : Unnoticed s sched (some k))
    (hcur : (s.lock q).currentThread = none ∨ (s.lock q).currentThread = some k)
    (hk : s.waits k = none ∨ s.waits k = some q ∧ (s.lock q).currentThread = some k) :
    Inv (acquire { s with sched := sched, waits := Function.update s.waits k none } k q).1 := by
  -- `k` is in no queue
  have hnot : ∀ p, k ∉ (s.lock p).threadQueue := by
    intro p hmem
    obtain ⟨hw, hne⟩ := hs.queue p k hmem
    rcases hk with hk | ⟨hk, hcur⟩
    · exact absurd (hk.symm.trans hw) (by simp)
    · obtain rfl := Option.some.inj (hk.symm.trans hw)
      exact hne hcur
  have hwaits : ∀ j p, Function.update s.waits k none j = some p → j ≠ k ∧ s.waits j = some p := by
    intro j p hj
    by_cases hjk : j = k
    · rw [hjk, Function.update_self] at hj
      exact absurd hj (by simp)
    · exact ⟨hjk, by rwa [Function.update_of_ne hjk] at hj⟩
  have hcount : (s.lock q).ref = ((s.calls k).count q : Int) := by
    rw [hs.ref]
    rcases hcur with hnone | hsome
    · have hout : q ∉ s.calls k := fun hmem => by
        rw [(hs.inside k q hmem).1] at hnone
        exact absurd hnone (by simp)
      rw [hnone, List.count_eq_zero_of_not_mem hout]
      rfl
    · rw [hsome]
  obtain ⟨hsched, hwt, hlock, hother, hcallsk, hcalls⟩ :=
    acquire_spec { s with sched := sched, waits := Function.update s.waits k none } k q
  generalize (acquire { s with
    sched := sched, waits := Function.update s.waits k none } k q).1 = t at *
  dsimp only at hsched hwt hlock hother hcallsk hcalls
  have hself : (t.lock q).currentThread = some k := by rw [hlock]
  have href : (t.lock q).ref = (s.lock q).ref + 1 := by rw [hlock]
  have hqueue : ∀ p, (t.lock p).threadQueue = (s.lock p).threadQueue := by
    intro p
    by_cases hp : p = q
    · rw [hp, hlock]
    · rw [hother p hp]
  -- for another coroutine no lock changes hands
  have hcurrent : ∀ p j, j ≠ k →
      ((t.lock p).currentThread = some j ↔ (s.lock p).currentThread = some j) := by
    intro p j hj
    by_cases hp : p = q
    · subst hp
      rw [hself]
      constructor
      · exact fun heq => absurd (Option.some.inj heq).symm hj
      · rcases hcur with hnone | hsome
        · exact fun heq => absurd (hnone.symm.trans heq) (by simp)
        · exact fun heq => absurd (Option.some.inj (hsome.symm.trans heq)).symm hj
    · rw [hother p hp]
  refine ⟨hsched ▸ hcons, fun j p hj => ?_, fun p j hj => ?_, fun p => ?_, fun p hp => ?_,
    fun j p hj => ?_, fun p => ?_, fun j p hj hout => ?_⟩
  · rw [hwt] at hj
    obtain ⟨hjk, hw⟩ := hwaits j p hj
    obtain ⟨-, hmem, hor⟩ := hs.asleep j p hw
    obtain ⟨hwait, hkept⟩ := h j p (by simpa using hjk) hw
    rw [hsched, hcurrent p j hjk, hqueue]
    exact ⟨hwait, hkept.trans hmem, hor⟩
  · rw [hqueue] at hj
    obtain ⟨hw, hne⟩ := hs.queue p j hj
    have hjk : j ≠ k := fun hjk => hnot p (hjk ▸ hj)
    rw [hwt, Function.update_of_ne hjk, ne_eq, hcurrent p j hjk]
    exact ⟨hw, hne⟩
  · rw [hqueue]
    exact hs.nodup p
  · rw [hqueue]
    by_cases hpq : p = q
    · rw [hpq, hself] at hp
      exact absurd hp (by simp)
    · rw [hother p hpq] at hp
      exact hs.free p hp
  · by_cases hjk : j = k
    · subst hjk
      rw [hwt, Function.update_self]
      refine ⟨?_, by simp⟩
      by_cases hpq : p = q
      · rw [hpq, hself]
      · rw [hcallsk, List.mem_cons] at hj
        rw [hother p hpq]
        exact (hs.inside j p (hj.resolve_left hpq)).1
    · rw [hcalls j hjk] at hj
      rw [hcurrent p j hjk, hwt, Function.update_of_ne hjk]
      exact hs.inside j p hj
  · by_cases hpq : p = q
    · subst hpq
      rw [hself, href, hcount]
      dsimp only
      rw [hcallsk, List.count_cons_self]
      rfl
    · rw [hother p hpq, hs.ref p]
      cases hc : (s.lock p).currentThread with
      | none => rfl
      | some j =>
        dsimp only
        by_cases hjk : j = k
        · rw [hjk, hcallsk, List.count_cons_of_ne (Ne.symm hpq)]
        · rw [hcalls j hjk]
  · by_cases hjk : j = k
    · subst hjk
      rw [hcallsk, List.mem_cons, not_or] at hout
      rw [hother p hout.1] at hj
      have hw := hs.handed j p hj hout.2
      rcases hk with hk | ⟨hk, -⟩
      · exact absurd (hk.symm.trans hw) (by simp)
      · exact absurd (Option.some.inj (hk.symm.trans hw)).symm hout.1
    · rw [hcurrent p j hjk] at hj
      rw [hcalls j hjk] at hout
      rw [hwt, Function.update_of_ne hjk]
      exact hs.handed j p hj hout

section released

variable {s t : Service} {k : Thread} {q : LockId} {rest : List LockId}

/-- The end of an inner call of the lock. -/
theorem Inv.kept (hs : Inv s) (hcur : (s.lock q).currentThread = some k)
    (hcalls : s.calls k = q :: rest) (h : Released s t k q rest) (hne : (s.lock q).ref - 1 ≠ 0)
    (hcount : (s.lock q).ref - 1 = (rest.count q : Int))
    (hmem : ∀ j p, p ≠ q → (p ∈ t.calls j ↔ p ∈ s.calls j))
    (href : ∀ p, p ≠ q → (t.lock p).ref = match (t.lock p).currentThread with
      | none => 0
      | some j => ((t.calls j).count p : Int)) : Inv t := by
  obtain ⟨hsched, hlock⟩ := h.kept hne
  have hin : q ∈ t.calls k := by
    rw [h.callsSelf, ← List.count_pos_iff]
    omega
  -- the lock changes nothing but its counter
  have hcurrent : ∀ p, (t.lock p).currentThread = (s.lock p).currentThread := by
    intro p
    by_cases hp : p = q
    · rw [hp, hlock]
    · rw [h.other p hp]
  have hqueue : ∀ p, (t.lock p).threadQueue = (s.lock p).threadQueue := by
    intro p
    by_cases hp : p = q
    · rw [hp, hlock]
    · rw [h.other p hp]
  refine ⟨hsched ▸ hs.consistent, fun j p hj => ?_, fun p j hj => ?_, fun p => ?_, fun p hp => ?_,
    fun j p hj => ?_, fun p => ?_, fun j p hj hnot => ?_⟩
  · rw [h.waits] at hj
    rw [hsched, hcurrent, hqueue]
    exact hs.asleep j p hj
  · rw [hqueue] at hj
    rw [h.waits, hcurrent]
    exact hs.queue p j hj
  · rw [hqueue]
    exact hs.nodup p
  · rw [hcurrent] at hp
    rw [hqueue]
    exact hs.free p hp
  · rw [hcurrent, h.waits]
    refine hs.inside j p ?_
    by_cases hp : p = q
    · by_cases hjk : j = k
      · rw [hjk, hp, hcalls]
        exact List.mem_cons_self ..
      · rw [h.calls j hjk] at hj
        exact hj
    · exact (hmem j p hp).mp hj
  · by_cases hp : p = q
    · subst hp
      rw [hcurrent, hcur, hlock]
      dsimp only
      rw [hcount, h.callsSelf]
    · exact href p hp
  · rw [hcurrent] at hj
    rw [h.waits]
    by_cases hp : p = q
    · subst hp
      obtain rfl := Option.some.inj (hj.symm.trans hcur)
      exact absurd hin hnot
    · exact hs.handed j p hj fun hin' => hnot ((hmem j p hp).mpr hin')

/-- The end of the outermost call of the lock. -/
theorem Inv.passed (hs : Inv s) (hcur : (s.lock q).currentThread = some k)
    (h : Released s t k q rest) (hzero : (s.lock q).ref - 1 = 0) (hcount : rest.count q = 0)
    (hmem : ∀ j p, p ≠ q → (p ∈ t.calls j ↔ p ∈ s.calls j))
    (href : ∀ p, p ≠ q → (t.lock p).ref = match (t.lock p).currentThread with
      | none => 0
      | some j => ((t.calls j).count p : Int))
    (hout : ∀ j, j ≠ k → q ∉ s.calls j) (hk : s.waits k = none) : Inv t := by
  obtain ⟨hlock, hnone, hsome⟩ := h.passed hzero
  have hnobody : ∀ j, q ∉ t.calls j := by
    intro j
    by_cases hj : j = k
    · rw [hj, h.callsSelf]
      exact List.count_eq_zero.mp hcount
    · rw [h.calls j hj]
      exact hout j hj
  have hhead : ∀ j, (s.lock q).threadQueue.head? = some j → j ∈ (s.lock q).threadQueue :=
    fun j hj => List.mem_of_mem_head? hj
  -- only the one that gets the lock is woken
  have hsched : Consistent t.sched ∧ ∀ j p, s.waits j = some p →
      t.sched.waiting.get j = some .wait ∧ (j ∈ t.sched.wakeupQueue ↔
        j ∈ s.sched.wakeupQueue ∨ (s.lock q).threadQueue.head? = some j) := by
    cases hhd : (s.lock q).threadQueue.head? with
    | none =>
      rw [hnone hhd]
      exact ⟨hs.consistent, fun j p hj => ⟨(hs.asleep j p hj).1, by simp⟩⟩
    | some x =>
      obtain ⟨hwx, hnx⟩ := hs.queue q x (hhead x hhd)
      obtain ⟨hwait, hwoken, -⟩ := hs.asleep x q hwx
      obtain ⟨heq, hcons⟩ := hs.consistent.wakeup hwait fun hm => hnx (hwoken.mp hm)
      rw [hsome x hhd]
      refine ⟨hcons, fun j p hj => ?_⟩
      rw [heq]
      exact ⟨(hs.asleep j p hj).1, by simp [eq_comm]⟩
  obtain ⟨hcons, hwoken⟩ := hsched
  refine ⟨hcons, fun j p hj => ?_, fun p j hj => ?_, fun p => ?_, fun p hp => ?_,
    fun j p hj => ?_, fun p => ?_, fun j p hj hnot => ?_⟩
  · rw [h.waits] at hj
    obtain ⟨hwait, hmemw⟩ := hwoken j p hj
    obtain ⟨-, hold, hor⟩ := hs.asleep j p hj
    refine ⟨hwait, ?_⟩
    by_cases hp : p = q
    · subst hp
      have hjk : (s.lock p).currentThread ≠ some j := by
        rw [hcur]
        exact fun heq => absurd (hj.symm.trans (Option.some.inj heq ▸ hk)) (by simp)
      rw [hlock, hmemw, hold]
      refine ⟨by simp [hjk], ?_⟩
      have hin := hor.resolve_left hjk
      cases hqueue : (s.lock p).threadQueue with
      | nil => exact absurd (hqueue ▸ hin) (by simp)
      | cons x xs =>
        rw [hqueue, List.mem_cons] at hin
        exact hin.imp (fun heq => by rw [heq]; rfl) id
    · rw [h.other p hp, hmemw, hold]
      refine ⟨⟨fun hx => hx.resolve_right fun hhd => ?_, Or.inl⟩, hor⟩
      exact hp (Option.some.inj (hj.symm.trans (hs.queue q j (hhead j hhd)).1))
  · rw [h.waits]
    by_cases hp : p = q
    · subst hp
      rw [hlock] at hj ⊢
      have hin := List.mem_of_mem_tail hj
      refine ⟨(hs.queue p j hin).1, fun hhd => ?_⟩
      have hnodup := hs.nodup p
      cases hqueue : (s.lock p).threadQueue with
      | nil => exact absurd (hqueue ▸ hin) (by simp)
      | cons x xs =>
        rw [hqueue] at hnodup hj hhd
        obtain rfl := Option.some.inj hhd
        exact (List.nodup_cons.mp hnodup).1 hj
    · rw [h.other p hp] at hj ⊢
      exact hs.queue p j hj
  · by_cases hp : p = q
    · rw [hp, hlock]
      exact (hs.nodup q).tail
    · rw [h.other p hp]
      exact hs.nodup p
  · by_cases hpq : p = q
    · subst hpq
      rw [hlock] at hp ⊢
      rw [List.head?_eq_none_iff.mp hp]
      rfl
    · rw [h.other p hpq] at hp ⊢
      exact hs.free p hp
  · by_cases hp : p = q
    · exact absurd (hp ▸ hj) (hnobody j)
    · rw [h.other p hp, h.waits]
      exact hs.inside j p ((hmem j p hp).mp hj)
  · by_cases hp : p = q
    · subst hp
      rw [hlock]
      cases (s.lock p).threadQueue.head? with
      | none => rfl
      | some j =>
        dsimp only
        rw [List.count_eq_zero_of_not_mem (hnobody j)]
        rfl
    · exact href p hp
  · rw [h.waits]
    by_cases hp : p = q
    · subst hp
      rw [hlock] at hj
      exact (hs.queue p j (hhead j hj)).1
    · rw [h.other p hp] at hj
      exact hs.handed j p hj fun hin => hnot ((hmem j p hp).mpr hin)

end released

/-- **The end of an `f`**: the lock is kept, or free, or handed to the first one that waits. -/
theorem Inv.released {s t : Service} (hs : Inv s) {k : Thread} {q : LockId} {rest : List LockId}
    (hcalls : s.calls k = q :: rest) (h : Released s t k q rest) (hk : s.waits k = none) :
    Inv t := by
  have hcur : (s.lock q).currentThread = some k := (hs.inside k q (by simp [hcalls])).1
  have hcount : (s.lock q).ref - 1 = (rest.count q : Int) := by
    rw [hs.ref, hcur]
    dsimp only
    rw [hcalls, List.count_cons_self]
    simp
  -- the coroutines are in the same calls of the other locks
  have hmem : ∀ j p, p ≠ q → (p ∈ t.calls j ↔ p ∈ s.calls j) := by
    intro j p hpq
    by_cases hj : j = k
    · rw [hj, h.callsSelf, hcalls, List.mem_cons]
      simp [hpq]
    · rw [h.calls j hj]
  have hcountOther : ∀ j p, p ≠ q → (t.calls j).count p = (s.calls j).count p := by
    intro j p hpq
    by_cases hj : j = k
    · rw [hj, h.callsSelf, hcalls, List.count_cons_of_ne (Ne.symm hpq)]
    · rw [h.calls j hj]
  have hrefOther : ∀ p, p ≠ q → (t.lock p).ref = match (t.lock p).currentThread with
      | none => 0
      | some j => ((t.calls j).count p : Int) := by
    intro p hpq
    rw [h.other p hpq, hs.ref]
    cases (s.lock p).currentThread with
    | none => rfl
    | some j =>
      dsimp only
      rw [hcountOther j p hpq]
  have hout : ∀ j, j ≠ k → q ∉ s.calls j := by
    intro j hj hq
    exact hj (Option.some.inj ((hs.inside j q hq).1.symm.trans hcur))
  by_cases hzero : (s.lock q).ref - 1 = 0
  · exact hs.passed hcur h hzero (by rw [hzero] at hcount; exact_mod_cast hcount.symm) hmem
      hrefOther hout hk
  · exact hs.kept hcur hcalls h hzero hcount hmem hrefOther

/-- **A coroutine waits** in a lock that another one has. -/
theorem Inv.waiting {s : Service} (hs : Inv s) {k : Thread} {q : LockId}
    (hk : s.sched.waiting.get k = none) (hne : (s.lock q).currentThread ≠ none)
    (hother : (s.lock q).currentThread ≠ some k) :
    Inv { s with
      sched := suspendSleep s.sched k .wait
      lock := Function.update s.lock q
        { s.lock q with threadQueue := (s.lock q).threadQueue ++ [k] }
      waits := Function.update s.waits k (some q) } := by
  have hwk := hs.awake hk
  have hnotin : ∀ p, k ∉ (s.lock p).threadQueue := fun p hmem =>
    absurd (hwk.symm.trans (hs.queue p k hmem).1) (by simp)
  have hnotwoken : k ∉ s.sched.wakeupQueue := by
    intro hmem
    rcases hs.consistent.queued k hmem with hw | ⟨_, _, hw, -⟩ <;>
      exact absurd (hk.symm.trans hw) (by simp)
  have hcons : Consistent (suspendSleep s.sched k .wait) :=
    hs.consistent.suspendSleep hk (.inr ⟨by simp, rfl, rfl⟩)
  have hcurrent : ∀ p, (Function.update s.lock q
      { s.lock q with threadQueue := (s.lock q).threadQueue ++ [k] } p).currentThread =
        (s.lock p).currentThread := by
    intro p
    by_cases hp : p = q
    · rw [hp, Function.update_self]
    · rw [Function.update_of_ne hp]
  have hqueue : ∀ p j, j ∈ (Function.update s.lock q
      { s.lock q with threadQueue := (s.lock q).threadQueue ++ [k] } p).threadQueue ↔
        j ∈ (s.lock p).threadQueue ∨ p = q ∧ j = k := by
    intro p j
    by_cases hp : p = q
    · rw [hp, Function.update_self]
      simp
    · rw [Function.update_of_ne hp]
      simp [hp]
  have hwaits : ∀ j, j ≠ k → Function.update s.waits k (some q) j = s.waits j :=
    fun j hj => Function.update_of_ne hj ..
  refine ⟨hcons, fun j p hj => ?_, fun p j hj => ?_, fun p => ?_, fun p hp => ?_,
    fun j p hj => ?_, fun p => ?_, fun j p hj hnot => ?_⟩
  · dsimp only at hj ⊢
    rw [hcurrent, hqueue]
    by_cases hjk : j = k
    · subst hjk
      rw [Function.update_self] at hj
      obtain rfl := Option.some.inj hj
      exact ⟨Table.get_set_self _ _ _, ⟨fun hm => absurd hm hnotwoken, fun hc => absurd hc hother⟩,
        Or.inr (Or.inr ⟨rfl, rfl⟩)⟩
    · rw [hwaits j hjk] at hj
      obtain ⟨hwait, hmem, hor⟩ := hs.asleep j p hj
      exact ⟨(Table.get_set_ne hjk).trans hwait, hmem, hor.imp_right Or.inl⟩
  · dsimp only at hj ⊢
    rw [hcurrent]
    rcases (hqueue p j).mp hj with hj | ⟨rfl, rfl⟩
    · rw [hwaits j fun hjk => hnotin p (hjk ▸ hj)]
      exact hs.queue p j hj
    · exact ⟨Function.update_self .., hother⟩
  · dsimp only
    by_cases hp : p = q
    · rw [hp, Function.update_self]
      refine List.nodup_append.mpr ⟨hs.nodup q, List.nodup_singleton k, ?_⟩
      rintro a ha b hb rfl
      exact hnotin q (List.mem_singleton.mp hb ▸ ha)
    · rw [Function.update_of_ne hp]
      exact hs.nodup p
  · dsimp only at hp ⊢
    rw [hcurrent] at hp
    have hpq : p ≠ q := fun hpq => hne (hpq ▸ hp)
    rw [Function.update_of_ne hpq]
    exact hs.free p hp
  · dsimp only at hj ⊢
    obtain ⟨hc, hw⟩ := hs.inside j p hj
    rw [hcurrent]
    refine ⟨hc, ?_⟩
    by_cases hjk : j = k
    · subst hjk
      rw [Function.update_self]
      rintro heq
      obtain rfl := Option.some.inj heq
      exact hother hc
    · rwa [hwaits j hjk]
  · dsimp only
    rw [hcurrent, ← hs.ref]
    by_cases hp : p = q
    · rw [hp, Function.update_self]
    · rw [Function.update_of_ne hp]
  · dsimp only at hj ⊢
    rw [hcurrent] at hj
    have hw := hs.handed j p hj hnot
    rwa [hwaits j fun hjk => absurd (hwk.symm.trans (hjk ▸ hw)) (by simp)]

/-! ## A step -/

/-- A step of the scheduler is no step of a lock, unless it wakes a coroutine that waits there. -/
theorem unnoticed_of_moved {s : Service} (hs : Inv s) {sched : State} {e : Skynet.Event}
    {acts : List Skynet.Act} (h : Moved s.sched e sched acts)
    (hwakes : (wakes e).bind s.waits = none) {k : Option Thread}
    (hk : ∀ j q, some j ≠ k → s.waits j = some q → e = .dispatchWakeup →
      s.sched.wakeupQueue.head? ≠ some j) : Unnoticed s sched k := by
  intro j q hjk hj
  rcases moved_wait h hs.consistent (hs.asleep j q hj).1 with ⟨hwait, hmem, -⟩ | ⟨-, he, hq⟩
  · refine ⟨hwait, hmem.trans ⟨fun hor => hor.resolve_right fun hw => ?_, Or.inl⟩⟩
    rw [hw, Option.bind_some, hj] at hwakes
    exact absurd hwakes (by simp)
  · exact absurd (by rw [hq]; rfl) (hk j q hjk hj he)

/-- What a step does to the locks. -/
inductive Did (s t : Service) : Event → List Act → Prop
  | entered {k : Thread} {q : LockId} (hk : s.waits k = none)
    (hcur : (s.lock q).currentThread = none ∨ (s.lock q).currentThread = some k)
    (h : Acquired s t k q) : Did s t (.enter k q) [.entered k q]
  | waiting {k : Thread} {q : LockId} (hk : s.waits k = none)
    (hother : (s.lock q).currentThread ≠ some k)
    (hlock : t.lock = Function.update s.lock q
      { s.lock q with threadQueue := (s.lock q).threadQueue ++ [k] })
    (hcalls : t.calls = s.calls) (hwaits : t.waits = Function.update s.waits k (some q)) :
    Did s t (.enter k q) []
  | left {k : Thread} {q : LockId} {rest : List LockId} {ok : Bool} (hk : s.waits k = none)
    (hcalls : s.calls k = q :: rest) (h : Released s t k q rest) :
    Did s t (.leave k ok) [.left k q ok]
  | quiet {e : Skynet.Event} (hlock : t.lock = s.lock) (hcalls : t.calls = s.calls)
    (hwaits : t.waits = s.waits) : Did s t (.other e) []
  | woken {k : Thread} {q : LockId} {sched : State} (hk : s.waits k = some q)
    (hcur : (s.lock q).currentThread = some k)
    (h : Acquired { s with sched := sched, waits := Function.update s.waits k none } t k q) :
    Did s t (.other .dispatchWakeup) [.entered k q]

/-- A coroutine goes on after `skynet.wait`: the lock is its own, and the `assert` holds. -/
theorem did_goOn {s : Service} (hs : Inv s) {sched : State} {acts : List Skynet.Act} {k : Thread}
    (h : Moved s.sched .dispatchWakeup sched acts) (hhead : s.sched.wakeupQueue.head? = some k)
    (hcons : Consistent sched) :
    Inv (goOn { s with sched := sched } k).1 ∧
      Did s (goOn { s with sched := sched } k).1 (.other .dispatchWakeup)
        (goOn { s with sched := sched } k).2 := by
  have hunnoticed : Unnoticed s sched (some k) := by
    refine unnoticed_of_moved hs h rfl fun j q hjk _ _ heq => ?_
    exact hjk (heq.symm.trans hhead)
  cases hw : s.waits k with
  | none =>
    have heq : goOn { s with sched := sched } k = ({ s with sched := sched }, []) := by
      simp [goOn, hw]
    rw [heq]
    refine ⟨hs.of_sched hcons fun j q _ hj => hunnoticed j q (fun hjk => ?_) hj,
      .quiet rfl rfl rfl⟩
    rw [Option.some.inj hjk, hw] at hj
    exact absurd hj (by simp)
  | some q =>
    have hmem : k ∈ s.sched.wakeupQueue := List.mem_of_mem_head? hhead
    have hcur := (hs.asleep k q hw).2.1.mp hmem
    have hzero : (s.lock q).ref = 0 := by
      rw [hs.ref, hcur]
      dsimp only
      rw [List.count_eq_zero_of_not_mem fun hin => (hs.inside k q hin).2 hw]
      rfl
    have heq : goOn { s with sched := sched } k =
        acquire { s with sched := sched, waits := Function.update s.waits k none } k q := by
      simp [goOn, hw, hzero]
    rw [heq]
    exact ⟨hs.acquired hcons hunnoticed (.inr hcur) (.inr ⟨hw, hcur⟩),
      .woken hw hcur (acquire_spec _ k q)⟩

/-- **A step keeps the invariant.** -/
theorem Item.did (i : Item) (hw : i.Awaited) (hs : Inv i.pre) :
    Inv i.post ∧ Did i.pre i.post i.ev i.out := by
  have h : step i.pre i.ev = some (i.post, i.out) := i.ok
  unfold Item.Awaited at hw
  generalize i.pre = s, i.ev = e, i.post = t, i.out = out at h hs hw
  -- a step of the scheduler
  have hsched : ∀ {e' sched acts}, Skynet.step s.sched e' = some (sched, acts) →
      Moved s.sched e' sched acts ∧ Consistent sched := fun {e' sched acts} hstep =>
    let j : Skynet.Item := ⟨s.sched, e', sched, acts, hstep⟩
    ⟨j.moved, j.consistent hs.consistent⟩
  cases e with
  | enter k q =>
    simp only [step] at h
    split at h
    · exact absurd h (by simp)
    · rename_i hk
      rw [not_not] at hk
      have hwk := hs.awake hk
      split at h
      · rename_i hcur
        obtain ⟨rfl, rfl⟩ := Prod.mk.inj (Option.some.inj h)
        have hsame : Function.update s.waits k none = s.waits := by
          rw [← hwk, Function.update_eq_self]
        have hinv := hs.acquired hs.consistent (fun j p _ hj => ⟨(hs.asleep j p hj).1, Iff.rfl⟩)
          hcur (.inl hwk)
        rw [hsame] at hinv
        exact ⟨hinv, .entered hwk hcur (acquire_spec s k q)⟩
      · rename_i hcur
        rw [not_or] at hcur
        rw [Skynet.step, if_pos hk, Option.map_some] at h
        obtain ⟨rfl, rfl⟩ := Prod.mk.inj (Option.some.inj h)
        exact ⟨hs.waiting hk hcur.1 hcur.2, .waiting hwk hcur.2 rfl rfl rfl⟩
  | leave k ok =>
    simp only [step] at h
    split at h
    · exact absurd h (by simp)
    · rename_i hk
      rw [not_not] at hk
      split at h
      · exact absurd h (by simp)
      · rename_i q rest hcalls
        have hrel := release_spec s k q rest ok
        rw [Option.some.inj h] at hrel
        have hout : out = [.left k q ok] := by
          have hsnd : (release s k q rest ok).2 = out := congrArg Prod.snd (Option.some.inj h)
          rw [← hsnd, release]
          dsimp only
          split <;> rfl
        rw [hout]
        exact ⟨hs.released hcalls hrel (hs.awake hk), .left (hs.awake hk) hcalls hrel⟩
  | other e =>
    by_cases he : e = .dispatchWakeup
    · subst he
      obtain ⟨⟨sched, acts⟩, hstep, heq⟩ := Option.map_eq_some_iff.mp h
      obtain ⟨hmoved, hcons⟩ := hsched hstep
      dsimp only at heq
      cases hhead : s.sched.wakeupQueue.head? with
      | none =>
        rw [hhead] at heq
        obtain ⟨rfl, rfl⟩ := Prod.mk.inj heq
        refine ⟨hs.of_sched hcons (unnoticed_of_moved hs hmoved rfl fun j q _ _ _ hj => ?_),
          .quiet rfl rfl rfl⟩
        exact absurd (hhead.symm.trans hj) (by simp)
      | some k =>
        rw [hhead] at heq
        dsimp only at heq
        split at heq
        · have hgo := did_goOn hs hmoved hhead hcons
          rw [heq] at hgo
          exact hgo
        · rename_i hstill
          obtain ⟨rfl, rfl⟩ := Prod.mk.inj heq
          refine ⟨hs.of_sched hcons (unnoticed_of_moved hs hmoved rfl fun j q _ hj _ hjk => ?_),
            .quiet rfl rfl rfl⟩
          obtain rfl := Option.some.inj (hjk.symm.trans hhead)
          rcases moved_wait hmoved hs.consistent (hs.asleep j q hj).1 with
            ⟨-, -, hne⟩ | ⟨hgone, -, -⟩
          · exact hne rfl hjk
          · exact hstill hgone
    · by_cases hsleeps : ∃ k, e = .wakeup k ∧ s.sched.sleepSession.get k = none
      · -- nobody sleeps under this token
        obtain ⟨k, rfl, hk⟩ := hsleeps
        have hnone : wakeup s.sched k = s.sched := by simp [wakeup, hk]
        simp only [step, hnone, Option.some.injEq, Prod.mk.injEq] at h
        obtain ⟨rfl, rfl⟩ := h
        exact ⟨hs, .quiet rfl rfl rfl⟩
      · have hstep : (wakes e).bind s.waits = none ∧
            (Skynet.step s.sched e).map (fun x => ({ s with sched := x.1 }, ([] : List Act))) =
              some (t, out) := by
          cases e with
          | dispatchWakeup => exact absurd rfl he
          | wakeup k =>
            obtain ⟨hwait, hq, hout⟩ := hw.resolve_left fun hk => hsleeps ⟨k, rfl, hk⟩
            refine ⟨hout, ?_⟩
            rw [Skynet.step, if_pos ⟨hwait, hq⟩]
            exact h
          | runTimeout | sleep | wait | finish | timer => exact ⟨rfl, h⟩
        obtain ⟨hwakes, hmap⟩ := hstep
        obtain ⟨⟨sched, acts⟩, hnext, heq⟩ := Option.map_eq_some_iff.mp hmap
        obtain ⟨rfl, rfl⟩ := Prod.mk.inj heq
        obtain ⟨hmoved, hcons⟩ := hsched hnext
        exact ⟨hs.of_sched hcons (unnoticed_of_moved hs hmoved hwakes
          fun _ _ _ _ hd => absurd hd he), .quiet rfl rfl rfl⟩

theorem Run.inv {tr : List Item} {s : Service} (h : services.Run tr s)
    (hw : ∀ i ∈ tr, i.Awaited) : Inv s :=
  Machine.Path.keeps h inv_init fun i hi hpre => (Item.did i (hw i hi) hpre).1

/-! ## First come, first served -/

/-- The coroutine that asks for the lock, from outside. -/
def Item.asks (q : LockId) (i : Item) : Option Thread :=
  match i.ev with
  | .enter k p => if p = q ∧ q ∉ i.pre.calls k then some k else none
  | _ => none

/-- The coroutine that enters the lock, from outside. -/
def Item.enters (q : LockId) (i : Item) : Option Thread :=
  i.out.findSome? fun
    | .entered k p => if p = q ∧ q ∉ i.pre.calls k then some k else none
    | _ => none

/-- The coroutines that have asked and not entered: the one the lock has been handed to, and the
queue. -/
def line (s : Service) (q : LockId) : List Thread :=
  ((s.lock q).currentThread.toList.filter fun k => s.waits k = some q) ++ (s.lock q).threadQueue

theorem line_congr {s t : Service} {q : LockId} (hlock : t.lock q = s.lock q)
    (hwaits : ∀ k, (s.lock q).currentThread = some k → (t.waits k = some q ↔ s.waits k = some q)) :
    line t q = line s q := by
  unfold line
  rw [hlock]
  congr 1
  exact List.filter_congr fun k hk => decide_eq_decide.mpr (hwaits k (Option.mem_toList.mp hk))

theorem line_none {s : Service} {q : LockId} (h : (s.lock q).currentThread = none) :
    line s q = (s.lock q).threadQueue := by
  simp [line, h]

theorem line_held {s : Service} {q : LockId} {k : Thread}
    (h : (s.lock q).currentThread = some k) (hk : s.waits k ≠ some q) :
    line s q = (s.lock q).threadQueue := by
  simp [line, h, hk]

theorem line_handed {s : Service} {q : LockId} {k : Thread}
    (h : (s.lock q).currentThread = some k) (hk : s.waits k = some q) :
    line s q = k :: (s.lock q).threadQueue := by
  simp [line, h, hk]

/-- **A step of the line**: who asks joins it at its end, who enters leaves it at its front. -/
theorem Item.line (i : Item) (hw : i.Awaited) (hs : Inv i.pre) (q : LockId) :
    CriticalSection.line i.pre q ++ (i.asks q).toList =
      (i.enters q).toList ++ CriticalSection.line i.post q := by
  have hd := (i.did hw hs).2
  unfold Item.asks Item.enters
  generalize i.pre = s, i.ev = e, i.post = t, i.out = out at hd hs
  cases hd with
  | @entered k p hk hcur h =>
    by_cases hpq : p = q
    · subst hpq
      have hself : (t.lock p).currentThread = some k := by rw [h.self]
      have hpost : CriticalSection.line t p = (s.lock p).threadQueue := by
        rw [line_held hself (by rw [h.waits, hk]; simp), h.self]
      by_cases hin : p ∈ s.calls k
      · rw [hpost, line_held (hs.inside k p hin).1 (hs.inside k p hin).2]
        simp [hin]
      · -- the lock is free, so nobody is in line
        have hnone : (s.lock p).currentThread = none := hcur.resolve_right fun hc =>
          absurd (hk.symm.trans (hs.handed k p hc hin)) (by simp)
        rw [hpost, line_none hnone, hs.free p hnone]
        simp [hin]
    · rw [line_congr (h.other q (Ne.symm hpq)) fun j _ => by rw [h.waits]]
      simp [hpq]
  | @waiting k p hk hother hlock hcalls hwaits =>
    by_cases hpq : p = q
    · subst hpq
      have hin : p ∉ s.calls k := fun hin => hother (hs.inside k p hin).1
      have hself : (t.lock p).currentThread = (s.lock p).currentThread ∧
          (t.lock p).threadQueue = (s.lock p).threadQueue ++ [k] := by
        rw [hlock, Function.update_self]
        exact ⟨rfl, rfl⟩
      have hpost : CriticalSection.line t p = CriticalSection.line s p ++ [k] := by
        unfold CriticalSection.line
        rw [hself.1, hself.2, List.append_assoc]
        congr 1
        refine List.filter_congr fun j hj => decide_eq_decide.mpr ?_
        have hjk : j ≠ k := fun hjk => hother (hjk ▸ Option.mem_toList.mp hj)
        rw [hwaits, Function.update_of_ne hjk]
      rw [hpost]
      simp [hin]
    · have hsame : t.lock q = s.lock q := by rw [hlock, Function.update_of_ne (Ne.symm hpq)]
      rw [line_congr hsame fun j _ => ?_]
      · simp [hpq]
      · rw [hwaits]
        by_cases hjk : j = k
        · rw [hjk, Function.update_self, hk]
          simp [hpq]
        · rw [Function.update_of_ne hjk]
  | @left k p rest ok hk hcalls h =>
    have hsame : CriticalSection.line t q = CriticalSection.line s q := by
      by_cases hpq : p = q
      · subst hpq
        have hcur := (hs.inside k p (by simp [hcalls])).1
        rw [line_held hcur (by rw [hk]; simp)]
        by_cases hzero : (s.lock p).ref - 1 = 0
        · have hlock := (h.passed hzero).1
          cases hqueue : (s.lock p).threadQueue with
          | nil => rw [line_none (by rw [hlock, hqueue]; rfl), hlock, hqueue]; rfl
          | cons j js =>
            have hj := (hs.queue p j (by rw [hqueue]; exact List.mem_cons_self ..)).1
            rw [line_handed (k := j) (by rw [hlock, hqueue]; rfl) (by rw [h.waits, hj]), hlock,
              hqueue]
            rfl
        · have hlock := (h.kept hzero).2
          rw [line_held (k := k) (by rw [hlock, ← hcur]) (by rw [h.waits, hk]; simp), hlock]
      · exact line_congr (h.other q (Ne.symm hpq)) fun j _ => by rw [h.waits]
    rw [hsame]
    simp
  | quiet hlock hcalls hwaits =>
    rw [line_congr (congrFun hlock q) (fun k _ => by rw [hwaits])]
    simp
  | @woken k p sched hk hcur h =>
    have hwaits : t.waits = Function.update s.waits k none := h.waits
    by_cases hpq : p = q
    · subst hpq
      have hin : p ∉ s.calls k := fun hin => (hs.inside k p hin).2 hk
      have hself : (t.lock p).currentThread = some k := by rw [h.self]
      rw [line_handed hcur hk, line_held hself (by rw [hwaits, Function.update_self]; simp), h.self]
      simp [hin]
    · have hsame : t.lock q = s.lock q := h.other q (Ne.symm hpq)
      rw [line_congr hsame fun j _ => ?_]
      · simp [hpq]
      · rw [hwaits]
        by_cases hjk : j = k
        · rw [hjk, Function.update_self, hk]
          simp [hpq]
        · rw [Function.update_of_ne hjk]

/-- A lock never finds itself in use: its `assert` holds. -/
theorem Item.not_failed (i : Item) (hw : i.Awaited) (hs : Inv i.pre) (k : Thread) (q : LockId) :
    .failed k q ∉ i.out := by
  have hd := (i.did hw hs).2
  generalize i.ev = e, i.out = out, i.post = t at hd
  cases hd <;> simp

/-- **Critical sections.** Let the others wake only whom they may. At any time one coroutine at most
is in the `f` of a lock. The coroutines enter in the order in which they asked, and those in line
are all that have asked and not entered. While somebody is in line, a coroutine is in the lock, or
the first one in line is about to be resumed. No `assert` fails. -/
theorem critical_section {tr : List Item} {s : Service} (h : services.Run tr s)
    (hw : ∀ i ∈ tr, i.Awaited) (q : LockId) :
    (∀ j k, q ∈ s.calls j → q ∈ s.calls k → j = k) ∧
      tr.filterMap (Item.asks q) = tr.filterMap (Item.enters q) ++ line s q ∧
      (∀ k rest, line s q = k :: rest →
        (∃ j, q ∈ s.calls j) ∨ k ∈ s.sched.wakeupQueue) ∧
      ∀ i ∈ tr, ∀ k, .failed k q ∉ i.out := by
  have hpre := Machine.Path.keeps_pre h inv_init fun i hi hpre => (Item.did i (hw i hi) hpre).1
  have hinv := Run.inv h hw
  refine ⟨fun j k hj hk => ?_, ?_, fun k rest hline => ?_,
    fun i hi k => Item.not_failed i (hw i hi) (hpre i hi) k q⟩
  · exact Option.some.inj ((hinv.inside j q hj).1.symm.trans (hinv.inside k q hk).1)
  · refine Machine.Path.history h (J := fun tr s =>
      tr.filterMap (Item.asks q) = tr.filterMap (Item.enters q) ++ line s q) rfl ?_
    rintro tr i rest rfl heq
    have hmem : i ∈ tr ++ i :: rest := by simp
    have hstep := Item.line i (hw i hmem) (hpre i hmem) q
    have hsingle : ∀ f : Item → Option Thread, [i].filterMap f = (f i).toList := by
      intro f
      cases hf : f i <;> simp [hf]
    rw [List.filterMap_append, List.filterMap_append, hsingle, hsingle, heq, List.append_assoc,
      List.append_assoc, hstep]
  · cases hcur : (s.lock q).currentThread with
    | none =>
      rw [line_none hcur, hinv.free q hcur] at hline
      exact absurd hline (by simp)
    | some j =>
      by_cases hin : q ∈ s.calls j
      · exact Or.inl ⟨j, hin⟩
      · have hw := hinv.handed j q hcur hin
        rw [line_handed hcur hw] at hline
        rw [← (List.cons.inj hline).1]
        exact Or.inr ((hinv.asleep j q hw).2.1.mpr hcur)

/-- Two coroutines and a lock: the first one sleeps in `f` and enters once more. A third one is
woken out of its own `skynet.wait`. -/
def twoCalls : List Event :=
  [.enter 1 0, .enter 2 0, .other (.wait 3), .other (.sleep 1 10), .other (.wakeup 3),
    .other .dispatchWakeup, .other (.timer 2), .enter 1 0, .leave 1 false, .leave 1 true,
    .other .dispatchWakeup]

theorem critical_section_twoCalls : ∃ (tr : List Item) (s : Service), services.Run tr s ∧
    tr.map Machine.Item.ev = twoCalls ∧ tr.filterMap (Item.enters 0) = [1, 2] ∧
      tr.filterMap (Item.asks 0) = tr.filterMap (Item.enters 0) ++ line s 0 := by
  have h : (services.items services.init twoCalls).map (fun tr =>
      decide (tr.map Machine.Item.ev = twoCalls ∧ tr.filterMap (Item.enters 0) = [1, 2] ∧
        ∀ i ∈ tr, Item.Awaited i)) = some true := by
    decide +kernel
  obtain ⟨tr, hrun, hP⟩ := Machine.exists_run h
  obtain ⟨hev, henters, hw⟩ := of_decide_eq_true hP
  exact ⟨tr, _, hrun, hev, henters, (critical_section hrun hw 0).2.1⟩

/-- Without that the `assert` can fail: coroutine 2 is woken twice out of one `skynet.wait`, and the
second token wakes it while coroutine 1 has the lock. -/
example : (services.items services.init [.enter 1 0, .other (.wait 2), .other (.wakeup 2),
    .other (.wakeup 2), .other .dispatchWakeup, .enter 2 0, .other .dispatchWakeup]).map
      (fun tr => decide (∃ i ∈ tr, Act.failed 2 0 ∈ i.out)) = some true := by
  decide +kernel

end LsServer.Skynet.CriticalSection
