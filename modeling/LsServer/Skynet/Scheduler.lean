import LsServer.Lib.Run
import LsServer.Lib.Table
import LsServer.Lua.Value

/-!
# Coroutines that sleep (skynet.lua, Common.lua)

A service runs one coroutine at a time, until it waits in `skynet.sleep` or `skynet.wait`.
`runTimeout` forks a coroutine for `f` and sleeps; both share its locals (`Locals`), and `f` may end
at any time. `skynet.wakeup` puts the sleeper into `wakeup_queue`, and the scheduler empties that
queue before it takes the next message, so a timer only fires when the queue is empty.

The other coroutines sleep, wait and call `runTimeout` themselves. Nobody but `runTimeout` wakes a
coroutine out of `skynet.sleep`, and one in `skynet.wait` is woken once.

`data` is the second result of `pcall`: the first value of `f`, or the error.

Source: lualib/skynet.lua `dispatch_wakeup` 414-431, `suspend` 434-469, `suspend_sleep` 505-513,
`skynet.sleep` 515-529, `skynet.wait` 535-541, `skynet.wakeup` 844-849, `raw_dispatch_message`
901-961; Common.lua `runTimeout` 41-57.

* `sleepSession` and `sessionThread` are the two tables of a sleeper; `"BREAK"` in the latter
  (`none`) says that it has been woken, so its timer message does nothing.
* `wait` has a session without a timer.
* `finish` is the forked function: it writes `ret` and `data`, and wakes the sleeper if that has not
  gone on.
* A wakeup of a coroutine that does not sleep does nothing; a token in the queue may be out of date,
  and is skipped then.

The guard of the event `wakeup` is what this module assumes of all other code of the service: a
coroutine is woken by others only while it is in `skynet.wait`, and not twice for one wait.
Common.lua, Timer.lua and the services that call `runTimeout` wake nobody else; code that does, such
as clusterd.lua, is not a service of this kind.

Results:
* `Item.moved` inverts a step;
* `Run.consistent`: the tables agree on who sleeps, and a token is in the queue only for a coroutine
  that waits for it.

Out of scope: coroutines that end, which are the ones that take no further step, `killthread`,
`skynet.call`, whose waits are like `wait` here, and the order of forks.
-/

namespace LsServer.Skynet

open LsServer.Lib LsServer.Lua

abbrev Thread := Nat
abbrev Session := Nat
abbrev CallId := Nat

/-- How `f` ends. -/
inductive Outcome
  | returned (vs : List Value)
  | raised (e : Value)
  deriving DecidableEq

/-- `ret, data = pcall(f, ...)`. -/
def pcall : Outcome → Bool × Value
  | .returned vs => (true, vs.headD .nil)
  | .raised e => (false, e)

/-- The locals of a `runTimeout`; `ret` and `data` are `nil` until `f` ends. -/
structure Locals where
  co : Option Thread
  ret : Option Bool
  data : Value
  deriving DecidableEq

/-- What a coroutine waits in: the `skynet.sleep` of a `runTimeout`, another one, `skynet.wait`. -/
inductive Waiting
  | runTimeout (q : CallId)
  | sleep
  | wait
  deriving DecidableEq

/-- `sleep_session`, `session_id_coroutine` with `none` for `"BREAK"`, and `wakeup_queue`. -/
structure State where
  sleepSession : Table Thread Session
  sessionThread : Table Session (Option Thread)
  wakeupQueue : List Thread
  nextSession : Session
  waiting : Table Thread Waiting
  calls : Table CallId Locals
  nextCall : CallId

/-- What happens next: a coroutine that runs calls `runTimeout`, `skynet.sleep` or `skynet.wait`,
or wakes another; an `f` ends; the scheduler takes a token from `wakeup_queue`, or the message of a
timer. -/
inductive Event
  | runTimeout (k : Thread) (timeout : Int)
  | sleep (k : Thread) (ti : Int)
  | wait (k : Thread)
  | wakeup (k : Thread)
  | finish (q : CallId) (r : Outcome)
  | dispatchWakeup
  | timer (n : Session)
  deriving DecidableEq

/-- What is done: a timer is set, a `runTimeout` of a coroutine returns two values. -/
inductive Act
  | timeout (n : Session) (ti : Int)
  | returned (k : Thread) (q : CallId) (first second : Value)
  deriving DecidableEq

/-- `suspend_sleep`, with a new session. -/
def suspendSleep (s : State) (k : Thread) (w : Waiting) : State :=
  { s with
    sleepSession := s.sleepSession.set k s.nextSession
    sessionThread := s.sessionThread.set s.nextSession (some k)
    nextSession := s.nextSession + 1
    waiting := s.waiting.set k w }

/-- `Common.runTimeout`, up to `skynet.sleep`. -/
def runTimeout (s : State) (k : Thread) : State :=
  suspendSleep
    { s with
      calls := s.calls.set s.nextCall ⟨some k, none, .nil⟩
      nextCall := s.nextCall + 1 }
    k (.runTimeout s.nextCall)

/-- `skynet.wakeup`. -/
def wakeup (s : State) (k : Thread) : State :=
  if (s.sleepSession.get k).isSome then { s with wakeupQueue := s.wakeupQueue ++ [k] } else s

/-- The function that `runTimeout` forks, after `f` has ended. -/
def finish (s : State) (q : CallId) (x : Locals) (r : Outcome) : State :=
  let s := { s with calls := s.calls.set q { x with ret := some (pcall r).1, data := (pcall r).2 } }
  match x.co with
  | some k => wakeup s k
  | none => s

/-- The results of `runTimeout`. -/
def results (x : Locals) : Value × Value :=
  match x.ret with
  | some _ => (.nil, x.data)
  | none => (.boolean true, .nil)

/-- Coroutine `k` goes on after `skynet.sleep` or `skynet.wait`. -/
def goOn (s : State) (k : Thread) (w : Waiting) : State × List Act :=
  let s' := { s with sleepSession := s.sleepSession.del k, waiting := s.waiting.del k }
  match w with
  | .runTimeout q =>
    match s.calls.get q with
    | some x =>
      ({ s' with calls := s.calls.set q { x with co := none } },
        [.returned k q (results x).1 (results x).2])
    | none => (s', [])
  | _ => (s', [])

/-- A round of `dispatch_wakeup` with the token `k`. `skynet.wait` clears its session itself. -/
def dispatchWakeup (s : State) (k : Thread) : Option (State × List Act) :=
  match s.sleepSession.get k with
  | none => some (s, [])
  | some n =>
    match s.sessionThread.get n, s.waiting.get k with
    | some (some _), some w =>
      some (goOn
        { s with sessionThread := if w = .wait then s.sessionThread.del n
                                  else s.sessionThread.set n none } k w)
    | _, _ => none

/-- `raw_dispatch_message` with the message of timer `n`. -/
def timer (s : State) (n : Session) : Option (State × List Act) :=
  match s.sessionThread.get n with
  | none => none
  | some none => some ({ s with sessionThread := s.sessionThread.del n }, [])
  | some (some k) =>
    match s.waiting.get k with
    | none | some .wait => none
    | some w => some (goOn { s with sessionThread := s.sessionThread.del n } k w)

/-- One event, if it can happen. -/
def step (s : State) : Event → Option (State × List Act)
  | .runTimeout k timeout =>
    if s.waiting.get k = none then
      some (runTimeout s k, [.timeout s.nextSession (timeout * 100)])
    else none
  | .sleep k ti =>
    if s.waiting.get k = none then some (suspendSleep s k .sleep, [.timeout s.nextSession ti])
    else none
  | .wait k => if s.waiting.get k = none then some (suspendSleep s k .wait, []) else none
  | .wakeup k =>
    if s.waiting.get k = some .wait ∧ k ∉ s.wakeupQueue then some (wakeup s k, []) else none
  | .finish q r =>
    (s.calls.get q).bind fun x => if x.ret = none then some (finish s q x r, []) else none
  | .dispatchWakeup =>
    match s.wakeupQueue with
    | [] => none
    | k :: ks => dispatchWakeup { s with wakeupQueue := ks } k
  | .timer n => if s.wakeupQueue = [] then timer s n else none

/-- **A service.** -/
def machine : Machine State Event Act where
  init := ⟨.empty, .empty, [], 0, .empty, .empty, 0⟩
  step := step

/-- A step of the service. -/
abbrev Item := machine.Item

/-! ## Inverting a step -/

/-- What the service does with an event. -/
inductive Moved (s : State) : Event → State → List Act → Prop
  | runTimeout {k : Thread} {timeout : Int} (hk : s.waiting.get k = none) :
    Moved s (.runTimeout k timeout) (runTimeout s k) [.timeout s.nextSession (timeout * 100)]
  | sleep {k : Thread} {ti : Int} (hk : s.waiting.get k = none) :
    Moved s (.sleep k ti) (suspendSleep s k .sleep) [.timeout s.nextSession ti]
  | wait {k : Thread} (hk : s.waiting.get k = none) :
    Moved s (.wait k) (suspendSleep s k .wait) []
  | wakeup {k : Thread} (hk : s.waiting.get k = some .wait) (hq : k ∉ s.wakeupQueue) :
    Moved s (.wakeup k) (wakeup s k) []
  | finish {q : CallId} {r : Outcome} {x : Locals} (hx : s.calls.get q = some x)
    (hr : x.ret = none) : Moved s (.finish q r) (finish s q x r) []
  | stale {k : Thread} {ks : List Thread} (hq : s.wakeupQueue = k :: ks)
    (hk : s.sleepSession.get k = none) : Moved s .dispatchWakeup { s with wakeupQueue := ks } []
  | woken {k k' : Thread} {ks : List Thread} {n : Session} {w : Waiting}
    (hq : s.wakeupQueue = k :: ks) (hn : s.sleepSession.get k = some n)
    (ht : s.sessionThread.get n = some (some k')) (hw : s.waiting.get k = some w)
    {t : Table Session (Option Thread)}
    (hset : t = if w = .wait then s.sessionThread.del n else s.sessionThread.set n none) :
    Moved s .dispatchWakeup (goOn { s with wakeupQueue := ks, sessionThread := t } k w).1
      (goOn { s with wakeupQueue := ks, sessionThread := t } k w).2
  | broken {n : Session} (hq : s.wakeupQueue = []) (ht : s.sessionThread.get n = some none) :
    Moved s (.timer n) { s with sessionThread := s.sessionThread.del n } []
  | fired {n : Session} {k : Thread} {w : Waiting} (hq : s.wakeupQueue = [])
    (ht : s.sessionThread.get n = some (some k)) (hw : s.waiting.get k = some w)
    (hne : w ≠ .wait) :
    Moved s (.timer n) (goOn { s with sessionThread := s.sessionThread.del n } k w).1
      (goOn { s with sessionThread := s.sessionThread.del n } k w).2

theorem timer_moved {s s' : State} {n : Session} {acts : List Act} (hq : s.wakeupQueue = [])
    (h : timer s n = some (s', acts)) : Moved s (.timer n) s' acts := by
  unfold timer at h
  split at h
  · exact absurd h (by simp)
  · rename_i ht
    obtain ⟨rfl, rfl⟩ := Prod.mk.inj (Option.some.inj h)
    exact .broken hq ht
  · rename_i k ht
    split at h
    · exact absurd h (by simp)
    · exact absurd h (by simp)
    · rename_i w hne hw
      obtain ⟨rfl, rfl⟩ := Prod.mk.inj (Option.some.inj h)
      exact .fired hq ht hw hne

theorem dispatchWakeup_moved {s s' : State} {k : Thread} {ks : List Thread} {acts : List Act}
    (hq : s.wakeupQueue = k :: ks)
    (h : dispatchWakeup { s with wakeupQueue := ks } k = some (s', acts)) :
    Moved s .dispatchWakeup s' acts := by
  unfold dispatchWakeup at h
  split at h
  · rename_i hk
    obtain ⟨rfl, rfl⟩ := Prod.mk.inj (Option.some.inj h)
    exact .stale hq hk
  · rename_i n hn
    split at h
    · rename_i k' w ht hw
      obtain ⟨rfl, rfl⟩ := Prod.mk.inj (Option.some.inj h)
      exact .woken hq hn ht hw rfl
    · exact absurd h (by simp)

theorem Item.moved (i : Item) : Moved i.pre i.ev i.post i.out := by
  have h : step i.pre i.ev = some (i.post, i.out) := i.ok
  generalize i.ev = e, i.post = s', i.out = acts at h
  cases e with
  | runTimeout k timeout =>
    obtain ⟨hk, h⟩ := Option.ite_none_right_eq_some.mp h
    obtain ⟨rfl, rfl⟩ := Prod.mk.inj (Option.some.inj h)
    exact .runTimeout hk
  | sleep k ti =>
    obtain ⟨hk, h⟩ := Option.ite_none_right_eq_some.mp h
    obtain ⟨rfl, rfl⟩ := Prod.mk.inj (Option.some.inj h)
    exact .sleep hk
  | wait k =>
    obtain ⟨hk, h⟩ := Option.ite_none_right_eq_some.mp h
    obtain ⟨rfl, rfl⟩ := Prod.mk.inj (Option.some.inj h)
    exact .wait hk
  | wakeup k =>
    obtain ⟨⟨hk, hq⟩, h⟩ := Option.ite_none_right_eq_some.mp h
    obtain ⟨rfl, rfl⟩ := Prod.mk.inj (Option.some.inj h)
    exact .wakeup hk hq
  | finish q r =>
    obtain ⟨x, hx, h⟩ := Option.bind_eq_some_iff.mp h
    obtain ⟨hr, h⟩ := Option.ite_none_right_eq_some.mp h
    obtain ⟨rfl, rfl⟩ := Prod.mk.inj (Option.some.inj h)
    exact .finish hx hr
  | dispatchWakeup =>
    simp only [step] at h
    split at h
    · exact absurd h (by simp)
    · rename_i k ks hq
      exact dispatchWakeup_moved hq h
  | timer n =>
    obtain ⟨hq, h⟩ := Option.ite_none_right_eq_some.mp h
    exact timer_moved hq h

/-! ## The scheduler -/

@[simp] theorem goOn_sleepSession (s : State) (k : Thread) (w : Waiting) :
    (goOn s k w).1.sleepSession = s.sleepSession.del k := by
  unfold goOn
  split
  · split <;> rfl
  · rfl

@[simp] theorem goOn_waiting (s : State) (k : Thread) (w : Waiting) :
    (goOn s k w).1.waiting = s.waiting.del k := by
  unfold goOn
  split
  · split <;> rfl
  · rfl

@[simp] theorem goOn_wakeupQueue (s : State) (k : Thread) (w : Waiting) :
    (goOn s k w).1.wakeupQueue = s.wakeupQueue := by
  unfold goOn
  split
  · split <;> rfl
  · rfl

@[simp] theorem goOn_sessionThread (s : State) (k : Thread) (w : Waiting) :
    (goOn s k w).1.sessionThread = s.sessionThread := by
  unfold goOn
  split
  · split <;> rfl
  · rfl

@[simp] theorem goOn_next (s : State) (k : Thread) (w : Waiting) :
    (goOn s k w).1.nextSession = s.nextSession ∧ (goOn s k w).1.nextCall = s.nextCall := by
  unfold goOn
  split
  · split <;> exact ⟨rfl, rfl⟩
  · exact ⟨rfl, rfl⟩

theorem goOn_calls (s : State) (k : Thread) (w : Waiting) (q : CallId) :
    (goOn s k w).1.calls.get q =
      if w = .runTimeout q then (s.calls.get q).map fun x => { x with co := none }
      else s.calls.get q := by
  cases w with
  | runTimeout q' =>
    simp only [goOn, Waiting.runTimeout.injEq]
    by_cases hq : q' = q
    · subst hq
      rw [if_pos rfl]
      cases h : s.calls.get q' with
      | none => exact h
      | some x => simp
    · rw [if_neg hq]
      cases h : s.calls.get q' with
      | none => rfl
      | some x => exact Table.get_set_ne (Ne.symm hq)
  | sleep | wait => rw [if_neg (by simp)]; rfl

/-- **The invariant of the scheduler.** -/
structure Consistent (s : State) : Prop where
  session : ∀ k w, s.waiting.get k = some w → ∃ n, s.sleepSession.get k = some n
  asleep : ∀ k n, s.sleepSession.get k = some n →
    s.waiting.get k ≠ none ∧ s.sessionThread.get n = some (some k)
  thread : ∀ n k, s.sessionThread.get n = some (some k) → s.sleepSession.get k = some n
  fresh : ∀ n, s.nextSession ≤ n → s.sessionThread.get n = none
  nodup : s.wakeupQueue.Nodup
  queued : ∀ k ∈ s.wakeupQueue, s.waiting.get k = some .wait ∨
    ∃ q x, s.waiting.get k = some (.runTimeout q) ∧ s.calls.get q = some x ∧ x.ret ≠ none
  inside : ∀ k q, s.waiting.get k = some (.runTimeout q) →
    ∃ x, s.calls.get q = some x ∧ x.co = some k
  owner : ∀ q x k, s.calls.get q = some x → x.co = some k →
    s.waiting.get k = some (.runTimeout q)
  ended : ∀ q x k, s.calls.get q = some x → x.co = some k → x.ret ≠ none → k ∈ s.wakeupQueue
  freshCall : ∀ q, s.nextCall ≤ q → s.calls.get q = none

theorem consistent_init : Consistent machine.init := by
  constructor <;> simp [machine]

/-- A coroutine that waits for nothing goes to sleep; it may have made a call before. -/
theorem Consistent.suspendSleep {s : State} (h : Consistent s) {k : Thread} {w : Waiting}
    (hk : s.waiting.get k = none) {calls : Table CallId Locals} {m : CallId}
    (hw : w = .runTimeout s.nextCall ∧ calls = s.calls.set s.nextCall ⟨some k, none, .nil⟩ ∧
        m = s.nextCall + 1 ∨ (∀ q, w ≠ .runTimeout q) ∧ calls = s.calls ∧ m = s.nextCall) :
    Consistent (suspendSleep { s with calls := calls, nextCall := m } k w) := by
  have hasleep : s.sleepSession.get k = none := by
    by_contra hne
    obtain ⟨n, hn⟩ := Option.ne_none_iff_exists'.mp hne
    exact (h.asleep k n hn).1 hk
  have hqueue : k ∉ s.wakeupQueue := fun hmem => by
    rcases h.queued k hmem with hw | ⟨q, x, hw, -⟩ <;> exact absurd (hk.symm.trans hw) (by simp)
  have hcalls : ∀ q, q ≠ s.nextCall → calls.get q = s.calls.get q := by
    rcases hw with ⟨-, rfl, -⟩ | ⟨-, rfl, -⟩
    · exact fun q hq => Table.get_set_ne hq
    · exact fun _ _ => rfl
  -- a call of another coroutine, or the new one
  have hold : ∀ q x, calls.get q = some x → s.calls.get q = some x ∨
      q = s.nextCall ∧ w = .runTimeout q ∧ x = ⟨some k, none, .nil⟩ := by
    intro q x hx
    by_cases hq : q = s.nextCall
    · rcases hw with ⟨hw, rfl, -⟩ | ⟨-, rfl, -⟩
      · rw [hq, Table.get_set_self] at hx
        exact .inr ⟨hq, hq ▸ hw, (Option.some.inj hx).symm⟩
      · exact .inl hx
    · exact .inl (hcalls q hq ▸ hx)
  have hlt : ∀ q x, s.calls.get q = some x → q ≠ s.nextCall := fun q x hx hq => by
    rw [h.freshCall q hq.ge] at hx
    exact absurd hx (by simp)
  constructor
  · intro j v hj
    simp only [Skynet.suspendSleep, Table.get_set] at hj ⊢
    split at hj
    · rename_i hjk
      exact ⟨s.nextSession, if_pos hjk⟩
    · rename_i hjk
      rw [if_neg hjk]
      exact h.session j v hj
  · intro j n hj
    simp only [Skynet.suspendSleep, Table.get_set] at hj ⊢
    split at hj
    · rename_i hjk
      obtain rfl := Option.some.inj hj
      rw [if_pos hjk, if_pos rfl, hjk]
      exact ⟨by simp, rfl⟩
    · rename_i hjk
      obtain ⟨hwait, hthread⟩ := h.asleep j n hj
      have hn : n ≠ s.nextSession := fun hn => by
        rw [h.fresh n hn.ge] at hthread
        exact absurd hthread (by simp)
      rw [if_neg hjk, if_neg hn]
      exact ⟨hwait, hthread⟩
  · intro n j hj
    simp only [Skynet.suspendSleep, Table.get_set] at hj ⊢
    split at hj
    · rename_i hn
      rw [if_pos (Option.some.inj (Option.some.inj hj)).symm, hn]
    · have hs := h.thread n j hj
      have hjk : j ≠ k := fun hjk => absurd ((hjk ▸ hs).symm.trans hasleep) (by simp)
      rw [if_neg hjk]
      exact hs
  · intro n hn
    have hlt' : s.nextSession < n := hn
    simp only [Skynet.suspendSleep]
    rw [Table.get_set_ne hlt'.ne']
    exact h.fresh n hlt'.le
  · exact h.nodup
  · intro j hj
    have hjk : j ≠ k := fun hjk => hqueue (hjk ▸ hj)
    simp only [Skynet.suspendSleep, Table.get_set, if_neg hjk]
    rcases h.queued j hj with hwait | ⟨q, x, hwait, hx, hr⟩
    · exact .inl hwait
    · exact .inr ⟨q, x, hwait, (hcalls q (hlt q x hx)).trans hx, hr⟩
  · intro j q hj
    simp only [Skynet.suspendSleep, Table.get_set] at hj ⊢
    split at hj
    · rename_i hjk
      obtain rfl := Option.some.inj hj
      rcases hw with ⟨hw, rfl, -⟩ | ⟨hne, -⟩
      · obtain rfl := Waiting.runTimeout.inj hw
        exact ⟨_, Table.get_set_self _ _ _, by rw [hjk]⟩
      · exact absurd rfl (hne q)
    · obtain ⟨x, hx, hco⟩ := h.inside j q hj
      exact ⟨x, (hcalls q (hlt q x hx)).trans hx, hco⟩
  · intro q x j hx hco
    simp only [Skynet.suspendSleep, Table.get_set]
    rcases hold q x hx with hx | ⟨-, rfl, rfl⟩
    · have hj := h.owner q x j hx hco
      have hjk : j ≠ k := fun hjk => absurd ((hjk ▸ hj).symm.trans hk) (by simp)
      rw [if_neg hjk]
      exact hj
    · rw [if_pos (Option.some.inj hco).symm]
  · intro q x j hx hco hr
    rcases hold q x hx with hx | ⟨-, -, rfl⟩
    · exact h.ended q x j hx hco hr
    · exact absurd rfl hr
  · intro q hq
    rcases hw with ⟨-, rfl, rfl⟩ | ⟨-, rfl, rfl⟩
    · have hlt' : s.nextCall < q := hq
      exact (Table.get_set_ne hlt'.ne').trans (h.freshCall q hlt'.le)
    · exact h.freshCall q hq

/-- A coroutine that waits goes on; it leaves the queue. -/
theorem Consistent.goOn {s : State} (h : Consistent s) {k : Thread} {w : Waiting} {n : Session}
    (hw : s.waiting.get k = some w) (hn : s.sleepSession.get k = some n) {ks : List Thread}
    {t : Table Session (Option Thread)} (hks : ks.Nodup)
    (hmem : ∀ j, j ∈ ks ↔ j ∈ s.wakeupQueue ∧ j ≠ k)
    (ht : ∀ m, m ≠ n → t.get m = s.sessionThread.get m) (htn : ∀ j, t.get n ≠ some (some j)) :
    Consistent (goOn { s with wakeupQueue := ks, sessionThread := t } k w).1 := by
  have hlt : n < s.nextSession := by
    by_contra hle
    have hthread := (h.asleep k n hn).2
    rw [h.fresh n (Nat.le_of_not_lt hle)] at hthread
    exact absurd hthread (by simp)
  -- only the call that `k` waits for is written
  have hother : ∀ j q, j ≠ k → s.waiting.get j = some (.runTimeout q) → w ≠ .runTimeout q := by
    rintro j q hjk hj rfl
    obtain ⟨x, hx, hco⟩ := h.inside j q hj
    obtain ⟨x', hx', hco'⟩ := h.inside k q hw
    obtain rfl := Option.some.inj (hx.symm.trans hx')
    exact hjk (Option.some.inj (hco.symm.trans hco'))
  constructor
  · intro j v hj
    rw [goOn_waiting] at hj
    rw [goOn_sleepSession]
    obtain ⟨hjk, hj⟩ := Table.get_of_get_del hj
    obtain ⟨m, hm⟩ := h.session j v hj
    exact ⟨m, (Table.get_del_ne hjk).trans hm⟩
  · intro j m hj
    rw [goOn_sleepSession] at hj
    rw [goOn_waiting, goOn_sessionThread]
    obtain ⟨hjk, hj⟩ := Table.get_of_get_del hj
    obtain ⟨hwait, hthread⟩ := h.asleep j m hj
    have hm : m ≠ n := fun hm => by
      have hk := (h.asleep k n hn).2
      rw [← hm, hthread] at hk
      exact hjk (Option.some.inj (Option.some.inj hk))
    exact ⟨by rw [Table.get_del_ne hjk]; exact hwait, (ht m hm).trans hthread⟩
  · intro m j hj
    rw [goOn_sessionThread] at hj
    rw [goOn_sleepSession]
    have hm : m ≠ n := fun hm => htn j (hm ▸ hj)
    have hs := h.thread m j ((ht m hm) ▸ hj)
    have hjk : j ≠ k := fun hjk => hm (Option.some.inj ((hjk ▸ hs).symm.trans hn))
    exact (Table.get_del_ne hjk).trans hs
  · intro m hm
    rw [(goOn_next _ _ _).1] at hm
    rw [goOn_sessionThread]
    have hlt' : n < m := hlt.trans_le hm
    exact (ht m hlt'.ne').trans (h.fresh m hm)
  · rw [goOn_wakeupQueue]
    exact hks
  · intro j hj
    rw [goOn_wakeupQueue] at hj
    obtain ⟨hj, hjk⟩ := (hmem j).mp hj
    rw [goOn_waiting, Table.get_del_ne hjk]
    rcases h.queued j hj with hwait | ⟨q, x, hwait, hx, hr⟩
    · exact .inl hwait
    · refine .inr ⟨q, x, hwait, ?_, hr⟩
      rw [goOn_calls, if_neg (hother j q hjk hwait)]
      exact hx
  · intro j q hj
    rw [goOn_waiting] at hj
    obtain ⟨hjk, hj⟩ := Table.get_of_get_del hj
    obtain ⟨x, hx, hco⟩ := h.inside j q hj
    refine ⟨x, ?_, hco⟩
    rw [goOn_calls, if_neg (hother j q hjk hj)]
    exact hx
  · intro q x j hx hco
    rw [goOn_calls] at hx
    rw [goOn_waiting]
    split at hx
    · obtain ⟨y, -, rfl⟩ := Option.map_eq_some_iff.mp hx
      exact absurd hco (by simp)
    · rename_i hq
      have hj := h.owner q x j hx hco
      have hjk : j ≠ k := fun hjk => hq (Option.some.inj (hw.symm.trans (hjk ▸ hj)))
      exact (Table.get_del_ne hjk).trans hj
  · intro q x j hx hco hr
    rw [goOn_calls] at hx
    rw [goOn_wakeupQueue]
    split at hx
    · obtain ⟨y, -, rfl⟩ := Option.map_eq_some_iff.mp hx
      exact absurd hco (by simp)
    · rename_i hq
      have hj := h.owner q x j hx hco
      have hjk : j ≠ k := fun hjk => hq (Option.some.inj (hw.symm.trans (hjk ▸ hj)))
      exact (hmem j).mpr ⟨h.ended q x j hx hco hr, hjk⟩
  · intro q hq
    rw [(goOn_next _ _ _).2] at hq
    rw [goOn_calls]
    have hnone := h.freshCall q hq
    split
    · change (s.calls.get q).map _ = none
      rw [hnone]
      rfl
    · exact hnone

theorem Consistent.wakeup {s : State} (h : Consistent s) {k : Thread}
    (hw : s.waiting.get k = some .wait) (hk : k ∉ s.wakeupQueue) :
    wakeup s k = { s with wakeupQueue := s.wakeupQueue ++ [k] } ∧ Consistent (wakeup s k) := by
  obtain ⟨n, hn⟩ := h.session k _ hw
  have heq : Skynet.wakeup s k = { s with wakeupQueue := s.wakeupQueue ++ [k] } := by
    rw [Skynet.wakeup, hn]
    rfl
  refine ⟨heq, ?_⟩
  rw [heq]
  refine { h with
    nodup := List.nodup_append.mpr ⟨h.nodup, by simp, ?_⟩
    queued := fun j hj => ?_
    ended := fun q x j hx hco hr => List.mem_append_left _ (h.ended q x j hx hco hr) }
  · rintro a ha b hb rfl
    exact hk (List.mem_singleton.mp hb ▸ ha)
  · rcases List.mem_append.mp hj with hj | hj
    · exact h.queued j hj
    · obtain rfl := List.mem_singleton.mp hj
      exact .inl hw

/-- What the end of `f` does: it wakes the caller if that still sleeps. -/
theorem Consistent.finish_eq {s : State} (h : Consistent s) {q : CallId} {x : Locals}
    (hx : s.calls.get q = some x) (r : Outcome) : finish s q x r =
      { s with
        calls := s.calls.set q { x with ret := some (pcall r).1, data := (pcall r).2 }
        wakeupQueue := s.wakeupQueue ++ x.co.toList } := by
  unfold finish
  cases hco : x.co with
  | none => simp
  | some k =>
    obtain ⟨n, hn⟩ := h.session k _ (h.owner q x k hx hco)
    dsimp only
    rw [Skynet.wakeup, if_pos (by rw [hn]; rfl)]
    rfl

theorem Consistent.finish {s : State} (h : Consistent s) {q : CallId} {x : Locals}
    (hx : s.calls.get q = some x) (hr : x.ret = none) (r : Outcome) :
    Consistent (finish s q x r) := by
  rw [h.finish_eq hx]
  have hwait : ∀ k, x.co = some k → s.waiting.get k = some (.runTimeout q) :=
    fun k => h.owner q x k hx
  have hout : ∀ k, x.co = some k → k ∉ s.wakeupQueue := by
    intro k hco hmem
    rcases h.queued k hmem with hw | ⟨q', x', hw, hx', hr'⟩
    · exact absurd ((hwait k hco).symm.trans hw) (by simp)
    · obtain rfl := Waiting.runTimeout.inj (Option.some.inj ((hwait k hco).symm.trans hw))
      obtain rfl := Option.some.inj (hx.symm.trans hx')
      exact hr' hr
  refine ⟨h.session, h.asleep, h.thread, h.fresh, ?_, ?_, ?_, ?_, ?_, ?_⟩
  · refine List.nodup_append.mpr ⟨h.nodup, ?_, ?_⟩
    · cases x.co <;> simp
    · rintro a ha b hb rfl
      exact hout a (Option.mem_toList.mp hb) ha
  · intro j hj
    rcases List.mem_append.mp hj with hj | hj
    · rcases h.queued j hj with hw | ⟨q', x', hw, hx', hr'⟩
      · exact .inl hw
      · have hq : q' ≠ q := by
          rintro rfl
          obtain rfl := Option.some.inj (hx.symm.trans hx')
          exact hr' hr
        exact .inr ⟨q', x', hw, (Table.get_set_ne hq).trans hx', hr'⟩
    · exact .inr ⟨q, _, hwait j (Option.mem_toList.mp hj), Table.get_set_self _ _ _, by simp⟩
  · intro j q' hj
    obtain ⟨x', hx', hco'⟩ := h.inside j q' hj
    by_cases hq : q' = q
    · subst hq
      obtain rfl := Option.some.inj (hx.symm.trans hx')
      exact ⟨_, Table.get_set_self _ _ _, hco'⟩
    · exact ⟨x', (Table.get_set_ne hq).trans hx', hco'⟩
  · intro q' x' j hx' hco'
    change (s.calls.set q _).get q' = some x' at hx'
    rw [Table.get_set] at hx'
    split at hx'
    · rename_i hq
      obtain rfl := Option.some.inj hx'
      rw [hq]
      exact hwait j hco'
    · exact h.owner q' x' j hx' hco'
  · intro q' x' j hx' hco' hr'
    change (s.calls.set q _).get q' = some x' at hx'
    rw [Table.get_set] at hx'
    split at hx'
    · obtain rfl := Option.some.inj hx'
      exact List.mem_append_right _ (Option.mem_toList.mpr hco')
    · exact List.mem_append_left _ (h.ended q' x' j hx' hco' hr')
  · intro q' hq'
    have hq : q' ≠ q := by
      rintro rfl
      exact absurd ((h.freshCall q' hq').symm.trans hx) (by simp)
    exact (Table.get_set_ne hq).trans (h.freshCall q' hq')

theorem Item.consistent (i : Item) (h : Consistent i.pre) : Consistent i.post := by
  have hm := i.moved
  generalize i.ev = e, i.post = s', i.out = acts at hm
  cases hm with
  | runTimeout hk => exact h.suspendSleep hk (.inl ⟨rfl, rfl, rfl⟩)
  | sleep hk => exact h.suspendSleep hk (.inr ⟨by simp, rfl, rfl⟩)
  | wait hk => exact h.suspendSleep hk (.inr ⟨by simp, rfl, rfl⟩)
  | wakeup hk hq => exact (h.wakeup hk hq).2
  | finish hx hr => exact h.finish hx hr _
  | @stale k ks hq hk =>
    -- a token is in the queue only while its coroutine waits
    have hmem : k ∈ i.pre.wakeupQueue := by rw [hq]; simp
    have hwait : i.pre.waiting.get k ≠ none := by
      rcases h.queued k hmem with hw | ⟨q, x, hw, -⟩ <;> simp [hw]
    obtain ⟨w, hw⟩ := Option.ne_none_iff_exists'.mp hwait
    obtain ⟨n, hn⟩ := h.session k w hw
    exact absurd (hk.symm.trans hn) (by simp)
  | @woken k k' ks n w hq hn ht hw t hset =>
    have hnodup := h.nodup
    rw [hq, List.nodup_cons] at hnodup
    refine h.goOn hw hn hnodup.2 (fun j => ?_) (fun m hm => ?_) fun j => ?_
    · rw [hq, List.mem_cons]
      constructor
      · exact fun hj => ⟨.inr hj, fun hjk => hnodup.1 (hjk ▸ hj)⟩
      · rintro ⟨hj | hj, hjk⟩
        · exact absurd hj hjk
        · exact hj
    · rw [hset]
      split
      · exact Table.get_del_ne hm
      · exact Table.get_set_ne hm
    · rw [hset]
      split <;> simp
  | @broken n hq ht =>
    refine { h with
      asleep := fun j m hj => ?_
      thread := fun m j hj => ?_
      fresh := fun m hm => ?_ }
    · obtain ⟨hwait, hthread⟩ := h.asleep j m hj
      have hm : m ≠ n := fun hm => by
        rw [hm, ht] at hthread
        exact absurd hthread (by simp)
      exact ⟨hwait, (Table.get_del_ne hm).trans hthread⟩
    · exact h.thread m j (Table.get_of_get_del hj).2
    · rw [Table.get_del]
      split
      · rfl
      · exact h.fresh m hm
  | @fired n k w hq ht hw =>
    refine h.goOn hw (h.thread n k ht) h.nodup (fun j => ?_) (fun m hm => Table.get_del_ne hm)
      fun j => ?_
    · simp [hq]
    · simp

theorem Run.consistent {tr : List Item} {s : State} (h : machine.Run tr s) : Consistent s :=
  Machine.Run.invariant consistent_init Item.consistent h

end LsServer.Skynet
