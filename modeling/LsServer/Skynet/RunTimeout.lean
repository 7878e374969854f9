import LsServer.Skynet.Scheduler

/-!
# `Common.runTimeout` (Common.lua)

`runTimeout` returns `true` when the timer fires before `f` has ended, and `nil, data` when it is
woken. Its callers go on as after a success if the second result is not `nil` or `false`. But
`data` is the second result of `pcall`, which for an `f` that raises is the error.

Source: Common.lua 36-57; its callers MonitorPublish.lua 16-20 and MonitorSubscribe.lua 14-18 and
35-39.

* `Separates` is what the callers rely on: a call returns by its timer at the latest; the first
  result is `true` exactly if `f` had not ended; a truthy second result is the first value that `f`
  returned.
* `Traced` knows of a call after any steps: whether `f` has ended and how, and whether the call has
  returned.
* `RaisesInTime` is the condition, on `f` and the time at which it ends.
* An `f` that ends after the timer writes the locals of a call that has returned; nobody reads them.

`co = nil` behind `skynet.sleep` keeps a late `f` from waking its caller out of another sleep
(`Item.Wakes`).

Results:
* `Item.touched`: what a step does to the locals of a call;
* `runTimeout_separates_iff`: `runTimeout` tells success from failure exactly if `f` does not raise
  a truthy error before the timer fires;
* `error_taken_for_result`: such an error, in a run.
-/

namespace LsServer.Skynet

open LsServer.Lib LsServer.Lua

/-! ## One call -/

/-- The step is the call `q` of `runTimeout`, by coroutine `k`, with timer `n`. -/
def Item.Calls (i : Item) (k : Thread) (q : CallId) (n : Session) : Prop :=
  (∃ timeout, i.ev = .runTimeout k timeout) ∧ q = i.pre.nextCall ∧ n = i.pre.nextSession

/-- The `f` of call `q` ends. -/
def Item.Finishes (i : Item) (q : CallId) (r : Outcome) : Prop := i.ev = .finish q r

/-- Call `q` of coroutine `k` returns. -/
def Item.Returns (i : Item) (k : Thread) (q : CallId) (first second : Value) : Prop :=
  .returned k q first second ∈ i.out

/-- The scheduler takes the token of `k`. -/
def Item.Breaks (i : Item) (k : Thread) : Prop :=
  i.ev = .dispatchWakeup ∧ i.pre.wakeupQueue.head? = some k

/-- The step puts the token of `k` into the queue. -/
def Item.Wakes (i : Item) (k : Thread) : Prop :=
  i.post.wakeupQueue = i.pre.wakeupQueue ++ [k]

theorem mem_goOn {s : State} {k : Thread} {w : Waiting} {a : Act} (h : a ∈ (goOn s k w).2) :
    ∃ q x, w = .runTimeout q ∧ s.calls.get q = some x ∧
      a = .returned k q (results x).1 (results x).2 := by
  unfold goOn at h
  split at h
  · rename_i q
    split at h
    · rename_i x hx
      exact ⟨q, x, rfl, hx, List.mem_singleton.mp h⟩
    · exact absurd h (by simp)
  · exact absurd h (by simp)

theorem goOn_runTimeout {s : State} {k : Thread} {q : CallId} {x : Locals}
    (hx : s.calls.get q = some x) :
    (goOn s k (.runTimeout q)).2 = [.returned k q (results x).1 (results x).2] := by
  simp only [goOn]
  rw [hx]

/-- What a step does to the locals of call `q`. -/
inductive Touched (i : Item) (q : CallId) (x : Locals) : Locals → Prop
  | same (hf : ∀ r, ¬ i.Finishes q r) (hr : ∀ k v w, ¬ i.Returns k q v w) : Touched i q x x
  | finished {r : Outcome} (hf : i.Finishes q r) (hret : x.ret = none)
    (hr : ∀ k v w, ¬ i.Returns k q v w) :
    Touched i q x { x with ret := some (pcall r).1, data := (pcall r).2 }
  | returned {k : Thread} (hk : x.co = some k) (hf : ∀ r, ¬ i.Finishes q r)
    (hr : ∀ k' v w, i.Returns k' q v w ↔ k' = k ∧ v = (results x).1 ∧ w = (results x).2)
    (hqueue : k ∉ i.post.wakeupQueue)
    (htimer : x.ret = none → ∃ n, i.ev = .timer n ∧ i.pre.sleepSession.get k = some n) :
    Touched i q x { x with co := none }

/-- A coroutine goes on. -/
theorem touched_goOn {i : Item} {q : CallId} {x : Locals} {s : State} {k : Thread} {w : Waiting}
    (h : Consistent i.pre) (hx : i.pre.calls.get q = some x) (hw : i.pre.waiting.get k = some w)
    (hcalls : s.calls = i.pre.calls) (hpost : i.post = (goOn s k w).1)
    (hout : i.out = (goOn s k w).2) (hf : ∀ r, ¬ i.Finishes q r) (hqueue : k ∉ s.wakeupQueue)
    (htimer : w = .runTimeout q → x.ret = none →
      ∃ n, i.ev = .timer n ∧ i.pre.sleepSession.get k = some n) :
    ∃ x', i.post.calls.get q = some x' ∧ Touched i q x x' := by
  rw [hpost, goOn_calls, hcalls, hx]
  by_cases hwq : w = .runTimeout q
  · subst hwq
    obtain ⟨x', hx', hco⟩ := h.inside k q hw
    obtain rfl := Option.some.inj (hx.symm.trans hx')
    refine ⟨_, if_pos rfl, .returned hco hf (fun k' v w => ?_) ?_ (htimer rfl)⟩
    · rw [Item.Returns, hout, goOn_runTimeout (hcalls ▸ hx)]
      simp
    · rw [hpost, goOn_wakeupQueue]
      exact hqueue
  · refine ⟨x, if_neg hwq, .same hf fun k' v w' hret => ?_⟩
    rw [Item.Returns, hout] at hret
    obtain ⟨q', x', hw', -, heq⟩ := mem_goOn hret
    obtain ⟨-, rfl, -⟩ := Act.returned.inj heq
    exact hwq hw'

theorem Item.touched (i : Item) (h : Consistent i.pre) {q : CallId} {x : Locals}
    (hx : i.pre.calls.get q = some x) :
    ∃ x', i.post.calls.get q = some x' ∧ Touched i q x x' := by
  have hm := i.moved
  -- what leaves the locals alone
  have hsame : i.post.calls.get q = i.pre.calls.get q → (∀ r, i.ev ≠ .finish q r) →
      (∀ k v w, .returned k q v w ∉ i.out) →
      ∃ x', i.post.calls.get q = some x' ∧ Touched i q x x' :=
    fun hpost hf hr => ⟨x, hpost.trans hx, .same hf hr⟩
  have hgo := @touched_goOn i q x
  unfold Item.Finishes at hgo
  have hq : q ≠ i.pre.nextCall := fun hq => by
    rw [h.freshCall q hq.ge] at hx
    exact absurd hx (by simp)
  generalize he : i.ev = e at hm hsame hgo
  generalize hs : i.post = s' at hm hsame hgo
  generalize ho : i.out = acts at hm hsame hgo
  cases hm with
  | runTimeout => exact hsame (Table.get_set_ne hq) (by simp) (by simp)
  | sleep | wait => exact hsame rfl (by simp) (by simp)
  | wakeup hk hnot =>
    rw [(h.wakeup hk hnot).1]
    rw [(h.wakeup hk hnot).1] at hsame
    exact hsame rfl (by simp) (by simp)
  | @finish q' r y hy hr =>
    rw [h.finish_eq hy] at hsame ⊢
    by_cases hqq : q = q'
    · subst hqq
      obtain rfl := Option.some.inj (hx.symm.trans hy)
      refine ⟨_, Table.get_set_self _ _ _, .finished he hr fun k v w => ?_⟩
      rw [Item.Returns, ho]
      simp
    · exact hsame (Table.get_set_ne hqq) (fun r' hr' => hqq (Event.finish.inj hr').1.symm)
        (by simp)
  | stale => exact hsame rfl (by simp) (by simp)
  | @woken k k' ks n w hqueue hn ht hw t hset =>
    have hnodup := h.nodup
    rw [hqueue, List.nodup_cons] at hnodup
    refine hgo (s := { i.pre with wakeupQueue := ks, sessionThread := t }) h hx hw rfl rfl rfl
      (by simp) hnodup.1 fun hwq hret => ?_
    rcases h.queued k (by rw [hqueue]; simp) with hwait | ⟨q', x', hwait, hx', hr'⟩
    · exact absurd (hw.symm.trans hwait) (by simp [hwq])
    · obtain rfl := Option.some.inj (hw.symm.trans hwait)
      obtain rfl := Waiting.runTimeout.inj hwq
      obtain rfl := Option.some.inj (hx.symm.trans hx')
      exact absurd hret hr'
  | broken => exact hsame rfl (by simp) (by simp)
  | @fired n k w hqueue ht hw =>
    exact hgo (s := { i.pre with sessionThread := i.pre.sessionThread.del n }) h hx hw rfl rfl rfl
      (by simp) (by simp [hqueue]) fun _ _ => ⟨n, rfl, h.thread n k ht⟩

/-- A coroutine sleeps with one session until it goes on. -/
theorem Item.sleeps (i : Item) (h : Consistent i.pre) {k : Thread} {n : Session} {q : CallId}
    {x : Locals} (hn : i.pre.sleepSession.get k = some n) (hx : i.pre.calls.get q = some x)
    (hk : x.co = some k) {x' : Locals} (hx' : i.post.calls.get q = some x')
    (hk' : x'.co = some k) : i.post.sleepSession.get k = some n := by
  have hm := i.moved
  have hwait := h.owner q x k hx hk
  have hne : ∀ j, i.pre.waiting.get j = none → k ≠ j := fun j hj hkj =>
    absurd (hwait.symm.trans (hkj ▸ hj)) (by simp)
  -- the coroutine that goes on is another one
  have hgo : ∀ {s : State} {j : Thread} {w : Waiting}, i.pre.waiting.get j = some w →
      i.post = (Skynet.goOn s j w).1 → s.calls = i.pre.calls → k ≠ j := by
    rintro s j w hj hpost hcalls rfl
    obtain rfl := Option.some.inj (hwait.symm.trans hj)
    rw [hpost, goOn_calls, if_pos rfl, hcalls, hx] at hx'
    obtain rfl := Option.some.inj hx'
    exact absurd hk' (by simp)
  generalize i.ev = e, i.post = s', i.out = acts at hm hgo
  cases hm with
  | runTimeout hj | sleep hj | wait hj => exact (Table.get_set_ne (hne _ hj)).trans hn
  | wakeup hj hnot =>
    rw [(h.wakeup hj hnot).1]
    exact hn
  | finish hy =>
    rw [h.finish_eq hy]
    exact hn
  | stale | broken => exact hn
  | woken _ _ _ hw | fired _ _ hw =>
    rw [goOn_sleepSession]
    exact (Table.get_del_ne (hgo hw rfl rfl)).trans hn

/-- What is known of call `q` after the steps `b` since it was made. -/
structure Traced (k : Thread) (q : CallId) (n : Session) (b : List Item) (s : State)
    (x : Locals) : Prop where
  get : s.calls.get q = some x
  answer : (x.ret = none ∧ ∀ y ∈ b, ∀ r, ¬ Item.Finishes y q r) ∨
    ∃ r, (∃ y ∈ b, Item.Finishes y q r) ∧ (∀ y ∈ b, ∀ r', Item.Finishes y q r' → r' = r) ∧
      x.ret = some (pcall r).1 ∧ x.data = (pcall r).2
  place : (x.co = some k ∧ s.sleepSession.get k = some n ∧
      ∀ y ∈ b, ∀ k v w, ¬ Item.Returns y k q v w) ∨
    x.co = none ∧ ∃ y ∈ b, ∃ v w, Item.Returns y k q v w

theorem Item.Calls.traced {i : Item} {k : Thread} {q : CallId} {n : Session}
    (h : i.Calls k q n) : Traced k q n [] i.post ⟨some k, none, .nil⟩ := by
  obtain ⟨⟨timeout, he⟩, rfl, rfl⟩ := h
  have hm := i.moved
  rw [he] at hm
  generalize i.post = s', i.out = acts at hm
  cases hm with
  | runTimeout hk =>
    exact ⟨Table.get_set_self _ _ _, .inl ⟨rfl, by simp⟩,
      .inl ⟨rfl, Table.get_set_self _ _ _, by simp⟩⟩

theorem Traced.step {k : Thread} {q : CallId} {n : Session} {b : List Item} {j : Item}
    {x : Locals} (h : Traced k q n b j.pre x) (hc : Consistent j.pre) :
    ∃ x', Traced k q n (b ++ [j]) j.post x' := by
  obtain ⟨x', hx', htouch⟩ := j.touched hc h.get
  refine ⟨x', hx', ?_, ?_⟩
  · have hkeep : (∀ r, ¬ j.Finishes q r) → x'.ret = x.ret → x'.data = x.data →
        (x'.ret = none ∧ ∀ y ∈ b ++ [j], ∀ r, ¬ Item.Finishes y q r) ∨
        ∃ r, (∃ y ∈ b ++ [j], Item.Finishes y q r) ∧
          (∀ y ∈ b ++ [j], ∀ r', Item.Finishes y q r' → r' = r) ∧
          x'.ret = some (pcall r).1 ∧ x'.data = (pcall r).2 := by
      intro hf hret hdata
      rw [hret, hdata]
      simp only [List.forall_mem_append, List.forall_mem_singleton]
      rcases h.answer with ⟨hnone, hno⟩ | ⟨r, ⟨y, hy, hyf⟩, huniq, hr⟩
      · exact .inl ⟨hnone, hno, hf⟩
      · exact .inr ⟨r, ⟨y, List.mem_append_left _ hy, hyf⟩,
          ⟨huniq, fun r' hr' => absurd hr' (hf r')⟩, hr⟩
    cases htouch with
    | same hf => exact hkeep hf rfl rfl
    | @finished r hf hret =>
      rcases h.answer with ⟨-, hno⟩ | ⟨r', -, -, hr', -⟩
      · refine .inr ⟨r, ⟨j, by simp, hf⟩, fun y hy r' hr' => ?_, rfl, rfl⟩
        rcases List.mem_append.mp hy with hy | hy
        · exact absurd hr' (hno y hy r')
        · obtain rfl := List.mem_singleton.mp hy
          exact (Event.finish.inj (hr'.symm.trans hf)).2
      · exact absurd (hret.symm.trans hr') (by simp)
    | returned _ hf => exact hkeep hf rfl rfl
  · rcases h.place with ⟨hco, hn, hnot⟩ | ⟨hco, y, hy, v, w, hret⟩
    · simp only [List.forall_mem_append, List.forall_mem_singleton]
      cases htouch with
      | same _ hr => exact .inl ⟨hco, j.sleeps hc hn h.get hco hx' hco, hnot, hr⟩
      | finished _ _ hr => exact .inl ⟨hco, j.sleeps hc hn h.get hco hx' hco, hnot, hr⟩
      | returned hk _ hr =>
        obtain rfl := Option.some.inj (hco.symm.trans hk)
        exact .inr ⟨rfl, j, by simp, _, _, (hr k _ _).mpr ⟨rfl, rfl, rfl⟩⟩
    · have hco' : x'.co = none := by
        cases htouch with
        | same => exact hco
        | finished => exact hco
        | returned => rfl
      exact .inr ⟨hco', y, List.mem_append_left _ hy, v, w, hret⟩

/-- The trace of a call, along a path from it. -/
theorem Item.Calls.path {i : Item} {k : Thread} {q : CallId} {n : Session} (h : i.Calls k q n)
    (hc : Consistent i.pre) {b : List Item} {s : State}
    (hb : Machine.Path machine i.post b s) : Consistent s ∧ ∃ x, Traced k q n b s x := by
  refine Machine.Path.history (J := fun b s => Consistent s ∧ ∃ x, Traced k q n b s x) hb
    ⟨i.consistent hc, _, h.traced⟩ fun a j _ _ hj => ?_
  obtain ⟨hc', x, hx⟩ := hj
  exact ⟨Item.consistent j hc', hx.step hc'⟩

/-- The locals that a return reads. -/
theorem Traced.returns {k : Thread} {q : CallId} {n : Session} {b : List Item} {j : Item}
    {x : Locals} (h : Traced k q n b j.pre x) (hc : Consistent j.pre) {v w : Value}
    (hret : j.Returns k q v w) : v = (results x).1 ∧ w = (results x).2 ∧
      k ∉ j.post.wakeupQueue ∧ (x.ret = none → j.ev = .timer n) := by
  obtain ⟨x', -, htouch⟩ := j.touched hc h.get
  cases htouch with
  | same _ hr => exact absurd hret (hr k v w)
  | finished _ _ hr => exact absurd hret (hr k v w)
  | returned hk _ hr hqueue htimer =>
    obtain ⟨rfl, rfl, rfl⟩ := (hr k v w).mp hret
    refine ⟨rfl, rfl, hqueue, fun hnone => ?_⟩
    obtain ⟨m, hev, hm⟩ := htimer hnone
    rcases h.place with ⟨-, hn, -⟩ | ⟨hco, -⟩
    · obtain rfl := Option.some.inj (hm.symm.trans hn)
      exact hev
    · exact absurd (hco.symm.trans hk) (by simp)

/-- After the return, the end of `f` only writes the locals. -/
theorem Traced.late {k : Thread} {q : CallId} {n : Session} {b : List Item} {y : Item}
    {x : Locals} (h : Traced k q n b y.pre x) (hc : Consistent y.pre)
    (hret : ∃ j ∈ b, ∃ v w, Item.Returns j k q v w) {r : Outcome} (hf : y.Finishes q r) :
    y.out = [] ∧ y.post = { y.pre with calls := y.post.calls } := by
  have hco : x.co = none := by
    rcases h.place with ⟨-, -, hno⟩ | ⟨hco, -⟩
    · obtain ⟨j, hj, v, w, hj'⟩ := hret
      exact absurd hj' (hno j hj k v w)
    · exact hco
  have hm := y.moved
  rw [hf] at hm
  generalize y.post = s', y.out = acts at hm
  cases hm with
  | finish hx =>
    obtain rfl := Option.some.inj (h.get.symm.trans hx)
    rw [hc.finish_eq hx, hco, Option.toList_none, List.append_nil]
    exact ⟨rfl, rfl⟩

/-- The timer ends the sleep. -/
theorem Traced.timer {k : Thread} {q : CallId} {n : Session} {b : List Item} {j : Item}
    {x : Locals} (h : Traced k q n b j.pre x) (hc : Consistent j.pre) (hj : j.ev = .timer n) :
    ∃ y ∈ b ++ [j], ∃ v w, Item.Returns y k q v w := by
  rcases h.place with ⟨hco, hn, -⟩ | ⟨-, y, hy, hret⟩
  · refine ⟨j, by simp, (results x).1, (results x).2, ?_⟩
    have hthread := (hc.asleep k n hn).2
    have hm := j.moved
    rw [hj] at hm
    unfold Item.Returns
    generalize j.post = s', j.out = acts at hm
    cases hm with
    | broken _ ht => exact absurd (ht.symm.trans hthread) (by simp)
    | @fired _ k' w _ ht hw =>
      obtain rfl := Option.some.inj (Option.some.inj (hthread.symm.trans ht))
      obtain rfl := Option.some.inj ((hc.owner q x k h.get hco).symm.trans hw)
      rw [goOn_runTimeout (s := { j.pre with sessionThread := j.pre.sessionThread.del n }) h.get]
      simp
  · exact ⟨y, List.mem_append_left _ hy, hret⟩

/-- A token comes into the queue by `skynet.wakeup`. -/
theorem Item.wakes (i : Item) (hc : Consistent i.pre) {k : Thread}
    (hk : k ∈ i.post.wakeupQueue) : k ∈ i.pre.wakeupQueue ∨ i.Wakes k := by
  have hm := i.moved
  unfold Item.Wakes
  generalize i.ev = e, i.post = s', i.out = acts at hm hk
  cases hm with
  | runTimeout | sleep | wait | broken => exact .inl hk
  | wakeup hj hnot =>
    rw [(hc.wakeup hj hnot).1] at hk ⊢
    rcases List.mem_append.mp hk with hk | hk
    · exact .inl hk
    · rw [List.mem_singleton.mp hk]
      exact .inr rfl
  | @finish q r x hx hr =>
    rw [hc.finish_eq hx] at hk ⊢
    rcases List.mem_append.mp hk with hk | hk
    · exact .inl hk
    · rw [Option.mem_toList.mp hk]
      exact .inr rfl
  | stale hq =>
    rw [hq]
    exact .inl (List.mem_cons_of_mem _ hk)
  | woken hq =>
    rw [goOn_wakeupQueue] at hk
    rw [hq]
    exact .inl (List.mem_cons_of_mem _ hk)
  | fired =>
    rw [goOn_wakeupQueue] at hk
    exact .inl hk

theorem Path.wakes {s t : State} {b : List Item} (hb : Machine.Path machine s b t)
    (hc : Consistent s) {k : Thread} (hk : k ∈ t.wakeupQueue) :
    k ∈ s.wakeupQueue ∨ ∃ x ∈ b, Item.Wakes x k := by
  have hall : Consistent t ∧ (k ∈ t.wakeupQueue →
      k ∈ s.wakeupQueue ∨ ∃ x ∈ b, Item.Wakes x k) := by
    refine Machine.Path.history (J := fun b t => Consistent t ∧ (k ∈ t.wakeupQueue →
      k ∈ s.wakeupQueue ∨ ∃ x ∈ b, Item.Wakes x k)) hb ⟨hc, .inl⟩ fun a i _ _ hi => ?_
    obtain ⟨hc', hi⟩ := hi
    refine ⟨Item.consistent i hc', fun hk => ?_⟩
    rcases Item.wakes i hc' hk with hk | hw
    · rcases hi hk with hk | ⟨x, hx, hw⟩
      · exact .inl hk
      · exact .inr ⟨x, List.mem_append_left _ hx, hw⟩
    · exact .inr ⟨i, by simp, hw⟩
  exact hall.2 hk

/-! ## Success and failure -/

/-- **What the callers of `runTimeout` rely on**, for the call `q` of coroutine `k` with timer `n`,
in the steps `b` after it. -/
structure Separates (k : Thread) (q : CallId) (n : Session) (b : List Item) : Prop where
  /-- It has returned when its timer has fired. -/
  timer : ∀ b₁ j b₂, b = b₁ ++ j :: b₂ → j.ev = .timer n →
    ∃ x ∈ b₁ ++ [j], ∃ v w, Item.Returns x k q v w
  /-- The first result is `true` if and only if `f` had not ended when the timer fired. -/
  first : ∀ b₁ j b₂ v w, b = b₁ ++ j :: b₂ → Item.Returns j k q v w →
    (v = .boolean true ↔ ∀ x ∈ b₁, ∀ r, ¬ Item.Finishes x q r) ∧
      (v = .boolean true → j.ev = .timer n)
  /-- A truthy second result is the first value that `f` returned. -/
  second : ∀ b₁ j b₂ v w, b = b₁ ++ j :: b₂ → Item.Returns j k q v w → v ≠ .boolean true →
    w.truthy = true → ∃ x ∈ b₁, ∃ vs, Item.Finishes x q (.returned vs) ∧ w = vs.headD .nil
  /-- When `f` ends after the return, nothing else happens. -/
  late : ∀ b₁ j b₂ y b₃ v w, b = b₁ ++ j :: (b₂ ++ y :: b₃) → Item.Returns j k q v w →
    ∀ r, Item.Finishes y q r → y.out = [] ∧ y.post = { y.pre with calls := y.post.calls }
  /-- After the return, somebody else has put the token that takes the caller out of a wait. -/
  woken : ∀ b₁ j b₂ y b₃ v w, b = b₁ ++ j :: (b₂ ++ y :: b₃) → Item.Returns j k q v w →
    Item.Breaks y k → ∃ x ∈ b₂, Item.Wakes x k ∧ ∀ r, ¬ Item.Finishes x q r

/-- The `f` of call `q` raises a truthy error before the call returns. -/
def RaisesInTime (k : Thread) (q : CallId) (b : List Item) : Prop :=
  ∃ b₁ j b₂ v w, b = b₁ ++ j :: b₂ ∧ Item.Returns j k q v w ∧
    ∃ x ∈ b₁, ∃ e : Value, Item.Finishes x q (.raised e) ∧ e.truthy = true

/-- **When `runTimeout` separates success from failure**: exactly if `f` does not raise a truthy
error in time. -/
theorem runTimeout_separates_iff {a b : List Item} {i : Item} {s : State}
    (h : machine.Run (a ++ i :: b) s) {k : Thread} {q : CallId} {n : Session}
    (hi : i.Calls k q n) : Separates k q n b ↔ ¬ RaisesInTime k q b := by
  obtain ⟨ha, hb⟩ := Machine.Path.split h
  have hc := Run.consistent ha
  have htrace : ∀ b₁ j b₂, b = b₁ ++ j :: b₂ →
      Consistent j.pre ∧ ∃ x, Traced k q n b₁ j.pre x := by
    rintro b₁ j b₂ rfl
    exact hi.path hc hb.split.1
  constructor
  · rintro hsep ⟨b₁, j, b₂, v, w, hbj, hret, y, hy, e, hf, he⟩
    obtain ⟨hcj, x, hx⟩ := htrace b₁ j b₂ hbj
    obtain ⟨rfl, rfl, -, -⟩ := hx.returns hcj hret
    rcases hx.answer with ⟨-, hno⟩ | ⟨r, -, huniq, hxr, hxd⟩
    · exact hno y hy _ hf
    · obtain rfl := huniq y hy _ hf
      have hres : results x = (.nil, e) := by rw [results, hxr, hxd]; rfl
      rw [hres] at hret
      obtain ⟨z, hz, vs, hzf, -⟩ := hsep.second b₁ j b₂ _ _ hbj hret (by simp) he
      exact absurd (huniq z hz _ hzf) (by simp)
  · intro hno
    have hlate : ∀ b₁ j b₂ y b₃ v w, b = b₁ ++ j :: (b₂ ++ y :: b₃) → Item.Returns j k q v w →
        ∀ r, Item.Finishes y q r → y.out = [] ∧ y.post = { y.pre with calls := y.post.calls } := by
      intro b₁ j b₂ y b₃ v w hby hret r hf
      obtain ⟨hcy, x, hx⟩ := htrace (b₁ ++ j :: b₂) y b₃ (by rw [hby]; simp)
      exact hx.late hcy ⟨j, by simp, v, w, hret⟩ hf
    refine ⟨?_, ?_, ?_, hlate, ?_⟩
    · intro b₁ j b₂ hbj hj
      obtain ⟨hcj, x, hx⟩ := htrace b₁ j b₂ hbj
      exact hx.timer hcj hj
    · intro b₁ j b₂ v w hbj hret
      obtain ⟨hcj, x, hx⟩ := htrace b₁ j b₂ hbj
      obtain ⟨rfl, rfl, -, htimer⟩ := hx.returns hcj hret
      rcases hx.answer with ⟨hxr, hnot⟩ | ⟨r, ⟨y, hy, hf⟩, -, hxr, -⟩
      · rw [results, hxr]
        exact ⟨iff_of_true rfl hnot, fun _ => htimer hxr⟩
      · rw [results, hxr]
        exact ⟨iff_of_false (by simp) fun hnot => hnot y hy r hf, by simp⟩
    · intro b₁ j b₂ v w hbj hret hv hw
      obtain ⟨hcj, x, hx⟩ := htrace b₁ j b₂ hbj
      obtain ⟨rfl, rfl, -, -⟩ := hx.returns hcj hret
      rcases hx.answer with ⟨hxr, -⟩ | ⟨r, ⟨y, hy, hf⟩, -, hxr, hxd⟩
      · exact absurd (by rw [results, hxr]) hv
      · rw [results, hxr, hxd] at hw ⊢
        cases r with
        | returned vs => exact ⟨y, hy, vs, hf, rfl⟩
        | raised e => exact absurd ⟨b₁, j, b₂, _, _, hbj, hret, y, hy, e, hf, hw⟩ hno
    · intro b₁ j b₂ y b₃ v w hby hret hbreak
      obtain ⟨hcj, x, hx⟩ := htrace b₁ j (b₂ ++ y :: b₃) hby
      obtain ⟨-, -, hout, -⟩ := hx.returns hcj hret
      have hpath : Machine.Path machine j.post b₂ y.pre := by
        rw [hby] at hb
        exact hb.split.2.split.1
      have hmem : k ∈ y.pre.wakeupQueue := List.mem_of_mem_head? hbreak.2
      rcases Path.wakes hpath (Item.consistent j hcj) hmem with hk | ⟨z, hz, hwake⟩
      · exact absurd hk hout
      · refine ⟨z, hz, hwake, fun r hf => ?_⟩
        obtain ⟨c₁, c₂, rfl⟩ := List.append_of_mem hz
        have hpost := (hlate b₁ j c₁ z (c₂ ++ y :: b₃) v w (by rw [hby]; simp) hret r hf).2
        have hqueue : z.post.wakeupQueue = z.pre.wakeupQueue := by rw [hpost]
        rw [Item.Wakes, hqueue] at hwake
        exact absurd hwake (by simp)

/-- A coroutine calls `runTimeout(2, f)`, and `f` ends before the timer. -/
def inTime (r : Outcome) : List Event := [.runTimeout 0 2, .finish 0 r, .dispatchWakeup]

/-- The run of `inTime`, with what the call returns. -/
theorem exists_inTime (r : Outcome) : ∃ i j l : Item,
    machine.Run ([] ++ i :: [j, l]) l.post ∧ i.Calls 0 0 0 ∧ j.Finishes 0 r ∧
      l.ev = .dispatchWakeup ∧ l.Returns 0 0 .nil (pcall r).2 := by
  have h : (machine.items machine.init (inTime r)).map (List.map Machine.Item.out) =
      some [[.timeout 0 200], [], [.returned 0 0 .nil (pcall r).2]] := rfl
  obtain ⟨tr, hrun, hev, hout⟩ := Machine.exists_run_out _ h
  obtain ⟨i, tr, rfl, hi, hev⟩ := List.map_eq_cons_iff.mp hev
  obtain ⟨j, tr, rfl, hj, hev⟩ := List.map_eq_cons_iff.mp hev
  obtain ⟨l, tr, rfl, hl, hev⟩ := List.map_eq_cons_iff.mp hev
  obtain rfl := List.map_eq_nil_iff.mp hev
  have hpre := (Machine.path_cons_iff.mp hrun).1
  simp only [List.map_cons, List.map_nil, List.cons.injEq] at hout
  refine ⟨i, j, l, hrun, ⟨⟨2, hi⟩, ?_, ?_⟩, hj, hl, ?_⟩
  · rw [hpre]
    rfl
  · rw [hpre]
    rfl
  · rw [Item.Returns, hout.2.2.1]
    simp

theorem runTimeout_separates_iff_returned : ∃ i j l : Item,
    machine.Run ([] ++ i :: [j, l]) l.post ∧ l.Returns 0 0 .nil (.boolean true) ∧
      Separates 0 0 0 [j, l] := by
  obtain ⟨i, j, l, hrun, hi, hj, hlev, hl⟩ := exists_inTime (.returned [.boolean true])
  refine ⟨i, j, l, hrun, hl, (runTimeout_separates_iff hrun hi).mpr ?_⟩
  rintro ⟨b₁, y, b₂, v, w, heq, -, x, hx, e, hf, -⟩
  have hmem : x ∈ [j, l] := heq ▸ List.mem_append_left _ hx
  simp only [List.mem_cons, List.not_mem_nil, or_false] at hmem
  rcases hmem with rfl | rfl
  · exact absurd (hj.symm.trans hf) (by simp)
  · exact absurd (hlev.symm.trans hf) (by simp)

/-- **An error is taken for a result.** -/
theorem error_taken_for_result : ∃ i j l : Item,
    machine.Run ([] ++ i :: [j, l]) l.post ∧ i.Calls 0 0 0 ∧
      j.Finishes 0 (.raised (.string (bytes "connection lost"))) ∧
      l.Returns 0 0 .nil (.string (bytes "connection lost")) ∧ ¬ Separates 0 0 0 [j, l] := by
  obtain ⟨i, j, l, hrun, hi, hj, -, hl⟩ :=
    exists_inTime (.raised (.string (bytes "connection lost")))
  refine ⟨i, j, l, hrun, hi, hj, hl, fun hsep => ?_⟩
  obtain ⟨x, hx, vs, hf, -⟩ := hsep.second [j] l [] _ _ rfl hl (by simp) rfl
  obtain rfl := List.mem_singleton.mp hx
  exact absurd (hj.symm.trans hf) (by simp)

end LsServer.Skynet
