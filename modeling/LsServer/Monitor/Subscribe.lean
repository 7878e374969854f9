import LsServer.Monitor.Registration

/-!
# Connecting to the master (MonitorSubscribe.lua)

`connectMasterAndPush` calls `sync` at the master until the second result of `runTimeout` is not
`nil` or `false`. A round of its loop is an `Attempt`: the search for the service, the request on
its way, the coroutine of the master that runs it, the answer on its way back, which a round that
timed out no longer waits for. The master takes its own steps in between.

The second result is also the message of an error (`Item.ConnectsByError`). And `sync` returns
`true` whether or not its broadcast has left its own node in the table (`Item.DropsCaller`).

Source: MonitorSubscribe.lua `response.connectMasterAndPush` 29-45; Common.lua 41-57;
MonitorPublish.lua `response.sync` 64-81.

* `connect` is a call of `connectMasterAndPush`, by `main` or by `clusterHold` of the node;
  `search`, `deliver`, `reply` and `raise` are the way of one `sync` call; `resume` ends its
  `runTimeout`, `retry` the `skynet.sleep` behind a round that failed.
* The master is `Monitor.machine`, with steps of its own (`master`).
* `Item.ConnectsByError`: a round ends with a call that raised. `Item.DropsCaller`: the broadcast of
  a `sync`, or `clusterHold`, deletes the node of that `sync`.
* `Registered`: the coroutine returned `true`, and its node was in `clusterInfo` then.

A round that has timed out leaves its attempt: its `sync` may still run, and register the node again
later.

Results:
* `connectMasterAndPush_registered`: without these two, a node that has connected was in
  `clusterInfo` when the `sync` that it waited for returned `true`;
* `connectMasterAndPush_unregistered`: each of the two, in a run.

Out of scope: the loop of `clusterHold` of the node, which is `runTimeout` and another `connect`.
-/

namespace LsServer.Monitor.Subscribe

open LsServer.Lib LsServer.Lua LsServer.Cluster

abbrev ConnectId := Nat
abbrev AttemptId := Nat

/-- Where `connectMasterAndPush` is: in `runTimeout` with an attempt, or in `skynet.sleep`. -/
inductive ConnectPhase
  | calling (a : AttemptId)
  | sleeping
  deriving DecidableEq

/-- A call of `connectMasterAndPush(nodeName, reconnect)` at a node. -/
structure Connect where
  nodeName : NodeName
  ip : Bytes
  port : Bytes
  reconnect : Bool
  phase : ConnectPhase

/-- A remote call of `sync`: its arguments, whether the request was made, the coroutine of the
master that runs it, and how the call ended at the node. -/
structure Attempt where
  nodeName : NodeName
  ip : Bytes
  port : Bytes
  sent : Bool
  task : Option TaskId
  result : Option CallResult

/-- `answers` holds how the coroutines of `sync` ended. -/
structure State where
  master : Monitor.State
  answers : Table TaskId CallResult
  connects : Table ConnectId Connect
  nextConnect : ConnectId
  attempts : Table AttemptId Attempt
  nextAttempt : AttemptId

/-- What happens next. -/
inductive Event
  | connect (nodeName : NodeName) (ip port : Bytes) (reconnect : Bool)
  | search (a : AttemptId) (r : Search)
  | deliver (a : AttemptId)
  | master (e : Monitor.Event)
  | reply (a : AttemptId)
  | raise (a : AttemptId)
  | resume (p : ConnectId)
  | retry (p : ConnectId)
  deriving DecidableEq

/-- What is done: by the master, the end of `connectMasterAndPush`, the start of the health
check. -/
inductive Act
  | master (a : Monitor.Act)
  | connected (p : ConnectId)
  | runInterval (p : ConnectId) (interval : Nat)
  deriving DecidableEq

/-- A round of the loop of `connectMasterAndPush`, up to `runTimeout`. -/
def attempt (s : State) (p : ConnectId) (x : Connect) : State :=
  { s with
    connects := s.connects.set p { x with phase := .calling s.nextAttempt }
    attempts := s.attempts.set s.nextAttempt ⟨x.nodeName, x.ip, x.port, false, none, none⟩
    nextAttempt := s.nextAttempt + 1 }

/-- `response.connectMasterAndPush`, up to the first `runTimeout`. -/
def connectMasterAndPush (s : State) (nodeName : NodeName) (ip port : Bytes) (reconnect : Bool) :
    State :=
  attempt { s with nextConnect := s.nextConnect + 1 } s.nextConnect
    ⟨nodeName, ip, port, reconnect, .sleeping⟩

/-- The loop of `connectMasterAndPush` after `runTimeout`. -/
def afterAttempt (s : State) (p : ConnectId) (x : Connect) (t : Attempt) : State × List Act :=
  let connectRet := (runTimeout t.result).2
  if connectRet then
    ({ s with connects := s.connects.del p },
      .connected p :: if x.reconnect then [] else [.runInterval p 300])
  else ({ s with connects := s.connects.set p { x with phase := .sleeping } }, [])

/-- Attempt `a` after a step. -/
def setAttempt (s : State) (a : AttemptId) (t : Attempt) : State :=
  { s with attempts := s.attempts.set a t }

/-- The search of attempt `a` has ended. -/
def searched (s : State) (a : AttemptId) (t : Attempt) (r : Search) : State :=
  match remoteCall r (bytes "sync") with
  | .absent => setAttempt s a { t with result := some (.returned false) }
  | .raises => setAttempt s a { t with result := some .raised }
  | .request => setAttempt s a { t with sent := true }

/-- The end of a `sync`. -/
def recordAnswer (t : Table TaskId CallResult) : Monitor.Act → Table TaskId CallResult
  | .returned k ok => t.set k (.returned ok)
  | .raised k => t.set k .raised

/-- A step of the master. -/
def masterStep (c : Conf) (s : State) (e : Monitor.Event) : Option (State × List Act) :=
  (Monitor.step c s.master e).map fun x =>
    ({ s with master := x.1, answers := x.2.foldl recordAnswer s.answers }, x.2.map .master)

/-- What happens to attempt `a`. -/
def stepAttempt (c : Conf) (s : State) (a : AttemptId) (t : Attempt) :
    Event → Option (State × List Act)
  | .search _ r =>
    if t.sent = false ∧ t.result = none then some (searched s a t r, []) else none
  | .deliver _ =>
    if t.sent = true ∧ t.task = none then
      masterStep c (setAttempt s a { t with task := some s.master.nextTask })
        (.sync t.nodeName t.ip t.port)
    else none
  | .reply _ =>
    if t.result = none then
      (t.task.bind s.answers.get).map fun r => (setAttempt s a { t with result := some r }, [])
    else none
  | .raise _ =>
    if t.sent = true ∧ t.result = none then
      some (setAttempt s a { t with result := some .raised }, [])
    else none
  | _ => none

/-- One event, if it can happen. -/
def step (c : Conf) (s : State) (e : Event) : Option (State × List Act) :=
  match e with
  | .connect nodeName ip port reconnect =>
    some (connectMasterAndPush s nodeName ip port reconnect, [])
  | .master e => masterStep c s e
  | .search a _ | .deliver a | .reply a | .raise a =>
    (s.attempts.get a).bind fun t => stepAttempt c s a t e
  | .resume p =>
    (s.connects.get p).bind fun x =>
      match x.phase with
      | .calling a => (s.attempts.get a).map fun t => afterAttempt s p x t
      | .sleeping => none
  | .retry p =>
    (s.connects.get p).bind fun x =>
      if x.phase = .sleeping then some (attempt s p x, []) else none

def State.init (c : Conf) : State where
  master := .init c
  answers := .empty
  connects := .empty
  nextConnect := 0
  attempts := .empty
  nextAttempt := 0

/-- **The master and the nodes that connect to it.** -/
def machine (c : Conf) : Machine State Event Act := ⟨.init c, step c⟩

/-- A step of them. -/
abbrev Item (c : Conf) := (machine c).Item

/-! ## Inverting a step -/

/-- What an event does. -/
inductive Moved (c : Conf) (s : State) : Event → State → List Act → Prop
  | loop {e : Event} (p : ConnectId) (x : Connect) (m : ConnectId) :
    Moved c s e (attempt { s with nextConnect := m } p x) []
  | call {e : Event} {a : AttemptId} {t t' : Attempt} (ha : s.attempts.get a = some t)
    (hname : t'.nodeName = t.nodeName) (htask : t'.task = t.task)
    (hres : t'.result = some (.returned true) → t.result = some (.returned true) ∨
      ∃ k, t.task = some k ∧ s.answers.get k = some (.returned true)) :
    Moved c s e (setAttempt s a t') []
  | deliver {a : AttemptId} {t : Attempt} (ha : s.attempts.get a = some t)
    (htask : t.task = none) (i : Monitor.Item c) (hpre : i.pre = s.master)
    (hev : i.ev = .sync t.nodeName t.ip t.port) :
    Moved c s (.deliver a)
      { setAttempt s a { t with task := some s.master.nextTask } with
        master := i.post, answers := i.out.foldl recordAnswer s.answers } (i.out.map .master)
  | master (i : Monitor.Item c) (hpre : i.pre = s.master) :
    Moved c s (.master i.ev)
      { s with master := i.post, answers := i.out.foldl recordAnswer s.answers }
      (i.out.map .master)
  | connected {p : ConnectId} {x : Connect} {a : AttemptId} {t : Attempt}
    (hp : s.connects.get p = some x) (hphase : x.phase = .calling a)
    (ha : s.attempts.get a = some t) (hret : (runTimeout t.result).2 = true) :
    Moved c s (.resume p) { s with connects := s.connects.del p }
      (.connected p :: if x.reconnect then [] else [.runInterval p 300])
  | sleeps {p : ConnectId} {x : Connect} (hp : s.connects.get p = some x) :
    Moved c s (.resume p) { s with connects := s.connects.set p { x with phase := .sleeping } } []

theorem masterStep_eq {c : Conf} {s s' : State} {e : Monitor.Event} {acts : List Act}
    (h : masterStep c s e = some (s', acts)) : ∃ i : Monitor.Item c, i.pre = s.master ∧ i.ev = e ∧
      s' = { s with master := i.post, answers := i.out.foldl recordAnswer s.answers } ∧
      acts = i.out.map .master := by
  obtain ⟨⟨m, out⟩, hstep, heq⟩ := Option.map_eq_some_iff.mp h
  obtain ⟨rfl, rfl⟩ := Prod.mk.inj heq
  exact ⟨⟨s.master, e, m, out, hstep⟩, rfl, rfl, rfl, rfl⟩

theorem stepAttempt_moved {c : Conf} {s s' : State} {a : AttemptId} {t : Attempt} {e : Event}
    {acts : List Act} (ha : s.attempts.get a = some t)
    (he : e = .deliver a ∨ ∀ b, e ≠ .deliver b)
    (h : stepAttempt c s a t e = some (s', acts)) : Moved c s e s' acts := by
  cases e with
  | search b r =>
    simp only [stepAttempt, Option.ite_none_right_eq_some] at h
    obtain ⟨-, h⟩ := h
    obtain ⟨rfl, rfl⟩ := Prod.mk.inj (Option.some.inj h)
    unfold searched
    split
    · exact .call ha rfl rfl (by simp)
    · exact .call ha rfl rfl (by simp)
    · exact .call ha rfl rfl .inl
  | deliver b =>
    obtain rfl : b = a := by
      rcases he with he | he
      · exact Event.deliver.inj he
      · exact absurd rfl (he b)
    simp only [stepAttempt, Option.ite_none_right_eq_some] at h
    obtain ⟨⟨-, htask⟩, h⟩ := h
    obtain ⟨i, hpre, hev, rfl, rfl⟩ := masterStep_eq h
    exact .deliver ha htask i hpre hev
  | reply b =>
    simp only [stepAttempt, Option.ite_none_right_eq_some] at h
    obtain ⟨-, h⟩ := h
    obtain ⟨r, hr, heq⟩ := Option.map_eq_some_iff.mp h
    obtain ⟨rfl, rfl⟩ := Prod.mk.inj heq
    obtain ⟨k, hk, hr⟩ := Option.bind_eq_some_iff.mp hr
    refine .call ha rfl rfl fun hres => .inr ⟨k, hk, ?_⟩
    obtain rfl := Option.some.inj hres
    exact hr
  | raise b =>
    simp only [stepAttempt, Option.ite_none_right_eq_some] at h
    obtain ⟨-, h⟩ := h
    obtain ⟨rfl, rfl⟩ := Prod.mk.inj (Option.some.inj h)
    exact .call ha rfl rfl (by simp)
  | _ => exact absurd h (by simp [stepAttempt])

variable {c : Conf}

theorem Item.moved (i : Item c) : Moved c i.pre i.ev i.post i.out := by
  have h : step c i.pre i.ev = some (i.post, i.out) := i.ok
  generalize i.ev = e, i.post = s', i.out = acts at h
  unfold step at h
  cases e with
  | connect nodeName ip port reconnect =>
    obtain ⟨rfl, rfl⟩ := Prod.mk.inj (Option.some.inj h)
    exact .loop _ _ _
  | master e =>
    obtain ⟨i', hpre, rfl, rfl, rfl⟩ := masterStep_eq h
    exact .master i' hpre
  | search a r | reply a | raise a =>
    obtain ⟨t, ha, h⟩ := Option.bind_eq_some_iff.mp h
    exact stepAttempt_moved ha (.inr (by simp)) h
  | deliver a =>
    obtain ⟨t, ha, h⟩ := Option.bind_eq_some_iff.mp h
    exact stepAttempt_moved ha (.inl rfl) h
  | resume p =>
    obtain ⟨x, hp, h⟩ := Option.bind_eq_some_iff.mp h
    split at h
    · rename_i a hphase
      obtain ⟨t, ha, h⟩ := Option.map_eq_some_iff.mp h
      unfold afterAttempt at h
      dsimp only at h
      split at h
      · rename_i hret
        obtain ⟨rfl, rfl⟩ := Prod.mk.inj h
        exact .connected hp hphase ha hret
      · obtain ⟨rfl, rfl⟩ := Prod.mk.inj h
        exact .sleeps hp
    · exact absurd h (by simp)
  | retry p =>
    obtain ⟨x, hp, h⟩ := Option.bind_eq_some_iff.mp h
    simp only [Option.ite_none_right_eq_some] at h
    obtain ⟨-, h⟩ := h
    obtain ⟨rfl, rfl⟩ := Prod.mk.inj (Option.some.inj h)
    exact .loop p x i.pre.nextConnect

/-! ## The coroutines of `sync` -/

/-- The node of a coroutine. -/
def remoteName : Task → Option NodeName
  | .registering name _ _ | .querying name _ _ => some name
  | .refusing => none
  | .broadcasting caller _ => caller

/-- The coroutine of an act. -/
def actTask : Monitor.Act → TaskId
  | .returned k _ | .raised k => k

/-- A step that writes the task `k'`. -/
theorem named_set {s : Monitor.State} {k k' : TaskId} {t t' : Task} {n : NodeName}
    (hk : (s.tasks.set k' t').get k = some t) (hn : remoteName t = some n)
    (ht : remoteName t' = some n → ∃ t, s.tasks.get k' = some t ∧ remoteName t = some n) :
    ∃ t, s.tasks.get k = some t ∧ remoteName t = some n := by
  rw [Table.get_set] at hk
  split at hk
  · rename_i hkk
    rw [hkk]
    obtain rfl := Option.some.inj hk
    exact ht hn
  · exact ⟨t, hk, hn⟩

/-- A coroutine keeps its node. -/
theorem named (i : Monitor.Item c) {k : TaskId} {t : Task} {n : NodeName}
    (hk : i.post.tasks.get k = some t) (hn : remoteName t = some n) :
    (∃ t, i.pre.tasks.get k = some t ∧ remoteName t = some n) ∨
      k = i.pre.nextTask ∧ ∃ ip port, i.ev = .sync n ip port := by
  have hm := i.moved
  generalize i.ev = e, i.post = s', i.out = acts at hm hk
  cases hm with
  | @sync name ip portText port hr hp =>
    simp only [setTask, Table.get_set] at hk
    split at hk
    · rename_i hkk
      obtain rfl := Option.some.inj hk
      obtain rfl := Option.some.inj hn
      exact .inr ⟨hkk, ip, portText, rfl⟩
    · exact .inl ⟨t, hk, hn⟩
  | query _ hk' | again _ hk' | alive _ hk' | loopEnd _ hk' =>
    exact .inl (named_set hk hn fun h => ⟨_, hk', h⟩)
  | dead => exact .inl (named_set hk hn fun h => absurd h (by simp [remoteName]))
  | refused | done | reloadRaises | raises => exact .inl ⟨t, (Table.get_of_get_del hk).2, hn⟩
  | hold =>
    obtain ⟨t', v, -, heq⟩ := foldl_remove_eq (expired c i.pre _)
      { i.pre with nextTask := i.pre.nextTask + 1 }
    rw [heq] at hk
    exact .inl (named_set (s := i.pre) hk hn fun h => absurd h (by simp [remoteName]))
  | heartbeat =>
    unfold heartbeat at hk
    split at hk <;> exact .inl ⟨t, hk, hn⟩
  | visit _ hk' =>
    unfold visit at hk
    split at hk <;> exact .inl (named_set hk hn fun h => ⟨_, hk', h⟩)
  | search =>
    unfold Monitor.searched at hk
    split at hk <;> exact .inl ⟨t, hk, hn⟩
  | resume _ hk' =>
    unfold afterCall at hk
    split at hk
    · change ((remove _ _).tasks.set _ _).get k = _ at hk
      rw [remove_tasks] at hk
      exact .inl (named_set hk hn fun h => ⟨_, hk', h⟩)
    · exact .inl (named_set hk hn fun h => ⟨_, hk', h⟩)
  | _ => exact .inl ⟨t, hk, hn⟩

theorem nextTask_le (i : Monitor.Item c) : i.pre.nextTask ≤ i.post.nextTask := by
  have hm := i.moved
  generalize i.ev = e, i.post = s', i.out = acts at hm
  cases hm with
  | syncFails | sync => exact Nat.le_succ _
  | hold =>
    obtain ⟨t', v, -, heq⟩ := foldl_remove_eq (expired c i.pre _)
      { i.pre with nextTask := i.pre.nextTask + 1 }
    rw [heq]
    exact Nat.le_succ _
  | heartbeat =>
    unfold heartbeat
    split <;> exact le_rfl
  | visit =>
    unfold visit
    split <;> exact le_rfl
  | search =>
    unfold Monitor.searched
    split <;> exact le_rfl
  | resume =>
    unfold afterCall remove
    split
    · split <;> exact le_rfl
    · exact le_rfl
  | _ => exact le_rfl

theorem sync_nextTask (i : Monitor.Item c) {name : NodeName} {ip port : Bytes}
    (he : i.ev = .sync name ip port) : i.post.nextTask = i.pre.nextTask + 1 := by
  have hm := i.moved
  rw [he] at hm
  generalize i.post = s', i.out = acts at hm
  cases hm with
  | syncFails | sync => rfl

/-- How a coroutine of `sync` ends: at once, with a refusal, or with its broadcast. -/
theorem ended (i : Monitor.Item c) {a : Monitor.Act} (h : a ∈ i.out) :
    (∃ k, a = .raised k ∧ k = i.pre.nextTask ∧ i.post.nextTask = k + 1) ∨
      ∃ t, i.pre.tasks.get (actTask a) = some t ∧ ∀ k, a = .returned k true →
        (∃ n, remoteName t = some n) ∧ i.post.clusterInfo = i.pre.clusterInfo ∧
          ∃ caller w, t = .broadcasting caller w := by
  have hm := i.moved
  generalize i.ev = e, i.post = s', i.out = acts at hm h
  cases hm with
  | syncFails =>
    obtain rfl := List.mem_singleton.mp h
    exact .inl ⟨_, rfl, rfl, rfl⟩
  | refused _ hk =>
    obtain rfl := List.mem_singleton.mp h
    exact .inr ⟨_, hk, by simp⟩
  | @done k caller w _ hk =>
    unfold result at h
    split at h
    · rename_i hc
      obtain rfl := List.mem_singleton.mp h
      exact .inr ⟨_, hk, fun _ _ => ⟨Option.isSome_iff_exists.mp hc, rfl, caller, w, rfl⟩⟩
    · exact absurd h (by simp)
  | reloadRaises _ hk =>
    obtain rfl := Task.eq_of_mem_raised h
    exact .inr ⟨_, hk, by simp⟩
  | raises _ hk =>
    unfold result at h
    split at h
    · obtain rfl := List.mem_singleton.mp h
      exact .inr ⟨_, hk, by simp⟩
    · exact absurd h (by simp)
  | _ => exact absurd h (by simp)

/-- The node of a broadcasting `sync` is registered. -/
def Kept (s : Monitor.State) : Prop :=
  ∀ k n w, s.tasks.get k = some (.broadcasting (some n) w) → s.clusterInfo.get n ≠ none

/-- It stays so, unless its own call fails or `clusterHold` finds it too old. -/
theorem kept_step (i : Monitor.Item c) (h : Kept i.pre)
    (hno : ∀ k n w, i.pre.tasks.get k = some (.broadcasting (some n) w) →
      ¬ ((∃ now, i.ev = .hold now ∧ n ∈ expired c i.pre now) ∨ ∃ q, i.Fails q n)) :
    Kept i.post := by
  intro k n w hk hnone
  have hold : ∀ w', i.pre.tasks.get k = some (.broadcasting (some n) w') → False := by
    intro w' hk'
    exact hno k n w' hk' (i.removes ⟨h k n w' hk', hnone⟩)
  cases i.walked hk with
  | fresh hc =>
    rcases hc with ⟨w', hk'⟩ | hc
    · exact hold w' hk'
    · exact hc n rfl hnone
  | kept hk' | met hk' | called hk' | ended hk' | synced _ hk' | failed hk' => exact hold _ hk'

/-! ## What a connected node relies on -/

/-- `connectMasterAndPush` takes the message of an error for the result of `sync`. -/
def Item.ConnectsByError (i : Item c) : Prop :=
  ∃ p x a t, i.ev = .resume p ∧ i.pre.connects.get p = some x ∧ x.phase = .calling a ∧
    i.pre.attempts.get a = some t ∧ t.result = some .raised

/-- The node of a broadcasting `sync` is deleted: `clusterHold` finds it too old, or a call to it
timed out or returned a falsy value. -/
def Item.DropsCaller (i : Item c) : Prop :=
  ∃ e k n w, i.ev = .master e ∧ i.pre.master.tasks.get k = some (.broadcasting (some n) w) ∧
    ((∃ now, e = .hold now ∧ n ∈ expired c i.pre.master now) ∨ ∃ q, Fails i.pre.master e q n)

/-- The coroutine `k` of a `sync` of `n` returns `true`, and `n` is in `clusterInfo`. -/
def Item.Registers (i : Item c) (k : TaskId) (n : NodeName) : Prop :=
  Act.master (.returned k true) ∈ i.out ∧
    (∃ w, i.pre.master.tasks.get k = some (.broadcasting (some n) w)) ∧
    i.post.master.clusterInfo.get n ≠ none

/-- Coroutine `k` returned `true` and left its node `n` registered. -/
def Registered (tr : List (Item c)) (k : TaskId) (n : NodeName) : Prop :=
  ∃ i ∈ tr, Item.Registers i k n

theorem Registered.snoc {tr : List (Item c)} {k : TaskId} {n : NodeName} (h : Registered tr k n)
    (i : Item c) : Registered (tr ++ [i]) k n := by
  obtain ⟨j, hj, hr⟩ := h
  exact ⟨j, List.mem_append_left _ hj, hr⟩

/-- An answer of the master is an old one, or of an act of this step. -/
theorem foldl_recordAnswer {acts : List Monitor.Act} {t : Table TaskId CallResult} {k : TaskId}
    {r : CallResult} (h : (acts.foldl recordAnswer t).get k = some r) :
    t.get k = some r ∨ ∃ a ∈ acts, actTask a = k ∧
      (r = .returned true → a = .returned k true) := by
  induction acts generalizing t with
  | nil => exact .inl h
  | cons a acts ih =>
    rcases ih h with h' | ⟨b, hb, hk, hr⟩
    · cases a with
      | returned q ok =>
        simp only [recordAnswer, Table.get_set] at h'
        split at h'
        · rename_i hq
          obtain rfl := Option.some.inj h'
          refine .inr ⟨_, List.mem_cons_self, hq.symm, fun hr => ?_⟩
          rw [hq, CallResult.returned.inj hr]
        · exact .inl h'
      | raised q =>
        simp only [recordAnswer, Table.get_set] at h'
        split at h'
        · rename_i hq
          obtain rfl := Option.some.inj h'
          exact .inr ⟨_, List.mem_cons_self, hq.symm, by simp⟩
        · exact .inl h'
    · exact .inr ⟨b, List.mem_cons_of_mem _ hb, hk, hr⟩

/-- The attempts and the coroutines that run them. -/
structure Tracked (tr : List (Item c)) (s : State) : Prop where
  numbered : Numbered s.master
  kept : Kept s.master
  fresh : ∀ a t, s.attempts.get a = some t → a < s.nextAttempt
  answersFresh : ∀ k r, s.answers.get k = some r → k < s.master.nextTask
  started : ∀ a t k, s.attempts.get a = some t → t.task = some k → k < s.master.nextTask
  named : ∀ a t k t' n, s.attempts.get a = some t → t.task = some k →
    s.master.tasks.get k = some t' → remoteName t' = some n → n = t.nodeName
  answered : ∀ a t k, s.attempts.get a = some t → t.task = some k →
    s.answers.get k = some (.returned true) → Registered tr k t.nodeName
  replied : ∀ a t, s.attempts.get a = some t → t.result = some (.returned true) →
    ∃ k, t.task = some k ∧ Registered tr k t.nodeName
  calling : ∀ p x a, s.connects.get p = some x → x.phase = .calling a →
    ∃ t, s.attempts.get a = some t ∧ t.nodeName = x.nodeName

/-- A step of the master, with the attempts as they are. -/
theorem Tracked.master {tr : List (Item c)} {s : State} (h : Tracked tr s) (i : Item c)
    (j : Monitor.Item c) (hpre : j.pre = s.master) (hi : i.pre.master = s.master)
    (hpost : i.post.master = j.post) (hout : i.out = j.out.map .master) (hkept : Kept j.post) :
    Tracked (tr ++ [i]) { s with
      master := j.post, answers := j.out.foldl recordAnswer s.answers } := by
  have hle := hpre ▸ nextTask_le j
  refine ⟨j.numbered (hpre ▸ h.numbered), hkept, h.fresh, fun k r hr => ?_,
    fun a t k ha hk => (h.started a t k ha hk).trans_le hle, fun a t k t' n ha hk ht hn => ?_,
    fun a t k ha hk hans => ?_, fun a t ha hr => ?_, h.calling⟩
  · rcases foldl_recordAnswer hr with hr | ⟨a, ha, rfl, -⟩
    · exact (h.answersFresh k r hr).trans_le hle
    · rcases ended j ha with ⟨q, rfl, -, hnext⟩ | ⟨t, ht, -⟩
      · change q < j.post.nextTask
        rw [hnext]
        exact Nat.lt_succ_self _
      · exact (h.numbered _ t (hpre ▸ ht)).trans_le hle
  · rcases Subscribe.named j ht hn with ⟨t₁, ht₁, hn₁⟩ | ⟨rfl, -⟩
    · exact h.named a t k t₁ n ha hk (hpre ▸ ht₁) hn₁
    · exact absurd (h.started a t _ ha hk) (by rw [hpre]; exact lt_irrefl _)
  · rcases foldl_recordAnswer hans with hans | ⟨b, hb, -, hr⟩
    · exact (h.answered a t k ha hk hans).snoc i
    · obtain rfl := hr rfl
      rcases ended j hb with ⟨q, hq, -⟩ | ⟨t₁, ht₁, hret⟩
      · exact absurd hq (by simp)
      · obtain ⟨⟨n, hn⟩, hinfo, caller, w, rfl⟩ := hret k rfl
        obtain rfl : caller = some n := hn
        obtain rfl := h.named a t k _ n ha hk (hpre ▸ ht₁) rfl
        refine ⟨i, by simp, hout ▸ List.mem_map_of_mem hb, ⟨w, ?_⟩, ?_⟩
        · rw [hi, ← hpre]
          exact ht₁
        · rw [hpost, hinfo, hpre]
          exact h.kept k _ w (hpre ▸ ht₁)
  · obtain ⟨k, hk, hreg⟩ := h.replied a t ha hr
    exact ⟨k, hk, hreg.snoc i⟩

/-- An attempt that keeps its node and its coroutine. -/
theorem Tracked.call {tr : List (Item c)} {s : State} (h : Tracked tr s) {a : AttemptId}
    {t t' : Attempt} (ha : s.attempts.get a = some t) (hname : t'.nodeName = t.nodeName)
    (htask : ∀ k, t'.task = some k → k < s.master.nextTask ∧
      (∀ t₁ n, s.master.tasks.get k = some t₁ → remoteName t₁ = some n → n = t.nodeName) ∧
      (s.answers.get k = some (.returned true) → Registered tr k t.nodeName))
    (hres : t'.result = some (.returned true) →
      ∃ k, t'.task = some k ∧ Registered tr k t.nodeName) :
    Tracked tr (setAttempt s a t') := by
  refine ⟨h.numbered, h.kept, fun b u hb => ?_, h.answersFresh, fun b u k hb hk => ?_,
    fun b u k t₁ n hb hk => ?_, fun b u k hb hk hans => ?_, fun b u hb hr => ?_,
    fun p x b hp hx => ?_⟩
  all_goals simp only [setAttempt, Table.get_set] at *
  · split at hb
    · rename_i hba
      exact hba ▸ h.fresh a t ha
    · exact h.fresh b u hb
  · split at hb
    · obtain rfl := Option.some.inj hb
      exact (htask k hk).1
    · exact h.started b u k hb hk
  · split at hb
    · obtain rfl := Option.some.inj hb
      exact hname ▸ (htask k hk).2.1 t₁ n
    · exact h.named b u k t₁ n hb hk
  · split at hb
    · obtain rfl := Option.some.inj hb
      exact hname ▸ (htask k hk).2.2 hans
    · exact h.answered b u k hb hk hans
  · split at hb
    · obtain rfl := Option.some.inj hb
      exact hname ▸ hres hr
    · exact h.replied b u hb hr
  · obtain ⟨u, hu, hn⟩ := h.calling p x b hp hx
    split
    · rename_i hba
      obtain rfl := Option.some.inj ((hba ▸ hu).symm.trans ha)
      exact ⟨t', rfl, hname.trans hn⟩
    · exact ⟨u, hu, hn⟩

theorem Tracked.snoc {tr : List (Item c)} {s : State} (h : Tracked tr s) (i : Item c) :
    Tracked (tr ++ [i]) s :=
  ⟨h.numbered, h.kept, h.fresh, h.answersFresh, h.started, h.named,
    fun a t k ha hk hans => (h.answered a t k ha hk hans).snoc i,
    fun a t ha hr => (h.replied a t ha hr).imp fun _ hk => ⟨hk.1, hk.2.snoc i⟩, h.calling⟩

/-- The master takes up the request of an attempt: its coroutine is the next one. -/
theorem Tracked.deliver {tr : List (Item c)} {s : State} (h : Tracked tr s) {a : AttemptId}
    {t : Attempt} (ha : s.attempts.get a = some t) {q : TaskId} (hq : q < s.master.nextTask)
    (hname : ∀ t₁ n, s.master.tasks.get q = some t₁ → remoteName t₁ = some n → n = t.nodeName)
    (hans : s.answers.get q ≠ some (.returned true)) (hres : t.result ≠ some (.returned true)) :
    Tracked tr (setAttempt s a { t with task := some q }) := by
  refine h.call ha rfl (fun k hk => ?_) fun hr => absurd hr hres
  obtain rfl := Option.some.inj hk
  exact ⟨hq, hname, fun h => absurd h hans⟩

/-- The next round of a loop. -/
theorem Tracked.attempt {tr : List (Item c)} {s : State} (h : Tracked tr s) (p : ConnectId)
    (x : Connect) (m : ConnectId) : Tracked tr (attempt { s with nextConnect := m } p x) := by
  have hnew : ∀ {a t}, ((s.attempts.set s.nextAttempt
      ⟨x.nodeName, x.ip, x.port, false, none, none⟩).get a = some t) →
      t.task = none ∧ t.result = none ∨ s.attempts.get a = some t := by
    intro a t ha
    rw [Table.get_set] at ha
    split at ha
    · obtain rfl := Option.some.inj ha
      exact .inl ⟨rfl, rfl⟩
    · exact .inr ha
  refine ⟨h.numbered, h.kept, fun a t ha => ?_, h.answersFresh, fun a t k ha hk => ?_,
    fun a t k t₁ n ha hk => ?_, fun a t k ha hk hans => ?_, fun a t ha hr => ?_,
    fun p' x' a hp hx => ?_⟩
  · simp only [Subscribe.attempt, Table.get_set] at ha ⊢
    split at ha
    · rename_i hq
      rw [hq]
      exact Nat.lt_succ_self _
    · exact (h.fresh a t ha).trans (Nat.lt_succ_self _)
  · rcases hnew ha with ⟨hno, -⟩ | ha
    · exact absurd (hno.symm.trans hk) (by simp)
    · exact h.started a t k ha hk
  · rcases hnew ha with ⟨hno, -⟩ | ha
    · exact absurd (hno.symm.trans hk) (by simp)
    · exact h.named a t k t₁ n ha hk
  · rcases hnew ha with ⟨hno, -⟩ | ha
    · exact absurd (hno.symm.trans hk) (by simp)
    · exact h.answered a t k ha hk hans
  · rcases hnew ha with ⟨-, hno⟩ | ha
    · exact absurd (hno.symm.trans hr) (by simp)
    · exact h.replied a t ha hr
  · simp only [Subscribe.attempt, Table.get_set] at hp ⊢
    split at hp
    · obtain rfl := Option.some.inj hp
      obtain rfl := ConnectPhase.calling.inj hx
      exact ⟨_, if_pos rfl, rfl⟩
    · obtain ⟨t, ht, hn⟩ := h.calling p' x' a hp hx
      rw [if_neg (h.fresh a t ht).ne]
      exact ⟨t, ht, hn⟩

/-- A loop that ends or waits. -/
theorem Tracked.connects {tr : List (Item c)} {s : State} (h : Tracked tr s)
    {t : Table ConnectId Connect} (ht : ∀ p x a, t.get p = some x → x.phase = .calling a →
      s.connects.get p = some x) : Tracked tr { s with connects := t } :=
  ⟨h.numbered, h.kept, h.fresh, h.answersFresh, h.started, h.named, h.answered, h.replied,
    fun p x a hp hx => h.calling p x a (ht p x a hp hx) hx⟩

theorem Item.tracked {tr : List (Item c)} (i : Item c) (h : Tracked tr i.pre)
    (hno : ¬ i.DropsCaller) : Tracked (tr ++ [i]) i.post := by
  have hm := i.moved
  generalize he : i.ev = e, hs : i.post = s', ho : i.out = acts at hm
  cases hm with
  | loop p x m => exact (h.snoc i).attempt p x m
  | @call _ a t t' ha hname htask hres =>
    refine (h.snoc i).call ha hname (fun k hk => ?_) fun hr => ?_
    · rw [htask] at hk
      exact ⟨h.started a t k ha hk, fun t₁ n => h.named a t k t₁ n ha hk,
        fun hans => (h.answered a t k ha hk hans).snoc i⟩
    · rcases hres hr with hr | ⟨k, hk, hans⟩
      · obtain ⟨k, hk, hreg⟩ := h.replied a t ha hr
        exact ⟨k, htask.trans hk, hreg.snoc i⟩
      · exact ⟨k, htask.trans hk, (h.answered a t k ha hk hans).snoc i⟩
  | @deliver a t ha htask j hpre hev =>
    have hkept : Kept j.post := by
      refine kept_step j (hpre ▸ h.kept) fun _ _ _ _ hdel => ?_
      rcases hdel with ⟨now, hev', -⟩ | ⟨q, k, _, _, _, hev', -⟩
      · exact absurd (hev.symm.trans hev') (by simp)
      · exact absurd (hev.symm.trans hev') (by simp)
    have hfresh : ∀ t₁, i.pre.master.tasks.get i.pre.master.nextTask ≠ some t₁ := fun t₁ ht₁ =>
      lt_irrefl _ (h.numbered _ t₁ ht₁)
    refine (h.master i j hpre rfl (by rw [hs]) ho hkept).deliver ha ?_ ?_ ?_ ?_
    · rw [← hpre]
      exact (sync_nextTask j hev).symm ▸ Nat.lt_succ_self _
    · intro t₁ n ht₁ hn
      rcases named j ht₁ hn with ⟨t₂, ht₂, -⟩ | ⟨-, ip, port, hev'⟩
      · exact absurd (hpre ▸ ht₂) (hfresh t₂)
      · exact (Monitor.Event.sync.inj (hev'.symm.trans hev)).1
    · intro hans
      rcases foldl_recordAnswer hans with hans | ⟨b, hb, hbq, hr⟩
      · exact lt_irrefl _ (h.answersFresh _ _ hans)
      · rcases ended j hb with ⟨q, rfl, -⟩ | ⟨t₁, ht₁, -⟩
        · exact absurd (hr rfl) (by simp)
        · rw [hbq, hpre] at ht₁
          exact hfresh t₁ ht₁
    · intro hr
      obtain ⟨k, hk, -⟩ := h.replied a t ha hr
      exact absurd (htask.symm.trans hk) (by simp)
  | master j hpre =>
    refine h.master i j hpre rfl (by rw [hs]) ho (kept_step j (hpre ▸ h.kept) ?_)
    intro k n w hk hdel
    exact hno ⟨j.ev, k, n, w, he, hpre ▸ hk, hpre ▸ hdel⟩
  | connected hp =>
    exact (h.snoc i).connects fun _ _ _ hget _ => (Table.get_of_get_del hget).2
  | sleeps hp =>
    refine (h.snoc i).connects fun p x a hget hx => ?_
    rw [Table.get_set] at hget
    split at hget
    · obtain rfl := Option.some.inj hget
      exact absurd hx (by simp)
    · exact hget

/-! ## Connecting -/

/-- The end of `connectMasterAndPush`. -/
theorem Item.connected_cases (i : Item c) {p : ConnectId} (h : .connected p ∈ i.out) :
    i.ev = .resume p ∧ ∃ x a t, i.pre.connects.get p = some x ∧ x.phase = .calling a ∧
      i.pre.attempts.get a = some t ∧ (runTimeout t.result).2 = true := by
  have hm := i.moved
  generalize i.ev = e, i.post = s', i.out = acts at hm h
  cases hm with
  | loop | call | sleeps => exact absurd h (by simp)
  | deliver | master =>
    obtain ⟨b, -, hb⟩ := List.mem_map.mp h
    exact absurd hb (by simp)
  | @connected p' x a t hp hx ha hret =>
    obtain rfl : p = p' := by
      rcases List.mem_cons.mp h with h | h
      · exact Act.connected.inj h
      · split at h <;> simp at h
    exact ⟨rfl, x, a, t, hp, hx, ha, hret⟩

/-- **A connected node was registered.** In a run in which no attempt that is waited for ends with
an error, and no node is deleted while a `sync` of it broadcasts, whenever
`connectMasterAndPush(nodeName)` returns, a `sync` of `nodeName` has returned `true` at the master,
and has left `nodeName` in `clusterInfo`. -/
theorem connectMasterAndPush_registered {tr : List (Item c)} {s : State} (h : (machine c).Run tr s)
    (herr : ∀ i ∈ tr, ¬ Item.ConnectsByError i) (hdrop : ∀ i ∈ tr, ¬ Item.DropsCaller i) :
    ∀ a i b p x, tr = a ++ i :: b → Act.connected p ∈ i.out →
      i.pre.connects.get p = some x → ∃ k, Registered a k x.nodeName := by
  intro a i b p x heq hout hp
  subst heq
  have hrun : Tracked a i.pre := by
    refine Machine.Path.history (J := Tracked) (Machine.Path.split h).1 ?_ fun a' j b' ha' hJ =>
      Item.tracked j hJ (hdrop j (by simp [ha']))
    constructor <;> simp [machine, State.init, Monitor.State.init, Numbered, Kept]
  obtain ⟨hev, x', q, t, hp', hx, ha, hret⟩ := Item.connected_cases i hout
  obtain rfl := Option.some.inj (hp.symm.trans hp')
  obtain ⟨t', ha', hname⟩ := hrun.calling p x q hp hx
  obtain rfl := Option.some.inj (ha.symm.trans ha')
  have hres : t.result = some (.returned true) := by
    cases hr : t.result with
    | none => simp [runTimeout, hr] at hret
    | some r =>
      cases r with
      | returned data =>
        rw [hr] at hret
        exact congrArg (fun d => some (CallResult.returned d)) hret
      | raised => exact absurd ⟨p, x, q, t, hev, hp, hx, ha, hr⟩ (herr i (by simp))
  obtain ⟨k, -, hreg⟩ := hrun.replied q t ha hres
  exact ⟨k, hname ▸ hreg⟩

/-- The node `game1` connects, and the master takes up its `sync`. -/
def connecting : List Event :=
  [.connect (bytes "game1") (bytes "10.0.0.2") (bytes "2528") false,
    .search 0 (.bound (some ⟨[bytes "sync"]⟩)), .deliver 0, .master (.reloaded 0 true),
    .master (.queried 0 true 100), .master (.next 0 (some (bytes "master"))),
    .master (.next 0 (some (bytes "game1")))]

/-- The master has sent its map to the node. -/
def accepted : List Event :=
  connecting ++ (firstCall ++ lastRound 0).map .master ++ [.reply 0, .resume 0]

theorem connectMasterAndPush_registered_accepted : ∃ (a b : List (Item masterConf))
    (i : Item masterConf) (s : State),
    (machine masterConf).Run (a ++ i :: b) s ∧ (a ++ i :: b).map (·.ev) = accepted ∧
      .connected 0 ∈ i.out ∧ ∃ k, Registered a k (bytes "game1") := by
  have h : ((machine masterConf).items (machine masterConf).init accepted).map (fun tr =>
      decide (tr.map (·.ev) = accepted ∧
        (∃ i ∈ tr, .connected 0 ∈ i.out ∧
          (i.pre.connects.get 0).map (·.nodeName) = some (bytes "game1")) ∧
        ∀ i ∈ tr, (∀ e ∈ i.pre.attempts.entries, e.2.result ≠ some .raised) ∧
          (i.ev = .master (.resume 0) → ∀ e ∈ i.pre.master.calls.entries,
            e.2.result = some (.returned true)))) = some true := by
    decide +kernel
  obtain ⟨tr, hrun, hP⟩ := Machine.exists_run h
  obtain ⟨hev, ⟨i, hi, hout, hname⟩, hcalls⟩ := of_decide_eq_true hP
  obtain ⟨x, hx, hname⟩ := Option.map_eq_some_iff.mp hname
  obtain ⟨a, b, rfl⟩ := List.append_of_mem hi
  refine ⟨a, b, i, _, hrun, hev, hout, hname ▸ connectMasterAndPush_registered hrun
    (fun j hj he => ?_) (fun j hj hd => ?_) a i b 0 x rfl hout hx⟩
  · obtain ⟨p, y, q, t, -, -, -, ht, hr⟩ := he
    exact (hcalls j hj).1 _ (Table.mem_entries.mpr ht) hr
  · have hmem : j.ev ∈ accepted := hev ▸ List.mem_map_of_mem hj
    obtain ⟨e, k, n, w, hje, -, hdel⟩ := hd
    rw [hje] at hmem
    rcases hdel with ⟨now, rfl, -⟩ | ⟨q, k', caller, w', call, rfl, -, -, hq, hr⟩
    · exact absurd hmem (by simp [accepted, connecting, firstCall, lastRound])
    · obtain rfl : k' = 0 := by
        simpa [accepted, connecting, firstCall, lastRound] using hmem
      have hok := (hcalls j hj).2 hje _ (Table.mem_entries.mpr hq)
      rw [hok] at hr
      simp at hr

/-- The call of `sync` raises on its way to the master. -/
def brokenConnection : List Event :=
  [.connect (bytes "game1") (bytes "10.0.0.2") (bytes "2528") false,
    .search 0 (.bound (some ⟨[bytes "sync"]⟩)), .raise 0, .resume 0]

/-- The call of the master to the node times out. -/
def deafNode : List Event :=
  connecting ++ (lastRound 0 ++ emptyRound 0).map .master ++ [.reply 0, .resume 0]

/-- In the run of the events `es`, `game1` connects and no `sync` has left it registered. -/
def ConnectsUnregistered (es : List Event) : Prop :=
  ∃ (tr : List (Item masterConf)) (s : State), (machine masterConf).Run tr s ∧
    tr.map (·.ev) = es ∧
    (∃ i ∈ tr, .connected 0 ∈ i.out ∧
      (i.pre.connects.get 0).map (·.nodeName) = some (bytes "game1")) ∧
    ∀ k, ¬ Registered tr k (bytes "game1")

theorem connectsUnregistered_of_items {es : List Event}
    (h : ((machine masterConf).items (machine masterConf).init es).map (fun tr =>
      decide (tr.map (·.ev) = es ∧
        (∃ i ∈ tr, .connected 0 ∈ i.out ∧
          (i.pre.connects.get 0).map (·.nodeName) = some (bytes "game1")) ∧
        ∀ i ∈ tr, i.out ≠ [] → i.post.master.clusterInfo.get (bytes "game1") = none)) =
      some true) : ConnectsUnregistered es := by
  obtain ⟨tr, hrun, hP⟩ := Machine.exists_run h
  obtain ⟨hev, hconn, hno⟩ := of_decide_eq_true hP
  refine ⟨tr, _, hrun, hev, hconn, ?_⟩
  rintro k ⟨i, hi, hout, -, hpres⟩
  exact hpres (hno i hi (List.ne_nil_of_mem hout))

/-- **A connected node that is not registered**: without any `sync`, and after a `sync` that
deleted it. -/
theorem connectMasterAndPush_unregistered :
    ConnectsUnregistered brokenConnection ∧ ConnectsUnregistered deafNode := by
  constructor
  · exact connectsUnregistered_of_items (by decide +kernel)
  · exact connectsUnregistered_of_items (by decide +kernel)

end LsServer.Monitor.Subscribe
