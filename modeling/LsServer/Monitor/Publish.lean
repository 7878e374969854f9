import LsServer.Cluster.SnaxUtil
import LsServer.Lib.Run
import LsServer.Lib.Table
import LsServer.Lua.Value

/-!
# The cluster map of the master (MonitorPublish.lua)

`clusterInfo` maps the registered nodes to their addresses. `sync` and `clusterHold` change it and
then send it to every node, one `syncClusterInfo` call after the other. A coroutine of one of them
is a `Task`; it is suspended in `cluster.reload`, in `cluster.query` and in `Common.runTimeout`, and
the others run in between. `broadcastClusterInfo` walks over the table that the others write
(`Walk`): it goes on with `next` from the current key.

A key that is assigned during a walk leaves `next` undefined. The manual leaves open which keys
follow; a walk that was `disturbed` so may meet any key, skip any, and raises if its current key
was deleted before. `version` counts the changes of the table, and `insertedAt` is its value after
the last assignment to an absent key.

`Item.moved` inverts a step.

Source: MonitorPublish.lua, `broadcastClusterInfo` 11-29, `clusterHold` 32-46, `checkNodeAlive`
59-62, `response.sync` 64-81, `response.heartbeat` 83-91; MonitorSubscribe.lua
`response.syncClusterInfo` 47-53; Common.lua for `runTimeout` and `updateClusterConfig`.

* `Call` is one `syncClusterInfo` call: it has packed the map when the search for the service has
  ended, the node may run it at any time after that, and its result may come, or an error, or
  neither.
* `resume` ends the `runTimeout` of a walk with what is there: the result, the error, or the
  timeout. A call whose walk has gone on stays in flight.
* `reloaded` is the end of `updateClusterConfig`: it has returned, or it has raised, since the file
  cannot be opened or `clusterd` refuses it. Nothing catches that, so the coroutine ends.
* `expired` and `remove` are the loop of `clusterHold`, which does not wait; the order in which it
  goes does not matter.

The arguments of `sync` are texts here, as those of `MonitorSubscribe` are. `Raw` has the service
for all values.

Out of scope: the text of the file, which is `Config`, and the time between two calls of
`clusterHold`.
-/

namespace LsServer.Monitor

open LsServer.Lib LsServer.Lua LsServer.Cluster

abbrev TaskId := Nat
abbrev CallId := Nat

/-- An entry of `clusterInfo`. The entry of the master has no `last`. -/
structure NodeInfo where
  ip : Bytes
  port : LuaNumber
  last : Option Nat
  deriving DecidableEq

abbrev ClusterInfo := Table NodeName NodeInfo

/-- Node names, ips and ports. -/
def hosts (t : ClusterInfo) (n : NodeName) : Option (Bytes × LuaNumber) :=
  (t.get n).map fun info => (info.ip, info.port)

/-- What `init` reads. -/
structure Conf where
  thisNodeName : NodeName
  ip : Bytes
  port : LuaNumber

/-- How a remote call ends for `pcall`: it returns, `data` for a value other than `nil` and
`false`, or raises. -/
inductive CallResult
  | returned (data : Bool)
  | raised
  deriving DecidableEq

/-- A `syncClusterInfo` call to `node`: the map that was sent, with its version, whether it has
completed there, and how the call ended at the master. -/
structure Call where
  node : NodeName
  packed : Option (Nat × ClusterInfo)
  completed : Bool
  result : Option CallResult

/-- Where a walk is: at `next`, where `lost` says that the current key had been deleted by
another coroutine; in `runTimeout` with call `q` to node `n`; in `cluster.reload` after the loop. -/
inductive WalkPhase
  | next (lost : Bool)
  | calling (n : NodeName) (q : CallId)
  | reloading
  deriving DecidableEq

/-- A `broadcastClusterInfo`: the keys its loop has met, the version it started at. -/
structure Walk where
  visited : List NodeName
  start : Nat
  syncAgain : Bool
  phase : WalkPhase
  deriving DecidableEq

/-- Whose broadcast it is: the node of a `sync`, `none` for `clusterHold`. -/
abbrev Caller := Option NodeName

/-- A suspended coroutine: a `sync` before its broadcast, waiting for `cluster.reload` and then
for `checkNodeAlive`; one that refuses; a `sync` or a `clusterHold` with its broadcast. -/
inductive Task
  | registering (name : NodeName) (ip : Bytes) (port : LuaNumber)
  | querying (name : NodeName) (ip : Bytes) (port : LuaNumber)
  | refusing
  | broadcasting (caller : Caller) (w : Walk)
  deriving DecidableEq

/-- `nodes` is the last `syncClusterInfo` that completed at each node. -/
structure State where
  clusterInfo : ClusterInfo
  version : Nat
  insertedAt : Nat
  tasks : Table TaskId Task
  nextTask : TaskId
  running : Option TaskId
  calls : Table CallId Call
  nextCall : CallId
  nodes : NodeName → Option (Nat × ClusterInfo)

/-- What happens next. `reloaded` tells whether `Common.updateClusterConfig` has returned: `io.open`
may give nothing, and `clusterd` may refuse the file. -/
inductive Event
  | sync (name : NodeName) (ip port : Bytes)
  | reloaded (k : TaskId) (ok : Bool)
  | queried (k : TaskId) (alive : Bool) (now : Nat)
  | hold (now : Nat)
  | heartbeat (name : NodeName) (now : Nat)
  | next (k : TaskId) (key : Option NodeName)
  | nextRaises (k : TaskId)
  | search (q : CallId) (r : Search)
  | complete (q : CallId)
  | reply (q : CallId)
  | raise (q : CallId)
  | resume (k : TaskId)
  deriving DecidableEq

/-- How a `sync` ends. -/
inductive Act
  | returned (k : TaskId) (ok : Bool)
  | raised (k : TaskId)
  deriving DecidableEq

/-- The result of `Common.runTimeout`, as far as the callers look: `timeout`, `ret`. An error
message is a second result like any other. -/
def runTimeout : Option CallResult → Bool × Bool
  | none => (true, false)
  | some (.returned data) => (false, data)
  | some .raised => (false, true)

/-- `timeout or not ret`. -/
def failed (r : Option CallResult) : Bool := (runTimeout r).1 || !(runTimeout r).2

/-! ## The steps of a coroutine -/

/-- Task `k` goes on as `t`. -/
def setTask (s : State) (k : TaskId) (t : Task) : State :=
  { s with
    tasks := s.tasks.set k t
    running := match t with
      | .broadcasting _ ⟨_, _, _, .next _⟩ => some k
      | _ => none }

/-- The end of task `k`. -/
def endTask (s : State) (k : TaskId) : State := { s with tasks := s.tasks.del k, running := none }

/-- The result of a task that ends: only `sync` has one. -/
def result (caller : Caller) (a : Act) : List Act := if caller.isSome then [a] else []

/-- The call of `broadcastClusterInfo`. -/
def broadcastClusterInfo (s : State) (k : TaskId) (caller : Caller) : State :=
  setTask s k (.broadcasting caller ⟨[], s.version, false, .next false⟩)

/-- `clusterInfo[name] = info`. -/
def store (s : State) (name : NodeName) (info : NodeInfo) : State :=
  { s with
    clusterInfo := s.clusterInfo.set name info
    version := s.version + 1
    insertedAt := if s.clusterInfo.get name = none then s.version + 1 else s.insertedAt }

/-- `clusterInfo[name] = nil`. -/
def remove (s : State) (name : NodeName) : State :=
  if s.clusterInfo.get name = none then s
  else { s with clusterInfo := s.clusterInfo.del name, version := s.version + 1 }

/-- `response.sync`, up to the reload of the cluster configuration with the new node. -/
def sync (s : State) (name : NodeName) (ip port : Bytes) : State × List Act :=
  let k := s.nextTask
  let s := { s with nextTask := k + 1 }
  match str2num port with
  -- the concatenation in `updateClusterConfig` raises
  | none => (s, [.raised k])
  | some port => (setTask s k (.registering name ip port), [])

/-- The nodes that `clusterHold` deletes. -/
def expired (c : Conf) (s : State) (now : Nat) : List NodeName :=
  (s.clusterInfo.entries.filter fun e =>
    e.1 ≠ c.thisNodeName ∧ ∃ last, e.2.last = some last ∧ last + 6 < now).map Prod.fst

/-- `clusterHold`. -/
def clusterHold (c : Conf) (s : State) (now : Nat) : State × List Act :=
  match expired c s now with
  | [] => (s, [])
  | names =>
    let k := s.nextTask
    (broadcastClusterInfo (names.foldl remove { s with nextTask := k + 1 }) k none, [])

/-- `response.heartbeat`. -/
def heartbeat (s : State) (name : NodeName) (now : Nat) : State :=
  match s.clusterInfo.get name with
  | none => s
  | some info => { s with clusterInfo := s.clusterInfo.set name { info with last := some now } }

/-- A key was assigned that was absent, since the walk started. -/
def disturbed (s : State) (w : Walk) : Bool := w.start < s.insertedAt

/-- `next` can give the key. -/
def canVisit (s : State) (w : Walk) (n : NodeName) : Bool :=
  (s.clusterInfo.get n).isSome && (disturbed s w || n ∉ w.visited)

/-- `next` can end the loop. -/
def canEnd (s : State) (w : Walk) : Bool :=
  disturbed s w || s.clusterInfo.entries.all fun e => e.1 ∈ w.visited

/-- The body of the loop, up to `runTimeout`; for the master itself it is empty. -/
def visit (c : Conf) (s : State) (k : TaskId) (caller : Caller) (w : Walk) (n : NodeName) : State :=
  if n = c.thisNodeName then
    setTask s k (.broadcasting caller { w with visited := n :: w.visited, phase := .next false })
  else
    setTask
      { s with
        calls := s.calls.set s.nextCall ⟨n, none, false, none⟩
        nextCall := s.nextCall + 1 }
      k (.broadcasting caller
        { w with visited := n :: w.visited, phase := .calling n s.nextCall })

/-- The body of the loop after `runTimeout`. -/
def afterCall (s : State) (k : TaskId) (caller : Caller) (w : Walk) (n : NodeName) (call : Call) :
    State :=
  let lost := (s.clusterInfo.get n).isNone
  if failed call.result then
    setTask (remove s n) k (.broadcasting caller { w with syncAgain := true, phase := .next lost })
  else setTask s k (.broadcasting caller { w with phase := .next lost })

/-- A step at `next` of task `k`; `lost` as in `WalkPhase.next`. -/
def stepNext (c : Conf) (s : State) (k : TaskId) (caller : Caller) (w : Walk) (lost : Bool) :
    Event → Option (State × List Act)
  | .next _ (some n) => if canVisit s w n then some (visit c s k caller w n, []) else none
  | .next _ none =>
    if canEnd s w then some (setTask s k (.broadcasting caller { w with phase := .reloading }), [])
    else none
  | .nextRaises _ =>
    if disturbed s w ∧ lost then some (endTask s k, result caller (.raised k)) else none
  | _ => none

/-- The task `k` after `cluster.reload`. -/
def afterReload (s : State) (k : TaskId) : Task → Option (State × List Act)
  | .registering name ip port => some (setTask s k (.querying name ip port), [])
  | .querying _ _ _ => none
  | .refusing => some (endTask s k, [.returned k false])
  | .broadcasting caller w =>
    if w.phase = .reloading then
      if w.syncAgain then some (broadcastClusterInfo s k caller, [])
      else some (endTask s k, result caller (.returned k true))
    else none

/-- The task waits for `cluster.reload`. -/
def Task.reloads : Task → Bool
  | .registering _ _ _ => true
  | .querying _ _ _ => false
  | .refusing => true
  | .broadcasting _ w => w.phase = .reloading

/-- The result of task `k` when it raises. -/
def Task.raised (k : TaskId) : Task → List Act
  | .broadcasting caller _ => result caller (.raised k)
  | _ => [.raised k]

theorem Task.eq_of_mem_raised {k : TaskId} {t : Task} {a : Act} (h : a ∈ t.raised k) :
    a = .raised k := by
  unfold Task.raised result at h
  split at h
  · split at h
    · exact List.mem_singleton.mp h
    · exact absurd h (by simp)
  · exact List.mem_singleton.mp h

/-- The task `k` when `Common.updateClusterConfig` raises: nothing catches it. -/
def reloadFails (s : State) (k : TaskId) (t : Task) : Option (State × List Act) :=
  if t.reloads then some (endTask s k, t.raised k) else none

/-- `sync` after `checkNodeAlive`. -/
def afterQuery (s : State) (k : TaskId) (alive : Bool) (now : Nat) : Task → Option State
  | .querying name ip port =>
    some (if alive then broadcastClusterInfo (store s name ⟨ip, port, some now⟩) k (some name)
      else setTask s k .refusing)
  | _ => none

/-! ## The calls -/

/-- The search of call `q` has ended. -/
def searched (s : State) (q : CallId) (call : Call) (r : Search) : State :=
  match remoteCall r (bytes "syncClusterInfo") with
  | .absent => { s with calls := s.calls.set q { call with result := some (.returned false) } }
  | .raises => { s with calls := s.calls.set q { call with result := some .raised } }
  | .request =>
    { s with calls := s.calls.set q { call with packed := some (s.version, s.clusterInfo) } }

/-- `response.syncClusterInfo` of `MonitorSubscribe` has run at the node. -/
def syncClusterInfo (s : State) (q : CallId) (call : Call) (info : Nat × ClusterInfo) : State :=
  { s with
    calls := s.calls.set q { call with completed := true }
    nodes := fun n => if n = call.node then some info else s.nodes n }

/-- What happens to call `q`. -/
def stepCall (s : State) (q : CallId) (call : Call) : Event → Option State
  | .search _ r =>
    if call.packed.isNone ∧ call.result = none then some (searched s q call r) else none
  | .complete _ =>
    if call.completed then none else call.packed.map fun info => syncClusterInfo s q call info
  | .reply _ =>
    if call.completed ∧ call.result = none then
      some { s with calls := s.calls.set q { call with result := some (.returned true) } }
    else none
  | .raise _ =>
    if call.packed.isSome ∧ call.result = none then
      some { s with calls := s.calls.set q { call with result := some .raised } }
    else none
  | _ => none

/-! ## The service as a machine -/

/-- One event while no coroutine runs. -/
def stepIdle (c : Conf) (s : State) (e : Event) : Option (State × List Act) :=
  match e with
  | .sync name ip port => some (sync s name ip port)
  | .hold now => some (clusterHold c s now)
  | .heartbeat name now => some (heartbeat s name now, [])
  | .reloaded k ok =>
    (s.tasks.get k).bind fun t => if ok then afterReload s k t else reloadFails s k t
  | .queried k alive now =>
    ((s.tasks.get k).bind fun t => afterQuery s k alive now t).map fun s => (s, [])
  | .search q _ | .complete q | .reply q | .raise q =>
    ((s.calls.get q).bind fun call => stepCall s q call e).map fun s => (s, [])
  | .resume k =>
    match s.tasks.get k with
    | some (.broadcasting caller w) =>
      match w.phase with
      | .calling n q => (s.calls.get q).map fun call => (afterCall s k caller w n call, [])
      | _ => none
    | _ => none
  | .next _ _ | .nextRaises _ => none

/-- The coroutine whose `next` ends with the event. -/
def Event.nextOf : Event → Option TaskId
  | .next k _ | .nextRaises k => some k
  | _ => none

/-- One event, if it can happen. A coroutine at `next` goes on at once. -/
def step (c : Conf) (s : State) (e : Event) : Option (State × List Act) :=
  match s.running with
  | none => stepIdle c s e
  | some k =>
    if e.nextOf = some k then
      match s.tasks.get k with
      | some (.broadcasting caller ⟨visited, start, syncAgain, .next lost⟩) =>
        stepNext c s k caller ⟨visited, start, syncAgain, .next lost⟩ lost e
      | _ => none
    else none

/-- The service after `init`. -/
def State.init (c : Conf) : State where
  clusterInfo := Table.empty.set c.thisNodeName ⟨c.ip, c.port, none⟩
  version := 0
  insertedAt := 0
  tasks := .empty
  nextTask := 0
  running := none
  calls := .empty
  nextCall := 0
  nodes _ := none

/-- **The service.** -/
def machine (c : Conf) : Machine State Event Act := ⟨.init c, step c⟩

/-- A step of the service. -/
abbrev Item (c : Conf) := (machine c).Item

/-! ## Inverting a step -/

/-- What the service does with an event. -/
inductive Moved (c : Conf) (s : State) : Event → State → List Act → Prop
  | syncFails {name : NodeName} {ip port : Bytes} (hr : s.running = none)
    (hp : str2num port = none) :
    Moved c s (.sync name ip port) { s with nextTask := s.nextTask + 1 } [.raised s.nextTask]
  | sync {name : NodeName} {ip portText : Bytes} {port : LuaNumber} (hr : s.running = none)
    (hp : str2num portText = some port) :
    Moved c s (.sync name ip portText)
      (setTask { s with nextTask := s.nextTask + 1 } s.nextTask (.registering name ip port)) []
  | query {k : TaskId} {name : NodeName} {ip : Bytes} {port : LuaNumber} (hr : s.running = none)
    (hk : s.tasks.get k = some (.registering name ip port)) :
    Moved c s (.reloaded k true) (setTask s k (.querying name ip port)) []
  | refused {k : TaskId} (hr : s.running = none) (hk : s.tasks.get k = some .refusing) :
    Moved c s (.reloaded k true) (endTask s k) [.returned k false]
  | again {k : TaskId} {caller : Caller} {w : Walk} (hr : s.running = none)
    (hk : s.tasks.get k = some (.broadcasting caller w)) (hp : w.phase = .reloading)
    (ha : w.syncAgain = true) :
    Moved c s (.reloaded k true) (broadcastClusterInfo s k caller) []
  | done {k : TaskId} {caller : Caller} {w : Walk} (hr : s.running = none)
    (hk : s.tasks.get k = some (.broadcasting caller w)) (hp : w.phase = .reloading)
    (ha : w.syncAgain = false) :
    Moved c s (.reloaded k true) (endTask s k) (result caller (.returned k true))
  | reloadRaises {k : TaskId} {t : Task} (hr : s.running = none) (hk : s.tasks.get k = some t)
    (ht : t.reloads = true) : Moved c s (.reloaded k false) (endTask s k) (t.raised k)
  | alive {k : TaskId} {name : NodeName} {ip : Bytes} {port : LuaNumber} {now : Nat}
    (hr : s.running = none) (hk : s.tasks.get k = some (.querying name ip port)) :
    Moved c s (.queried k true now)
      (broadcastClusterInfo (store s name ⟨ip, port, some now⟩) k (some name)) []
  | dead {k : TaskId} {name : NodeName} {ip : Bytes} {port : LuaNumber} {now : Nat}
    (hr : s.running = none) (hk : s.tasks.get k = some (.querying name ip port)) :
    Moved c s (.queried k false now) (setTask s k .refusing) []
  | healthy {now : Nat} (hr : s.running = none) (he : expired c s now = []) :
    Moved c s (.hold now) s []
  | hold {now : Nat} (hr : s.running = none) (he : expired c s now ≠ []) :
    Moved c s (.hold now) (broadcastClusterInfo
      ((expired c s now).foldl remove { s with nextTask := s.nextTask + 1 }) s.nextTask none) []
  | heartbeat {name : NodeName} {now : Nat} (hr : s.running = none) :
    Moved c s (.heartbeat name now) (heartbeat s name now) []
  | visit {k : TaskId} {caller : Caller} {lost : Bool} {w : Walk} {n : NodeName}
    (hr : s.running = some k) (hk : s.tasks.get k = some (.broadcasting caller w))
    (hp : w.phase = .next lost) (hv : canVisit s w n = true) :
    Moved c s (.next k (some n)) (visit c s k caller w n) []
  | loopEnd {k : TaskId} {caller : Caller} {lost : Bool} {w : Walk} (hr : s.running = some k)
    (hk : s.tasks.get k = some (.broadcasting caller w)) (hp : w.phase = .next lost)
    (hv : canEnd s w = true) :
    Moved c s (.next k none)
      (setTask s k (.broadcasting caller { w with phase := .reloading })) []
  | raises {k : TaskId} {caller : Caller} {w : Walk} (hr : s.running = some k)
    (hk : s.tasks.get k = some (.broadcasting caller w)) (hp : w.phase = .next true)
    (hd : disturbed s w = true) :
    Moved c s (.nextRaises k) (endTask s k) (result caller (.raised k))
  | search {q : CallId} {call : Call} {r : Search} (hr : s.running = none)
    (hq : s.calls.get q = some call) (hp : call.packed = none) (hres : call.result = none) :
    Moved c s (.search q r) (searched s q call r) []
  | complete {q : CallId} {call : Call} {info : Nat × ClusterInfo} (hr : s.running = none)
    (hq : s.calls.get q = some call) (hp : call.packed = some info)
    (hc : call.completed = false) :
    Moved c s (.complete q) (syncClusterInfo s q call info) []
  | reply {q : CallId} {call : Call} (hr : s.running = none) (hq : s.calls.get q = some call)
    (hc : call.completed = true) (hres : call.result = none) :
    Moved c s (.reply q)
      { s with calls := s.calls.set q { call with result := some (.returned true) } } []
  | raise {q : CallId} {call : Call} (hr : s.running = none) (hq : s.calls.get q = some call)
    (hp : call.packed ≠ none) (hres : call.result = none) :
    Moved c s (.raise q) { s with calls := s.calls.set q { call with result := some .raised } } []
  | resume {k : TaskId} {caller : Caller} {w : Walk} {n : NodeName} {q : CallId} {call : Call}
    (hr : s.running = none) (hk : s.tasks.get k = some (.broadcasting caller w))
    (hp : w.phase = .calling n q) (hq : s.calls.get q = some call) :
    Moved c s (.resume k) (afterCall s k caller w n call) []

theorem stepIdle_moved {c : Conf} {s s' : State} {e : Event} {acts : List Act}
    (hr : s.running = none) (h : stepIdle c s e = some (s', acts)) : Moved c s e s' acts := by
  cases e with
  | sync name ip port =>
    simp only [stepIdle, Option.some.injEq, Monitor.sync] at h
    cases hp : str2num port with
    | none =>
      simp only [hp, Prod.mk.injEq] at h
      obtain ⟨rfl, rfl⟩ := h
      exact .syncFails hr hp
    | some port' =>
      simp only [hp, Prod.mk.injEq] at h
      obtain ⟨rfl, rfl⟩ := h
      exact .sync hr hp
  | hold now =>
    simp only [stepIdle, Option.some.injEq, clusterHold] at h
    split at h
    · rename_i he
      obtain ⟨rfl, rfl⟩ := Prod.mk.inj h
      exact .healthy hr he
    · rename_i he
      obtain ⟨rfl, rfl⟩ := Prod.mk.inj h
      exact .hold hr he
  | heartbeat name now =>
    simp only [stepIdle] at h
    obtain ⟨rfl, rfl⟩ := Prod.mk.inj (Option.some.inj h)
    exact .heartbeat hr
  | reloaded k ok =>
    simp only [stepIdle] at h
    obtain ⟨t, hk, h⟩ := Option.bind_eq_some_iff.mp h
    cases ok with
    | false =>
      simp only [Bool.false_eq_true, if_false, reloadFails, Option.ite_none_right_eq_some] at h
      obtain ⟨ht, h⟩ := h
      obtain ⟨rfl, rfl⟩ := Prod.mk.inj (Option.some.inj h)
      exact .reloadRaises hr hk ht
    | true =>
      rw [if_pos rfl] at h
      unfold afterReload at h
      cases t with
      | registering name ip port =>
        obtain ⟨rfl, rfl⟩ := Prod.mk.inj (Option.some.inj h)
        exact .query hr hk
      | querying name ip port => exact absurd h (by simp)
      | refusing =>
        obtain ⟨rfl, rfl⟩ := Prod.mk.inj (Option.some.inj h)
        exact .refused hr hk
      | broadcasting caller w =>
        simp only at h
        split at h
        · rename_i hp
          split at h
          · rename_i ha
            obtain ⟨rfl, rfl⟩ := Prod.mk.inj (Option.some.inj h)
            exact .again hr hk hp ha
          · rename_i ha
            obtain ⟨rfl, rfl⟩ := Prod.mk.inj (Option.some.inj h)
            exact .done hr hk hp (by simpa using ha)
        · exact absurd h (by simp)
  | queried k alive now =>
    simp only [stepIdle] at h
    obtain ⟨s₁, h₁, heq⟩ := Option.map_eq_some_iff.mp h
    obtain ⟨rfl, rfl⟩ := Prod.mk.inj heq
    obtain ⟨t, hk, h⟩ := Option.bind_eq_some_iff.mp h₁
    unfold afterQuery at h
    cases t with
    | querying name ip port =>
      obtain rfl := Option.some.inj h
      cases alive with
      | true => exact .alive hr hk
      | false => exact .dead hr hk
    | _ => exact absurd h (by simp)
  | next k key => exact absurd h (by simp [stepIdle])
  | nextRaises k => exact absurd h (by simp [stepIdle])
  | search q r =>
    simp only [stepIdle] at h
    obtain ⟨s₁, h₁, heq⟩ := Option.map_eq_some_iff.mp h
    obtain ⟨rfl, rfl⟩ := Prod.mk.inj heq
    obtain ⟨call, hq, h⟩ := Option.bind_eq_some_iff.mp h₁
    simp only [stepCall, Option.ite_none_right_eq_some] at h
    obtain ⟨⟨hp, hres⟩, h⟩ := h
    obtain rfl := Option.some.inj h
    exact .search hr hq (by simpa using hp) hres
  | complete q =>
    simp only [stepIdle] at h
    obtain ⟨s₁, h₁, heq⟩ := Option.map_eq_some_iff.mp h
    obtain ⟨rfl, rfl⟩ := Prod.mk.inj heq
    obtain ⟨call, hq, h⟩ := Option.bind_eq_some_iff.mp h₁
    simp only [stepCall, Option.ite_none_left_eq_some] at h
    obtain ⟨hc, h⟩ := h
    obtain ⟨info, hp, rfl⟩ := Option.map_eq_some_iff.mp h
    exact .complete hr hq hp (by simpa using hc)
  | reply q =>
    simp only [stepIdle] at h
    obtain ⟨s₁, h₁, heq⟩ := Option.map_eq_some_iff.mp h
    obtain ⟨rfl, rfl⟩ := Prod.mk.inj heq
    obtain ⟨call, hq, h⟩ := Option.bind_eq_some_iff.mp h₁
    simp only [stepCall, Option.ite_none_right_eq_some] at h
    obtain ⟨⟨hc, hres⟩, h⟩ := h
    obtain rfl := Option.some.inj h
    exact .reply hr hq hc hres
  | raise q =>
    simp only [stepIdle] at h
    obtain ⟨s₁, h₁, heq⟩ := Option.map_eq_some_iff.mp h
    obtain ⟨rfl, rfl⟩ := Prod.mk.inj heq
    obtain ⟨call, hq, h⟩ := Option.bind_eq_some_iff.mp h₁
    simp only [stepCall, Option.ite_none_right_eq_some] at h
    obtain ⟨⟨hp, hres⟩, h⟩ := h
    obtain rfl := Option.some.inj h
    exact .raise hr hq (Option.isSome_iff_ne_none.mp hp) hres
  | resume k =>
    simp only [stepIdle] at h
    split at h
    · rename_i caller w hk
      split at h
      · rename_i n q hp
        obtain ⟨call, hq, heq⟩ := Option.map_eq_some_iff.mp h
        obtain ⟨rfl, rfl⟩ := Prod.mk.inj heq
        exact .resume hr hk hp hq
      · exact absurd h (by simp)
    · exact absurd h (by simp)

theorem stepNext_moved {c : Conf} {s s' : State} {k : TaskId} {caller : Caller} {lost : Bool}
    {w : Walk} {e : Event} {acts : List Act} (hr : s.running = some k) (he : e.nextOf = some k)
    (hk : s.tasks.get k = some (.broadcasting caller w)) (hp : w.phase = .next lost)
    (h : stepNext c s k caller w lost e = some (s', acts)) : Moved c s e s' acts := by
  cases e with
  | next k' key =>
    obtain rfl : k' = k := by simpa [Event.nextOf] using he
    cases key with
    | none =>
      simp only [stepNext, Option.ite_none_right_eq_some] at h
      obtain ⟨hv, h⟩ := h
      obtain ⟨rfl, rfl⟩ := Prod.mk.inj (Option.some.inj h)
      exact .loopEnd hr hk hp hv
    | some n =>
      simp only [stepNext, Option.ite_none_right_eq_some] at h
      obtain ⟨hv, h⟩ := h
      obtain ⟨rfl, rfl⟩ := Prod.mk.inj (Option.some.inj h)
      exact .visit hr hk hp hv
  | nextRaises k' =>
    obtain rfl : k' = k := by simpa [Event.nextOf] using he
    simp only [stepNext, Option.ite_none_right_eq_some] at h
    obtain ⟨⟨hd, rfl⟩, h⟩ := h
    obtain ⟨rfl, rfl⟩ := Prod.mk.inj (Option.some.inj h)
    exact .raises hr hk hp hd
  | _ => exact absurd he (by simp [Event.nextOf])

variable {c : Conf}

theorem Item.moved (i : Item c) : Moved c i.pre i.ev i.post i.out := by
  have h : step c i.pre i.ev = some (i.post, i.out) := i.ok
  unfold step at h
  split at h
  · rename_i hr
    exact stepIdle_moved hr h
  · rename_i k hr
    split at h
    · rename_i he
      split at h
      · rename_i caller visited start syncAgain lost hk
        exact stepNext_moved hr he hk rfl h
      · exact absurd h (by simp)
    · exact absurd h (by simp)

end LsServer.Monitor
