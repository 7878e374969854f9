import LsServer.Monitor.Register

/-!
# Whatever a node sends to the master (MonitorPublish.lua)

The service once more, with the values that `sync` and `heartbeat` can get, and with the places
where it raises: `sync` checks none of its arguments. A name, an ip and a port only get into
`clusterInfo` because `updateClusterConfig` has written them for a candidate map before, which
raises for all that it cannot sort and concatenate. Assigning to a `Table` stands for assigning to
the table of Lua where the key is one (`isKey`); that the candidate map shares nothing with
`clusterInfo` is a result about `table.simpleCopy`.

A coroutine is a `Task` as in `Publish`, and a walk is `disturbed` as there. What `runTimeout` does
is left to the event that ends it. `os.time()` and `tonumber` return integers and numbers, so `last`
and `port` are one or `nil`.

`master_server` has opened the address made of `clusterip` and `clusterport` before it starts the
service, so these are a text and a number (`Conf`).

Source: MonitorPublish.lua 48-91; Common.lua `updateClusterConfig` 14-34; lbaselib.c `tonumber`;
ltablib.c `sort`, which raises where two keys are not comparable.

* `Value` is any value of Lua that a message can carry: texts, numbers, booleans, tables.
* `Act.raised k site` tells where a coroutine raises: `candidate` is the map with the new node,
  `config` is `clusterInfo` itself, `last` is `nodeInfo.last + 6`, `next` a disturbed walk, `reload`
  the answer of `clusterd`.
* `WellFormed`: the master is in the map; all names are texts; every ip can be concatenated, every
  port is a number, and every node but the master has a `last`.
* `Safe` adds what a suspended `sync` knows of its arguments: its candidate map could be written.

Results:
* `updateClusterConfig_ne_none`: a well-formed map can be written;
* `isEntry_of_config`: a candidate map that can be written has a good new entry;
* `step_safe`: what a step keeps;
* `wellFormed_of_run`: `clusterInfo` is well formed in every state, and what reads it never raises.
-/

namespace LsServer.Monitor.Raw

open LsServer.Lib LsServer.Lua

/-- An entry of `clusterInfo`. -/
structure NodeInfo where
  ip : Value
  port : Option LuaNumber
  last : Option Nat
  deriving DecidableEq

abbrev ClusterInfo := Table Value NodeInfo

/-! ## `updateClusterConfig` -/

/-- `a < b` does not raise. -/
def comparable : Value → Value → Bool
  | .string _, .string _ => true
  | .number _, .number _ => true
  | _, _ => false

/-- The value of a number that is not NaN. -/
def numberValue : LuaNumber → Option Number
  | .int n => some (ofInt n)
  | .float _ v => some v
  | .nan _ => none

/-- `a <= b` of comparable values. -/
def valueLe : Value → Value → Bool
  | .string a, .string b => strLe a b
  | .number a, .number b =>
    match numberValue a, numberValue b with
    | some x, some y => x ≤ y
    | _, _ => false
  | _, _ => false

/-- `table.sort`. It has to compare the neighbours of the sorted order, and so raises where two
keys are not comparable. -/
def sortKeys (keys : List Value) : Option (List Value) :=
  if keys.Pairwise fun a b => comparable a b = true then
    some (keys.insertionSort fun a b => valueLe a b = true)
  else none

/-- `str`, the line of a node. -/
def configLine (t : ClusterInfo) (nodeName : Value) : Option Bytes := do
  let info ← t.get nodeName
  let name ← concat nodeName
  let ip ← concat info.ip
  let port ← info.port
  some (name ++ bytes "=\"" ++ ip ++ bytes ":" ++ numberText port ++ bytes "\"\n")

/-- What `Common.updateClusterConfig` writes; `none` where it raises. -/
def updateClusterConfig (t : ClusterInfo) : Option Bytes := do
  let clusterNodeKey ← sortKeys (t.entries.map Prod.fst)
  let lines ← clusterNodeKey.mapM (configLine t)
  some (configHead ++ lines.flatten)

/-! ## The service -/

/-- Where a walk is, as in `Monitor.WalkPhase`. -/
inductive WalkPhase
  | next (lost : Bool)
  | calling (n : Value)
  | reloading
  deriving DecidableEq

/-- A `broadcastClusterInfo`, as in `Monitor.Walk`. -/
structure Walk where
  visited : List Value
  start : Nat
  syncAgain : Bool
  phase : WalkPhase
  deriving DecidableEq

/-- A suspended coroutine, as in `Monitor.Task`; `isSync` is false for `clusterHold`. -/
inductive Task
  | registering (remoteName remoteIp remotePort : Value)
  | querying (remoteName remoteIp remotePort : Value)
  | refusing
  | broadcasting (isSync : Bool) (w : Walk)
  deriving DecidableEq

structure State where
  clusterInfo : ClusterInfo
  version : Nat
  insertedAt : Nat
  tasks : Table TaskId Task
  nextTask : TaskId
  running : Option TaskId

/-- What happens next: `reloaded` tells whether `cluster.reload` has returned, `resume` whether
`timeout or not ret`. -/
inductive Event
  | sync (remoteName remoteIp remotePort : Value)
  | reloaded (k : TaskId) (ok : Bool)
  | queried (k : TaskId) (alive : Bool) (now : Nat)
  | hold (now : Nat)
  | heartbeat (remoteName : Value) (now : Nat)
  | next (k : TaskId) (key : Option Value)
  | nextRaises (k : TaskId)
  | resume (k : TaskId) (failed : Bool)
  deriving DecidableEq

/-- Where a coroutine raises: in `sync` with its candidate map, in
`updateClusterConfig(clusterInfo)` before the reload, at `nodeInfo.last + 6`, at `next`, in
`cluster.reload`. -/
inductive Site
  | candidate
  | config
  | last
  | next
  | reload
  deriving DecidableEq

/-- How a coroutine ends. -/
inductive Act
  | returned (k : TaskId) (ok : Bool)
  | raised (k : TaskId) (site : Site)
  deriving DecidableEq

/-- Task `k` goes on as `t`. -/
def setTask (s : State) (k : TaskId) (t : Task) : State :=
  { s with
    tasks := s.tasks.set k t
    running := match t with
      | .broadcasting _ ⟨_, _, _, .next _⟩ => some k
      | _ => none }

/-- The end of task `k`. -/
def endTask (s : State) (k : TaskId) : State := { s with tasks := s.tasks.del k, running := none }

/-- The call of `broadcastClusterInfo`. -/
def broadcastClusterInfo (s : State) (k : TaskId) (isSync : Bool) : State :=
  setTask s k (.broadcasting isSync ⟨[], s.version, false, .next false⟩)

/-- `clusterInfo[name] = info`. -/
def store (s : State) (name : Value) (info : NodeInfo) : State :=
  { s with
    clusterInfo := s.clusterInfo.set name info
    version := s.version + 1
    insertedAt := if s.clusterInfo.get name = none then s.version + 1 else s.insertedAt }

/-- `clusterInfo[name] = nil`. -/
def remove (s : State) (name : Value) : State :=
  if s.clusterInfo.get name = none then s
  else { s with clusterInfo := s.clusterInfo.del name, version := s.version + 1 }

/-- `response.sync`, up to the reload of the cluster configuration with the new node. -/
def sync (s : State) (remoteName remoteIp remotePort : Value) : State × List Act :=
  let k := s.nextTask
  let s := { s with nextTask := k + 1 }
  let tmpClusterInfo := s.clusterInfo.set remoteName ⟨remoteIp, toNumber remotePort, none⟩
  if isKey remoteName = false then (s, [.raised k .candidate])
  else
    match updateClusterConfig tmpClusterInfo with
    | none => (s, [.raised k .candidate])
    | some _ => (setTask s k (.registering remoteName remoteIp remotePort), [])

/-- The loop of `clusterHold`: the new `sync`, or `none` where it raises. -/
def holdLoop (c : Conf) (now : Nat) :
    List (Value × NodeInfo) → State → Bool → State × Option Bool
  | [], s, sync => (s, some sync)
  | (node, nodeInfo) :: es, s, sync =>
    if node = .string c.thisNodeName then holdLoop c now es s sync
    else
      match nodeInfo.last with
      | none => (s, none)
      | some last =>
        if last + 6 < now then holdLoop c now es (remove s node) true
        else holdLoop c now es s sync

/-- `clusterHold`. -/
def clusterHold (c : Conf) (s : State) (now : Nat) : State × List Act :=
  let k := s.nextTask
  let x := holdLoop c now s.clusterInfo.entries s false
  match x.2 with
  | none => ({ x.1 with nextTask := k + 1 }, [.raised k .last])
  | some false => (x.1, [])
  | some true => (broadcastClusterInfo { x.1 with nextTask := k + 1 } k false, [])

/-- `response.heartbeat`. -/
def heartbeat (s : State) (remoteName : Value) (now : Nat) : State :=
  match s.clusterInfo.get remoteName with
  | none => s
  | some info =>
    { s with clusterInfo := s.clusterInfo.set remoteName { info with last := some now } }

/-- `updateClusterConfig(clusterInfo)`, up to the reload; the task is then `t`. -/
def writeConfig (s : State) (k : TaskId) (t : Task) : State × List Act :=
  match updateClusterConfig s.clusterInfo with
  | none => (endTask s k, [.raised k .config])
  | some _ => (setTask s k t, [])

/-- As `Monitor.disturbed`. -/
def disturbed (s : State) (w : Walk) : Bool := w.start < s.insertedAt

/-- `next` can give the key. -/
def canVisit (s : State) (w : Walk) (n : Value) : Bool :=
  (s.clusterInfo.get n).isSome && (disturbed s w || n ∉ w.visited)

/-- `next` can end the loop. -/
def canEnd (s : State) (w : Walk) : Bool :=
  disturbed s w || s.clusterInfo.entries.all fun e => e.1 ∈ w.visited

/-- The body of the loop, up to `runTimeout`. -/
def visit (c : Conf) (s : State) (k : TaskId) (isSync : Bool) (w : Walk) (n : Value) : State :=
  let phase := if n = .string c.thisNodeName then .next false else .calling n
  setTask s k (.broadcasting isSync { w with visited := n :: w.visited, phase := phase })

/-- The body of the loop after `runTimeout`. -/
def afterCall (s : State) (k : TaskId) (isSync : Bool) (w : Walk) (n : Value) (failed : Bool) :
    State :=
  let lost := (s.clusterInfo.get n).isNone
  if failed then
    setTask (remove s n) k (.broadcasting isSync { w with syncAgain := true, phase := .next lost })
  else setTask s k (.broadcasting isSync { w with phase := .next lost })

/-- A step at `next` of task `k`. -/
def stepNext (c : Conf) (s : State) (k : TaskId) (isSync : Bool) (w : Walk) (lost : Bool) :
    Event → Option (State × List Act)
  | .next _ (some n) => if canVisit s w n then some (visit c s k isSync w n, []) else none
  | .next _ none =>
    if canEnd s w then some (writeConfig s k (.broadcasting isSync { w with phase := .reloading }))
    else none
  | .nextRaises _ =>
    if disturbed s w ∧ lost then some (endTask s k, [.raised k .next]) else none
  | _ => none

/-- The task `k` after `cluster.reload`. -/
def afterReload (s : State) (k : TaskId) : Task → Option (State × List Act)
  | .registering name ip port => some (setTask s k (.querying name ip port), [])
  | .querying _ _ _ => none
  | .refusing => some (endTask s k, [.returned k false])
  | .broadcasting isSync w =>
    if w.phase = .reloading then
      if w.syncAgain then some (broadcastClusterInfo s k isSync, [])
      else some (endTask s k, if isSync then [.returned k true] else [])
    else none

/-- `sync` after `checkNodeAlive`. -/
def afterQuery (s : State) (k : TaskId) (alive : Bool) (now : Nat) :
    Task → Option (State × List Act)
  | .querying name ip port =>
    some (if alive then
      (broadcastClusterInfo (store s name ⟨ip, toNumber port, some now⟩) k true, [])
    else writeConfig s k .refusing)
  | _ => none

/-- The task is waiting for `cluster.reload`. -/
def Task.reloads : Task → Bool
  | .registering _ _ _ | .refusing => true
  | .querying _ _ _ => false
  | .broadcasting _ w => w.phase = .reloading

/-- One event while no coroutine runs. -/
def stepIdle (c : Conf) (s : State) : Event → Option (State × List Act)
  | .sync name ip port => some (sync s name ip port)
  | .hold now => some (clusterHold c s now)
  | .heartbeat name now => some (heartbeat s name now, [])
  | .reloaded k ok =>
    (s.tasks.get k).bind fun t =>
      if ok then afterReload s k t
      else if t.reloads then some (endTask s k, [.raised k .reload])
      else none
  | .queried k alive now => (s.tasks.get k).bind fun t => afterQuery s k alive now t
  | .resume k failed =>
    match s.tasks.get k with
    | some (.broadcasting isSync ⟨visited, start, syncAgain, .calling n⟩) =>
      some (afterCall s k isSync ⟨visited, start, syncAgain, .calling n⟩ n failed, [])
    | _ => none
  | .next _ _ | .nextRaises _ => none

/-- The coroutine whose `next` ends with the event. -/
def Event.nextOf : Event → Option TaskId
  | .next k _ | .nextRaises k => some k
  | _ => none

/-- One event, if it can happen. A coroutine at `next` goes on at once. -/
def step (c : Conf) (s : State) (e : Event) : Option (State × List Act) :=
  match s.running with
  | none => stepIdle c s e
  | some k =>
    if e.nextOf = some k then
      match s.tasks.get k with
      | some (.broadcasting isSync ⟨visited, start, syncAgain, .next lost⟩) =>
        stepNext c s k isSync ⟨visited, start, syncAgain, .next lost⟩ lost e
      | _ => none
    else none

/-- The service after `init`. -/
def State.init (c : Conf) : State where
  clusterInfo := Table.empty.set (.string c.thisNodeName) ⟨.string c.ip, some c.port, none⟩
  version := 0
  insertedAt := 0
  tasks := .empty
  nextTask := 0
  running := none

/-- **The service.** -/
def machine (c : Conf) : Machine State Event Act := ⟨.init c, step c⟩

/-- A step of the service. -/
abbrev Item (c : Conf) := (machine c).Item

/-! ## Well-formed maps -/

/-- An entry that can be written, and checked by `clusterHold`. -/
structure GoodEntry (c : Conf) (nodeName : Value) (info : NodeInfo) : Prop where
  name : ∃ n, nodeName = .string n
  ip : concat info.ip ≠ none
  port : info.port ≠ none
  last : nodeName ≠ .string c.thisNodeName → info.last ≠ none

structure WellFormed (c : Conf) (t : ClusterInfo) : Prop where
  self : t.get (.string c.thisNodeName) ≠ none
  entry : ∀ n info, t.get n = some info → GoodEntry c n info

variable {c : Conf}

theorem mem_keys {t : ClusterInfo} {n : Value} :
    n ∈ t.entries.map Prod.fst ↔ ∃ info, t.get n = some info := by
  rw [List.mem_map]
  constructor
  · rintro ⟨e, he, rfl⟩
    exact ⟨e.2, Table.mem_entries.mp he⟩
  · rintro ⟨info, h⟩
    exact ⟨(n, info), Table.mem_entries.mpr h, rfl⟩

theorem mapM_ne_none {α β : Type} {f : α → Option β} {l : List α} :
    l.mapM f ≠ none ↔ ∀ a ∈ l, f a ≠ none := by
  induction l with
  | nil => simp
  | cons a l ih =>
    rw [List.mapM_cons, List.forall_mem_cons, ← ih]
    cases f a <;> cases l.mapM f <;> simp

instance : Std.Symm fun a b : Value => comparable a b = true := by
  refine ⟨fun a b h => ?_⟩
  cases a <;> cases b <;> simp_all [comparable]

theorem configLine_ne_none {t : ClusterInfo} {n : Value} {info : NodeInfo}
    (h : t.get n = some info) : configLine t n ≠ none ↔
      concat n ≠ none ∧ concat info.ip ≠ none ∧ info.port ≠ none := by
  unfold configLine
  cases concat n <;> cases hip : concat info.ip <;> cases hport : info.port <;>
    simp [h, hip, hport]

/-- When `updateClusterConfig` does not raise. -/
theorem updateClusterConfig_iff {t : ClusterInfo} : updateClusterConfig t ≠ none ↔
    (t.entries.map Prod.fst).Pairwise (fun a b => comparable a b = true) ∧
      ∀ n info, t.get n = some info →
        concat n ≠ none ∧ concat info.ip ≠ none ∧ info.port ≠ none := by
  have hlines : ∀ keys : List Value, (∀ n, n ∈ keys ↔ n ∈ t.entries.map Prod.fst) →
      (keys.mapM (configLine t) ≠ none ↔ ∀ n info, t.get n = some info →
        concat n ≠ none ∧ concat info.ip ≠ none ∧ info.port ≠ none) := by
    intro keys hkeys
    rw [mapM_ne_none]
    constructor
    · intro h n info hn
      exact (configLine_ne_none hn).mp (h n ((hkeys n).mpr (mem_keys.mpr ⟨info, hn⟩)))
    · intro h n hn
      obtain ⟨info, hinfo⟩ := mem_keys.mp ((hkeys n).mp hn)
      exact (configLine_ne_none hinfo).mpr (h n info hinfo)
  unfold updateClusterConfig sortKeys
  split
  · rename_i hpairwise
    rw [← hlines ((t.entries.map Prod.fst).insertionSort fun a b => valueLe a b = true)
      fun n => List.mem_insertionSort _, Option.bind_eq_bind, Option.bind_some]
    cases List.mapM (configLine t) _ <;> simp [hpairwise]
  · rename_i hpairwise
    simp [hpairwise]

/-- **A well-formed map can be written.** -/
theorem updateClusterConfig_ne_none {t : ClusterInfo} (h : WellFormed c t) :
    updateClusterConfig t ≠ none := by
  refine updateClusterConfig_iff.mpr ⟨List.pairwise_of_forall_mem_list fun a ha b hb => ?_,
    fun n info hn => ?_⟩
  · obtain ⟨_, hinfo⟩ := mem_keys.mp ha
    obtain ⟨_, hinfo'⟩ := mem_keys.mp hb
    obtain ⟨a, rfl⟩ := (h.entry _ _ hinfo).name
    obtain ⟨b, rfl⟩ := (h.entry _ _ hinfo').name
    rfl
  · obtain ⟨⟨n, rfl⟩, hip, hport, -⟩ := h.entry n info hn
    exact ⟨by simp [concat], hip, hport⟩

/-- **What can be written with the name of the master is a good entry.** -/
theorem isEntry_of_config {t : ClusterInfo} (hself : t.get (.string c.thisNodeName) ≠ none)
    {remoteName remoteIp remotePort : Value}
    (h : updateClusterConfig (t.set remoteName ⟨remoteIp, toNumber remotePort, none⟩) ≠ none) :
    IsEntry remoteName remoteIp remotePort := by
  obtain ⟨hpairwise, hlines⟩ := updateClusterConfig_iff.mp h
  obtain ⟨-, hip, hport⟩ := hlines remoteName _ (Table.get_set_self _ _ _)
  obtain ⟨ip, hip⟩ := Option.ne_none_iff_exists'.mp hip
  obtain ⟨port, hport⟩ := Option.ne_none_iff_exists'.mp hport
  by_cases hname : remoteName = .string c.thisNodeName
  · exact ⟨c.thisNodeName, ip, port, hname, hip, hport⟩
  · -- it has been compared with the name of the master
    obtain ⟨info, hinfo⟩ := Option.ne_none_iff_exists'.mp hself
    have hcomparable := hpairwise.forall
      (mem_keys.mpr ⟨_, Table.get_set_self t remoteName _⟩)
      (mem_keys.mpr ⟨info, (Table.get_set_ne (Ne.symm hname)).trans hinfo⟩) hname
    cases remoteName with
    | string n => exact ⟨n, ip, port, rfl, hip, hport⟩
    | _ => exact absurd hcomparable (by simp [comparable])

/-! ## What a step keeps -/

/-- What a coroutine has to know to go on. -/
def TaskOk (c : Conf) : Task → Prop
  | .registering name ip port | .querying name ip port => IsEntry name ip port
  | .refusing => True
  | .broadcasting _ w => ∀ n, w.phase = .calling n → n ≠ .string c.thisNodeName

/-- **The invariant.** -/
structure Safe (c : Conf) (s : State) : Prop where
  map : WellFormed c s.clusterInfo
  tasks : ∀ k t, s.tasks.get k = some t → TaskOk c t

/-- Nothing has raised that only reads `clusterInfo`. -/
def Quiet (out : List Act) : Prop := ∀ k, .raised k .config ∉ out ∧ .raised k .last ∉ out

variable {s : State} {k : TaskId}

theorem quiet_nil : Quiet [] := fun k => ⟨by simp, by simp⟩

theorem Safe.setTask {t : Task} (h : Safe c s) (ht : TaskOk c t) : Safe c (setTask s k t) := by
  refine ⟨h.map, fun k' t' ht' => ?_⟩
  have hget : (s.tasks.set k t).get k' = some t' := ht'
  rw [Table.get_set] at hget
  split at hget
  · rwa [← Option.some.inj hget]
  · exact h.tasks k' t' hget

theorem Safe.endTask (h : Safe c s) : Safe c (endTask s k) :=
  ⟨h.map, fun k' t' ht' => h.tasks k' t' (Table.get_of_get_del ht').2⟩

theorem Safe.nextTask (h : Safe c s) (n : TaskId) : Safe c { s with nextTask := n } :=
  ⟨h.map, h.tasks⟩

theorem Safe.broadcast (h : Safe c s) (isSync : Bool) :
    Safe c (broadcastClusterInfo s k isSync) :=
  h.setTask fun n hn => absurd hn (by simp)

theorem WellFormed.set {t : ClusterInfo} (h : WellFormed c t) {n : Value} {info : NodeInfo}
    (hgood : GoodEntry c n info) : WellFormed c (t.set n info) := by
  refine ⟨?_, fun m info' hm => ?_⟩
  · rw [Table.get_set]
    split
    · simp
    · exact h.self
  · rw [Table.get_set] at hm
    split at hm
    · rename_i hmn
      rw [hmn, ← Option.some.inj hm]
      exact hgood
    · exact h.entry m info' hm

theorem WellFormed.del {t : ClusterInfo} (h : WellFormed c t) {n : Value}
    (hn : n ≠ .string c.thisNodeName) : WellFormed c (t.del n) := by
  refine ⟨?_, fun m info hm => h.entry m info (Table.get_of_get_del hm).2⟩
  rw [Table.get_del_ne (Ne.symm hn)]
  exact h.self

theorem Safe.remove (h : Safe c s) {n : Value} (hn : n ≠ .string c.thisNodeName) :
    Safe c (remove s n) := by
  unfold Raw.remove
  split
  · exact h
  · exact ⟨h.map.del hn, h.tasks⟩

/-- The entry of a node that has answered. -/
theorem Safe.store (h : Safe c s) {name ip port : Value} (he : IsEntry name ip port) (now : Nat) :
    Safe c (store s name ⟨ip, toNumber port, some now⟩) := by
  obtain ⟨n, i, p, rfl, hip, hport⟩ := he
  exact ⟨h.map.set ⟨⟨n, rfl⟩, by simp [hip], by simp [hport], by simp⟩, h.tasks⟩

theorem sync_safe (h : Safe c s) (name ip port : Value) :
    Safe c (sync s name ip port).1 ∧ Quiet (sync s name ip port).2 := by
  have hnext := h.nextTask (s.nextTask + 1)
  have hraised : Quiet [.raised s.nextTask .candidate] := fun k => ⟨by simp, by simp⟩
  unfold sync
  dsimp only
  split
  · exact ⟨hnext, hraised⟩
  · split
    · exact ⟨hnext, hraised⟩
    · rename_i hconfig
      exact ⟨hnext.setTask (isEntry_of_config h.map.self (by rw [hconfig]; simp)), quiet_nil⟩

/-- The loop of `clusterHold` goes to its end. -/
theorem holdLoop_safe (h : Safe c s) (now : Nat) {es : List (Value × NodeInfo)}
    (hes : ∀ e ∈ es, GoodEntry c e.1 e.2) (b : Bool) :
    Safe c (holdLoop c now es s b).1 ∧ (holdLoop c now es s b).2 ≠ none := by
  induction es generalizing s b with
  | nil => exact ⟨h, by simp [holdLoop]⟩
  | cons e es ih =>
    obtain ⟨node, nodeInfo⟩ := e
    obtain ⟨hgood, hes⟩ := List.forall_mem_cons.mp hes
    rw [holdLoop]
    split
    · exact ih h hes b
    · rename_i hnode
      split
      · rename_i hnone
        exact absurd hnone (hgood.last hnode)
      · split
        · exact ih (h.remove hnode) hes true
        · exact ih h hes b

theorem clusterHold_safe (h : Safe c s) (now : Nat) :
    Safe c (clusterHold c s now).1 ∧ Quiet (clusterHold c s now).2 := by
  have hgood : ∀ e ∈ s.clusterInfo.entries, GoodEntry c e.1 e.2 := fun e he =>
    h.map.entry e.1 e.2 (Table.mem_entries.mp he)
  obtain ⟨hsafe, hends⟩ := holdLoop_safe h now hgood false
  unfold clusterHold
  dsimp only
  split
  · rename_i hnone
    exact absurd hnone hends
  · exact ⟨hsafe, quiet_nil⟩
  · exact ⟨(hsafe.nextTask _).broadcast false, quiet_nil⟩

theorem heartbeat_safe (h : Safe c s) (name : Value) (now : Nat) :
    Safe c (heartbeat s name now) := by
  unfold heartbeat
  split
  · exact h
  · rename_i info hinfo
    obtain ⟨hname, hip, hport, -⟩ := h.map.entry name info hinfo
    exact ⟨h.map.set ⟨hname, hip, hport, by simp⟩, h.tasks⟩

theorem writeConfig_safe (h : Safe c s) {t : Task} (ht : TaskOk c t) :
    Safe c (writeConfig s k t).1 ∧ Quiet (writeConfig s k t).2 := by
  unfold writeConfig
  split
  · rename_i hnone
    exact absurd hnone (updateClusterConfig_ne_none h.map)
  · exact ⟨h.setTask ht, quiet_nil⟩

theorem afterCall_safe (h : Safe c s) {isSync : Bool} {w : Walk} {n : Value}
    (hn : n ≠ .string c.thisNodeName) (failed : Bool) :
    Safe c (afterCall s k isSync w n failed) := by
  unfold afterCall
  dsimp only
  split
  · exact (h.remove hn).setTask fun m hm => absurd hm (by simp)
  · exact h.setTask fun m hm => absurd hm (by simp)

theorem stepNext_safe (h : Safe c s) {isSync lost : Bool} {w : Walk} {e : Event} {s' : State}
    {out : List Act} (hs : stepNext c s k isSync w lost e = some (s', out)) :
    Safe c s' ∧ Quiet out := by
  unfold stepNext at hs
  split at hs
  · rename_i n
    obtain ⟨-, hs⟩ := Option.ite_none_right_eq_some.mp hs
    obtain ⟨rfl, rfl⟩ := Prod.mk.inj (Option.some.inj hs)
    refine ⟨h.setTask fun m hm => ?_, quiet_nil⟩
    dsimp only at hm
    split at hm
    · exact absurd hm (by simp)
    · rename_i hn
      rwa [← WalkPhase.calling.inj hm]
  · obtain ⟨-, hs⟩ := Option.ite_none_right_eq_some.mp hs
    have hwrite := writeConfig_safe (k := k) h
      (t := .broadcasting isSync { w with phase := .reloading }) fun m hm => absurd hm (by simp)
    rwa [Option.some.inj hs] at hwrite
  · obtain ⟨-, hs⟩ := Option.ite_none_right_eq_some.mp hs
    obtain ⟨rfl, rfl⟩ := Prod.mk.inj (Option.some.inj hs)
    exact ⟨h.endTask, fun k' => ⟨by simp, by simp⟩⟩
  · exact absurd hs (by simp)

theorem afterReload_safe (h : Safe c s) {t : Task} (ht : TaskOk c t) {s' : State} {out : List Act}
    (hs : afterReload s k t = some (s', out)) : Safe c s' ∧ Quiet out := by
  unfold afterReload at hs
  cases t with
  | registering name ip port =>
    obtain ⟨rfl, rfl⟩ := Prod.mk.inj (Option.some.inj hs)
    exact ⟨h.setTask ht, quiet_nil⟩
  | querying => exact absurd hs (by simp)
  | refusing =>
    obtain ⟨rfl, rfl⟩ := Prod.mk.inj (Option.some.inj hs)
    exact ⟨h.endTask, fun k' => ⟨by simp, by simp⟩⟩
  | broadcasting isSync w =>
    obtain ⟨-, hs⟩ := Option.ite_none_right_eq_some.mp hs
    split at hs
    · obtain ⟨rfl, rfl⟩ := Prod.mk.inj (Option.some.inj hs)
      exact ⟨h.broadcast isSync, quiet_nil⟩
    · obtain ⟨rfl, rfl⟩ := Prod.mk.inj (Option.some.inj hs)
      refine ⟨h.endTask, fun k' => ?_⟩
      split <;> exact ⟨by simp, by simp⟩

theorem afterQuery_safe (h : Safe c s) {t : Task} (ht : TaskOk c t) {alive : Bool} {now : Nat}
    {s' : State} {out : List Act} (hs : afterQuery s k alive now t = some (s', out)) :
    Safe c s' ∧ Quiet out := by
  unfold afterQuery at hs
  cases t with
  | querying name ip port =>
    have hs := Option.some.inj hs
    split at hs
    · obtain ⟨rfl, rfl⟩ := Prod.mk.inj hs
      exact ⟨(h.store ht now).broadcast true, quiet_nil⟩
    · have hwrite := writeConfig_safe (k := k) h (t := .refusing) trivial
      rwa [hs] at hwrite
  | _ => exact absurd hs (by simp)

theorem stepIdle_safe (h : Safe c s) {e : Event} {s' : State} {out : List Act}
    (hs : stepIdle c s e = some (s', out)) : Safe c s' ∧ Quiet out := by
  cases e with
  | sync name ip port =>
    have hsync := sync_safe h name ip port
    rwa [Option.some.inj hs] at hsync
  | hold now =>
    have hhold := clusterHold_safe h now
    rwa [Option.some.inj hs] at hhold
  | heartbeat name now =>
    obtain ⟨rfl, rfl⟩ := Prod.mk.inj (Option.some.inj hs)
    exact ⟨heartbeat_safe h name now, quiet_nil⟩
  | reloaded k ok =>
    obtain ⟨t, ht, hs⟩ := Option.bind_eq_some_iff.mp hs
    split at hs
    · exact afterReload_safe h (h.tasks k t ht) hs
    · obtain ⟨-, hs⟩ := Option.ite_none_right_eq_some.mp hs
      obtain ⟨rfl, rfl⟩ := Prod.mk.inj (Option.some.inj hs)
      exact ⟨h.endTask, fun k' => ⟨by simp, by simp⟩⟩
  | queried k alive now =>
    obtain ⟨t, ht, hs⟩ := Option.bind_eq_some_iff.mp hs
    exact afterQuery_safe h (h.tasks k t ht) hs
  | resume k failed =>
    simp only [stepIdle] at hs
    split at hs
    · rename_i ht
      obtain ⟨rfl, rfl⟩ := Prod.mk.inj (Option.some.inj hs)
      exact ⟨afterCall_safe h (h.tasks k _ ht _ rfl) failed, quiet_nil⟩
    · exact absurd hs (by simp)
  | next => exact absurd hs (by simp [stepIdle])
  | nextRaises => exact absurd hs (by simp [stepIdle])

/-- **Every step keeps the invariant**, and what reads `clusterInfo` does not raise. -/
theorem step_safe (h : Safe c s) {e : Event} {s' : State} {out : List Act}
    (hs : step c s e = some (s', out)) : Safe c s' ∧ Quiet out := by
  unfold step at hs
  split at hs
  · exact stepIdle_safe h hs
  · split at hs
    · split at hs
      · exact stepNext_safe h hs
      · exact absurd hs (by simp)
    · exact absurd hs (by simp)

theorem init_safe (c : Conf) : Safe c (State.init c) := by
  refine ⟨⟨by simp [State.init], fun n info hn => ?_⟩,
    fun k t ht => absurd ht (by simp [State.init])⟩
  simp only [State.init, Table.get_set] at hn
  split at hn
  · rename_i hname
    rw [hname, ← Option.some.inj hn]
    exact ⟨⟨c.thisNodeName, rfl⟩, by simp [concat], by simp, fun hne => absurd rfl hne⟩
  · exact absurd hn (by simp)

/-- The invariant holds along a run. -/
theorem run_safe {tr : List (Item c)} (h : (machine c).Run tr s) : Safe c s :=
  h.invariant (I := Safe c) (init_safe c) fun i hi => (step_safe hi i.ok).1

/-- **`clusterInfo` stays well formed**, whatever the nodes send and however the coroutines
interleave. So `clusterHold` and `updateClusterConfig` can read it in every state, and have not
raised in any step. -/
theorem wellFormed_of_run {tr : List (Item c)} (h : (machine c).Run tr s) :
    WellFormed c s.clusterInfo ∧
    (∀ now, (holdLoop c now s.clusterInfo.entries s false).2 ≠ none) ∧
    updateClusterConfig s.clusterInfo ≠ none ∧
    ∀ i ∈ tr, ∀ k, .raised k .last ∉ i.out ∧ .raised k .config ∉ i.out := by
  have hsafe := run_safe h
  refine ⟨hsafe.map, fun now => ?_, updateClusterConfig_ne_none hsafe.map, fun i hi k => ?_⟩
  · exact (holdLoop_safe hsafe now
      (fun e he => hsafe.map.entry e.1 e.2 (Table.mem_entries.mp he)) false).2
  · have hpre : Safe c i.pre := Machine.Path.keeps_pre h (init_safe c)
      (fun j _ hj => (step_safe hj j.ok).1) i hi
    exact ⟨((step_safe hpre i.ok).2 k).2, ((step_safe hpre i.ok).2 k).1⟩

/-- A registration without a port, one that succeeds, and the end of its node. -/
def oneLife : List Event :=
  [.sync (.string (bytes "game2")) (.string (bytes "10.0.0.3")) .nil,
    .sync (.string (bytes "game1")) (.string (bytes "10.0.0.2")) (.string (bytes "2528")),
    .reloaded 1 true, .queried 1 true 100, .next 1 (some (.string (bytes "master"))),
    .next 1 (some (.string (bytes "game1"))), .resume 1 false, .next 1 none, .reloaded 1 true,
    .heartbeat (.string (bytes "game1")) 104, .hold 110, .hold 111]

theorem wellFormed_of_run_oneLife : ∃ (tr : List (Item masterConf)) (s : State),
    (machine masterConf).Run tr s ∧ tr.map (·.ev) = oneLife ∧
      tr.map (·.out) = [[.raised 0 .candidate], [], [], [], [], [], [], [], [.returned 1 true], [],
        [], []] ∧
      WellFormed masterConf s.clusterInfo ∧
      (∀ now, (holdLoop masterConf now s.clusterInfo.entries s false).2 ≠ none) ∧
      updateClusterConfig s.clusterInfo ≠ none ∧
      ∀ i ∈ tr, ∀ k, .raised k .last ∉ i.out ∧ .raised k .config ∉ i.out := by
  have houts : (Machine.items (machine masterConf) (.init masterConf) oneLife).map
      (List.map Machine.Item.out) = some [[.raised 0 .candidate], [], [], [], [], [], [], [],
        [.returned 1 true], [], [], []] := by decide +kernel
  obtain ⟨tr, hrun, hev, hout⟩ := Machine.exists_run_out oneLife houts
  exact ⟨tr, _, hrun, hev, hout, wellFormed_of_run hrun⟩

end LsServer.Monitor.Raw
