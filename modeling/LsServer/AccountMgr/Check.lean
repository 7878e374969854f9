import LsServer.Cluster.SnaxUtil
import LsServer.Lib.Run
import LsServer.Lib.Table

/-!
# Where an account is logged in (AccountMgr.lua)

`accountInfoMap` holds the node an account is logged in at. `checkRepetitionLogin` reads it, asks
the node it finds there to kick a user, and then overwrites it. The remote call suspends the
call (`CheckCall`), so other calls for the same account can run in between.

`machine` runs any number of these calls; `Item.checked` inverts a step.

Source: AccountMgr.lua, `LoginStat` 5-8, `accountInfoMap` 9, `response.checkRepetitionLogin` 34-48;
SnaxUtil.lua for the remote call.

* `AccountInfo` has what line 46 stores: the account, its state and its node. The comment at line 9
  names a username as a fourth field, which is stored nowhere.
* The state is always `GAME_OK`, so the branch for `LOGIN_OK`, which is empty, is not taken;
  `kickNode` has it.
* A call that finds no record stores at once. One that finds a record waits for its search and then
  for its request. It stores afterwards in any case but that the search or the request raises.
* The request asks the node of the record to kick the username of the new login. What the node does
  then is of another module.

`Act.store` and `Act.kick` carry the username of the call, so that a run tells who stored a record.
The record itself does not.

Out of scope: `response.auth`, which is `LoginGate.accountAuth`, and `response.gameLogin`, which is
empty.
-/

namespace LsServer.AccountMgr

open LsServer.Lib LsServer.Lua LsServer.Cluster

abbrev CallId := Nat

/-- `LoginStat`. -/
inductive LoginStat
  | loginOk
  | gameOk
  deriving DecidableEq

/-- An entry of `accountInfoMap`, the table `{uid, stat, node}`. -/
structure AccountInfo where
  uid : Bytes
  stat : LoginStat
  node : NodeName
  deriving DecidableEq

/-- The locals of a `checkRepetitionLogin` that waits for its remote call: its arguments and
`info.node`. `sent` once the request has been made. -/
structure CheckCall where
  uid : Bytes
  nodeName : NodeName
  username : Bytes
  infoNode : NodeName
  sent : Bool
  deriving DecidableEq

structure State where
  accountInfoMap : Table Bytes AccountInfo
  calls : Table CallId CheckCall
  nextCall : CallId

/-- What call `k` does: it requests the kick of a user at a node, assigns `accountInfoMap[uid]`,
returns, raises. -/
inductive Act
  | kick (k : CallId) (node : NodeName) (username : Bytes)
  | store (k : CallId) (uid : Bytes) (node : NodeName) (username : Bytes)
  | returned (k : CallId)
  | raised (k : CallId)
  deriving DecidableEq

/-- The service when it starts. -/
def State.init : State := ⟨.empty, .empty, 0⟩

/-- The node that `checkRepetitionLogin` calls before it assigns. -/
def kickNode (a : State) (uid : Bytes) : Option NodeName :=
  match a.accountInfoMap.get uid with
  | none => none
  | some info =>
    match info.stat with
    | .gameOk => some info.node
    | .loginOk => none

/-- The end of call `k`: `accountInfoMap[uid] = {uid, GAME_OK, nodeName}`. -/
def storeInfo (a : State) (k : CallId) (uid : Bytes) (nodeName : NodeName)
    (username : Bytes) : State × List Act :=
  ({ a with
      accountInfoMap := a.accountInfoMap.set uid ⟨uid, .gameOk, nodeName⟩
      calls := a.calls.del k },
    [.store k uid nodeName username, .returned k])

/-- `response.checkRepetitionLogin`, up to its remote call. -/
def checkRepetitionLogin (a : State) (uid : Bytes) (nodeName : NodeName)
    (username : Bytes) : State × List Act :=
  let k := a.nextCall
  let a := { a with nextCall := k + 1 }
  match kickNode a uid with
  | none => storeInfo a k uid nodeName username
  | some node => ({ a with calls := a.calls.set k ⟨uid, nodeName, username, node, false⟩ }, [])

/-- The remote call of `k` has found the service, or not. -/
def searched (a : State) (k : CallId) (call : CheckCall) (r : Search) :
    State × List Act :=
  match remoteCall r (bytes "kick") with
  | .absent => storeInfo a k call.uid call.nodeName call.username
  | .raises => ({ a with calls := a.calls.del k }, [.raised k])
  | .request =>
    ({ a with calls := a.calls.set k { call with sent := true } },
      -- the username of this call, `accountInfoMap` holds no other
      [.kick k call.infoNode call.username])

/-- The request of `k` has returned, or raised. -/
def kicked (a : State) (k : CallId) (call : CheckCall) (ok : Bool) :
    State × List Act :=
  if ok then storeInfo a k call.uid call.nodeName call.username
  else ({ a with calls := a.calls.del k }, [.raised k])

/-! ## The service as a machine -/

/-- What the service handles. -/
inductive Event
  | check (uid : Bytes) (nodeName : NodeName) (username : Bytes)
  | search (k : CallId) (r : Search)
  | reply (k : CallId) (ok : Bool)
  deriving DecidableEq

/-- The call `k`, at the point `sent` of its remote call. -/
def callAt (a : State) (k : CallId) (sent : Bool) : Option CheckCall :=
  (a.calls.get k).bind fun call => if call.sent = sent then some call else none

theorem callAt_eq_some {a : State} {k : CallId} {sent : Bool} {call : CheckCall} :
    callAt a k sent = some call ↔ a.calls.get k = some call ∧ call.sent = sent := by
  unfold callAt
  cases h : a.calls.get k with
  | none => simp
  | some call' =>
    simp only [Option.bind_some, Option.some.injEq]
    split <;> grind

/-- One event, if it can happen. -/
def step (a : State) : Event → Option (State × List Act)
  | .check uid nodeName username => some (checkRepetitionLogin a uid nodeName username)
  | .search k r => (callAt a k false).map fun call => searched a k call r
  | .reply k ok => (callAt a k true).map fun call => kicked a k call ok

/-- **The service.** -/
def machine : Machine State Event Act := ⟨.init, step⟩

/-- A step of the service. -/
abbrev Item := machine.Item

/-! ## Inverting a step -/

/-- What the service does with an event. -/
inductive Checked (a : State) : Event → State → List Act → Prop
  | first {uid : Bytes} {nodeName : NodeName} {username : Bytes} (h : kickNode a uid = none) :
    Checked a (.check uid nodeName username)
      (storeInfo { a with nextCall := a.nextCall + 1 } a.nextCall uid nodeName username).1
      [.store a.nextCall uid nodeName username, .returned a.nextCall]
  | suspended {uid : Bytes} {nodeName node : NodeName} {username : Bytes}
    (h : kickNode a uid = some node) :
    Checked a (.check uid nodeName username)
      { a with
        nextCall := a.nextCall + 1
        calls := a.calls.set a.nextCall ⟨uid, nodeName, username, node, false⟩ } []
  | absent {k : CallId} {r : Search} {call : CheckCall} (hk : a.calls.get k = some call)
    (hs : call.sent = false) (hr : remoteCall r (bytes "kick") = .absent) :
    Checked a (.search k r) (storeInfo a k call.uid call.nodeName call.username).1
      [.store k call.uid call.nodeName call.username, .returned k]
  | noMethod {k : CallId} {r : Search} {call : CheckCall} (hk : a.calls.get k = some call)
    (hs : call.sent = false) (hr : remoteCall r (bytes "kick") = .raises) :
    Checked a (.search k r) { a with calls := a.calls.del k } [.raised k]
  | request {k : CallId} {r : Search} {call : CheckCall} (hk : a.calls.get k = some call)
    (hs : call.sent = false) (hr : remoteCall r (bytes "kick") = .request) :
    Checked a (.search k r) { a with calls := a.calls.set k { call with sent := true } }
      [.kick k call.infoNode call.username]
  | replied {k : CallId} {call : CheckCall} (hk : a.calls.get k = some call)
    (hs : call.sent = true) :
    Checked a (.reply k true) (storeInfo a k call.uid call.nodeName call.username).1
      [.store k call.uid call.nodeName call.username, .returned k]
  | failed {k : CallId} {call : CheckCall} (hk : a.calls.get k = some call)
    (hs : call.sent = true) :
    Checked a (.reply k false) { a with calls := a.calls.del k } [.raised k]

theorem step_checked {a a' : State} {e : Event} {acts : List Act}
    (h : step a e = some (a', acts)) : Checked a e a' acts := by
  cases e with
  | check uid nodeName username =>
    simp only [step, Option.some.injEq] at h
    unfold checkRepetitionLogin at h
    cases hn : kickNode a uid with
    | none =>
      have hn' : kickNode { a with nextCall := a.nextCall + 1 } uid = none := hn
      simp only [hn', storeInfo, Prod.mk.injEq] at h
      obtain ⟨rfl, rfl⟩ := h
      exact .first hn
    | some node =>
      have hn' : kickNode { a with nextCall := a.nextCall + 1 } uid = some node := hn
      simp only [hn', Prod.mk.injEq] at h
      obtain ⟨rfl, rfl⟩ := h
      exact .suspended hn
  | search k r =>
    obtain ⟨call, hcall, h⟩ := Option.map_eq_some_iff.mp h
    obtain ⟨hk, hs⟩ := callAt_eq_some.mp hcall
    unfold searched at h
    cases hr : remoteCall r (bytes "kick") with
    | absent =>
      simp only [hr, storeInfo, Prod.mk.injEq] at h
      obtain ⟨rfl, rfl⟩ := h
      exact .absent hk hs hr
    | raises =>
      simp only [hr, Prod.mk.injEq] at h
      obtain ⟨rfl, rfl⟩ := h
      exact .noMethod hk hs hr
    | request =>
      simp only [hr, Prod.mk.injEq] at h
      obtain ⟨rfl, rfl⟩ := h
      exact .request hk hs hr
  | reply k ok =>
    obtain ⟨call, hcall, h⟩ := Option.map_eq_some_iff.mp h
    obtain ⟨hk, hs⟩ := callAt_eq_some.mp hcall
    cases ok with
    | true =>
      simp only [kicked, storeInfo, if_true, Prod.mk.injEq] at h
      obtain ⟨rfl, rfl⟩ := h
      exact .replied hk hs
    | false =>
      simp only [kicked, Bool.false_eq_true, if_false, Prod.mk.injEq] at h
      obtain ⟨rfl, rfl⟩ := h
      exact .failed hk hs

theorem Item.checked (i : Item) : Checked i.pre i.ev i.post i.out :=
  step_checked i.ok

/-- A call that waits after a step waited before, with the arguments it was started with, or is the
new one. -/
theorem Item.calls_post (i : Item) {k : CallId} {call' : CheckCall}
    (hk : i.post.calls.get k = some call') :
    (∃ call, i.pre.calls.get k = some call ∧ call'.uid = call.uid ∧
      call'.nodeName = call.nodeName ∧ call'.username = call.username) ∨
    k = i.pre.nextCall ∧ i.ev = .check call'.uid call'.nodeName call'.username := by
  have hc := i.checked
  generalize i.pre = a, i.ev = e, i.post = a', i.out = acts at hc hk
  have hdel : ∀ q, (a.calls.del q).get k = some call' → ∃ call, a.calls.get k = some call ∧
      call'.uid = call.uid ∧ call'.nodeName = call.nodeName ∧ call'.username = call.username :=
    fun q hq => ⟨call', (Table.get_of_get_del hq).2, rfl, rfl, rfl⟩
  cases hc with
  | first => exact .inl (hdel _ hk)
  | suspended h =>
    dsimp only at hk
    rw [Table.get_set] at hk
    split at hk
    · rename_i hkn
      obtain rfl := Option.some.inj hk
      exact .inr ⟨hkn, rfl⟩
    · exact .inl ⟨call', hk, rfl, rfl, rfl⟩
  | @request q r call hq =>
    dsimp only at hk
    rw [Table.get_set] at hk
    split at hk
    · rename_i hkq
      obtain rfl := Option.some.inj hk
      exact .inl ⟨call, hkq ▸ hq, rfl, rfl, rfl⟩
    · exact .inl ⟨call', hk, rfl, rfl, rfl⟩
  | absent | noMethod | replied | failed => exact .inl (hdel _ hk)

/-- A call that returns has stored its own arguments. -/
theorem Item.store_of_returned (i : Item) {k : CallId} (h : .returned k ∈ i.out) :
    ∃ uid nodeName username, .store k uid nodeName username ∈ i.out ∧
      ((∃ call, i.pre.calls.get k = some call ∧ call.uid = uid ∧ call.nodeName = nodeName ∧
        call.username = username) ∨
      k = i.pre.nextCall ∧ i.ev = .check uid nodeName username) := by
  have hc := i.checked
  generalize i.pre = a, i.ev = e, i.post = a', i.out = acts at hc h
  cases hc with
  | @first uid nodeName username =>
    obtain rfl : k = a.nextCall := by simpa using h
    exact ⟨uid, nodeName, username, by simp, .inr ⟨rfl, rfl⟩⟩
  | @absent q r call hq | @replied q call hq =>
    obtain rfl : k = q := by simpa using h
    exact ⟨_, _, _, List.mem_cons_self, .inl ⟨call, hq, rfl, rfl, rfl⟩⟩
  | suspended | noMethod | request | failed => exact absurd h (by simp)

theorem Item.nextCall_le (i : Item) : i.pre.nextCall ≤ i.post.nextCall := by
  have hc := i.checked
  generalize i.ev = e, i.post = s', i.out = acts at hc
  cases hc with
  | first => exact Nat.le_succ _
  | suspended => exact Nat.le_succ _
  | _ => exact le_rfl

end LsServer.AccountMgr
