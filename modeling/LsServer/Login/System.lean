import LsServer.AccountMgr.Check
import LsServer.Login.Gamed
import LsServer.LoginGate.Accept

/-!
# The login system

Login servers, game nodes and the account manager of the logic center, with the calls between
them. A login server that calls `login_handler` starts a `Flow`, and so does any other caller in
the cluster (`call`): the call is on its way to the node, runs there through
`server.login_handler`, with the calls to the account manager and to the agent, and its answer is
on its way back. Every wait is a phase of its own, so the steps of different flows interleave
freely.

A call can also fail for its caller at any time (`callFails`), while the node goes on with it, and
the call of the agent can fail (`agentFails`). A node keeps handling its sockets (`gate`).
`auth_handler` accepts any account at any node, so which of them is left open.

`Item.moved` inverts a step as far as the nodes and the flows are concerned, `Item.users` says what
it does to the users of the nodes.

Source: Logind.lua `server.login_handler` 36-54; Gamed.lua `server.login_handler` 31-65;
AccountMgr.lua 34-48; SnaxUtil.lua for the call of the account manager; LoginGate.lua and
GameGate.lua as in their own modules.

* `FlowPhase` has one phase for each wait of a login at its node, and two for the messages between
  login server and node.
* `check` is the request at the account manager, `checked` its answer; in between the account
  manager takes its own steps (`account`), for this call and for others.
* `agent` lets the agent run `response.login`, `agentDone` is the answer. Where an assert fails at
  the agent or at the node, the call ends with an error.
* `deliverKick` runs `kick_handler` at the node that a kick names.
* `lost` is a call that never arrives at its node, after its caller has given up.

A login server is `LoginGate.machine`, a node has the gate `GameGate.machine`; the system adds the
calls between them, and nothing else happens to their states.

Out of scope: how a call travels (`Cluster.Call`), restarts of nodes, and `AccountMgr.auth`, whose
answer is an event of the login server.
-/

namespace LsServer.Login

open LsServer.Lib LsServer.Lua LsServer.Crypt LsServer.Cluster

abbrev LoginId := Nat
abbrev FlowId := Nat
abbrev ConnId := LoginGate.ConnId

/-- Where a login is: the call to the node is on its way, the node looks for the account manager,
has sent its request, waits for call `k` of it, has sent the request to the agent, has its answer,
and the answer of the node is on its way. -/
inductive FlowPhase
  | sent
  | searching
  | requested
  | checking (k : AccountMgr.CallId)
  | agent
  | agentReplied (ok : Bool)
  | answered (ok : Bool)
  deriving DecidableEq

/-- A call of `server.login_handler(uid, secret)` at `node`. `subid` is fresh from the first step
at the node on, `agent` is found after the call to the account manager. `caller` is the connection
that waits for the answer. -/
structure Flow where
  caller : Option (LoginId × ConnId)
  node : NodeName
  uid : Bytes
  secret : Bytes
  subid : Nat
  agent : AgentId
  phase : FlowPhase
  deriving DecidableEq

/-- The user that a flow logs in. -/
def Flow.user (f : Flow) : GameUser := gameUser f.node f.uid f.secret f.subid f.agent

/-- `accountAnswers` holds how the calls of the account manager ended. -/
structure State where
  loginServers : LoginId → LoginGate.State
  accountMgr : AccountMgr.State
  accountAnswers : Table AccountMgr.CallId Bool
  nodes : NodeName → Gamed
  flows : Table FlowId Flow
  nextFlow : FlowId

/-- The environment of the nodes. -/
structure Conf where
  gate : GameGate.Conf := {}
  connectIp : NodeName → Bytes
  connectPort : NodeName → Bytes

/-- What happens next. -/
inductive Event
  | login (l : LoginId) (e : LoginGate.Event)
  | call (n : NodeName) (uid secret : Bytes)
  | receive (f : FlowId)
  | search (f : FlowId) (r : Search)
  | check (f : FlowId)
  | account (e : AccountMgr.Event)
  | checked (f : FlowId) (ok : Bool)
  | agent (f : FlowId)
  | agentDone (f : FlowId)
  | agentFails (f : FlowId)
  | answer (f : FlowId)
  | callFails (f : FlowId)
  | lost (f : FlowId)
  | gate (n : NodeName) (e : GameGate.Event)
  deriving DecidableEq

/-- What is done: by a login server, the account manager, the gate of a node, and
`GameGate.login` for `uid` at node `n`. -/
inductive Act
  | login (l : LoginId) (a : LoginGate.Act)
  | account (a : AccountMgr.Act)
  | gate (n : NodeName) (a : GameGate.Act)
  | serverLogin (n : NodeName) (uid username : Bytes)
  deriving DecidableEq

/-- The result of `server.login_handler` of `Logind`. -/
def loginReply (connectIp connectPort gameNode : Bytes) (subid : Nat) : Bytes :=
  base64encode connectIp ++ bytes "@" ++ base64encode connectPort ++ bytes "@" ++
    base64encode gameNode ++ bytes "@" ++ base64encode (tostring subid)

/-- A call of `login_handler` at a node. -/
def startFlow (s : State) (caller : Option (LoginId × ConnId)) (n : NodeName)
    (uid secret : Bytes) : State :=
  { s with
    flows := s.flows.set s.nextFlow ⟨caller, n, uid, secret, 0, 0, .sent⟩
    nextFlow := s.nextFlow + 1 }

/-- `login_handler` of the login server `l` calls its node. -/
def callLogin (l : LoginId) (s : State) : LoginGate.Act → State
  | .loginHandler k (some gameNode) (some uid) (some secret) =>
    startFlow s (some (l, k)) gameNode uid secret
  | _ => s

/-- A step of the login server `l`. -/
def loginStep (s : State) (l : LoginId) (e : LoginGate.Event) : Option (State × List Act) :=
  (LoginGate.step {} (s.loginServers l) e).map fun x =>
    (x.2.foldl (callLogin l)
      { s with loginServers := Function.update s.loginServers l x.1 }, x.2.map (.login l))

/-- The end of a call of the account manager. -/
def recordAnswer (t : Table AccountMgr.CallId Bool) : AccountMgr.Act → Table AccountMgr.CallId Bool
  | .returned k => t.set k true
  | .raised k => t.set k false
  | _ => t

/-- A step of the account manager. -/
def accountStep (s : State) (e : AccountMgr.Event) : Option (State × List Act) :=
  (AccountMgr.step s.accountMgr e).map fun x =>
    ({ s with accountMgr := x.1, accountAnswers := x.2.foldl recordAnswer s.accountAnswers },
      x.2.map .account)

/-- A kick that returned has run `kick_handler` at its node. -/
def deliverKick (s : State) : AccountMgr.Event → State
  | .reply k true =>
    match s.accountMgr.calls.get k with
    | some call => { s with
        nodes := Function.update s.nodes call.infoNode
          (kickHandler (s.nodes call.infoNode) call.username) }
    | none => s
  | _ => s

/-- Flow `f` goes on in another phase. -/
def setPhase (s : State) (f : FlowId) (flow : Flow) (phase : FlowPhase) : State :=
  { s with flows := s.flows.set f { flow with phase := phase } }

@[simp] theorem setPhase_flows (s : State) (f : FlowId) (flow : Flow) (phase : FlowPhase) :
    (setPhase s f flow phase).flows = s.flows.set f { flow with phase := phase } := rfl

def setNode (s : State) (n : NodeName) (g : Gamed) : State :=
  { s with nodes := Function.update s.nodes n g }

@[simp] theorem setNode_nodes_self (s : State) (n : NodeName) (g : Gamed) :
    (setNode s n g).nodes n = g := by simp [setNode]

theorem setNode_nodes_ne (s : State) {n m : NodeName} (h : m ≠ n) (g : Gamed) :
    (setNode s n g).nodes m = s.nodes m := by simp [setNode, h]

/-- Flow `f` calls the agent of its account. -/
def callAgent (s : State) (f : FlowId) (flow : Flow) : State :=
  let (g, agent) := findAgent (s.nodes flow.node) flow.uid
  setPhase (setNode s flow.node g) f { flow with agent := agent } .agent

/-- The call of flow `f` ends for its caller. -/
def endCall (c : Conf) (s : State) (flow : Flow) (ok : Bool) : Option (State × List Act) :=
  match flow.caller with
  | none => some (s, [])
  | some (l, k) =>
    loginStep s l (.loggedIn k
      (if ok then .returned (some (loginReply (c.connectIp flow.node) (c.connectPort flow.node)
        flow.node flow.subid))
      else .raised))

/-- What happens to flow `f`. -/
def flowStep (c : Conf) (s : State) (f : FlowId) (flow : Flow) :
    Event → Option (State × List Act)
  | .receive _ =>
    if flow.phase = .sent then
      let (g, subid) := loginHandler (s.nodes flow.node)
      some (setPhase (setNode s flow.node g) f { flow with subid := subid } .searching, [])
    else none
  | .search _ r =>
    if flow.phase = .searching then
      match remoteCall r (bytes "checkRepetitionLogin") with
      -- `remoteCall` returns `nil`, which nothing looks at
      | .absent => some (callAgent s f flow, [])
      | .raises => some (setPhase s f flow (.answered false), [])
      | .request => some (setPhase s f flow .requested, [])
    else none
  | .check _ =>
    if flow.phase = .requested then
      accountStep (setPhase s f flow (.checking s.accountMgr.nextCall))
        (.check flow.uid flow.node flow.user.username)
    else none
  | .checked _ ok =>
    match flow.phase with
    | .requested => if ok then none else some (setPhase s f flow (.answered false), [])
    | .checking k =>
      if ok then
        if s.accountAnswers.get k = some true then some (callAgent s f flow, []) else none
      else some (setPhase s f flow (.answered false), [])
    | _ => none
  | .agent _ =>
    if flow.phase = .agent then
      match agentLogin (s.nodes flow.node) flow.user with
      | some g => some (setPhase (setNode s flow.node g) f flow (.agentReplied true), [])
      | none => some (setPhase s f flow (.agentReplied false), [])
    else none
  | .agentDone _ =>
    match flow.phase with
    | .agentReplied false => some (setPhase s f flow (.answered false), [])
    | .agentReplied true =>
      match loginEnd (s.nodes flow.node) flow.user with
      | some g => some (setPhase (setNode s flow.node g) f flow (.answered true),
          [.serverLogin flow.node flow.uid flow.user.username])
      | none => some (setPhase s f flow (.answered false), [])
    | _ => none
  | .agentFails _ =>
    match flow.phase with
    | .agent | .agentReplied _ => some (setPhase s f flow (.answered false), [])
    | _ => none
  | .answer _ =>
    match flow.phase with
    | .answered ok => endCall c { s with flows := s.flows.del f } flow ok
    | _ => none
  | .callFails _ =>
    if flow.caller = none then none
    else endCall c { s with flows := s.flows.set f { flow with caller := none } } flow false
  | .lost _ =>
    if flow.phase = .sent ∧ flow.caller = none then some ({ s with flows := s.flows.del f }, [])
    else none
  | _ => none

/-- A socket event at the gate of node `n`. -/
def gateStep (c : Conf) (s : State) (n : NodeName) (e : GameGate.Event) :
    Option (State × List Act) :=
  (GameGate.step c.gate (s.nodes n).gate e).map fun x =>
    (setNode s n { s.nodes n with gate := x.1 }, x.2.map (.gate n))

/-- One event, if it can happen. -/
def step (c : Conf) (s : State) (e : Event) : Option (State × List Act) :=
  match e with
  | .login _ (.loggedIn _ _) => none
  | .login l e => loginStep s l e
  | .call n uid secret => some (startFlow s none n uid secret, [])
  | .account (.check _ _ _) => none
  | .account e => accountStep (deliverKick s e) e
  | .gate _ (.login _ _) | .gate _ (.logout _) => none
  | .gate n e => gateStep c s n e
  | .receive f | .search f _ | .check f | .checked f _ | .agent f | .agentDone f | .agentFails f
  | .answer f | .callFails f | .lost f => (s.flows.get f).bind fun flow => flowStep c s f flow e

/-- **The login system.** -/
def machine (c : Conf) : Machine State Event Act :=
  ⟨⟨fun _ => ⟨.empty, 0, .empty⟩, .init, .empty, fun _ => .init, .empty, 0⟩, step c⟩

/-- A step of the login system. -/
abbrev Item (c : Conf) := (machine c).Item

/-! ## Inverting a step -/

/-- A flow that has not been received yet, or is refused. -/
def Flow.Idle (flow : Flow) : Prop := flow.phase = .sent ∨ flow.phase = .answered false

/-- A flow that goes on in the same phase; its caller may have left. -/
structure Flow.Same (flow flow' : Flow) : Prop where
  node : flow'.node = flow.node
  user : flow'.user = flow.user
  phase : flow'.phase = flow.phase

/-- The flows of `s'` are idle or were there before. -/
def Inert (s s' : State) : Prop :=
  ∀ f flow', s'.flows.get f = some flow' →
    flow'.Idle ∨ ∃ flow, s.flows.get f = some flow ∧ flow.Same flow'

/-- Nothing is done at a node. -/
def Remote (acts : List Act) : Prop :=
  ∀ a ∈ acts, (∃ l x, a = .login l x) ∨ ∃ x, a = .account x

/-- A step of the login servers, or of a flow that is not at its node or leaves it. -/
structure Frame (s s' : State) (acts : List Act) : Prop where
  nodes : s'.nodes = s.nodes
  flows : Inert s s'
  accountMgr : s'.accountMgr = s.accountMgr
  accountAnswers : s'.accountAnswers = s.accountAnswers
  acts : ∀ a ∈ acts, ∃ l x, a = .login l x

/-- What the account manager gets to handle. -/
def accountEvent (s : State) : Event → Option AccountMgr.Event
  | .account e => some e
  | .check f => (s.flows.get f).map fun flow => .check flow.uid flow.node flow.user.username
  | _ => none

/-- What an event does to the nodes, the flows and the account manager. -/
inductive Moved (c : Conf) (s : State) : Event → State → List Act → Prop
  | frame {e : Event} {s' : State} {acts : List Act} (he : accountEvent s e = none)
    (h : Frame s s' acts) : Moved c s e s' acts
  | account {e : AccountMgr.Event} {s' : State} {acts : List Act}
    (h : accountStep s e = some (s', acts)) : Moved c s (.account e) s' acts
  | gate {n : NodeName} (x : GameGate.Item c.gate) (hpre : x.pre = (s.nodes n).gate)
    (hlogin : ∀ username secret, x.ev ≠ .login username secret)
    (hlogout : ∀ username, x.ev ≠ .logout username) :
    Moved c s (.gate n x.ev) (setNode s n { s.nodes n with gate := x.post })
      (x.out.map (.gate n))
  | received {f : FlowId} {flow : Flow} (hf : s.flows.get f = some flow)
    (hp : flow.phase = .sent) : Moved c s (.receive f)
      (setPhase (setNode s flow.node (loginHandler (s.nodes flow.node)).1) f
        { flow with subid := (loginHandler (s.nodes flow.node)).2 } .searching) []
  | found {f : FlowId} {flow : Flow} {r : Search} (hf : s.flows.get f = some flow)
    (hp : flow.phase = .searching)
    (hr : remoteCall r (bytes "checkRepetitionLogin") = .request) :
    Moved c s (.search f r) (setPhase s f flow .requested) []
  | check {f : FlowId} {flow : Flow} {s' : State} {acts : List Act}
    (hf : s.flows.get f = some flow) (hp : flow.phase = .requested)
    (h : accountStep (setPhase s f flow (.checking s.accountMgr.nextCall))
      (.check flow.uid flow.node flow.user.username) = some (s', acts)) :
    Moved c s (.check f) s' acts
  | unchecked {f : FlowId} {flow : Flow} {r : Search} (hf : s.flows.get f = some flow)
    (hp : flow.phase = .searching)
    (hr : remoteCall r (bytes "checkRepetitionLogin") = .absent) :
    Moved c s (.search f r) (callAgent s f flow) []
  | checked {f : FlowId} {flow : Flow} {k : AccountMgr.CallId} (hf : s.flows.get f = some flow)
    (hp : flow.phase = .checking k) (hk : s.accountAnswers.get k = some true) :
    Moved c s (.checked f true) (callAgent s f flow) []
  | agent {f : FlowId} {flow : Flow} {g : Gamed} (hf : s.flows.get f = some flow)
    (hp : flow.phase = .agent) (hg : agentLogin (s.nodes flow.node) flow.user = some g) :
    Moved c s (.agent f) (setPhase (setNode s flow.node g) f flow (.agentReplied true)) []
  | agentRefuses {f : FlowId} {flow : Flow} (hf : s.flows.get f = some flow)
    (hp : flow.phase = .agent) (hg : agentLogin (s.nodes flow.node) flow.user = none) :
    Moved c s (.agent f) (setPhase s f flow (.agentReplied false)) []
  | done {f : FlowId} {flow : Flow} {g : Gamed} (hf : s.flows.get f = some flow)
    (hp : flow.phase = .agentReplied true)
    (hg : loginEnd (s.nodes flow.node) flow.user = some g) :
    Moved c s (.agentDone f) (setPhase (setNode s flow.node g) f flow (.answered true))
      [.serverLogin flow.node flow.uid flow.user.username]

theorem Inert.refl (s : State) : Inert s s := fun _ flow hf => .inr ⟨flow, hf, rfl, rfl, rfl⟩

theorem Inert.of_eq {s s' : State} (h : s'.flows = s.flows) : Inert s s' := by
  intro f flow hf
  rw [h] at hf
  exact .inr ⟨flow, hf, rfl, rfl, rfl⟩

/-- A flow that becomes idle. -/
theorem Inert.idle {s s' : State} {f : FlowId} {flow : Flow} (h : flow.Idle)
    (hs : s'.flows = s.flows.set f flow) : Inert s s' := by
  intro q flow₁ hq
  rw [hs, Table.get_set] at hq
  split at hq
  · obtain rfl := Option.some.inj hq
    exact .inl h
  · exact .inr ⟨flow₁, hq, rfl, rfl, rfl⟩

/-- A flow whose caller leaves. -/
theorem Inert.leave {s s' : State} {f : FlowId} {flow : Flow} (hf : s.flows.get f = some flow)
    (hs : s'.flows = s.flows.set f { flow with caller := none }) : Inert s s' := by
  intro q flow₁ hq
  rw [hs, Table.get_set] at hq
  split at hq
  · rename_i hqf
    obtain rfl := Option.some.inj hq
    exact .inr ⟨flow, hqf ▸ hf, rfl, rfl, rfl⟩
  · exact .inr ⟨flow₁, hq, rfl, rfl, rfl⟩

theorem Inert.del (s : State) (f : FlowId) : Inert s { s with flows := s.flows.del f } :=
  fun _ flow hq => .inr ⟨flow, (Table.get_of_get_del hq).2, rfl, rfl, rfl⟩

theorem Inert.trans {s s₁ s₂ : State} (h : Inert s s₁) (h' : Inert s₁ s₂) : Inert s s₂ := by
  intro f flow hf
  rcases h' f flow hf with hidle | ⟨flow₁, hf₁, hsame⟩
  · exact .inl hidle
  · rcases h f flow₁ hf₁ with hidle | ⟨flow₂, hf₂, hsame₂⟩
    · exact .inl (by rwa [Flow.Idle, hsame.phase])
    · exact .inr ⟨flow₂, hf₂, hsame.node.trans hsame₂.node, hsame.user.trans hsame₂.user,
        hsame.phase.trans hsame₂.phase⟩

/-- A step that does nothing but change the flows. -/
theorem Frame.silent {s : State} {flows : Table FlowId Flow} {nextFlow : FlowId}
    (h : Inert s { s with flows, nextFlow }) : Frame s { s with flows, nextFlow } [] :=
  ⟨rfl, h, rfl, rfl, by simp⟩

theorem Frame.trans {s s₁ s₂ : State} {acts acts' : List Act} (h : Frame s s₁ acts)
    (h' : Frame s₁ s₂ acts') : Frame s s₂ acts' :=
  ⟨h'.nodes.trans h.nodes, h.flows.trans h'.flows, h'.accountMgr.trans h.accountMgr,
    h'.accountAnswers.trans h.accountAnswers, h'.acts⟩

theorem foldl_callLogin (l : LoginId) (acts : List LoginGate.Act) (s : State) :
    Frame s (acts.foldl (callLogin l) s) [] := by
  induction acts generalizing s with
  | nil => exact .silent (.refl s)
  | cons a acts ih =>
    have hstep : Frame s (callLogin l s a) [] := by
      unfold callLogin
      split
      · exact .silent (Inert.idle (.inl rfl) rfl)
      · exact .silent (.refl s)
    rw [List.foldl_cons]
    exact hstep.trans (ih _)

theorem loginStep_frame {s s' : State} {l : LoginId} {e : LoginGate.Event} {acts : List Act}
    (h : loginStep s l e = some (s', acts)) : Frame s s' acts := by
  obtain ⟨x, -, hx⟩ := Option.map_eq_some_iff.mp h
  simp only [Prod.mk.injEq] at hx
  obtain ⟨rfl, rfl⟩ := hx
  obtain ⟨hnodes, hflows, haccount, hanswers, -⟩ := foldl_callLogin l x.2
    { s with loginServers := Function.update s.loginServers l x.1 }
  refine ⟨hnodes, hflows, haccount, hanswers, fun a ha => ?_⟩
  obtain ⟨y, -, rfl⟩ := List.mem_map.mp ha
  exact ⟨l, y, rfl⟩

theorem accountStep_frame {s s' : State} {e : AccountMgr.Event} {acts : List Act}
    (h : accountStep s e = some (s', acts)) :
    s'.nodes = s.nodes ∧ s'.flows = s.flows ∧ Remote acts := by
  obtain ⟨x, -, hx⟩ := Option.map_eq_some_iff.mp h
  simp only [Prod.mk.injEq] at hx
  obtain ⟨rfl, rfl⟩ := hx
  refine ⟨rfl, rfl, fun a ha => ?_⟩
  obtain ⟨y, -, rfl⟩ := List.mem_map.mp ha
  exact .inr ⟨y, rfl⟩

/-- A kick changes nothing. -/
theorem deliverKick_eq (s : State) (e : AccountMgr.Event) : deliverKick s e = s := by
  unfold deliverKick
  split
  · split
    · rw [kickHandler, Function.update_eq_self]
    · rfl
  · rfl

variable {c : Conf}

/-- The end of a call, after a step that changes the flows only. -/
theorem endCall_frame {s s₁ s' : State} {flow : Flow} {ok : Bool} {acts : List Act}
    (hs : Frame s s₁ []) (h : endCall c s₁ flow ok = some (s', acts)) : Frame s s' acts := by
  unfold endCall at h
  split at h
  · obtain ⟨rfl, rfl⟩ := Prod.mk.inj (Option.some.inj h)
    exact hs
  · exact hs.trans (loginStep_frame h)

/-- A flow that is refused. -/
theorem refuse_moved {s : State} {e : Event} (he : accountEvent s e = none) (f : FlowId)
    (flow : Flow) : Moved c s e (setPhase s f flow (.answered false)) [] :=
  .frame he (.silent (Inert.idle (.inr rfl) rfl))

theorem gateStep_moved {s s' : State} {n : NodeName} {e : GameGate.Event} {acts : List Act}
    (hlogin : ∀ username secret, e ≠ .login username secret)
    (hlogout : ∀ username, e ≠ .logout username)
    (h : gateStep c s n e = some (s', acts)) : Moved c s (.gate n e) s' acts := by
  obtain ⟨x, hstep, hx⟩ := Option.map_eq_some_iff.mp h
  simp only [Prod.mk.injEq] at hx
  obtain ⟨rfl, rfl⟩ := hx
  exact .gate ⟨(s.nodes n).gate, e, x.1, x.2, hstep⟩ rfl hlogin hlogout

theorem flowStep_moved {s s' : State} {f : FlowId} {flow : Flow} {e : Event} {acts : List Act}
    (hf : s.flows.get f = some flow) (h : flowStep c s f flow e = some (s', acts))
    (he : e = .receive f ∨ (∃ r, e = .search f r) ∨ e = .check f ∨ (∃ ok, e = .checked f ok) ∨
      e = .agent f ∨ e = .agentDone f ∨ e = .agentFails f ∨ e = .answer f ∨ e = .callFails f ∨
      e = .lost f) : Moved c s e s' acts := by
  rcases he with rfl | ⟨r, rfl⟩ | rfl | ⟨ok, rfl⟩ | rfl | rfl | rfl | rfl | rfl | rfl
  · -- received by the node
    simp only [flowStep, Option.ite_none_right_eq_some] at h
    obtain ⟨hp, h⟩ := h
    obtain ⟨rfl, rfl⟩ := Prod.mk.inj (Option.some.inj h)
    exact .received hf hp
  · -- the search for the account manager
    simp only [flowStep, Option.ite_none_right_eq_some] at h
    obtain ⟨hp, h⟩ := h
    split at h
    · rename_i hr
      obtain ⟨rfl, rfl⟩ := Prod.mk.inj (Option.some.inj h)
      exact .unchecked hf hp hr
    · obtain ⟨rfl, rfl⟩ := Prod.mk.inj (Option.some.inj h)
      exact refuse_moved rfl f flow
    · rename_i hr
      obtain ⟨rfl, rfl⟩ := Prod.mk.inj (Option.some.inj h)
      exact .found hf hp hr
  · -- the request reaches the account manager
    simp only [flowStep, Option.ite_none_right_eq_some] at h
    exact .check hf h.1 h.2
  · -- its answer
    simp only [flowStep] at h
    split at h
    · split at h
      · exact absurd h (by simp)
      · obtain ⟨rfl, rfl⟩ := Prod.mk.inj (Option.some.inj h)
        exact refuse_moved rfl f flow
    · rename_i k hp
      split at h
      · rename_i hok
        subst hok
        obtain ⟨hk, h⟩ := Option.ite_none_right_eq_some.mp h
        obtain ⟨rfl, rfl⟩ := Prod.mk.inj (Option.some.inj h)
        exact .checked hf hp hk
      · obtain ⟨rfl, rfl⟩ := Prod.mk.inj (Option.some.inj h)
        exact refuse_moved rfl f flow
    · exact absurd h (by simp)
  · -- the agent
    simp only [flowStep, Option.ite_none_right_eq_some] at h
    obtain ⟨hp, h⟩ := h
    split at h
    · rename_i g hg
      obtain ⟨rfl, rfl⟩ := Prod.mk.inj (Option.some.inj h)
      exact .agent hf hp hg
    · rename_i hg
      obtain ⟨rfl, rfl⟩ := Prod.mk.inj (Option.some.inj h)
      exact .agentRefuses hf hp hg
  · -- its answer
    simp only [flowStep] at h
    split at h
    · obtain ⟨rfl, rfl⟩ := Prod.mk.inj (Option.some.inj h)
      exact refuse_moved rfl f flow
    · rename_i hp
      split at h
      · rename_i g hg
        obtain ⟨rfl, rfl⟩ := Prod.mk.inj (Option.some.inj h)
        exact .done hf hp hg
      · obtain ⟨rfl, rfl⟩ := Prod.mk.inj (Option.some.inj h)
        exact refuse_moved rfl f flow
    · exact absurd h (by simp)
  · simp only [flowStep] at h
    split at h
    · obtain ⟨rfl, rfl⟩ := Prod.mk.inj (Option.some.inj h)
      exact refuse_moved rfl f flow
    · obtain ⟨rfl, rfl⟩ := Prod.mk.inj (Option.some.inj h)
      exact refuse_moved rfl f flow
    · exact absurd h (by simp)
  · -- the answer of the node
    simp only [flowStep] at h
    split at h
    · exact .frame rfl (endCall_frame (.silent (Inert.del s f)) h)
    · exact absurd h (by simp)
  · -- the caller gives up
    simp only [flowStep, Option.ite_none_left_eq_some] at h
    obtain ⟨-, h⟩ := h
    exact .frame rfl (endCall_frame (.silent (Inert.leave hf rfl)) h)
  · simp only [flowStep, Option.ite_none_right_eq_some] at h
    obtain ⟨-, h⟩ := h
    obtain ⟨rfl, rfl⟩ := Prod.mk.inj (Option.some.inj h)
    exact .frame rfl (.silent (Inert.del s f))

theorem Item.moved (i : Item c) : Moved c i.pre i.ev i.post i.out := by
  have h : step c i.pre i.ev = some (i.post, i.out) := i.ok
  generalize i.ev = e, i.post = s', i.out = acts at h
  unfold step at h
  split at h
  · exact absurd h (by simp)
  · exact .frame rfl (loginStep_frame h)
  · obtain ⟨rfl, rfl⟩ := Prod.mk.inj (Option.some.inj h)
    exact .frame rfl (.silent (Inert.idle (.inl rfl) rfl))
  · exact absurd h (by simp)
  · rw [deliverKick_eq] at h
    exact .account h
  · exact absurd h (by simp)
  · exact absurd h (by simp)
  · rename_i n e hlogin hlogout
    exact gateStep_moved (fun u x he => hlogin u x (he ▸ rfl)) (fun u he => hlogout u (he ▸ rfl)) h
  all_goals
    obtain ⟨flow, hf, h⟩ := Option.bind_eq_some_iff.mp h
    exact flowStep_moved hf h (by simp)

/-! ## The users of the nodes -/

/-- A node has the same users. -/
structure SameUsers (g g' : Gamed) : Prop where
  online : g'.gate.gate.userOnline = g.gate.gate.userOnline
  mapped : g'.usernameMap = g.usernameMap

theorem SameUsers.refl (g : Gamed) : SameUsers g g := ⟨rfl, rfl⟩

/-- What a step does to the users: nothing, or a login ends at a node. -/
inductive Users (s s' : State) (acts : List Act) : Prop
  | quiet (hnodes : ∀ n, SameUsers (s.nodes n) (s'.nodes n))
    (hacts : ∀ n uid username, .serverLogin n uid username ∉ acts)
  | login {n : NodeName} {uid secret : Bytes} {subid : Nat} {agent : AgentId} {g : Gamed}
    (hg : loginEnd (s.nodes n) (gameUser n uid secret subid agent) = some g)
    (hnodes : s'.nodes = Function.update s.nodes n g)
    (hacts : acts = [.serverLogin n uid (gameUser n uid secret subid agent).username])

/-- A step that leaves the nodes alone. -/
theorem Users.of_nodes {s s' : State} {acts : List Act} (hnodes : s'.nodes = s.nodes)
    (hacts : ∀ n uid username, .serverLogin n uid username ∉ acts) : Users s s' acts :=
  .quiet (fun n => by rw [hnodes]; exact .refl _) hacts

/-- A step that changes one node, but not its users. -/
theorem Users.of_setNode {s s' : State} {acts : List Act} {n : NodeName} {g : Gamed}
    (hnodes : s'.nodes = Function.update s.nodes n g) (hg : SameUsers (s.nodes n) g)
    (hacts : ∀ n uid username, .serverLogin n uid username ∉ acts) : Users s s' acts := by
  refine .quiet (fun m => ?_) hacts
  rw [hnodes]
  by_cases hm : m = n
  · subst hm
    rwa [Function.update_self]
  · rw [Function.update_of_ne hm]
    exact .refl _

theorem Frame.remote {s s' : State} {acts : List Act} (h : Frame s s' acts) : Remote acts :=
  fun a ha => .inl (h.acts a ha)

theorem Remote.not_serverLogin {acts : List Act} (h : Remote acts) (n : NodeName)
    (uid username : Bytes) : .serverLogin n uid username ∉ acts := by
  intro hmem
  rcases h _ hmem with ⟨l, x, hx⟩ | ⟨x, hx⟩ <;> exact absurd hx (by simp)

theorem Remote.not_gate {acts : List Act} (h : Remote acts) (n : NodeName) (a : GameGate.Act) :
    .gate n a ∉ acts := by
  intro hmem
  rcases h _ hmem with ⟨l, x, hx⟩ | ⟨x, hx⟩ <;> exact absurd hx (by simp)

theorem findAgent_sameUsers (g : Gamed) (uid : Bytes) : SameUsers g (findAgent g uid).1 := by
  unfold findAgent
  split <;> exact ⟨rfl, rfl⟩

/-- **What a step does to the users of the nodes.** -/
theorem Item.users (i : Item c) : Users i.pre i.post i.out := by
  have hm := i.moved
  generalize i.ev = e, i.post = s', i.out = acts at hm
  cases hm with
  | frame _ h => exact .of_nodes h.nodes h.remote.not_serverLogin
  | account h =>
    obtain ⟨hn, -, ha⟩ := accountStep_frame h
    exact .of_nodes hn ha.not_serverLogin
  | @gate n x hpre hlogin hlogout =>
    have hon := gate_userOnline x hlogin hlogout
    rw [hpre] at hon
    refine Users.of_setNode (n := n) rfl ⟨hon, rfl⟩ fun m uid username hmem => ?_
    obtain ⟨a, -, ha⟩ := List.mem_map.mp hmem
    exact absurd ha (by simp)
  | received => exact Users.of_setNode rfl ⟨rfl, rfl⟩ (by simp)
  | found => exact .of_nodes rfl (by simp)
  | check _ _ h =>
    obtain ⟨hn, -, ha⟩ := accountStep_frame h
    exact .of_nodes hn ha.not_serverLogin
  | unchecked | checked => exact Users.of_setNode rfl (findAgent_sameUsers _ _) (by simp)
  | agent _ _ hg =>
    obtain ⟨-, rfl⟩ := agentLogin_eq_some hg
    exact Users.of_setNode rfl ⟨rfl, rfl⟩ (by simp)
  | agentRefuses => exact .of_nodes rfl (by simp)
  | done _ _ hg => exact .login hg rfl rfl

end LsServer.Login
