import LsServer.Login.Agreement
import LsServer.LoginGate.Transcript

/-!
# Who waits for a login

Every login server of the system runs as the machine of its own (`Run.loginServer`), so its
connections have transcripts. A connection that waits for `login_handler` is the caller of a flow
with the node, the account and the secret that it called with, and the result that it gets is that
of a flow whose node has answered.

* `loginItem` is what a step of the system is for one login server, if it is one: its event, its
  state before and after, and its actions.
* `Logins` says of every step what happens to the login servers and to the callers of the flows: one
  login server moves, and calls `login_handler` or gets a result; a flow keeps its caller until it
  ends.
* `Item.adds` is what a step adds to the conversation of a connection.

The log and the transcript of a connection are about runs of one login server. `Run.loginServer`
carries them over to the system.

Results:
* `Item.logins`: what a step does to the login servers and to the callers of the flows;
* `Run.loginServer`: the steps of a login server in a run of the system are a run of it;
* `Item.flow_caller`, `Item.adds_returned`: where callers and results come from.
-/

namespace LsServer.Login

open LsServer.Lib LsServer.Lua LsServer.Crypt LsServer.Cluster
open LsServer.LoginGate (transcript)

variable {c : Conf}

/-! ## The login servers in the system -/

/-- What the caller of `flow` gets. -/
def loginReturn (c : Conf) (flow : Flow) (ok : Bool) : LoginGate.LoginReturn :=
  if ok then .returned (some (loginReply (c.connectIp flow.node) (c.connectPort flow.node)
    flow.node flow.subid))
  else .raised

/-- What the login servers get to handle. -/
def loginEvent (c : Conf) (s : State) : Event → Option (LoginId × LoginGate.Event)
  | .login l e => some (l, e)
  | .answer f => (s.flows.get f).bind fun flow => flow.caller.map fun x =>
    (x.1, .loggedIn x.2 (loginReturn c flow (flow.phase = .answered true)))
  | .callFails f => (s.flows.get f).bind fun flow => flow.caller.map fun x =>
    (x.1, .loggedIn x.2 .raised)
  | _ => none

/-- A flow that goes on for the same caller. -/
structure Flow.Kept (flow flow' : Flow) : Prop where
  caller : flow'.caller = flow.caller
  node : flow'.node = flow.node
  uid : flow'.uid = flow.uid
  secret : flow'.secret = flow.secret

/-- The flows of `s'` that have a caller were there before. -/
def Kept (s s' : State) : Prop :=
  ∀ f flow', s'.flows.get f = some flow' → flow'.caller ≠ none →
    ∃ flow, s.flows.get f = some flow ∧ flow.Kept flow'

/-- What a step does to the login servers: nothing, or one of them handles an event. -/
inductive Logins (c : Conf) (s : State) (e : Event) (s' : State) : Prop
  | quiet (hev : loginEvent c s e = none) (hservers : s'.loginServers = s.loginServers)
    (hflows : Kept s s')
  | step {l : LoginId} {e' : LoginGate.Event} {acts : List Act} (s₁ : State)
    (hev : loginEvent c s e = some (l, e')) (hservers : s₁.loginServers = s.loginServers)
    (hflows : Kept s s₁) (h : loginStep s₁ l e' = some (s', acts))

theorem Kept.of_eq {s s' : State} (h : s'.flows = s.flows) : Kept s s' := by
  intro f flow hf _
  rw [h] at hf
  exact ⟨flow, hf, rfl, rfl, rfl, rfl⟩

theorem Kept.set {s s' : State} {f : FlowId} {flow flow' : Flow} (hf : s.flows.get f = some flow)
    (h : flow'.caller = none ∨ flow.Kept flow') (hs : s'.flows = s.flows.set f flow') :
    Kept s s' := by
  intro q flow₁ hq hcaller
  rw [hs, Table.get_set] at hq
  split at hq
  · rename_i hqf
    obtain rfl := Option.some.inj hq
    exact ⟨flow, hqf ▸ hf, h.resolve_left hcaller⟩
  · exact ⟨flow₁, hq, rfl, rfl, rfl, rfl⟩

theorem Kept.del (s : State) (f : FlowId) : Kept s { s with flows := s.flows.del f } :=
  fun _ flow hq _ => ⟨flow, (Table.get_of_get_del hq).2, rfl, rfl, rfl, rfl⟩

theorem accountStep_loginServers {s s' : State} {e : AccountMgr.Event} {acts : List Act}
    (h : accountStep s e = some (s', acts)) : s'.loginServers = s.loginServers := by
  obtain ⟨x, -, hx⟩ := Option.map_eq_some_iff.mp h
  rw [← (Prod.mk.inj hx).1]

/-- The caller of a flow gets the end of its call. -/
theorem endCall_logins {s s₁ s' : State} {e : Event} {flow : Flow} {ok : Bool} {acts : List Act}
    (hev : loginEvent c s e = flow.caller.map fun x => (x.1, .loggedIn x.2 (loginReturn c flow ok)))
    (hservers : s₁.loginServers = s.loginServers) (hflows : Kept s s₁)
    (h : endCall c s₁ flow ok = some (s', acts)) : Logins c s e s' := by
  unfold endCall at h
  split at h
  · rename_i hcaller
    obtain ⟨rfl, -⟩ := Prod.mk.inj (Option.some.inj h)
    rw [hcaller] at hev
    exact .quiet hev hservers hflows
  · rename_i l k hcaller
    rw [hcaller] at hev
    exact .step s₁ hev hservers hflows h

theorem flowStep_logins {s s' : State} {f : FlowId} {flow : Flow} {e : Event} {acts : List Act}
    (hf : s.flows.get f = some flow) (h : flowStep c s f flow e = some (s', acts))
    (he : e = .receive f ∨ (∃ r, e = .search f r) ∨ e = .check f ∨ (∃ ok, e = .checked f ok) ∨
      e = .agent f ∨ e = .agentDone f ∨ e = .agentFails f ∨ e = .answer f ∨ e = .callFails f ∨
      e = .lost f) : Logins c s e s' := by
  -- the flow goes on for its caller
  have hset : ∀ {s' : State} (flow' : Flow), loginEvent c s e = none →
      s'.loginServers = s.loginServers → s'.flows = s.flows.set f flow' →
      flow.Kept flow' → Logins c s e s' := fun flow' hev hservers hflows hkept =>
    .quiet hev hservers (.set hf (.inr hkept) hflows)
  have hphase : ∀ {s' : State} (phase : FlowPhase), loginEvent c s e = none →
      s'.loginServers = s.loginServers →
      s'.flows = s.flows.set f { flow with phase := phase } → Logins c s e s' :=
    fun phase hev hservers hflows => hset _ hev hservers hflows ⟨rfl, rfl, rfl, rfl⟩
  have hagent : loginEvent c s e = none → Logins c s e (callAgent s f flow) := fun hev =>
    hset { flow with agent := (findAgent (s.nodes flow.node) flow.uid).2, phase := .agent } hev rfl
      rfl ⟨rfl, rfl, rfl, rfl⟩
  rcases he with rfl | ⟨r, rfl⟩ | rfl | ⟨ok, rfl⟩ | rfl | rfl | rfl | rfl | rfl | rfl
  · obtain ⟨-, h⟩ := Option.ite_none_right_eq_some.mp h
    obtain ⟨rfl, -⟩ := Prod.mk.inj (Option.some.inj h)
    exact hset { flow with subid := (loginHandler (s.nodes flow.node)).2, phase := .searching } rfl
      rfl rfl ⟨rfl, rfl, rfl, rfl⟩
  · obtain ⟨-, h⟩ := Option.ite_none_right_eq_some.mp h
    split at h
    · obtain ⟨rfl, -⟩ := Prod.mk.inj (Option.some.inj h)
      exact hagent rfl
    · obtain ⟨rfl, -⟩ := Prod.mk.inj (Option.some.inj h)
      exact hphase _ rfl rfl rfl
    · obtain ⟨rfl, -⟩ := Prod.mk.inj (Option.some.inj h)
      exact hphase _ rfl rfl rfl
  · obtain ⟨-, h⟩ := Option.ite_none_right_eq_some.mp h
    obtain ⟨-, hflows, -⟩ := accountStep_frame h
    have hservers := accountStep_loginServers h
    exact hphase (.checking s.accountMgr.nextCall) rfl hservers hflows
  · simp only [flowStep] at h
    split at h
    · split at h
      · exact absurd h (by simp)
      · obtain ⟨rfl, -⟩ := Prod.mk.inj (Option.some.inj h)
        exact hphase _ rfl rfl rfl
    · split at h
      · obtain ⟨-, h⟩ := Option.ite_none_right_eq_some.mp h
        obtain ⟨rfl, -⟩ := Prod.mk.inj (Option.some.inj h)
        exact hagent rfl
      · obtain ⟨rfl, -⟩ := Prod.mk.inj (Option.some.inj h)
        exact hphase _ rfl rfl rfl
    · exact absurd h (by simp)
  · obtain ⟨-, h⟩ := Option.ite_none_right_eq_some.mp h
    split at h
    · obtain ⟨rfl, -⟩ := Prod.mk.inj (Option.some.inj h)
      exact hphase _ rfl rfl rfl
    · obtain ⟨rfl, -⟩ := Prod.mk.inj (Option.some.inj h)
      exact hphase _ rfl rfl rfl
  · simp only [flowStep] at h
    split at h
    · obtain ⟨rfl, -⟩ := Prod.mk.inj (Option.some.inj h)
      exact hphase _ rfl rfl rfl
    · split at h
      · obtain ⟨rfl, -⟩ := Prod.mk.inj (Option.some.inj h)
        exact hphase _ rfl rfl rfl
      · obtain ⟨rfl, -⟩ := Prod.mk.inj (Option.some.inj h)
        exact hphase _ rfl rfl rfl
    · exact absurd h (by simp)
  · simp only [flowStep] at h
    split at h
    · obtain ⟨rfl, -⟩ := Prod.mk.inj (Option.some.inj h)
      exact hphase _ rfl rfl rfl
    · obtain ⟨rfl, -⟩ := Prod.mk.inj (Option.some.inj h)
      exact hphase _ rfl rfl rfl
    · exact absurd h (by simp)
  · -- the answer of the node
    simp only [flowStep] at h
    split at h
    · rename_i ok hp
      refine endCall_logins ?_ ?_ ?_ h
      · rw [loginEvent, hf, Option.bind_some, hp]
        cases ok <;> rfl
      · rfl
      · exact .del s f
    · exact absurd h (by simp)
  · -- the caller gives up
    obtain ⟨-, h⟩ := Option.ite_none_left_eq_some.mp h
    refine endCall_logins ?_ ?_ ?_ h
    · rw [loginEvent, hf]
      rfl
    · rfl
    · exact .set hf (.inl rfl) rfl
  · obtain ⟨-, h⟩ := Option.ite_none_right_eq_some.mp h
    obtain ⟨rfl, -⟩ := Prod.mk.inj (Option.some.inj h)
    exact .quiet rfl rfl (.del s f)

/-- **What a step does to the login servers.** -/
theorem Item.logins (i : Item c) : Logins c i.pre i.ev i.post := by
  have h : step c i.pre i.ev = some (i.post, i.out) := i.ok
  generalize i.pre = s, i.ev = e, i.post = s', i.out = acts at h
  unfold step at h
  split at h
  · exact absurd h (by simp)
  · exact .step s rfl rfl (.of_eq rfl) h
  · obtain ⟨rfl, -⟩ := Prod.mk.inj (Option.some.inj h)
    refine .quiet rfl rfl fun f flow hf hcaller => ?_
    rw [startFlow, Table.get_set] at hf
    split at hf
    · obtain rfl := Option.some.inj hf
      exact absurd rfl hcaller
    · exact ⟨flow, hf, rfl, rfl, rfl, rfl⟩
  · exact absurd h (by simp)
  · rw [deliverKick_eq] at h
    obtain ⟨-, hflows, -⟩ := accountStep_frame h
    exact .quiet rfl (accountStep_loginServers h) (.of_eq hflows)
  · exact absurd h (by simp)
  · exact absurd h (by simp)
  · obtain ⟨x, -, hx⟩ := Option.map_eq_some_iff.mp h
    rw [← (Prod.mk.inj hx).1]
    exact .quiet rfl rfl (.of_eq rfl)
  all_goals
    obtain ⟨flow, hf, h⟩ := Option.bind_eq_some_iff.mp h
    exact flowStep_logins hf h (by simp)

/-- The step of the login server `l` in a step of the system. -/
def loginItem (l : LoginId) (i : Item c) : Option (LoginGate.Item {}) :=
  (loginEvent c i.pre i.ev).bind fun x =>
    if x.1 = l then (LoginGate.machine {}).itemAt (i.pre.loginServers l) x.2 else none

theorem foldl_callLogin_loginServers (l : LoginId) (acts : List LoginGate.Act) (s : State) :
    (acts.foldl (callLogin l) s).loginServers = s.loginServers := by
  induction acts generalizing s with
  | nil => rfl
  | cons a acts ih =>
    rw [List.foldl_cons, ih]
    unfold callLogin
    split <;> rfl

/-- A new flow is that of a connection that calls `login_handler`. -/
theorem foldl_callLogin_flows {l : LoginId} {acts : List LoginGate.Act} {s : State} {f : FlowId}
    {flow : Flow} (h : (acts.foldl (callLogin l) s).flows.get f = some flow) :
    s.flows.get f = some flow ∨ ∃ k, flow.caller = some (l, k) ∧ flow.phase = .sent ∧
      .loginHandler k (some flow.node) (some flow.uid) (some flow.secret) ∈ acts := by
  induction acts generalizing s with
  | nil => exact .inl h
  | cons a acts ih =>
    rw [List.foldl_cons] at h
    rcases ih h with h | ⟨k, hcaller, hp, hmem⟩
    · unfold callLogin at h
      split at h
      · rw [startFlow, Table.get_set] at h
        split at h
        · obtain rfl := Option.some.inj h
          exact .inr ⟨_, rfl, rfl, List.mem_cons_self⟩
        · exact .inl h
      · exact .inl h
    · exact .inr ⟨k, hcaller, hp, List.mem_cons_of_mem _ hmem⟩

/-- What a step does to login server `l`: nothing, or the step `x`. -/
inductive Serves (l : LoginId) (i : Item c) : Prop
  | quiet (hitem : loginItem l i = none) (hpost : i.post.loginServers l = i.pre.loginServers l)
  | step (x : LoginGate.Item {}) (hitem : loginItem l i = some x)
    (hev : loginEvent c i.pre i.ev = some (l, x.ev)) (hpre : x.pre = i.pre.loginServers l)
    (hpost : x.post = i.post.loginServers l)

theorem Item.serves (l : LoginId) (i : Item c) : Serves l i := by
  cases i.logins with
  | quiet hev hservers =>
    refine .quiet ?_ (congrFun hservers l)
    rw [loginItem, hev, Option.bind_none]
  | @step q e acts s₁ hev hservers _ h =>
    obtain ⟨⟨t, out⟩, hstep, hx⟩ := Option.map_eq_some_iff.mp h
    have hpost : i.post.loginServers = Function.update s₁.loginServers q t := by
      rw [← (Prod.mk.inj hx).1]
      exact foldl_callLogin_loginServers q out _
    rw [hservers] at hstep hpost
    by_cases hq : q = l
    · subst hq
      have hitem : loginItem q i = some ⟨_, e, t, out, hstep⟩ := by
        rw [loginItem, hev, Option.bind_some, if_pos rfl]
        exact Machine.itemAt_eq_some (M := LoginGate.machine {}) hstep
      refine .step _ hitem hev rfl ?_
      rw [hpost, Function.update_self]
    · refine .quiet ?_ ?_
      · rw [loginItem, hev, Option.bind_some, if_neg hq]
      · rw [hpost, Function.update_of_ne (Ne.symm hq)]

/-- **A login server of the system runs as its own machine.** -/
theorem Run.loginServer {tr : List (Item c)} {s : State} (h : (machine c).Run tr s)
    (l : LoginId) : (LoginGate.machine {}).Run (tr.filterMap (loginItem l)) (s.loginServers l) := by
  refine Machine.Run.history
    (J := fun tr s => (LoginGate.machine {}).Run (tr.filterMap (loginItem l)) (s.loginServers l))
    (.nil _) (fun tr i _ hJ => ?_) h
  rw [List.filterMap_append]
  cases Item.serves l i with
  | quiet hitem hpost =>
    rw [List.filterMap_cons_none hitem, List.filterMap_nil, List.append_nil, hpost]
    exact hJ
  | step x hitem _ hpre hpost =>
    rw [List.filterMap_cons_some hitem, List.filterMap_nil, ← hpost]
    exact hJ.snoc x hpre

/-! ## Conversations -/

/-- The transcript of connection `k` of login server `l`. -/
def conversation (l : LoginId) (k : ConnId) (tr : List (Item c)) : List LoginGate.Spoken :=
  transcript k (tr.filterMap (loginItem l))

/-- What a step adds to the transcript. -/
def Item.adds (l : LoginId) (k : ConnId) (i : Item c) : List LoginGate.Spoken :=
  (loginItem l i).toList.flatMap (LoginGate.Item.spoken k)

@[simp] theorem conversation_snoc (l : LoginId) (k : ConnId) (tr : List (Item c)) (i : Item c) :
    conversation l k (tr ++ [i]) = conversation l k tr ++ Item.adds l k i := by
  rw [conversation, List.filterMap_append, transcript, List.flatMap_append]
  unfold Item.adds
  cases hitem : loginItem l i with
  | none => rw [List.filterMap_cons_none hitem]; rfl
  | some x => rw [List.filterMap_cons_some hitem]; rfl

/-- Where the caller of a flow comes from: it waited before, or it just called. -/
theorem Item.flow_caller (i : Item c) {f : FlowId} {flow' : Flow} {l : LoginId} {k : ConnId}
    (hf : i.post.flows.get f = some flow') (hcaller : flow'.caller = some (l, k)) :
    (∃ flow, i.pre.flows.get f = some flow ∧ flow.Kept flow') ∨
      .called (some flow'.node) (some flow'.uid) (some flow'.secret) ∈ Item.adds l k i := by
  have hne : flow'.caller ≠ none := by simp [hcaller]
  cases i.logins with
  | quiet _ _ hflows => exact .inl (hflows f flow' hf hne)
  | @step q e acts s₁ hev hservers hflows h =>
    obtain ⟨⟨t, out⟩, hstep, hx⟩ := Option.map_eq_some_iff.mp h
    rw [hservers] at hstep
    rw [← (Prod.mk.inj hx).1] at hf
    rcases foldl_callLogin_flows hf with hf | ⟨k', hcaller', -, hmem⟩
    · exact .inl (hflows f flow' hf hne)
    · obtain ⟨rfl, rfl⟩ := Prod.mk.inj (Option.some.inj (hcaller'.symm.trans hcaller))
      have hitem : loginItem q i = some ⟨_, e, t, out, hstep⟩ := by
        rw [loginItem, hev, Option.bind_some, if_pos rfl]
        exact Machine.itemAt_eq_some (M := LoginGate.machine {}) hstep
      refine .inr ?_
      rw [Item.adds, hitem, Option.toList_some, List.flatMap_singleton, LoginGate.Item.spoken]
      refine List.mem_append_right _ (List.mem_filterMap.mpr ⟨_, hmem, ?_⟩)
      simp [LoginGate.Act.spoken]

/-- The result of `login_handler` is that of a flow. -/
theorem Item.adds_returned (i : Item c) {l : LoginId} {k : ConnId} {result : Option Bytes}
    (h : .login (.returned result) ∈ Item.adds l k i) :
    ∃ f flow, i.pre.flows.get f = some flow ∧ flow.caller = some (l, k) ∧
      flow.phase = .answered true ∧ result = some (loginReply (c.connectIp flow.node)
        (c.connectPort flow.node) flow.node flow.subid) := by
  unfold Item.adds at h
  cases Item.serves l i with
  | quiet hitem => exact absurd h (by simp [hitem])
  | step x hitem hev =>
    rw [hitem, Option.toList_some, List.flatMap_singleton, LoginGate.Item.spoken] at h
    have hx := LoginGate.Item.ev_of_login h
    rw [hx] at hev
    have hok : step c i.pre i.ev = some (i.post, i.out) := i.ok
    generalize i.ev = e at hev hok
    unfold loginEvent at hev
    split at hev
    · obtain ⟨rfl, rfl⟩ := Prod.mk.inj (Option.some.inj hev)
      exact absurd hok (by simp [step])
    · rename_i f
      obtain ⟨flow, hf, hev⟩ := Option.bind_eq_some_iff.mp hev
      obtain ⟨⟨l', k'⟩, hcaller, hx⟩ := Option.map_eq_some_iff.mp hev
      simp only [Prod.mk.injEq, LoginGate.Event.loggedIn.injEq] at hx
      obtain ⟨rfl, rfl, hreturn⟩ := hx
      unfold loginReturn at hreturn
      by_cases hp : flow.phase = .answered true
      · simp only [hp, decide_true, if_true] at hreturn
        exact ⟨f, flow, hf, hcaller, hp, (LoginGate.LoginReturn.returned.inj hreturn).symm⟩
      · simp [hp] at hreturn
    · obtain ⟨flow, -, hev⟩ := Option.bind_eq_some_iff.mp hev
      obtain ⟨y, -, hy⟩ := Option.map_eq_some_iff.mp hev
      simp at hy
    · exact absurd hev (by simp)

end LsServer.Login
