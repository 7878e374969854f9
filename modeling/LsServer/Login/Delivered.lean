import LsServer.Login.Callers

/-!
# What a login delivers

A connection that gets the result of `login_handler` was called for, and its node has registered
the user that the result names: in `username_map`, at the agent and in `user_online`, all with the
secret of the call. The record in `user_online` has version 0 until a handshake for its name is
accepted.

* `Registered`: a login has returned at its node, and the tables of the node and of the agent have
  its user, with the secret of the call.
* `Delivered`: a connection that has the result of `login_handler` has that of a registered user:
  address and node of the result are those of the node, and its number is the one of the login.
* `Item.Admits`: the gate of the node accepts a handshake for that name.
* `Unused`: as long as it has not, the version of the user is 0, so every index from 1 on is new to
  it.

What is registered stays registered, since nobody logs out and no name is logged in twice.

Results:
* `Run.delivered`: the result of a connection is that of a registered login;
* `Run.unused`: the version of a user with whom nobody has shaken hands.
-/

namespace LsServer.Login

open LsServer.Lib LsServer.Lua LsServer.Crypt LsServer.Cluster

variable {c : Conf}

/-! ## Registered logins -/

/-- The login `flow` has ended at its node, which knows its user. -/
structure Registered (tr : List (Item c)) (s : State) (flow : Flow) : Prop where
  returned : ∃ i ∈ tr, Item.Returns i flow.node flow.subid
  knows : (s.nodes flow.node).Knows flow.user.username flow.user
  online : Online s flow.node flow.uid flow.user.username

/-- **What the callers of the flows rely on.** -/
structure Delivered (tr : List (Item c)) (s : State) : Prop where
  called : ∀ f flow l k, s.flows.get f = some flow → flow.caller = some (l, k) →
    .called (some flow.node) (some flow.uid) (some flow.secret) ∈ conversation l k tr
  registered : ∀ f flow, s.flows.get f = some flow → flow.phase = .answered true →
    Registered tr s flow
  delivered : ∀ l k result, .login (.returned result) ∈ conversation l k tr →
    ∃ flow : Flow, .called (some flow.node) (some flow.uid) (some flow.secret) ∈
        conversation l k tr ∧ Registered tr s flow ∧
      result = some (loginReply (c.connectIp flow.node) (c.connectPort flow.node) flow.node
        flow.subid)

theorem Registered.step {tr : List (Item c)} {i : Item c} {flow : Flow} (hm : Mapped i.pre)
    (hs : Consistent i.pre) (h : Registered tr i.pre flow) :
    Registered (tr ++ [i]) i.post flow where
  returned := by
    obtain ⟨j, hj, hret⟩ := h.returned
    exact ⟨j, List.mem_append_left _ hj, hret⟩
  knows := (Item.later i hs flow.node).knows _ _ h.knows
  online := (Item.online_iff i hm _ _ _).mpr (.inl h.online)

/-- The login stays the same if its caller leaves. -/
theorem Registered.same {tr : List (Item c)} {s : State} {flow flow' : Flow}
    (h : Registered tr s flow) (hsame : flow.Same flow') : Registered tr s flow' := by
  have huid : flow'.uid = flow.uid := congrArg GameUser.uid hsame.user
  obtain ⟨hret, hknows, honline⟩ := h
  refine ⟨?_, ?_, ?_⟩
  · rwa [hsame.node, hsame.subid]
  · rwa [hsame.node, hsame.user]
  · rwa [hsame.node, huid, hsame.user]

/-- Where an answered login comes from: it was answered before, or it ends at its node now. -/
theorem Item.answered (i : Item c) {f : FlowId} {flow' : Flow}
    (hf : i.post.flows.get f = some flow') (hp : flow'.phase = .answered true) :
    (∃ flow, i.pre.flows.get f = some flow ∧ flow.Same flow') ∨
      ∃ flow g, i.ev = .agentDone f ∧ i.pre.flows.get f = some flow ∧
        flow.phase = .agentReplied true ∧ loginEnd (i.pre.nodes flow.node) flow.user = some g ∧
        flow' = { flow with phase := .answered true } ∧
        i.post.nodes flow.node = g ∧
        .serverLogin flow.node flow.uid flow.user.username ∈ i.out := by
  have hm := i.moved
  generalize i.pre = s, i.ev = e, i.post = s', i.out = acts at hf hm
  -- a flow that is set to another phase
  have hother : ∀ {q : FlowId} {flow : Flow}, s'.flows = s.flows.set q flow →
      flow.phase ≠ .answered true → ∃ flow, s.flows.get f = some flow ∧ flow.Same flow' := by
    intro q flow hflows hne
    rw [hflows, Table.get_set] at hf
    split at hf
    · obtain rfl := Option.some.inj hf
      exact absurd hp hne
    · exact ⟨flow', hf, rfl, rfl, rfl⟩
  cases hm with
  | frame _ hs =>
    rcases hs.flows f flow' hf with hidle | hsame
    · rcases hidle with hsent | hanswered
      · exact absurd (hsent.symm.trans hp) (by simp)
      · exact absurd (hanswered.symm.trans hp) (by simp)
    · exact .inl hsame
  | account hs =>
    obtain ⟨-, hflows, -⟩ := accountStep_frame hs
    rw [hflows] at hf
    exact .inl ⟨flow', hf, rfl, rfl, rfl⟩
  | gate => exact .inl ⟨flow', hf, rfl, rfl, rfl⟩
  | check _ _ hs =>
    obtain ⟨-, hflows, -⟩ := accountStep_frame hs
    exact .inl (hother hflows (by simp))
  | received | found | unchecked | checked | agent | agentRefuses =>
    exact .inl (hother rfl (by simp))
  | @done q flow g hq hpq hg =>
    rw [setPhase_flows, Table.get_set] at hf
    split at hf
    · rename_i hfq
      subst hfq
      obtain rfl := Option.some.inj hf
      exact .inr ⟨flow, g, rfl, hq, hpq, hg, rfl, Function.update_self _ _ _,
        List.mem_singleton_self _⟩
    · exact .inl ⟨flow', hf, rfl, rfl, rfl⟩

/-- The end of `login_handler` registers its user. -/
theorem registered_of_done {tr : List (Item c)} {i : Item c} (hm : Mapped i.pre)
    (hs : Consistent i.pre) {f : FlowId} {flow : Flow} {g : Gamed} (hev : i.ev = .agentDone f)
    (hf : i.pre.flows.get f = some flow) (hp : flow.phase = .agentReplied true)
    (hg : loginEnd (i.pre.nodes flow.node) flow.user = some g)
    (hpost : i.post.nodes flow.node = g)
    (hout : .serverLogin flow.node flow.uid flow.user.username ∈ i.out) :
    Registered (tr ++ [i]) i.post { flow with phase := .answered true } := by
  have hr := hs.ready f flow hf (Flow.active_of_phase hp (by simp) (by simp))
  obtain ⟨-, hmap, -, hnames, -⟩ := loginEnd_eq_some hg
  refine ⟨⟨i, by simp, f, flow, _, hev, hf, rfl, rfl, hout⟩, ?_, ?_⟩
  · change (i.post.nodes flow.node).Knows flow.user.username flow.user
    rw [hpost]
    refine ⟨?_, ?_⟩
    · rw [hmap]
      exact Table.get_set_self _ _ _
    · rw [hnames]
      exact hr.named hp
  · exact (Item.online_iff i hm flow.node flow.uid flow.user.username).mpr (.inr hout)

theorem Delivered.step {tr : List (Item c)} {i : Item c} (hm : Mapped i.pre)
    (hs : Consistent i.pre) (h : Delivered tr i.pre) : Delivered (tr ++ [i]) i.post where
  called f flow' l k hf hcaller := by
    rw [conversation_snoc]
    rcases i.flow_caller hf hcaller with ⟨flow, hf₁, hkept⟩ | hnew
    · rw [hkept.node, hkept.uid, hkept.secret]
      exact List.mem_append_left _ (h.called f flow l k hf₁ (hkept.caller.symm.trans hcaller))
    · exact List.mem_append_right _ hnew
  registered f flow' hf hp := by
    rcases i.answered hf hp with ⟨flow, hf₁, hsame⟩ | ⟨flow, g, hev, hf₁, hp₁, hg, rfl, hpost, hout⟩
    · exact ((h.registered f flow hf₁ (hsame.phase.symm.trans hp)).step hm hs).same hsame
    · exact registered_of_done hm hs hev hf₁ hp₁ hg hpost hout
  delivered l k result hmem := by
    rw [conversation_snoc] at hmem ⊢
    rcases List.mem_append.mp hmem with hold | hnew
    · obtain ⟨flow, hcalled, hreg, hresult⟩ := h.delivered l k result hold
      exact ⟨flow, List.mem_append_left _ hcalled, hreg.step hm hs, hresult⟩
    · obtain ⟨f, flow, hf, hcaller, hp, hresult⟩ := i.adds_returned hnew
      exact ⟨flow, List.mem_append_left _ (h.called f flow l k hf hcaller),
        (h.registered f flow hf hp).step hm hs, hresult⟩

/-- **A result is that of a registered login.** -/
theorem Run.delivered {tr : List (Item c)} {s : State} (h : (machine c).Run tr s) :
    Delivered tr s := by
  refine Machine.Run.history (J := fun tr s => Delivered tr s) ?_ (fun tr i hrun hJ => ?_) h
  · exact ⟨nofun, nofun, nofun⟩
  · exact hJ.step (Run.mapped hrun) (Run.consistent hrun)

/-! ## Users with whom nobody has shaken hands -/

/-- The step accepts a handshake for the user `name` at node `n`. -/
def Item.Admits (i : Item c) (n : NodeName) (name : Bytes) : Prop :=
  ∃ x : GameGate.Item c.gate, i.ev = .gate n x.ev ∧ x.pre = (i.pre.nodes n).gate ∧
    ∃ fd u idx, x.Accepts fd u idx ∧ x.pre.gate.userOnline.get name = some u

/-- What a step does to the gate of node `n`: nothing, or it handles an event, or `GameGate.login`
is executed. -/
inductive Gates (i : Item c) (n : NodeName) : Prop
  | quiet (hgate : (i.post.nodes n).gate = (i.pre.nodes n).gate)
  | gate (x : GameGate.Item c.gate) (hev : i.ev = .gate n x.ev)
    (hpre : x.pre = (i.pre.nodes n).gate) (hpost : (i.post.nodes n).gate = x.post)
    (hlogin : ∀ username secret, x.ev ≠ .login username secret)
    (hlogout : ∀ username, x.ev ≠ .logout username)
  | login (username secret : Bytes)
    (hgate : (i.post.nodes n).gate.gate =
      GameGate.serverLogin (i.pre.nodes n).gate.gate username secret)

theorem gates_of_update {i : Item c} {m : NodeName} {g : Gamed}
    (hnodes : i.post.nodes = Function.update i.pre.nodes m g)
    (hgate : g.gate = (i.pre.nodes m).gate) (n : NodeName) : Gates i n := by
  refine .quiet ?_
  rw [hnodes]
  by_cases hn : n = m
  · subst hn
    rw [Function.update_self, hgate]
  · rw [Function.update_of_ne hn]

theorem Item.gates (i : Item c) (n : NodeName) : Gates i n := by
  have hm := i.moved
  generalize hev : i.ev = e, hpost : i.post = s', hout : i.out = acts at hm
  have hsame : s'.nodes = i.pre.nodes → Gates i n := fun h => .quiet (by rw [hpost, h])
  cases hm with
  | frame _ hs => exact hsame hs.nodes
  | account hs | check _ _ hs => exact hsame (accountStep_frame hs).1
  | found | agentRefuses => exact hsame rfl
  | @gate m x hpre hlogin hlogout =>
    by_cases hn : n = m
    · subst hn
      exact .gate x hev hpre (by rw [hpost, setNode_nodes_self]) hlogin hlogout
    · exact .quiet (by rw [hpost, setNode_nodes_ne _ hn])
  | @received f flow =>
    have hgate : (loginHandler (i.pre.nodes flow.node)).1.gate = (i.pre.nodes flow.node).gate :=
      rfl
    refine gates_of_update ?_ hgate n
    rw [hpost]
    rfl
  | @unchecked f flow | @checked f flow =>
    have hgate : (findAgent (i.pre.nodes flow.node) flow.uid).1.gate =
        (i.pre.nodes flow.node).gate := by
      obtain ⟨-, -, agentId, uidAgent, heq⟩ := findAgent_spec (i.pre.nodes flow.node) flow.uid
      rw [heq]
    refine gates_of_update ?_ hgate n
    rw [hpost]
    rfl
  | @agent f flow g hf hp hg =>
    have hgate : g.gate = (i.pre.nodes flow.node).gate := by
      obtain ⟨-, rfl⟩ := agentLogin_eq_some hg
      rfl
    refine gates_of_update ?_ hgate n
    rw [hpost]
    rfl
  | @done f flow g hf hp hg =>
    obtain ⟨-, -, hgate, -⟩ := loginEnd_eq_some hg
    by_cases hn : n = flow.node
    · subst hn
      refine .login flow.user.username flow.user.secret ?_
      rw [hpost]
      change ((setNode i.pre flow.node g).nodes flow.node).gate.gate = _
      rw [setNode_nodes_self, hgate]
    · refine .quiet ?_
      rw [hpost]
      change ((setNode i.pre flow.node g).nodes n).gate = _
      rw [setNode_nodes_ne _ hn]

/-- The user `name` of the gate has version 0. -/
def Unused (g : GameGate.Gate) (name : Bytes) : Prop :=
  ∀ u, g.userOnline.get name = some u → (g.users.cell u).version = ofInt 0

/-- A socket event. -/
theorem Unused.gate {x : GameGate.Item c.gate} {name : Bytes}
    (hlogin : ∀ username secret, x.ev ≠ .login username secret)
    (hlogout : ∀ username, x.ev ≠ .logout username)
    (hno : ∀ fd u idx, x.Accepts fd u idx → x.pre.gate.userOnline.get name ≠ some u)
    (h : Unused x.pre.gate name) : Unused x.post.gate name := by
  intro u hu
  rw [gate_userOnline x hlogin hlogout] at hu
  have hversion := h u hu
  cases x.kind with
  | quiet hg => exact (hg.version u).trans hversion
  | @accept fd v idx ha =>
    obtain ⟨addr, hpost, -⟩ := ha.post
    have hne : u ≠ v := fun huv => hno fd v idx ha (huv ▸ hu)
    rw [hpost]
    simp only [GameGate.bind, Heap.cell_set_ne hne]
    exact hversion
  | sever _ hg =>
    rw [hg.cell u]
    split <;> exact hversion
  | login hev => exact absurd hev (hlogin _ _)
  | logout hev => exact absurd hev (hlogout _)

/-- `GameGate.login` makes a new user. -/
theorem Unused.login {s : GameGate.State} (hw : GameGate.WellFormed s) {name : Bytes}
    (h : Unused s.gate name) (username secret : Bytes) :
    Unused (GameGate.serverLogin s.gate username secret) name := by
  intro u hu
  simp only [GameGate.serverLogin, Table.get_set] at hu ⊢
  split at hu
  · obtain rfl := Option.some.inj hu
    simp
  · rw [Heap.cell_alloc_ne (hw.online name u hu).1.ne]
    exact h u hu

/-- **Version 0 until a handshake is accepted.** -/
theorem Run.unused {tr : List (Item c)} {s : State} (h : (machine c).Run tr s) {n : NodeName}
    {name : Bytes} (hno : ∀ i ∈ tr, ¬ Item.Admits i n name) :
    Unused (s.nodes n).gate.gate name := by
  refine Machine.Path.history (J := fun _ s => Unused (s.nodes n).gate.gate name) h nofun
    fun a i b hab hJ => ?_
  subst hab
  have hw := ((Run.consistent h.split.1).nodes n).gate
  cases Item.gates i n with
  | quiet hgate => rwa [hgate]
  | gate x hev hpre hpost hlogin hlogout =>
    rw [hpost]
    refine Unused.gate hlogin hlogout (fun fd u idx ha hu => ?_) (hpre ▸ hJ)
    exact hno i (by simp) ⟨x, hev, hpre, fd, u, idx, ha, hu⟩
  | login username secret hgate =>
    rw [hgate]
    exact hJ.login hw username secret

end LsServer.Login
