import LsServer.GameGate.Authentic
import LsServer.Login.Single

/-!
# Gate, Gamed and agent agree

`server.login_handler` fills three tables at different steps of a coroutine that waits twice in
between: `AgentNames` of the agent first, then `username_map`, then `user_online`. A login that
fails on the way leaves a name in `AgentNames` and nowhere else, and no later login gets that name,
since every login has a number of its own at its node.

Source: Gamed.lua 31-65 with the asserts of 50 and 61, Agent.lua 11-21 with that of 13.

* `Gamed.Consistent`: who is in `user_online` is in `username_map`, and who is there is in
  `AgentNames` of its agent, with one secret. A login on its way may be in `AgentNames` only.
* `Flow.Ready` is what a flow that goes on relies on: its number is below `inner_index`, no other
  flow of the node has it, and the tables do not have its name.
* `Later`: what a node knows, it knows from then on. `Spent`: a number that was returned belongs to
  no flow that still runs, so it is returned once.
* `Gamed.Knows`: a user that the gate hands to `request_handler` is in `username_map`, and its agent
  has it with the secret of the login.

Every login of an account gets the agent of the first one (`uid_agent`), whatever the number of
agents.

Results:
* `Item.consistent`: a step keeps the tables of a node consistent, and what a login in flight
  relies on;
* `users_agree`: the assertions never fail, no number is returned twice, all logins of an account
  get one agent, and every online user is known to `username_map` and its agent with one secret.
-/

namespace LsServer.Login

open LsServer.Lib LsServer.Lua LsServer.Crypt LsServer.Cluster

/-! ## The tables of a node -/

/-- The name was minted at node `n` with a number up to the current one. -/
def Gamed.Minted (g : Gamed) (n : NodeName) (name : Bytes) : Prop :=
  ∃ uid subid, name = GameGate.username uid (tostring subid) n ∧ subid ≤ g.innerIndex

/-- The tables of node `n` agree. -/
structure Gamed.Consistent (n : NodeName) (g : Gamed) : Prop where
  gate : GameGate.WellFormed g.gate
  connected : ∀ fd u, g.gate.gate.connection.get fd = some u →
    g.gate.gate.userOnline.get (g.gate.gate.users.cell u).username ≠ none
  online : ∀ name u, g.gate.gate.userOnline.get name = some u →
    ∃ gu, g.usernameMap.get name = some gu ∧ gu.secret = (g.gate.gate.users.cell u).secret
  known : ∀ name gu, g.usernameMap.get name = some gu → g.uidAgent.get gu.uid = some gu.agent ∧
    (g.agentNames gu.agent).get name = some ⟨gu.uid, gu.subid, gu.secret⟩
  mapped : ∀ name, g.usernameMap.get name ≠ none → g.Minted n name
  named : ∀ a name, (g.agentNames a).get name ≠ none → g.Minted n name

/-- From `g` to `g'` the tables grow by the name `name` at most. -/
structure Grows (name : Bytes) (g g' : Gamed) : Prop where
  innerIndex : g.innerIndex ≤ g'.innerIndex
  mapped : ∀ x, x ≠ name → g'.usernameMap.get x = g.usernameMap.get x
  named : ∀ a x, x ≠ name → (g'.agentNames a).get x = (g.agentNames a).get x
  allotted : ∀ uid a, g.uidAgent.get uid = some a → g'.uidAgent.get uid = some a

theorem Grows.refl (name : Bytes) (g : Gamed) : Grows name g g :=
  ⟨le_rfl, fun _ _ => rfl, fun _ _ _ => rfl, fun _ _ h => h⟩

theorem findAgent_spec (g : Gamed) (uid : Bytes) :
    (findAgent g uid).1.uidAgent.get uid = some (findAgent g uid).2 ∧
      (∀ uid' a, g.uidAgent.get uid' = some a → (findAgent g uid).1.uidAgent.get uid' = some a) ∧
      ∃ agentId uidAgent, (findAgent g uid).1 = { g with agentId, uidAgent } := by
  unfold findAgent
  cases h : g.uidAgent.get uid with
  | some agent => exact ⟨h, fun _ _ h' => h', _, _, rfl⟩
  | none =>
    refine ⟨Table.get_set_self _ _ _, fun uid' a h' => ?_, _, _, rfl⟩
    refine (Table.get_set_ne ?_).trans h'
    rintro rfl
    exact absurd (h.symm.trans h') (by simp)

theorem findAgent_grows (name : Bytes) (g : Gamed) (uid : Bytes) :
    Grows name g (findAgent g uid).1 := by
  obtain ⟨-, hmono, agentId, uidAgent, heq⟩ := findAgent_spec g uid
  rw [heq] at hmono ⊢
  exact ⟨le_rfl, fun _ _ => rfl, fun _ _ _ => rfl, hmono⟩

theorem agentLogin_grows {g g' : Gamed} {u : GameUser} (h : agentLogin g u = some g') :
    Grows u.username g g' := by
  obtain ⟨-, rfl⟩ := agentLogin_eq_some h
  refine ⟨le_rfl, fun _ _ => rfl, fun a x hx => ?_, fun _ _ h => h⟩
  by_cases ha : a = u.agent
  · subst ha
    dsimp only
    rw [Function.update_self, Table.get_set_ne hx]
  · dsimp only
    rw [Function.update_of_ne ha]

theorem loginEnd_grows {g g' : Gamed} {u : GameUser} (h : loginEnd g u = some g') :
    Grows u.username g g' := by
  obtain ⟨-, hmap, -, hnames, hagent, hindex⟩ := loginEnd_eq_some h
  refine ⟨hindex.ge, fun x hx => ?_, fun a x _ => ?_, fun uid a h => ?_⟩
  · rw [hmap, Table.get_set_ne hx]
  · rw [hnames]
  · rwa [hagent]

theorem Gamed.Minted.grows {g g' : Gamed} {n : NodeName} {name : Bytes} (h : g.Minted n name)
    (hle : g.innerIndex ≤ g'.innerIndex) : g'.Minted n name := by
  obtain ⟨uid, subid, hname, hs⟩ := h
  exact ⟨uid, subid, hname, hs.trans hle⟩

/-! ## A login in flight -/

/-- The flow runs at its node. -/
def Flow.Active (flow : Flow) : Prop := flow.phase ≠ .sent ∧ ∀ ok, flow.phase ≠ .answered ok

/-- What a login relies on at its node: its name is new, its agent is that of the account. -/
structure Flow.Ready (g : Gamed) (flow : Flow) : Prop where
  bound : flow.subid ≤ g.innerIndex
  unmapped : g.usernameMap.get flow.user.username = none
  unnamed : flow.phase ≠ .agentReplied true → ∀ a, (g.agentNames a).get flow.user.username = none
  named : flow.phase = .agentReplied true →
    (g.agentNames flow.agent).get flow.user.username = some ⟨flow.uid, flow.subid, flow.secret⟩
  allotted : flow.phase = .agent ∨ flow.phase = .agentReplied true →
    g.uidAgent.get flow.uid = some flow.agent
  asserted : flow.phase ≠ .agentReplied false

theorem Flow.Ready.grows {g g' : Gamed} {flow : Flow} (h : flow.Ready g) {name : Bytes}
    (hg : Grows name g g') (hne : flow.user.username ≠ name) : flow.Ready g' where
  bound := h.bound.trans hg.innerIndex
  unmapped := (hg.mapped _ hne).trans h.unmapped
  unnamed hp a := (hg.named a _ hne).trans (h.unnamed hp a)
  named hp := (hg.named _ _ hne).trans (h.named hp)
  allotted hp := hg.allotted _ _ (h.allotted hp)
  asserted := h.asserted

/-- Two flows of one node have different numbers. -/
def Distinct (s : State) : Prop :=
  ∀ f f' flow flow', s.flows.get f = some flow → s.flows.get f' = some flow' → flow.Active →
    flow'.Active → flow.node = flow'.node → flow.subid = flow'.subid → f = f'

/-- **The invariant of the logins.** -/
structure Consistent (s : State) : Prop where
  nodes : ∀ n, (s.nodes n).Consistent n
  ready : ∀ f flow, s.flows.get f = some flow → flow.Active → flow.Ready (s.nodes flow.node)
  distinct : Distinct s

/-- Different numbers or nodes, different names. -/
theorem Flow.username_ne {flow flow' : Flow}
    (h : flow.node = flow'.node → flow.subid ≠ flow'.subid) :
    flow.user.username ≠ flow'.user.username := by
  intro heq
  obtain ⟨-, hs, hn⟩ := username_inj heq
  exact h hn (tostring_injective hs)

/-! ## The steps at a node -/

/-- A step before the end of a login: the gate and `username_map` stay as they are. -/
theorem Gamed.Consistent.grows {n : NodeName} {g g' : Gamed} (h : g.Consistent n) {name : Bytes}
    (hg : Grows name g g') (hgate : g'.gate = g.gate) (hmap : g'.usernameMap = g.usernameMap)
    (hnone : g.usernameMap.get name = none)
    (hname : ∀ a, (g'.agentNames a).get name ≠ none → g'.Minted n name) : g'.Consistent n := by
  refine ⟨hgate ▸ h.gate, ?_, ?_, fun x gu hx => ?_, fun x hx => ?_, fun a x hx => ?_⟩
  · rw [hgate]
    exact h.connected
  · rw [hgate, hmap]
    exact h.online
  · rw [hmap] at hx
    obtain ⟨hagent, hknown⟩ := h.known x gu hx
    have hne : x ≠ name := by
      rintro rfl
      exact absurd (hnone.symm.trans hx) (by simp)
    exact ⟨hg.allotted _ _ hagent, (hg.named _ x hne).trans hknown⟩
  · rw [hmap] at hx
    exact (h.mapped x hx).grows hg.innerIndex
  · by_cases hxn : x = name
    · subst hxn
      exact hname a hx
    · rw [hg.named a x hxn] at hx
      exact (h.named a x hx).grows hg.innerIndex

/-- The agent takes the login. -/
theorem Gamed.Consistent.agentLogin {g g' : Gamed} {flow : Flow} (h : g.Consistent flow.node)
    (hr : flow.Ready g) (hg : agentLogin g flow.user = some g') : g'.Consistent flow.node := by
  refine h.grows (agentLogin_grows hg) ?_ ?_ hr.unmapped fun _ _ => ?_
  · obtain ⟨-, rfl⟩ := agentLogin_eq_some hg
    rfl
  · obtain ⟨-, rfl⟩ := agentLogin_eq_some hg
    rfl
  · exact ⟨flow.uid, flow.subid, rfl, hr.bound.trans (agentLogin_grows hg).innerIndex⟩

/-- The login ends: its user comes online. -/
theorem Gamed.Consistent.loginEnd {g g' : Gamed} {flow : Flow}
    (h : g.Consistent flow.node) (hr : flow.Ready g) (hp : flow.phase = .agentReplied true)
    (hg : loginEnd g flow.user = some g') : g'.Consistent flow.node := by
  have hgrows := loginEnd_grows hg
  obtain ⟨-, hmap, hgate, hnames, hagent, hindex⟩ := loginEnd_eq_some hg
  have hminted : ∀ x, g.Minted flow.node x → g'.Minted flow.node x := fun x hx =>
    hx.grows hindex.ge
  -- `GameGate.login` as a step of the gate
  have hwf : GameGate.WellFormed g'.gate := by
    have hstep : (GameGate.machine {}).step g.gate
        (.login flow.user.username flow.user.secret) = some (g'.gate, []) := by rw [hgate]; rfl
    exact GameGate.Item.wellFormed ⟨_, _, _, _, hstep⟩ h.gate
  have hon : g'.gate.gate.userOnline =
      g.gate.gate.userOnline.set flow.user.username g.gate.gate.users.next := by rw [hgate]; rfl
  have hconn : g'.gate.gate.connection = g.gate.gate.connection := by rw [hgate]; rfl
  have hcell : ∀ u, u < g.gate.gate.users.next →
      g'.gate.gate.users.cell u = g.gate.gate.users.cell u := by
    intro u hu
    rw [hgate]
    exact Heap.cell_alloc_ne (Nat.ne_of_lt hu)
  refine ⟨hwf, fun fd u hfd => ?_, fun name u hu => ?_, fun name gu hname => ?_,
    fun name hname => ?_, fun a name hname => ?_⟩
  · rw [hconn] at hfd
    rw [hon, hcell u (h.gate.bound fd u hfd), Table.get_set]
    split
    · simp
    · exact h.connected fd u hfd
  · rw [hon, Table.get_set] at hu
    rw [hmap, Table.get_set]
    split at hu
    · rename_i hn
      obtain rfl := Option.some.inj hu
      rw [if_pos hn]
      refine ⟨_, rfl, ?_⟩
      rw [hgate]
      simp [GameGate.serverLogin]
    · rename_i hn
      rw [if_neg hn, hcell u (h.gate.online name u hu).1]
      exact h.online name u hu
  · rw [hmap, Table.get_set] at hname
    rw [hnames, hagent]
    split at hname
    · rename_i hn
      obtain rfl := Option.some.inj hname
      exact ⟨hr.allotted (.inr hp), hn ▸ hr.named hp⟩
    · exact h.known name gu hname
  · rw [hmap, Table.get_set] at hname
    split at hname
    · rename_i hn
      exact ⟨flow.uid, flow.subid, hn, hr.bound.trans hindex.ge⟩
    · exact hminted name (h.mapped name hname)
  · rw [hnames] at hname
    exact hminted name (h.named a name hname)

/-- A socket event. -/
theorem Gamed.Consistent.gateStep {c : GameGate.Conf} {n : NodeName} {g : Gamed}
    (h : g.Consistent n) (x : GameGate.Item c) (hpre : x.pre = g.gate)
    (hlogin : ∀ username secret, x.ev ≠ .login username secret)
    (hlogout : ∀ username, x.ev ≠ .logout username) :
    Gamed.Consistent n { g with gate := x.post } := by
  have hwf : GameGate.WellFormed x.pre := hpre ▸ h.gate
  have hconn := hpre ▸ h.connected
  have hon := hpre ▸ h.online
  have huser := gate_userOnline x hlogin hlogout
  refine ⟨x.wellFormed hwf, ?_, ?_, h.known, h.mapped, h.named⟩
  all_goals simp only [huser]
  · cases x.kind with
    | quiet hg =>
      intro fd u hfd
      rw [show x.post.gate.connection = x.pre.gate.connection from hg.connection] at hfd
      rw [show (x.post.gate.users.cell u).username = _ from hg.username u]
      exact hconn fd u hfd
    | @accept fd v idx ha =>
      obtain ⟨addr, hpost, -⟩ := ha.post
      obtain ⟨⟨data, -, hauth⟩, -, -⟩ := ha
      obtain ⟨_, _, _, name, _, _, _, hname, _⟩ := GameGate.authCheck_accepted hauth
      have hcell : ∀ u, (x.post.gate.users.cell u).username =
          (x.pre.gate.users.cell u).username := by
        intro u
        rw [hpost]
        simp only [GameGate.bind, Heap.cell_set]
        split
        · rename_i huv
          rw [huv]
        · rfl
      intro q u hq
      rw [hcell]
      rw [hpost] at hq
      simp only [GameGate.bind, Table.get_set] at hq
      split at hq
      · obtain rfl := Option.some.inj hq
        rw [(hwf.online name v hname).2, hname]
        simp
      · exact hconn q u hq
    | sever _ hg =>
      intro fd u hfd
      rw [hg.connection] at hfd
      have := hconn fd u (Table.get_of_get_del hfd).2
      rw [hg.cell u]
      split <;> exact this
    | login hev => exact absurd hev (hlogin _ _)
    | logout hev => exact absurd hev (hlogout _)
  · intro name u hu
    obtain ⟨gu, hgu, hsec⟩ := hon name u hu
    refine ⟨gu, hgu, hsec.trans ?_⟩
    cases x.kind with
    | quiet hg => exact (hg.secret u).symm
    | @accept fd v idx ha =>
      obtain ⟨addr, hpost, -⟩ := ha.post
      rw [hpost]
      simp only [GameGate.bind, Heap.cell_set]
      split
      · rename_i huv
        rw [huv]
      · rfl
    | sever _ hg =>
      rw [hg.cell u]
      split <;> rfl
    | login hev => exact absurd hev (hlogin _ _)
    | logout hev => exact absurd hev (hlogout _)


/-! ## The invariant -/

variable {c : Conf}

theorem Flow.Idle.not_active {flow : Flow} (h : flow.Idle) : ¬ flow.Active := by
  rintro ⟨hsent, hanswered⟩
  rcases h with hp | hp
  · exact hsent hp
  · exact hanswered false hp

theorem Flow.Same.active {flow flow' : Flow} (h : flow.Same flow') (ha : flow'.Active) :
    flow.Active := by
  rwa [Flow.Active, ← h.phase]

theorem Flow.Same.subid {flow flow' : Flow} (h : flow.Same flow') : flow'.subid = flow.subid :=
  congrArg GameUser.subid h.user

/-- What a login relies on does not depend on its caller. -/
theorem Flow.Same.ready {g : Gamed} {flow flow' : Flow} (h : flow.Same flow')
    (hr : flow.Ready g) : flow'.Ready g := by
  have huid : flow'.uid = flow.uid := congrArg GameUser.uid h.user
  have hsecret : flow'.secret = flow.secret := congrArg GameUser.secret h.user
  have hagent : flow'.agent = flow.agent := congrArg GameUser.agent h.user
  obtain ⟨hbound, hunmapped, hunnamed, hnamed, hallotted, hasserted⟩ := hr
  refine ⟨?_, ?_, ?_, ?_, ?_, ?_⟩
  · rwa [h.subid]
  · rwa [h.user]
  · rwa [h.user, h.phase]
  · rwa [h.user, h.phase, hagent, huid, h.subid, hsecret]
  · rwa [h.phase, huid, hagent]
  · rwa [h.phase]

/-- A step that leaves the nodes alone and starts no login there. -/
theorem Consistent.inert {s s' : State} (h : Consistent s) (hnodes : s'.nodes = s.nodes)
    (hflows : Inert s s') : Consistent s' := by
  have hold : ∀ f flow', s'.flows.get f = some flow' → flow'.Active →
      ∃ flow, s.flows.get f = some flow ∧ flow.Same flow' := fun f flow' hf ha =>
    (hflows f flow' hf).resolve_left fun hidle => hidle.not_active ha
  refine ⟨hnodes ▸ h.nodes, fun f flow' hf ha => ?_, ?_⟩
  · obtain ⟨flow, hf₁, hsame⟩ := hold f flow' hf ha
    rw [hnodes, hsame.node]
    exact hsame.ready (h.ready f flow hf₁ (hsame.active ha))
  · intro f f' flow₁ flow₂ hf hf' ha ha' hnode hsub
    obtain ⟨flow, hf₁, hsame⟩ := hold f flow₁ hf ha
    obtain ⟨flow', hf₁', hsame'⟩ := hold f' flow₂ hf' ha'
    rw [hsame.node, hsame'.node] at hnode
    rw [hsame.subid, hsame'.subid] at hsub
    exact h.distinct f f' flow flow' hf₁ hf₁' (hsame.active ha) (hsame'.active ha') hnode hsub

/-- A step of flow `f`, whose node grows by the name of the flow at most. -/
theorem Consistent.set {s s' : State} {f : FlowId} {flow : Flow} {n : NodeName} {g : Gamed}
    (h : Consistent s) (hflows : s'.flows = s.flows.set f flow)
    (hnodes : s'.nodes = Function.update s.nodes n g) (hn : flow.node = n)
    (hg : g.Consistent n) (hgrows : Grows flow.user.username (s.nodes n) g)
    (hready : flow.Active → flow.Ready g)
    (hfresh : ∀ f' flow', s.flows.get f' = some flow' → f' ≠ f → flow'.Active →
      flow'.node = n → flow'.subid ≠ flow.subid) : Consistent s' := by
  subst hn
  refine ⟨fun m => ?_, fun q flow' hq ha => ?_, ?_⟩
  · rw [hnodes]
    by_cases hm : m = flow.node
    · subst hm
      rwa [Function.update_self]
    · rw [Function.update_of_ne hm]
      exact h.nodes m
  · rw [hflows, Table.get_set] at hq
    rw [hnodes]
    split at hq
    · obtain rfl := Option.some.inj hq
      rw [Function.update_self]
      exact hready ha
    · rename_i hqf
      have hr := h.ready q flow' hq ha
      by_cases hm : flow'.node = flow.node
      · rw [hm] at hr ⊢
        rw [Function.update_self]
        exact hr.grows hgrows (Flow.username_ne fun _ => hfresh q flow' hq hqf ha hm)
      · rwa [Function.update_of_ne hm]
  · intro q q' flow₁ flow₂ hq hq' ha ha' hnode hsub
    rw [hflows, Table.get_set] at hq hq'
    split at hq <;> split at hq'
    · rename_i hqf hqf'
      exact hqf.trans hqf'.symm
    · rename_i hqf'
      obtain rfl := Option.some.inj hq
      exact absurd hsub.symm (hfresh q' flow₂ hq' hqf' ha' hnode.symm)
    · rename_i hqf _
      obtain rfl := Option.some.inj hq'
      exact absurd hsub (hfresh q flow₁ hq hqf ha hnode)
    · exact h.distinct q q' flow₁ flow₂ hq hq' ha ha' hnode hsub

/-- A step of a flow that runs at its node already. -/
theorem Consistent.advance {s s' : State} {f : FlowId} {flow flow' : Flow} {g : Gamed}
    (h : Consistent s) (hf : s.flows.get f = some flow) (ha : flow.Active)
    (hflows : s'.flows = s.flows.set f flow')
    (hnodes : s'.nodes = Function.update s.nodes flow.node g) (hn : flow'.node = flow.node)
    (hsub : flow'.subid = flow.subid) (hg : g.Consistent flow.node)
    (hgrows : Grows flow'.user.username (s.nodes flow.node) g)
    (hready : flow'.Active → flow'.Ready g) : Consistent s' := by
  refine h.set hflows hnodes hn hg hgrows hready fun q flow₁ hq hne ha₁ hnode heq => hne ?_
  exact h.distinct q f flow₁ flow hq hf ha₁ ha hnode (heq.trans hsub)

/-- A flow that waits for another answer, its node as it was. -/
theorem Consistent.wait {s s' : State} {f : FlowId} {flow : Flow} {phase : FlowPhase}
    (h : Consistent s) (hf : s.flows.get f = some flow) (ha : flow.Active)
    (hflows : s'.flows = s.flows.set f { flow with phase := phase }) (hnodes : s'.nodes = s.nodes)
    (hready : Flow.Ready (s.nodes flow.node) { flow with phase := phase }) : Consistent s' :=
  h.advance hf ha hflows (hnodes.trans (Function.update_eq_self _ _).symm) rfl rfl (h.nodes _)
    (.refl _ _) fun _ => hready

/-- A flow that calls the agent. -/
theorem Consistent.callAgent {s : State} {f : FlowId} {flow : Flow} (h : Consistent s)
    (hf : s.flows.get f = some flow) (ha : flow.Active) (hp : flow.phase ≠ .agentReplied true) :
    Consistent (callAgent s f flow) := by
  have hr := h.ready f flow hf ha
  have hgrows := findAgent_grows flow.user.username (s.nodes flow.node) flow.uid
  obtain ⟨hagent, -, agentId, uidAgent, heq⟩ := findAgent_spec (s.nodes flow.node) flow.uid
  have hunnamed := hr.unnamed hp
  refine h.advance (g := (findAgent (s.nodes flow.node) flow.uid).1) hf ha rfl rfl rfl rfl ?_ hgrows
    fun _ => ?_
  · refine (h.nodes flow.node).grows hgrows (by rw [heq]) (by rw [heq]) hr.unmapped ?_
    intro a hname
    rw [heq] at hname
    exact absurd (hunnamed a) hname
  · refine ⟨?_, ?_, fun _ a => ?_, nofun, fun _ => hagent, by simp⟩
    · exact hr.bound.trans hgrows.innerIndex
    · rw [heq]
      exact hr.unmapped
    · rw [heq]
      exact hunnamed a

theorem Flow.Ready.agentLogin_ne_none {g : Gamed} {flow : Flow} (h : flow.Ready g)
    (hp : flow.phase = .agent) : agentLogin g flow.user ≠ none := by
  have hnone : (g.agentNames flow.user.agent).get flow.user.username = none :=
    h.unnamed (by simp [hp]) _
  simp [agentLogin, hnone]

/-- The next number of a node is in no name yet. -/
theorem Gamed.Minted.ne_next {g : Gamed} {n : NodeName} {name : Bytes} (h : g.Minted n name)
    (uid : Bytes) : name ≠ GameGate.username uid (tostring (g.innerIndex + 1)) n := by
  rintro rfl
  obtain ⟨uid', subid, heq, hle⟩ := h
  obtain ⟨-, hs, -⟩ := username_inj heq
  have := tostring_injective hs
  omega

/-- The node takes a login, with a number of its own. -/
theorem Consistent.received {s : State} (f : FlowId) (flow : Flow) (h : Consistent s) :
    Consistent (setPhase (setNode s flow.node (loginHandler (s.nodes flow.node)).1) f
      { flow with subid := (loginHandler (s.nodes flow.node)).2 } .searching) := by
  have hg := h.nodes flow.node
  have hunmapped : (s.nodes flow.node).usernameMap.get (GameGate.username flow.uid
      (tostring ((s.nodes flow.node).innerIndex + 1)) flow.node) = none := by
    by_contra hne
    exact (hg.mapped _ hne).ne_next flow.uid rfl
  have hunnamed : ∀ a, ((s.nodes flow.node).agentNames a).get (GameGate.username flow.uid
      (tostring ((s.nodes flow.node).innerIndex + 1)) flow.node) = none := by
    intro a
    by_contra hne
    exact (hg.named a _ hne).ne_next flow.uid rfl
  have hgrows : Grows (GameGate.username flow.uid
      (tostring ((s.nodes flow.node).innerIndex + 1)) flow.node) (s.nodes flow.node)
      (loginHandler (s.nodes flow.node)).1 :=
    ⟨Nat.le_succ _, fun _ _ => rfl, fun _ _ _ => rfl, fun _ _ h => h⟩
  refine h.set (g := (loginHandler (s.nodes flow.node)).1) rfl rfl rfl ?_ hgrows (fun _ => ?_) ?_
  · exact hg.grows hgrows rfl rfl hunmapped fun a hne => absurd (hunnamed a) hne
  · exact ⟨le_rfl, hunmapped, fun _ => hunnamed, nofun, by simp, by simp⟩
  · intro f' flow' hf' _ ha hnode heq
    have hbound := (h.ready f' flow' hf' ha).bound
    rw [hnode, heq] at hbound
    exact absurd hbound (Nat.not_succ_le_self _)

theorem Flow.active_of_phase {flow : Flow} {phase : FlowPhase} (h : flow.phase = phase)
    (hsent : phase ≠ .sent) (hanswered : ∀ ok, phase ≠ .answered ok) : flow.Active :=
  ⟨h ▸ hsent, h ▸ hanswered⟩

/-- **A step keeps the tables consistent.** -/
theorem Item.consistent (i : Item c) (h : Consistent i.pre) : Consistent i.post := by
  have hm := i.moved
  generalize i.pre = s, i.ev = e, i.post = s', i.out = acts at h hm
  cases hm with
  | frame _ hs => exact h.inert hs.nodes hs.flows
  | account hs =>
    obtain ⟨hnodes, hflows, -⟩ := accountStep_frame hs
    exact h.inert hnodes (.of_eq hflows)
  | @gate n x hpre hlogin hlogout =>
    refine ⟨fun m => ?_, fun f flow hf ha => ?_, h.distinct⟩
    · by_cases hmn : m = n
      · subst hmn
        rw [setNode_nodes_self]
        exact (h.nodes m).gateStep x hpre hlogin hlogout
      · rw [setNode_nodes_ne _ hmn]
        exact h.nodes m
    · have hr := h.ready f flow hf ha
      by_cases hmn : flow.node = n
      · rw [hmn, setNode_nodes_self]
        rw [hmn] at hr
        exact ⟨hr.bound, hr.unmapped, hr.unnamed, hr.named, hr.allotted, hr.asserted⟩
      · rwa [setNode_nodes_ne _ hmn]
  | received => exact h.received _ _
  | found hf hp =>
    have ha := Flow.active_of_phase hp (by simp) (by simp)
    have hr := h.ready _ _ hf ha
    exact h.wait hf ha rfl rfl ⟨hr.bound, hr.unmapped, fun _ => hr.unnamed (by simp [hp]),
      by simp, by simp, by simp⟩
  | check hf hp hs =>
    have ha := Flow.active_of_phase hp (by simp) (by simp)
    have hr := h.ready _ _ hf ha
    obtain ⟨hnodes, hflows, -⟩ := accountStep_frame hs
    exact h.wait hf ha hflows hnodes ⟨hr.bound, hr.unmapped, fun _ => hr.unnamed (by simp [hp]),
      by simp, by simp, by simp⟩
  | unchecked hf hp =>
    exact h.callAgent hf (Flow.active_of_phase hp (by simp) (by simp)) (by simp [hp])
  | checked hf hp =>
    exact h.callAgent hf (Flow.active_of_phase hp (by simp) (by simp)) (by simp [hp])
  | @agent f flow g hf hp hg =>
    have ha := Flow.active_of_phase hp (by simp) (by simp)
    have hr := h.ready _ _ hf ha
    refine h.advance (g := g) hf ha rfl rfl rfl rfl ((h.nodes _).agentLogin hr hg)
      (agentLogin_grows hg) fun _ => ?_
    obtain ⟨-, rfl⟩ := agentLogin_eq_some hg
    refine ⟨hr.bound, hr.unmapped, fun hne => absurd rfl hne, fun _ => ?_,
      fun _ => hr.allotted (.inl hp), by simp⟩
    dsimp only
    rw [show flow.user.agent = flow.agent from rfl, Function.update_self]
    exact Table.get_set_self _ _ _
  | agentRefuses hf hp hg =>
    have hr := h.ready _ _ hf (Flow.active_of_phase hp (by simp) (by simp))
    exact absurd hg (hr.agentLogin_ne_none hp)
  | done hf hp hg =>
    have ha := Flow.active_of_phase hp (by simp) (by simp)
    have hr := h.ready _ _ hf ha
    exact h.advance hf ha rfl rfl rfl rfl ((h.nodes _).loginEnd hr hp hg) (loginEnd_grows hg)
      fun hact => absurd rfl (hact.2 true)

theorem consistent_init : Consistent (machine c).init where
  nodes _ := ⟨GameGate.wellFormed_init (c := {}), nofun, nofun, nofun, fun _ h => absurd rfl h,
    fun _ _ h => absurd rfl h⟩
  ready _ _ hf := nomatch hf
  distinct _ _ _ _ hf := nomatch hf

theorem Run.consistent {tr : List (Item c)} {s : State} (h : (machine c).Run tr s) :
    Consistent s :=
  Machine.Run.invariant consistent_init (fun i => Item.consistent i) h

/-! ## Later states -/

/-- The agent recorded for the user `gu` knows it, with the same secret. -/
def Gamed.Knows (g : Gamed) (name : Bytes) (gu : GameUser) : Prop :=
  g.usernameMap.get name = some gu ∧
    (g.agentNames gu.agent).get name = some ⟨gu.uid, gu.subid, gu.secret⟩

/-- A node that grew from `g`, whatever its gate did. -/
structure Later (g g' : Gamed) : Prop where
  innerIndex : g.innerIndex ≤ g'.innerIndex
  allotted : ∀ uid a, g.uidAgent.get uid = some a → g'.uidAgent.get uid = some a
  knows : ∀ name gu, g.Knows name gu → g'.Knows name gu

theorem Later.refl (g : Gamed) : Later g g := ⟨le_rfl, fun _ _ h => h, fun _ _ h => h⟩

theorem Later.trans {g₁ g₂ g₃ : Gamed} (h : Later g₁ g₂) (h' : Later g₂ g₃) : Later g₁ g₃ :=
  ⟨h.innerIndex.trans h'.innerIndex, fun uid a ha => h'.allotted uid a (h.allotted uid a ha),
    fun name gu hk => h'.knows name gu (h.knows name gu hk)⟩

/-- A name that is new in one of the two tables is not that of a known user. -/
theorem Grows.later {name : Bytes} {g g' : Gamed} (h : Grows name g g')
    (hnew : ∀ gu, ¬ g.Knows name gu) : Later g g' := by
  refine ⟨h.innerIndex, h.allotted, fun x gu hk => ?_⟩
  have hx : x ≠ name := fun hx => hnew gu (hx ▸ hk)
  exact ⟨(h.mapped x hx).trans hk.1, (h.named _ x hx).trans hk.2⟩

/-- A change of one node only. -/
theorem later_update {nodes : NodeName → Gamed} {n : NodeName} {g : Gamed}
    (h : Later (nodes n) g) (m : NodeName) : Later (nodes m) (Function.update nodes n g m) := by
  by_cases hm : m = n
  · subst hm
    rwa [Function.update_self]
  · rw [Function.update_of_ne hm]
    exact .refl _

theorem findAgent_later (g : Gamed) (uid : Bytes) : Later g (findAgent g uid).1 := by
  obtain ⟨-, hmono, agentId, uidAgent, heq⟩ := findAgent_spec g uid
  rw [heq] at hmono ⊢
  exact ⟨le_rfl, hmono, fun _ _ h => h⟩

/-- **A step only adds to the tables of a node.** -/
theorem Item.later (i : Item c) (h : Consistent i.pre) (n : NodeName) :
    Later (i.pre.nodes n) (i.post.nodes n) := by
  have hm := i.moved
  generalize i.pre = s, i.ev = e, i.post = s', i.out = acts at h hm
  cases hm with
  | frame _ hs => exact hs.nodes ▸ .refl _
  | @gate m x =>
    exact later_update (g := { s.nodes m with gate := x.post })
      ⟨le_rfl, fun _ _ h => h, fun _ _ h => h⟩ n
  | @received f flow =>
    exact later_update (g := (loginHandler (s.nodes flow.node)).1)
      ⟨Nat.le_succ _, fun _ _ h => h, fun _ _ h => h⟩ n
  | found => exact .refl _
  | account hs | check _ _ hs =>
    obtain ⟨hnodes, -, -⟩ := accountStep_frame hs
    exact hnodes ▸ .refl _
  | unchecked | checked => exact later_update (findAgent_later _ _) n
  | @agent f flow g hf hp hg =>
    have hr := h.ready _ _ hf (Flow.active_of_phase hp (by simp) (by simp))
    refine later_update ((agentLogin_grows hg).later fun gu hk => ?_) n
    exact absurd (hr.unmapped.symm.trans hk.1) (by simp)
  | agentRefuses => exact .refl _
  | @done f flow g hf hp hg =>
    have hr := h.ready _ _ hf (Flow.active_of_phase hp (by simp) (by simp))
    refine later_update ((loginEnd_grows hg).later fun gu hk => ?_) n
    exact absurd (hr.unmapped.symm.trans hk.1) (by simp)

theorem Path.later {tr : List (Item c)} {s t : State} (h : (machine c).Path s tr t)
    (hs : Consistent s) (n : NodeName) : Later (s.nodes n) (t.nodes n) := by
  refine (h.keeps (I := fun t => Consistent t ∧ Later (s.nodes n) (t.nodes n)) ⟨hs, .refl _⟩
    fun i _ hi => ?_).2
  exact ⟨Item.consistent i hi.1, hi.2.trans (Item.later i hi.1 n)⟩

/-- The flow `flow'` ran at its node in `s` already, with the same number. -/
def Ran (s : State) (f : FlowId) (flow' : Flow) : Prop :=
  ∃ flow, s.flows.get f = some flow ∧ flow.Active ∧ flow'.node = flow.node ∧
    flow'.subid = flow.subid

/-- One flow moved on. -/
theorem ran_of_set {s : State} {f q : FlowId} {flow₁ flow₂ flow' : Flow}
    (hf : (s.flows.set q flow₂).get f = some flow') (hq : s.flows.get q = some flow₁)
    (ha₁ : flow₁.Active) (hnode : flow₂.node = flow₁.node) (hsub : flow₂.subid = flow₁.subid)
    (ha : flow'.Active) : Ran s f flow' := by
  rw [Table.get_set] at hf
  split at hf
  · rename_i hfq
    obtain rfl := Option.some.inj hf
    exact ⟨flow₁, hfq ▸ hq, ha₁, hnode, hsub⟩
  · exact ⟨flow', hf, ha, rfl, rfl⟩

/-- Where a login at a node comes from: it ran there before, or it just got its number. -/
theorem Item.active (i : Item c) {f : FlowId} {flow' : Flow}
    (hf : i.post.flows.get f = some flow') (ha : flow'.Active) :
    Ran i.pre f flow' ∨ flow'.subid = (i.pre.nodes flow'.node).innerIndex + 1 := by
  have hm := i.moved
  generalize i.pre = s, i.ev = e, i.post = s', i.out = acts at hf hm
  cases hm with
  | frame _ hs =>
    rcases hs.flows f flow' hf with hidle | ⟨flow, hf₁, hsame⟩
    · exact absurd ha hidle.not_active
    · exact .inl ⟨flow, hf₁, hsame.active ha, hsame.node, hsame.subid⟩
  | account hs =>
    obtain ⟨-, hflows, -⟩ := accountStep_frame hs
    rw [hflows] at hf
    exact .inl ⟨flow', hf, ha, rfl, rfl⟩
  | gate => exact .inl ⟨flow', hf, ha, rfl, rfl⟩
  | @received q flow =>
    rw [setPhase_flows, Table.get_set] at hf
    split at hf
    · obtain rfl := Option.some.inj hf
      exact .inr rfl
    · exact .inl ⟨flow', hf, ha, rfl, rfl⟩
  | check hq hp hs =>
    obtain ⟨-, hflows, -⟩ := accountStep_frame hs
    have ha₁ := Flow.active_of_phase hp (by simp) (by simp)
    rw [hflows] at hf
    exact .inl (ran_of_set hf hq ha₁ rfl rfl ha)
  | found hq hp | unchecked hq hp | checked hq hp | agent hq hp | agentRefuses hq hp
  | done hq hp =>
    have ha₁ := Flow.active_of_phase hp (by simp) (by simp)
    exact .inl (ran_of_set hf hq ha₁ rfl rfl ha)

/-- The number `subid` of node `n` is used up. -/
def Spent (n : NodeName) (subid : Nat) (s : State) : Prop :=
  subid ≤ (s.nodes n).innerIndex ∧ ∀ f flow, s.flows.get f = some flow → flow.Active →
    flow.node = n → flow.subid ≠ subid

theorem Item.spent (i : Item c) (h : Consistent i.pre) {n : NodeName} {subid : Nat}
    (hs : Spent n subid i.pre) : Spent n subid i.post := by
  obtain ⟨hle, hflows⟩ := hs
  refine ⟨hle.trans (i.later h n).innerIndex, fun f flow' hf ha hnode heq => ?_⟩
  rcases i.active hf ha with ⟨flow, hf₁, ha₁, hn, hsub⟩ | hsub
  · exact hflows f flow hf₁ ha₁ (hn.symm.trans hnode) (hsub.symm.trans heq)
  · rw [hnode, heq] at hsub
    omega

/-! ## What users can rely on -/

/-- The step ends `login_handler` at node `n`, which returns `subid`. -/
def Item.Returns (i : Item c) (n : NodeName) (subid : Nat) : Prop :=
  ∃ f flow name, i.ev = .agentDone f ∧ i.pre.flows.get f = some flow ∧ flow.node = n ∧
    flow.subid = subid ∧ .serverLogin n flow.uid name ∈ i.out

/-- The step calls `login` of the agent `a` of node `n` for the account `uid`. -/
def Item.LogsIn (i : Item c) (n : NodeName) (uid : Bytes) (a : AgentId) : Prop :=
  ∃ f flow, i.ev = .agent f ∧ i.pre.flows.get f = some flow ∧ flow.node = n ∧ flow.uid = uid ∧
    flow.agent = a

/-- The assertions of `login_handler` and of the agent hold where the step comes to them. -/
def Item.Asserted (i : Item c) : Prop :=
  ∀ f flow, i.pre.flows.get f = some flow →
    (i.ev = .agent f →
      ((i.pre.nodes flow.node).agentNames flow.agent).get flow.user.username = none) ∧
    (i.ev = .agentDone f → (i.pre.nodes flow.node).usernameMap.get flow.user.username = none)

/-- Where the flow of an event of the agent is. -/
theorem Item.phase_of_ev (i : Item c) {f : FlowId} {flow : Flow}
    (hf : i.pre.flows.get f = some flow) :
    (i.ev = .agent f → flow.phase = .agent) ∧
      (i.ev = .agentDone f → ∃ ok, flow.phase = .agentReplied ok) := by
  have h : step c i.pre i.ev = some (i.post, i.out) := i.ok
  generalize i.ev = e, i.post = s', i.out = acts at h
  constructor
  · rintro rfl
    simp only [step, hf, Option.bind_some, flowStep, Option.ite_none_right_eq_some] at h
    exact h.1
  · rintro rfl
    simp only [step, hf, Option.bind_some, flowStep] at h
    split at h
    · exact ⟨false, ‹_›⟩
    · exact ⟨true, ‹_›⟩
    · exact absurd h (by simp)

theorem Item.asserted (i : Item c) (h : Consistent i.pre) : i.Asserted := by
  intro f flow hf
  obtain ⟨hagent, hdone⟩ := i.phase_of_ev hf
  constructor
  · intro hev
    have hp := hagent hev
    have hr := h.ready f flow hf (Flow.active_of_phase hp (by simp) (by simp))
    exact hr.unnamed (by simp [hp]) _
  · intro hev
    obtain ⟨ok, hp⟩ := hdone hev
    exact (h.ready f flow hf (Flow.active_of_phase hp (by simp) (by simp))).unmapped

/-- A number that is returned was that of a login, and is used up. -/
theorem Item.Returns.spent {i : Item c} (h : Consistent i.pre) {n : NodeName} {subid : Nat}
    (hi : i.Returns n subid) : Spent n subid i.post ∧ ¬ Spent n subid i.pre := by
  obtain ⟨f, flow, name, hev, hf, rfl, rfl, hact⟩ := hi
  obtain ⟨ok, hp⟩ := (i.phase_of_ev hf).2 hev
  have ha : flow.Active := Flow.active_of_phase hp (by simp) (by simp)
  refine ⟨⟨?_, ?_⟩, fun hs => hs.2 f flow hf ha rfl rfl⟩
  · exact ((h.ready f flow hf ha).bound).trans (i.later h flow.node).innerIndex
  · intro q flow₁ hq ha₁ hnode heq
    have hm := i.moved
    generalize i.pre = s, i.ev = e, i.post = s', i.out = acts at h hf hev hact hq hm
    subst hev
    cases hm with
    | frame _ hs => exact hs.remote.not_serverLogin _ _ _ hact
    | @done _ flow₂ g hf₂ hp₂ hg =>
      obtain rfl := Option.some.inj (hf.symm.trans hf₂)
      rw [setPhase_flows, Table.get_set] at hq
      split at hq
      · obtain rfl := Option.some.inj hq
        exact ha₁.2 true rfl
      · rename_i hqf
        exact hqf (h.distinct q f flow₁ flow hq hf ha₁ ha hnode heq)

theorem Item.LogsIn.allotted {i : Item c} (h : Consistent i.pre) {n : NodeName} {uid : Bytes}
    {a : AgentId} (hi : i.LogsIn n uid a) : (i.pre.nodes n).uidAgent.get uid = some a := by
  obtain ⟨f, flow, hev, hf, rfl, rfl, rfl⟩ := hi
  have hp := (i.phase_of_ev hf).1 hev
  exact (h.ready f flow hf (Flow.active_of_phase hp (by simp) (by simp))).allotted (.inl hp)

/-- A user whose request goes through is known. -/
theorem Item.invoke_knows (i : Item c) (h : Consistent i.pre) {n : NodeName}
    {k : GameGate.TaskId} {name m : Bytes} (hinv : .gate n (.invoke k name m) ∈ i.out) :
    ∃ gu, (i.pre.nodes n).Knows name gu := by
  have hm := i.moved
  generalize i.pre = s, i.ev = e, i.post = s', i.out = acts at h hinv hm
  cases hm with
  | frame _ hs => exact absurd hinv (hs.remote.not_gate _ _)
  | @gate n' x hpre =>
    obtain ⟨act, hact, heq⟩ := List.mem_map.mp hinv
    obtain ⟨rfl, rfl⟩ := Act.gate.inj heq
    have hw : GameGate.WellFormed x.pre := hpre ▸ (h.nodes n').gate
    obtain ⟨fd, data, u, -, hfd, rfl, -, -⟩ := GameGate.Item.invoke_inv x hw hact
    rw [hpre] at hfd ⊢
    obtain ⟨v, hv⟩ := Option.ne_none_iff_exists'.mp ((h.nodes n').connected fd u hfd)
    obtain ⟨gu, hgu, -⟩ := (h.nodes n').online _ v hv
    exact ⟨gu, hgu, ((h.nodes n').known _ gu hgu).2⟩
  | account hs | check _ _ hs =>
    obtain ⟨-, -, hacts⟩ := accountStep_frame hs
    exact absurd hinv (hacts.not_gate _ _)
  | received | found | unchecked | checked | agent | agentRefuses => exact absurd hinv (by simp)
  | done => exact absurd hinv (by simp)

/-- **Gate, Gamed and agent agree**: no assertion fails, no number is returned twice, an account has
one agent, an online user is known with one secret, and so is who sends a request. -/
theorem users_agree {tr : List (Item c)} {s : State} (h : (machine c).Run tr s) :
    (∀ i ∈ tr, Item.Asserted i) ∧
      tr.Pairwise (fun i j => ∀ n subid, Item.Returns i n subid → ¬ Item.Returns j n subid) ∧
      tr.Pairwise (fun i j => ∀ n uid a a', Item.LogsIn i n uid a → Item.LogsIn j n uid a' →
        a = a') ∧
      (∀ n name u, (s.nodes n).gate.gate.userOnline.get name = some u →
        ∃ gu, (s.nodes n).Knows name gu ∧
          gu.secret = ((s.nodes n).gate.gate.users.cell u).secret) ∧
      (∀ i ∈ tr, ∀ n k name m, .gate n (.invoke k name m) ∈ Machine.Item.out i →
        ∃ gu, (i.pre.nodes n).Knows name gu ∧ (s.nodes n).Knows name gu) := by
  have hpre : ∀ a i b, tr = a ++ i :: b →
      Consistent i.pre ∧ Consistent i.post ∧ (machine c).Path i.post b s := by
    rintro a i b rfl
    have hi := Run.consistent h.split.1
    exact ⟨hi, Item.consistent i hi, h.split.2⟩
  refine ⟨fun i hi => ?_, pairwise_of_split ?_, pairwise_of_split ?_, fun n name u hu => ?_,
    fun i hi n k name m hinv => ?_⟩
  · obtain ⟨a, b, hab⟩ := List.append_of_mem hi
    exact Item.asserted i (hpre a i b hab).1
  · intro a i b j d hab n subid hret hret'
    obtain ⟨hi, hi', hpath⟩ := hpre a i _ hab
    -- the number stays used up from `i` to `j`
    have hspent : Consistent j.pre ∧ Spent n subid j.pre :=
      hpath.split.1.keeps (I := fun t => Consistent t ∧ Spent n subid t)
        ⟨hi', (Item.Returns.spent hi hret).1⟩ fun x _ hx =>
        ⟨Item.consistent x hx.1, Item.spent x hx.1 hx.2⟩
    exact (Item.Returns.spent hspent.1 hret').2 hspent.2
  · intro a i b j d hab n uid ag ag' hlog hlog'
    obtain ⟨hi, hi', hpath⟩ := hpre a i _ hab
    have hj : Consistent j.pre := hpath.split.1.keeps hi' fun x _ => Item.consistent x
    have hlater := (Item.later i hi n).trans (Path.later hpath.split.1 hi' n)
    have h1 := hlater.allotted uid ag (hlog.allotted hi)
    exact Option.some.inj (h1.symm.trans (hlog'.allotted hj))
  · have hs := (Run.consistent h).nodes n
    obtain ⟨gu, hgu, hsecret⟩ := hs.online name u hu
    exact ⟨gu, ⟨hgu, (hs.known name gu hgu).2⟩, hsecret⟩
  · obtain ⟨a, b, hab⟩ := List.append_of_mem hi
    obtain ⟨hi, hi', hpath⟩ := hpre a i b hab
    obtain ⟨gu, hgu⟩ := Item.invoke_knows i hi hinv
    exact ⟨gu, hgu, ((Item.later i hi n).trans (Path.later hpath hi' n)).knows name gu hgu⟩

theorem users_agree_firstLogin : ∃ (tr : List (Item someConf)) (s : State) (gu : GameUser),
    (machine someConf).Run tr s ∧ tr.map (·.ev) = firstLogin ∧ (∀ i ∈ tr, Item.Asserted i) ∧
      (s.nodes (bytes "game1")).Knows (accountName (bytes "game1")) gu := by
  obtain ⟨tr, s, hrun, hev, -, hon⟩ := firstLogin_run
  obtain ⟨hasserted, -, -, honline, -⟩ := users_agree hrun
  obtain ⟨u, hu⟩ := Option.ne_none_iff_exists'.mp hon
  obtain ⟨gu, hknows, -⟩ := honline _ _ u hu
  exact ⟨tr, s, gu, hrun, hev, hasserted, hknows⟩

end LsServer.Login
