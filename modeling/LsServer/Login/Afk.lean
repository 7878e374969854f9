import LsServer.GameGate.Live
import LsServer.Login.Agreement
import LsServer.Lua.Value

/-!
# Disconnects and the agent (GameGate.lua, Gamed.lua, Agent.lua)

`handler.disconnect` of `GameGate` calls `conf.disconnect_handler(c.username)`. `Gamed` defines
`server.disconnect_handler(fd, username)`, which looks the username up and calls
`u.agent.req.afk(skynet.self(), fd, username)`, as `response.afk(_, fd, username)` of `Agent`
expects. The username arrives as `fd`, and `username` is `nil`.

Source: GameGate.lua 79 and 138-140; Gamed.lua 73-78; Agent.lua 23-25.

* `disconnectHandler` is a function of two optional arguments, as in Lua: an argument that is not
  given is `nil`, and `username_map[nil]` is `nil`.
* `callDisconnectHandler` is the call of the gate, with one argument.
* `Item.Drops`: the step is the close or error event of an authenticated connection.
* `Item.AfkSent`: the agent of that user gets one `afk`, with the connection and the name, and
  nobody gets one otherwise.

So `afk` is never sent: the statement about runs has a condition that no run with a disconnect
meets.

Results:
* `Item.Drops.recorded`, `Item.Drops.called`: when an authenticated connection ends, its user has
  an agent, and `disconnect_handler` is called once;
* `afkSent_iff`: the agent is told of a disconnect in those runs only that have none.
-/

namespace LsServer.Login

open LsServer.Lib LsServer.Lua LsServer.Crypt LsServer.Cluster

/-- A call of `response.afk` of an agent. -/
structure Afk where
  agent : AgentId
  fd : Value
  username : Value
  deriving DecidableEq

/-- `username_map[username]`. -/
def mapUser (g : Gamed) : Value → Option GameUser
  | .string username => g.usernameMap.get username
  | _ => none

/-- `server.disconnect_handler` of `Gamed`. -/
def disconnectHandler (g : Gamed) (fd username : Value) : List Afk :=
  match mapUser g username with
  | some u => [⟨u.agent, fd, username⟩]
  | none => []

/-- The call of it by the gate of the node, with one argument. -/
def callDisconnectHandler (g : Gamed) (username : Bytes) : List Afk :=
  disconnectHandler g (.string username) .nil

/-- The calls of `afk` by an action at node `n`. -/
def actAfks (n : NodeName) (g : Gamed) : Act → List Afk
  | .gate m (.disconnect username) => if m = n then callDisconnectHandler g username else []
  | _ => []

variable {c : Conf}

/-- The calls of `afk` by a step at node `n`. -/
def Item.afks (i : Item c) (n : NodeName) : List Afk :=
  i.out.flatMap (actAfks n (i.pre.nodes n))

/-- The step handles the close or error event of the connection `fd` of user `u` at node `n`. -/
structure Item.Drops (i : Item c) (n : NodeName) (fd : GameGate.Fd) (u : GameGate.UserId) :
    Prop where
  event : i.ev = .gate n (.close fd) ∨ i.ev = .gate n (.error fd)
  connected : (i.pre.nodes n).gate.gate.connection.get fd = some u

/-- The name of user `u` at node `n`. -/
def userName (s : State) (n : NodeName) (u : GameGate.UserId) : Bytes :=
  ((s.nodes n).gate.gate.users.cell u).username

/-- The agent of a user whose connection ends gets one call, with the connection and the name;
nobody else gets one. -/
structure Item.AfkSent (i : Item c) : Prop where
  drops : ∀ n fd u, i.Drops n fd u → ∃ gu,
    (i.pre.nodes n).usernameMap.get (userName i.pre n u) = some gu ∧
      i.afks n = [⟨gu.agent, .number (.int fd), .string (userName i.pre n u)⟩]
  quiet : ∀ n, (∀ fd u, ¬ i.Drops n fd u) → i.afks n = []

/-! ## The end of a connection -/

/-- Without a name it finds nobody. -/
theorem disconnectHandler_nil (g : Gamed) (fd : Value) : disconnectHandler g fd .nil = [] := rfl

theorem Item.afks_eq_nil (i : Item c) (n : NodeName) : i.afks n = [] := by
  refine List.flatMap_eq_nil_iff.mpr fun a _ => ?_
  unfold actAfks
  split
  · split
    · exact disconnectHandler_nil _ _
    · rfl
  · rfl

/-- **The user of a connection that ends has an agent**, which knows it. -/
theorem Item.Drops.recorded {i : Item c} (hs : Consistent i.pre) {n : NodeName}
    {fd : GameGate.Fd} {u : GameGate.UserId} (h : i.Drops n fd u) :
    ∃ gu, (i.pre.nodes n).Knows (userName i.pre n u) gu := by
  have hn := hs.nodes n
  obtain ⟨v, hv⟩ := Option.ne_none_iff_exists'.mp (hn.connected fd u h.connected)
  obtain ⟨gu, hgu, -⟩ := hn.online _ v hv
  exact ⟨gu, hgu, (hn.known _ gu hgu).2⟩

/-- The gate handles the event. -/
theorem Item.Drops.gate_step {i : Item c} {n : NodeName} {fd : GameGate.Fd}
    {u : GameGate.UserId} (h : i.Drops n fd u) : ∃ x : GameGate.Item c.gate,
      (x.ev = .close fd ∨ x.ev = .error fd) ∧ x.pre = (i.pre.nodes n).gate ∧
        (i.post.nodes n).gate = x.post ∧ i.out = x.out.map (.gate n) := by
  have hok := i.ok
  have hstep : ∀ e, (e = .close fd ∨ e = .error fd) → i.ev = .gate n e →
      gateStep c i.pre n e = some (i.post, i.out) := by
    intro e he hev
    rw [hev] at hok
    rcases he with rfl | rfl
    · exact hok
    · exact hok
  obtain ⟨e, he, hev⟩ : ∃ e, (e = .close fd ∨ e = .error fd) ∧ i.ev = .gate n e := by
    rcases h.event with hev | hev
    · exact ⟨_, .inl rfl, hev⟩
    · exact ⟨_, .inr rfl, hev⟩
  obtain ⟨x, hx, heq⟩ := Option.map_eq_some_iff.mp (hstep e he hev)
  obtain ⟨hpost, hout⟩ := Prod.mk.inj heq
  exact ⟨⟨_, e, x.1, x.2, hx⟩, he, rfl, by rw [← hpost, setNode_nodes_self], hout.symm⟩

theorem disconnect_calls {g : GameGate.Gate} {fd : GameGate.Fd} {u : GameGate.UserId}
    (h : g.connection.get fd = some u) :
    (GameGate.disconnect g fd).2.count (.disconnect (g.users.cell u).username) = 1 ∧
      (GameGate.disconnect g fd).1.connection.get fd = none := by
  rw [GameGate.disconnect_some h]
  refine ⟨?_, Table.get_del_self _ _⟩
  rw [List.count_cons_self]
  split <;> simp

/-- What the gate does. -/
theorem disconnects {x : GameGate.Item c.gate} {fd : GameGate.Fd} {u : GameGate.UserId}
    (hev : x.ev = .close fd ∨ x.ev = .error fd)
    (hu : x.pre.gate.connection.get fd = some u) :
    x.out.count (.disconnect (x.pre.gate.users.cell u).username) = 1 ∧
      x.post.gate.connection.get fd = none := by
  have hx := x.inv.1
  rcases hev with hev | hev
  · rw [hev, GameGate.handle, Option.ite_none_left_eq_some, Option.some_inj] at hx
    have hout : x.out = (GameGate.msgClose x.pre.gate fd).2 := congrArg Prod.snd hx.2.symm
    have hpost : x.post.gate = (GameGate.msgClose x.pre.gate fd).1 := congrArg Prod.fst hx.2.symm
    rw [hout, hpost]
    exact disconnect_calls (g := { x.pre.gate with
      clientNumber := x.pre.gate.clientNumber - 1
      gsConnection := if x.pre.gate.gsConnection.get fd = some true then
        x.pre.gate.gsConnection.set fd false else x.pre.gate.gsConnection }) hu
  · rw [hev, GameGate.handle, Option.ite_none_left_eq_some, Option.some_inj] at hx
    have hout : x.out = (GameGate.msgError x.pre.gate fd).2 := congrArg Prod.snd hx.2.symm
    have hpost : x.post.gate = (GameGate.msgError x.pre.gate fd).1 := congrArg Prod.fst hx.2.symm
    rw [hout, hpost]
    obtain ⟨hcount, hnone⟩ := disconnect_calls hu
    exact ⟨(List.count_cons_of_ne (by simp)).trans hcount, hnone⟩

/-- **`disconnect_handler` is called once**, with the name, and the connection is gone. -/
theorem Item.Drops.called {i : Item c} {n : NodeName} {fd : GameGate.Fd} {u : GameGate.UserId}
    (h : i.Drops n fd u) :
    i.out.count (.gate n (.disconnect (userName i.pre n u))) = 1 ∧
      (i.post.nodes n).gate.gate.connection.get fd = none := by
  obtain ⟨x, hev, hpre, hpost, hout⟩ := h.gate_step
  obtain ⟨hcount, hnone⟩ := disconnects hev (hpre ▸ h.connected)
  rw [hpost, hout, List.count_map_of_injective _ _ fun _ _ heq => (Act.gate.inj heq).2, userName,
    ← hpre]
  exact ⟨hcount, hnone⟩

/-- **No disconnect reaches an agent.** -/
theorem afkSent_iff {tr : List (Item c)} {s : State} (h : (machine c).Run tr s) :
    ((∀ i ∈ tr, Item.AfkSent i) ↔ ∀ i ∈ tr, ∀ n fd u, ¬ Item.Drops i n fd u) ∧
      ∀ i ∈ tr, ∀ n fd u, Item.Drops i n fd u →
        (∃ gu, (i.pre.nodes n).Knows (userName i.pre n u) gu) ∧
          i.out.count (.gate n (.disconnect (userName i.pre n u))) = 1 ∧
          (i.post.nodes n).gate.gate.connection.get fd = none ∧ Item.afks i n = [] := by
  refine ⟨⟨fun hsent i hi n fd u hd => ?_, fun hno i hi => ?_⟩, fun i hi n fd u hd => ?_⟩
  · obtain ⟨gu, -, hafks⟩ := (hsent i hi).drops n fd u hd
    exact absurd (hafks.symm.trans (i.afks_eq_nil n)) (by simp)
  · exact ⟨fun n fd u hd => absurd hd (hno i hi n fd u), fun n _ => i.afks_eq_nil n⟩
  · obtain ⟨a, b, rfl⟩ := List.append_of_mem hi
    exact ⟨hd.recorded (Run.consistent h.split.1), hd.called.1, hd.called.2, i.afks_eq_nil n⟩

/-! ## Concrete runs -/

/-- A user logs in at node `game1`, which does not reach the logic center, connects and leaves. -/
def leaving : List Event :=
  let n := bytes "game1"
  let secret := bytes "12345678"
  [.call n (bytes "account") secret, .receive 0, .search 0 .queryFails, .agent 0, .agentDone 0,
    .gate n (.connect 1 (bytes "10.0.0.1:1")),
    .gate n (.packet 1 (GameGate.handshakeOf (accountName n) secret (bytes "1"))),
    .gate n (.close 1)]

theorem afkSent_iff_firstLogin : ∃ (tr : List (Item someConf)) (s : State),
    (machine someConf).Run tr s ∧ tr.map (·.ev) = firstLogin ∧ ∀ i ∈ tr, Item.AfkSent i := by
  obtain ⟨tr, s, hrun, hev, -, -⟩ := firstLogin_run
  refine ⟨tr, s, hrun, hev, (afkSent_iff hrun).1.mpr fun i hi n fd u hd => ?_⟩
  have hmem : i.ev ∈ firstLogin := hev ▸ List.mem_map_of_mem hi
  have hno : ∀ e ∈ firstLogin, ∀ m x, e ≠ .gate m x := by
    simp [firstLogin, accepted]
  rcases hd.event with h | h
  · exact hno _ hmem _ _ h
  · exact hno _ hmem _ _ h

/-- **A disconnect that does not reach the agent.** -/
theorem unsent_afk : ∃ (tr : List (Item someConf)) (s : State),
    (machine someConf).Run tr s ∧ tr.map (·.ev) = leaving ∧
      ∃ i ∈ tr, Item.Drops i (bytes "game1") 1 0 ∧ ¬ Item.AfkSent i := by
  have h : ((machine someConf).items (machine someConf).init leaving).map (fun tr =>
      decide (tr.map (·.ev) = leaving ∧ ∃ i ∈ tr, i.ev = .gate (bytes "game1") (.close 1) ∧
        (i.pre.nodes (bytes "game1")).gate.gate.connection.get 1 = some 0)) = some true := by
    decide +kernel
  obtain ⟨tr, hrun, hP⟩ := Machine.exists_run h
  obtain ⟨hev, i, hi, hclose, hconnected⟩ := of_decide_eq_true hP
  have hdrops : Item.Drops i (bytes "game1") 1 0 := ⟨.inl hclose, hconnected⟩
  refine ⟨tr, _, hrun, hev, i, hi, hdrops, fun hsent => ?_⟩
  obtain ⟨gu, -, hafks⟩ := hsent.drops _ _ _ hdrops
  exact absurd (hafks.symm.trans (Item.afks_eq_nil i _)) (by simp)

end LsServer.Login
