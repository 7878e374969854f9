import LsServer.GameGate.Invariant
import Mathlib.Logic.Function.Basic

/-!
# Logins at a game node (Gamed.lua, Agent.lua)

`server.login_handler` mints a username, makes a remote call, finds the agent of the account, tells
the agent, and only then enters the user into `username_map` and `user_online`; the two calls in
between suspend it. Each part between two waits is a function here. `agentNames` is the table
`AgentNames` of each agent.

Source: Gamed.lua, the tables 9-18, `allocAgent` 20-27, `server.login_handler` 31-65,
`server.kick_handler` 80-82; GameGate.lua `server.username` 89-95; Agent.lua `response.login` 11-21.

* `subid` counts the logins of the node, from 1 on; it is taken before the first wait.
* A username is `base64(uid)@base64(servername)@base64(subid)`. No base64 text has an `@`, so
  account, node and number are read back from it, and no two logins of a node mint one name.
* `maxAgent` is 1, so every account gets the same agent; `findAgent` has the general code.
* `agentLogin` and `loginEnd` are `none` where an `assert` fails. `loginEnd` enters the user into
  `username_map` and calls `server.login` of the gate.

The result of `checkRepetitionLogin` is not used: `login_handler` only waits for the call.

Results:
* `username_inj`: a username is minted for one account and number;
* `Gamed.Mapped`: every online user is in `username_map`, so no login replaces an online user.

Out of scope: `logout_handler`, which is empty, and the processes of the agents, which are started
before the gate opens.
-/

namespace LsServer.Login

open LsServer.Lib LsServer.Lua LsServer.Crypt

/-- The place of an agent in `agents`. -/
abbrev AgentId := Nat

/-- `maxAgent`. -/
def maxAgent : Nat := 1

/-- An entry of `username_map`. -/
structure GameUser where
  username : Bytes
  secret : Bytes
  uid : Bytes
  subid : Nat
  agent : AgentId
  deriving DecidableEq

/-- An entry of `AgentNames`. -/
structure AgentUser where
  uid : Bytes
  subid : Nat
  secret : Bytes
  deriving DecidableEq

/-- The tables of a game node. -/
structure Gamed where
  gate : GameGate.State
  innerIndex : Nat
  usernameMap : Table Bytes GameUser
  agentId : Nat
  uidAgent : Table Bytes AgentId
  agentNames : AgentId → Table Bytes AgentUser

/-- A node that has started. -/
def Gamed.init : Gamed := ⟨⟨.init, .empty⟩, 0, .empty, 0, .empty, fun _ => .empty⟩

/-- `server.login_handler` up to its remote call: a fresh `subid`. -/
def loginHandler (g : Gamed) : Gamed × Nat :=
  ({ g with innerIndex := g.innerIndex + 1 }, g.innerIndex + 1)

/-- `server.login_handler` between its two calls: the agent of the account. All `maxAgent` agents
are running, so the assertion holds. -/
def findAgent (g : Gamed) (uid : Bytes) : Gamed × AgentId :=
  match g.uidAgent.get uid with
  | some agent => (g, agent)
  | none =>
    let agent := (g.agentId + 1) % maxAgent + 1
    ({ g with agentId := g.agentId + 1, uidAgent := g.uidAgent.set uid agent }, agent)

/-- The user that `login_handler` mints at the node `servername`. -/
def gameUser (servername uid secret : Bytes) (subid : Nat) (agent : AgentId) : GameUser :=
  ⟨GameGate.username uid (tostring subid) servername, secret, uid, subid, agent⟩

/-- `response.login` of the agent of `u`; `none` where the assertion fails. -/
def agentLogin (g : Gamed) (u : GameUser) : Option Gamed :=
  match (g.agentNames u.agent).get u.username with
  | some _ => none
  | none => some { g with
      agentNames := Function.update g.agentNames u.agent
        ((g.agentNames u.agent).set u.username ⟨u.uid, u.subid, u.secret⟩) }

/-- The end of `server.login_handler`; `none` where the assertion fails. -/
def loginEnd (g : Gamed) (u : GameUser) : Option Gamed :=
  match g.usernameMap.get u.username with
  | some _ => none
  | none => some { g with
      usernameMap := g.usernameMap.set u.username u
      gate := { g.gate with gate := GameGate.serverLogin g.gate.gate u.username u.secret } }

/-- `server.kick_handler`. -/
def kickHandler (g : Gamed) (_username : Bytes) : Gamed := g

/-! ## Usernames -/

theorem at_not_mem_base64encode (s : Bytes) : (64 : UInt8) ∉ base64encode s :=
  not_mem_base64encode (by decide)

/-- A list is cut at the first `@` in one way. -/
theorem append_at_inj {a b x y : Bytes} (ha : (64 : UInt8) ∉ a) (hb : (64 : UInt8) ∉ b)
    (h : a ++ 64 :: x = b ++ 64 :: y) : a = b ∧ x = y := by
  induction a generalizing b with
  | nil =>
    cases b with
    | nil => exact ⟨rfl, (List.cons.inj h).2⟩
    | cons c b =>
      rw [List.nil_append, List.cons_append, List.cons.injEq] at h
      exact absurd (List.mem_cons.mpr (Or.inl h.1)) hb
  | cons c a ih =>
    cases b with
    | nil =>
      rw [List.nil_append, List.cons_append, List.cons.injEq] at h
      exact absurd (List.mem_cons.mpr (Or.inl h.1.symm)) ha
    | cons d b =>
      rw [List.cons_append, List.cons_append, List.cons.injEq] at h
      obtain ⟨rfl, rfl⟩ := ih (fun hm => ha (List.mem_cons_of_mem _ hm))
        (fun hm => hb (List.mem_cons_of_mem _ hm)) h.2
      exact ⟨by rw [h.1], rfl⟩

/-- **A username determines** the account, the node and the number it was minted for. -/
theorem username_inj {uid uid' subid subid' server server' : Bytes}
    (h : GameGate.username uid subid server = GameGate.username uid' subid' server') :
    uid = uid' ∧ subid = subid' ∧ server = server' := by
  have hat : bytes "@" = [64] := by decide
  unfold GameGate.username at h
  rw [hat] at h
  simp only [List.append_assoc, List.singleton_append] at h
  obtain ⟨h1, h2⟩ := append_at_inj (at_not_mem_base64encode _) (at_not_mem_base64encode _) h
  obtain ⟨h2, h3⟩ := append_at_inj (at_not_mem_base64encode _) (at_not_mem_base64encode _) h2
  exact ⟨base64encode_injective h1, base64encode_injective h3, base64encode_injective h2⟩

/-! ## Online users -/

/-- Every online user is in `username_map`. -/
def Gamed.Mapped (g : Gamed) : Prop :=
  ∀ name, g.gate.gate.userOnline.get name ≠ none → g.usernameMap.get name ≠ none

theorem Gamed.init_mapped : Gamed.init.Mapped := fun _ h => absurd rfl h

theorem loginEnd_eq_some {g g' : Gamed} {u : GameUser} (h : loginEnd g u = some g') :
    g.usernameMap.get u.username = none ∧ g'.usernameMap = g.usernameMap.set u.username u ∧
      g'.gate = { g.gate with gate := GameGate.serverLogin g.gate.gate u.username u.secret } ∧
      g'.agentNames = g.agentNames ∧ g'.uidAgent = g.uidAgent ∧ g'.innerIndex = g.innerIndex := by
  unfold loginEnd at h
  cases hu : g.usernameMap.get u.username with
  | some v => simp [hu] at h
  | none =>
    rw [hu] at h
    obtain rfl := Option.some.inj h
    exact ⟨rfl, rfl, rfl, rfl, rfl, rfl⟩

theorem agentLogin_eq_some {g g' : Gamed} {u : GameUser} (h : agentLogin g u = some g') :
    (g.agentNames u.agent).get u.username = none ∧
      g' = { g with
        agentNames := Function.update g.agentNames u.agent
          ((g.agentNames u.agent).set u.username ⟨u.uid, u.subid, u.secret⟩) } := by
  unfold agentLogin at h
  cases hu : (g.agentNames u.agent).get u.username with
  | some v => simp [hu] at h
  | none =>
    rw [hu] at h
    exact ⟨rfl, (Option.some.inj h).symm⟩

/-- The user of a login that ends comes online, and was not before. -/
theorem loginEnd_online {g g' : Gamed} {u : GameUser} (hm : g.Mapped)
    (h : loginEnd g u = some g') :
    g.gate.gate.userOnline.get u.username = none ∧ g'.Mapped ∧
      ∀ name, g'.gate.gate.userOnline.get name ≠ none ↔
        g.gate.gate.userOnline.get name ≠ none ∨ name = u.username := by
  obtain ⟨hnone, hmap, hgate, -⟩ := loginEnd_eq_some h
  have hon : g'.gate.gate.userOnline =
      g.gate.gate.userOnline.set u.username g.gate.gate.users.next := by rw [hgate]; rfl
  have hiff : ∀ name, g'.gate.gate.userOnline.get name ≠ none ↔
      g.gate.gate.userOnline.get name ≠ none ∨ name = u.username := by
    intro name
    rw [hon]
    by_cases hn : name = u.username
    · simp [hn]
    · simp [Table.get_set_ne hn, hn]
  refine ⟨by_contra fun hne => hm _ hne hnone, fun name hname => ?_, hiff⟩
  rw [hmap]
  by_cases hn : name = u.username
  · simp [hn]
  · rw [Table.get_set_ne hn]
    exact hm name (((hiff name).mp hname).resolve_right hn)

/-- No socket event changes who is online. -/
theorem gate_userOnline {c : GameGate.Conf} (i : GameGate.Item c)
    (hlogin : ∀ username secret, i.ev ≠ .login username secret)
    (hlogout : ∀ username, i.ev ≠ .logout username) :
    i.post.gate.userOnline = i.pre.gate.userOnline := by
  cases i.kind with
  | quiet hg => exact hg.userOnline
  | accept h =>
    obtain ⟨addr, hg, -⟩ := h.post
    rw [hg]
    rfl
  | sever _ hg => exact hg.userOnline
  | login hev => exact absurd hev (hlogin _ _)
  | logout hev => exact absurd hev (hlogout _)

end LsServer.Login
