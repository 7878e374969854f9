import LsServer.Crypt.Des
import LsServer.Login.Gamed
import LsServer.Lua.Strings
import LsServer.Sproto.Protocol

/-!
# Requests at an agent (Gamed.lua, Agent.lua)

`server.request_handler` forwards a message to the agent of its user, behind the name of the user
and the length of the name. The agent takes the three apart in `msgUnpack`, and answers in
`msgDispatch` every sub-message that has a session. `AgentNames[username].lock` runs one
`msgDispatch` of a user at a time; none of them waits, so the lock does not show here.

Source: Gamed.lua `server.request_handler` 85-89; Agent.lua `msgUnpack` 27-36, `msgDispatch` 38-61,
the protocol `client` in `init` 65-74.

* The length of the name travels as a double (`<d`), so `msgUnpack` reads an integer of up to 53
  bits.
* `rawMsg` is the part up to `_C2S_Request:dispatch`: it raises for a name that the agent does not
  have, and where `desdecode` does.
* `dispatch` is that of a host that has sent nothing, so a message that looks like a response
  raises.
* `subResponses` is the loop: it raises for a sub-message that cannot be read, and skips one without
  a session.
* `client` is `skynet.ret` of the result: `nil` goes as the empty string.

Every request is answered with `hi client`; the application has no other handler yet.

Results:
* `rawMsg_requestHandler`: what is forwarded is taken apart as it was put together;
* `subResponses_eq`: one response for each sub-message that has a session, in order.

Out of scope: the log, for which `table.dump` writes the sub-message, and `_S2C_Push`, through which
nothing is sent.
-/

namespace LsServer.Agent

open LsServer.Lib LsServer.Lua LsServer.Crypt LsServer.Sproto LsServer.Login

/-- `server.request_handler` up to its call: the agent and what it is sent; `none` where it
raises. -/
def requestHandler (g : Gamed) (username msg : Bytes) : Option (AgentId × Bytes) :=
  (g.usernameMap.get username).map fun u =>
    (u.agent, packDouble username.length ++ username ++ msg)

/-- `_C2S_Request:dispatch`. Nothing is sent through `_S2C_Push`, so this host waits for no
session. -/
def dispatch (s : Bytes) : Option Dispatched := (Host.init.dispatch s).map Prod.snd

/-- The first half of `msgUnpack`: the name, and what is handed to `dispatch`. -/
def rawMsg (names : Table Bytes AgentUser) (msg : Bytes) : Option (Bytes × Bytes) := do
  let len ← unpackDouble msg
  let msg := sub msg 9 (-1)
  let username := sub msg 1 len
  let msg := sub msg (len + 1) (-1)
  let u ← names.get username
  let raw ← desdecode u.secret msg
  some (username, raw)

/-- `msgUnpack`. -/
def msgUnpack (names : Table Bytes AgentUser) (msg : Bytes) : Option (Dispatched × Bytes) := do
  let (username, raw) ← rawMsg names msg
  let d ← dispatch raw
  some (d, username)

/-- `sprotoMsg`. -/
def message : Dispatched → Message
  | .request _ m _ => m
  | .response _ m => m

/-- `responser`: the protocol and the session it answers. -/
def responser : Dispatched → Option (Proto × Int)
  | .request proto _ session => session.map fun s => (proto, s)
  | .response _ _ => none

/-- `responseMsg`. -/
def responseMsg : Message := ⟨none, some (bytes "hi client")⟩

/-- `thisResp`. -/
def thisResp (r : Proto × Int) : MessageContent := ⟨some (genResponse r.1 r.2 responseMsg), none⟩

/-- The loop of `msgDispatch`: `content`. -/
def subResponses : List MessageContent → Option (List MessageContent)
  | [] => some []
  | m :: l => do
    let s ← m.message
    let d ← dispatch s
    let content ← subResponses l
    some (((responser d).map thisResp).toList ++ content)

/-- `msgDispatch`; the outer `none` where it raises. -/
def msgDispatch (names : Table Bytes AgentUser) (d : Dispatched) (username : Bytes) :
    Option (Option Bytes) := do
  let l ← (message d).content
  let content ← subResponses l
  if content = [] then some none
  else do
    let (proto, session) ← responser d
    let u ← names.get username
    let ret ← desencode u.secret (genResponse proto session ⟨some content, none⟩)
    some (some ret)

/-- The dispatch of the protocol `client`: what `skynet.ret` sends back, the empty string for
`nil`. -/
def client (names : Table Bytes AgentUser) (msg : Bytes) : Option Bytes := do
  let (d, username) ← msgUnpack names msg
  let ret ← msgDispatch names d username
  some (ret.getD [])

/-! ## Forwarding -/

/-- The tables of node and agent name the user `name` with this secret. -/
structure Knows (g : Gamed) (name secret : Bytes) (agent : AgentId) : Prop where
  user : ∃ u, g.usernameMap.get name = some u ∧ u.agent = agent
  agent : ∃ u, (g.agentNames agent).get name = some u ∧ u.secret = secret

/-- **What is forwarded is taken apart as it was put together.** -/
theorem rawMsg_forwarded {names : Table Bytes AgentUser} {name e : Bytes} {u : AgentUser}
    (hu : names.get name = some u) (hlen : name.length < 2 ^ 53) :
    rawMsg names (packDouble name.length ++ name ++ e) =
      (desdecode u.secret e).map fun x => (name, x) := by
  have hread : unpackDouble (packDouble name.length ++ name ++ e) = some (name.length : Int) := by
    rw [List.append_assoc, unpackDouble_packDouble hlen]
  have hcut : sub (packDouble name.length ++ name ++ e) 9 (-1) = name ++ e := by
    rw [show (9 : Int) = ((8 : Nat) : Int) + 1 from rfl, sub_neg_one, List.append_assoc,
      List.drop_left' (packDouble_length _)]
  simp only [rawMsg, hread, hcut, sub_one, sub_neg_one, List.take_left, List.drop_left, hu,
    Option.bind_eq_bind, Option.bind_some]
  cases desdecode u.secret e <;> rfl

theorem rawMsg_requestHandler {g : Gamed} {name secret e : Bytes} {agent : AgentId}
    (h : Knows g name secret agent) (hlen : name.length < 2 ^ 53) :
    ∃ msg, requestHandler g name e = some (agent, msg) ∧
      rawMsg (g.agentNames agent) msg = (desdecode secret e).map fun x => (name, x) := by
  obtain ⟨⟨u, hu, rfl⟩, ⟨v, hv, rfl⟩⟩ := h
  exact ⟨_, by rw [requestHandler, hu]; rfl, rawMsg_forwarded hv hlen⟩

/-! ## Sub-messages -/

/-- The responder of a sub-message, if it has a session. -/
def subResponser (m : MessageContent) : Option (Proto × Int) :=
  (m.message.bind dispatch).bind responser

/-- **One response for each sub-message that has a session**, in order. -/
theorem subResponses_eq {l content : List MessageContent} (h : subResponses l = some content) :
    content = (l.filterMap subResponser).map thisResp := by
  induction l generalizing content with
  | nil => exact (Option.some.inj h).symm
  | cons m l ih =>
    simp only [subResponses, Option.bind_eq_bind, Option.bind_eq_some_iff, Option.some.injEq] at h
    obtain ⟨s, hs, d, hd, rest, hrest, rfl⟩ := h
    have hsub : subResponser m = responser d := by
      rw [subResponser, hs, Option.bind_some, hd, Option.bind_some]
    rw [ih hrest]
    cases hr : responser d with
    | none => rw [List.filterMap_cons_none (hsub.trans hr)]; rfl
    | some r => rw [List.filterMap_cons_some (hsub.trans hr)]; rfl

/-- The session of a sub-message is an integer of Lua. -/
theorem responser_isInt64 {s : Bytes} {d : Dispatched} {r : Proto × Int}
    (hd : dispatch s = some d) (hr : responser d = some r) : IsInt64 r.2 := by
  obtain ⟨⟨host, d⟩, hdis, rfl⟩ := Option.map_eq_some_iff.mp hd
  simp only [Host.dispatch, Option.bind_eq_bind, Option.bind_eq_some_iff] at hdis
  obtain ⟨bin, -, ⟨header, content⟩, hheader, hdis⟩ := hdis
  cases htype : header.type with
  | none =>
    simp only [htype, Option.bind_eq_some_iff] at hdis
    obtain ⟨session, -, proto, hwait, -⟩ := hdis
    exact absurd hwait (by simp [Host.init])
  | some type =>
    simp only [htype, Option.bind_eq_some_iff, Option.some.injEq, Prod.mk.injEq] at hdis
    obtain ⟨proto, -, m, -, -, rfl⟩ := hdis
    obtain ⟨session, hsession, rfl⟩ := Option.map_eq_some_iff.mp hr
    exact decodeHeader_session hheader hsession

end LsServer.Agent
