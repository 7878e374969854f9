import LsServer.Client.Request
import LsServer.GameGate.Request

/-!
# A response on its way back (Agent.lua, GameGate.lua, ClientCommon.lua)

The agent encrypts its answer only where there is one: `msgDispatch` returns `nil` for a request
none of whose sub-messages has a session, and `skynet.ret` sends the empty string for it. The gate
puts the status 1 behind that as behind any other answer. `printRecvSproto` decrypts every body, and
`desdecode` raises for an empty one.

Source: Agent.lua 38-61; GameGate.lua 250-260; ClientCommon.lua 29-44.

* `Responds`: an element of the answer is a response for the session of a sub-message.
* `Decodes`: `printRecvSproto` takes the package apart, finds a response for the session that the
  client waits for, and in it one element for each sub-message that has a session, in their order.
* The condition is on the request: one of its sub-messages has a session.

The frame of the gate has the body, the status and the session behind it, and `printRecvSproto` cuts
the last five bytes off. So an answer of the agent comes through as it is; only the empty one cannot
be decrypted.

Result: `response_decodes_iff`: the client reads the response exactly if a sub-message has a
session.
-/

namespace LsServer.Client

open LsServer.Lib LsServer.Lua LsServer.Crypt LsServer.Sproto LsServer.Login LsServer.Agent

/-- The element `m` of a content is a response for the sub-message that `r` answers: whoever waits
for that session gets it. -/
def Responds (r : Proto × Int) (m : MessageContent) : Prop :=
  ∃ s, m.message = some s ∧ ∀ host : Host, host.sessions.get r.2 = some r.1 →
    ∃ args, host.dispatch s = some (⟨host.sessions.del r.2⟩, .response r.2 args)

/-- `printRecvSproto` takes the frame apart: status 1, the session of the gate, and a response for
`session` that has, in order, one response for each of `subs`. -/
def Decodes (c : ClientCommon) (frame : Bytes) (gsession : Nat) (session : Int)
    (subs : List (Proto × Int)) : Prop :=
  ∃ body c' content, unpackPackage frame = some (body, []) ∧
    recvSproto c body =
      some (c', ⟨some 1, packBE 4 gsession, .response session ⟨some content, none⟩⟩) ∧
    List.Forall₂ Responds subs content

/-- The sub-messages of a request that have a session. -/
def subRequests (m : Message) : List (Proto × Int) := (m.content.getD []).filterMap subResponser

/-! ## What the agent sends back -/

/-- The reply to a request: encrypted if there is anything to answer, else empty. -/
theorem client_reply {names : Table Bytes AgentUser} {msg name reply : Bytes} {m : Message}
    {session : Int} {u : AgentUser}
    (hreq : msgUnpack names msg = some (.request .gateMessage m (some session), name))
    (hu : names.get name = some u) (hreply : client names msg = some reply) :
    (subRequests m = [] ∧ reply = []) ∨ (subRequests m ≠ [] ∧
      desencode u.secret (genResponse .gateMessage session
        ⟨some ((subRequests m).map thisResp), none⟩) = some reply) := by
  simp only [client, hreq, msgDispatch, message, responser, hu, Option.bind_eq_bind,
    Option.bind_some, Option.map_some, Option.bind_eq_some_iff] at hreply
  obtain ⟨ret, ⟨l, hl, content, hcontent, hret⟩, hreply⟩ := hreply
  obtain rfl := Option.some.inj hreply
  have hsubs : content = (subRequests m).map thisResp := by
    rw [subResponses_eq hcontent, subRequests, hl, Option.getD_some]
  subst hsubs
  by_cases hnil : subRequests m = []
  · rw [if_pos (by rw [hnil]; rfl)] at hret
    obtain rfl := Option.some.inj hret
    exact .inl ⟨hnil, rfl⟩
  · rw [if_neg (by rwa [List.map_eq_nil_iff])] at hret
    obtain ⟨e, he, hret⟩ := Option.bind_eq_some_iff.mp hret
    obtain rfl := Option.some.inj hret
    exact .inr ⟨hnil, he⟩

/-- The sessions of a request are integers of Lua. -/
theorem subRequests_isInt64 {m : Message} {r : Proto × Int} (h : r ∈ subRequests m) :
    IsInt64 r.2 := by
  obtain ⟨e, -, hr⟩ := List.mem_filterMap.mp h
  obtain ⟨d, hd, hr⟩ := Option.bind_eq_some_iff.mp hr
  obtain ⟨s, -, hd⟩ := Option.bind_eq_some_iff.mp hd
  exact responser_isInt64 hd hr

theorem valid_map_thisResp (l : List (Proto × Int)) :
    Message.Valid ⟨some (l.map thisResp), none⟩ := by
  intro content hcontent e he
  obtain rfl := Option.some.inj hcontent
  obtain ⟨r, -, rfl⟩ := List.mem_map.mp he
  intro x hx
  exact absurd hx (by simp [thisResp])

/-- The content of a response that fits in a frame is made of responses. -/
theorem forall₂_responds {l : List (Proto × Int)} (hint : ∀ r ∈ l, IsInt64 r.2)
    (hlen : ∀ r ∈ l, (genResponse r.1 r.2 responseMsg).length < 2 ^ 29) :
    List.Forall₂ Responds l (l.map thisResp) := by
  rw [List.forall₂_map_right_iff, List.forall₂_same]
  intro r hr
  refine ⟨_, rfl, fun host hwait => ⟨responseMsg.fields r.1, ?_⟩⟩
  exact Host.dispatch_genResponse hwait (hint r hr) (by simp [Message.Valid, responseMsg])
    (hlen r hr)

/-! ## What the client reads -/

theorem unpackPackage_responseFrame {reply frame : Bytes} {gsession : Nat}
    (hframe : GameGate.responseFrame (.ok (some reply)) gsession = some frame) :
    reply.length < 2 ^ 16 ∧ unpackPackage frame = some (reply ++ 1 :: packBE 4 gsession, []) := by
  obtain ⟨hlen, heq⟩ := Option.ite_none_right_eq_some.mp hframe
  have hbody : GameGate.responseBody (.ok (some reply)) gsession =
      reply ++ 1 :: packBE 4 gsession := rfl
  rw [hbody] at hlen heq
  obtain rfl := Option.some.inj heq
  have hread := unpackPackage_frame hlen []
  rw [List.append_nil] at hread
  rw [List.length_append] at hlen
  exact ⟨by omega, hread⟩

/-- An empty body is no ciphertext. -/
theorem not_decodes_empty {c : ClientCommon} {frame : Bytes} {gsession : Nat} {session : Int}
    {subs : List (Proto × Int)}
    (hframe : GameGate.responseFrame (.ok (some [])) gsession = some frame) :
    ¬ Decodes c frame gsession session subs := by
  rintro ⟨body, c', content, hbody, hdec, -⟩
  obtain ⟨-, hpackage⟩ := unpackPackage_responseFrame hframe
  obtain ⟨rfl, -⟩ := Prod.mk.inj (Option.some.inj (hpackage.symm.trans hbody))
  have hraise : desdecode c.secret [] = none := if_neg (by simp)
  rw [recvSproto_response c [] _ 1 (packBE_length _ _), hraise] at hdec
  exact absurd hdec (by simp)

/-- **The client reads a response exactly if a sub-message has a session.** -/
theorem response_decodes_iff {names : Table Bytes AgentUser} {msg name reply frame : Bytes}
    {m : Message} {session : Int} {u : AgentUser} {gsession : Nat} {c : ClientCommon}
    (hreq : msgUnpack names msg = some (.request .gateMessage m (some session), name))
    (hu : names.get name = some u) (hreply : client names msg = some reply)
    (hframe : GameGate.responseFrame (.ok (some reply)) gsession = some frame)
    (hsecret : c.secret = u.secret) (hwait : c.push.sessions.get session = some .gateMessage) :
    Decodes c frame gsession session (subRequests m) ↔
      ∃ l, m.content = some l ∧ ∃ e ∈ l, subResponser e ≠ none := by
  have hsome : (∃ l, m.content = some l ∧ ∃ e ∈ l, subResponser e ≠ none) ↔
      subRequests m ≠ [] := by
    unfold subRequests
    cases m.content with
    | none => simp
    | some l => simp [List.filterMap_eq_nil_iff]
  rw [hsome]
  rcases client_reply hreq hu hreply with ⟨hnil, rfl⟩ | ⟨hne, he⟩
  · exact iff_of_false (not_decodes_empty hframe) (not_not.mpr hnil)
  · refine iff_of_true ?_ hne
    obtain ⟨hlen, hpackage⟩ := unpackPackage_responseFrame hframe
    have hrecv := recvSproto_response c reply (packBE 4 gsession) 1 (packBE_length _ _)
    have hshort := length_lt_desencode he
    have hlong := length_le_genResponse .gateMessage session
      ⟨some ((subRequests m).map thisResp), none⟩
    have hint : IsInt64 session := by
      simp only [msgUnpack, Option.bind_eq_bind, Option.bind_eq_some_iff, Option.some.injEq,
        Prod.mk.injEq] at hreq
      obtain ⟨x, -, d, hd, rfl, -⟩ := hreq
      exact responser_isInt64 (r := (.gateMessage, session)) hd rfl
    have hdispatch := Host.dispatch_genResponse hwait hint (valid_map_thisResp (subRequests m))
      (by omega)
    refine ⟨_, { c with push := ⟨c.push.sessions.del session⟩ }, _, hpackage, ?_,
      forall₂_responds (fun r => subRequests_isInt64) fun r hr => ?_⟩
    · rw [hrecv, hsecret, desdecode_eq_of_desencode he, Option.bind_some, hdispatch]
      rfl
    · have hle := length_le_encodeMessage (List.mem_map_of_mem (f := thisResp) hr) rfl
      omega

/-- A client that has sent nothing. -/
def freshClient : ClientCommon := ⟨0, 0, someSecret, .init⟩

/-- A request with one sub-message, which has the session `sub`. -/
def helloRequest (sub : Option Int) : Message :=
  ⟨some [⟨some (Host.init.send .helloAgent ⟨none, some (bytes "hi agent")⟩ sub).2, none⟩], none⟩

/-- The request as it arrives at the agent. -/
def forwarded (sub : Option Int) : Bytes :=
  let e := desencode someSecret (c2sRequest freshClient .gateMessage (helloRequest sub)).2
  packDouble 4 ++ bytes "user" ++ e.getD []

/-- The client that waits for the response to it. -/
def waitingClient (sub : Option Int) : ClientCommon :=
  (c2sRequest freshClient .gateMessage (helloRequest sub)).1

/-- A sub-message with a session is answered. -/
theorem response_decodes_hello :
    ∃ reply frame, client (oneUser.agentNames 1) (forwarded (some 2)) = some reply ∧
      GameGate.responseFrame (.ok (some reply)) 1 = some frame ∧
      Decodes (waitingClient (some 2)) frame 1 1 [(.helloAgent, 2)] := by
  have hreply : client (oneUser.agentNames 1) (forwarded (some 2)) = some
      [27, 115, 213, 92, 145, 148, 52, 13, 54, 89, 57, 205, 84, 70, 27, 47, 40, 143, 212, 62, 237,
        88, 166, 213, 178, 59, 26, 162, 203, 186, 210, 105, 56, 76, 49, 43, 42, 128, 127, 230] := by
    decide +kernel
  have hreq : msgUnpack (oneUser.agentNames 1) (forwarded (some 2)) =
      some (.request .gateMessage (helloRequest (some 2)) (some 1), bytes "user") := by
    decide +kernel
  have hread := response_decodes_iff (c := waitingClient (some 2))
    (u := ⟨bytes "test", 1, someSecret⟩) hreq (by decide +kernel) hreply
    (rfl : GameGate.responseFrame _ 1 = _) rfl (by decide +kernel)
  exact ⟨_, _, hreply, rfl, hread.mpr ⟨_, rfl, _, List.mem_singleton_self _, by decide +kernel⟩⟩

/-- **A request that asks for no answer gets a frame that the client cannot read.** -/
theorem unanswered_request :
    ∃ frame, msgUnpack (oneUser.agentNames 1) (forwarded none) =
        some (.request .gateMessage (helloRequest none) (some 1), bytes "user") ∧
      client (oneUser.agentNames 1) (forwarded none) = some [] ∧
      GameGate.responseFrame (.ok (some [])) 1 = some frame ∧
      (waitingClient none).push.sessions.get 1 = some .gateMessage ∧
      ¬ Decodes (waitingClient none) frame 1 1 (subRequests (helloRequest none)) :=
  ⟨_, by decide +kernel, by decide +kernel, rfl, by decide +kernel, not_decodes_empty rfl⟩

end LsServer.Client
