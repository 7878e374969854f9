import LsServer.Client.Login
import LsServer.Login.Delivered

/-!
# Client, login server and game node agree

`ClientLogic:login` talks with a connection of a login server, and then shakes hands with a game
node. What it is told has been encoded and decoded by four programs on the way: the token, the
reply of `login_handler`, the username and the first packet.

Source: as in `Client.Login`, `LoginGate.Transcript`, `Login.Delivered` and `GameGate.Auth`, which
say what each of the four programs does.

* The transcript of a connection says which lines were written to it and read from it. A client
  whose lines these are has computed its secret from them, and so has the login server: `dhsecret`
  commutes.
* The result of `login_handler` is that of a registered login (`Run.delivered`).
* The index of the first packet is 1, and the version of a user with whom nobody has shaken hands is
  0 (`Run.unused`).

The client is honest: it follows `ClientLogic:login`. What others send on other connections is
arbitrary.

Results:
* `login_agrees`: a client that gets status 200 has the address, the node and the number of the
  login that its node has registered, with the secret and the username that are stored there, and
  the node accepts its first packet;
* `login_agrees_clientLogin`: a run in which a client logs in.
-/

namespace LsServer.Client

open LsServer.Lib LsServer.Lua LsServer.Crypt LsServer.LoginGate LsServer.Login

variable {c : Login.Conf}

/-- The node of `flow` has its user online, with the secret that Gamed and the agent have. -/
theorem online_secret {s : Login.State} (hs : Consistent s) {tr : List (Login.Item c)}
    {flow : Flow} (h : Registered tr s flow) :
    ∃ u, (s.nodes flow.node).gate.gate.userOnline.get flow.user.username = some u ∧
      ((s.nodes flow.node).gate.gate.users.cell u).secret = flow.secret := by
  obtain ⟨u, hu⟩ := Option.ne_none_iff_exists'.mp h.online.1
  obtain ⟨gu, hgu, hsecret⟩ := (hs.nodes flow.node).online _ u hu
  obtain rfl := Option.some.inj (hgu.symm.trans h.knows.1)
  exact ⟨u, hu, hsecret.symm⟩

/-- `login_handler` was called once on a connection. -/
theorem called_unique {server uid secret : Bytes} {a b d : Option Bytes} {T : List Spoken}
    (h : Called server uid secret T) (hmem : .called a b d ∈ T) :
    a = some server ∧ b = some uid ∧ d = some secret := by
  cases h with
  | intro h =>
    cases h with
    | intro h =>
      cases h with
      | intro h =>
        cases h
        simpa using hmem

/-- **Client, login server and game node agree.** A client of `account` that gets status 200 on
connection `k` of login server `l` recovers the secret and what `login_handler` of the node has
returned; its secret is the one in `user_online` and at the agent, under the username that it
builds; and while nobody has shaken hands for that name, the node accepts its first packet. -/
theorem login_agrees {tr : List (Login.Item c)} {s : Login.State}
    (h : (Login.machine c).Run tr s) {l : LoginId} {k : Login.ConnId} {account : Bytes}
    {selectNode : Option Bytes} {clientkey : Bytes} {nodeIsExist : Bytes → Bool}
    (hnode : ∀ node, selectNode = some node → nodeIsExist node = true)
    (hauth : Authenticated nodeIsExist (conversation l k tr))
    (hclient : IsClient account selectNode clientkey (conversation l k tr)) {result : Bytes}
    (hresult : (clientLines (conversation l k tr))[2]? = some result)
    (hcode : statusCode result = some (ofInt 200)) :
    ∃ (node : Bytes) (subid : Nat) (secret : Bytes) (r : LoginResult),
      node = selectNode.getD (bytes "game1") ∧ (∃ i ∈ tr, Login.Item.Returns i node subid) ∧
      (loginTalk account selectNode clientkey (clientLines (conversation l k tr))).2 =
        some (secret, r) ∧
      r = ⟨c.connectIp node, c.connectPort node, node, tostring subid⟩ ∧
      (∃ gu, (s.nodes node).Knows (clientUsername account r) gu ∧ gu.uid = account ∧
        gu.subid = subid ∧ gu.secret = secret) ∧
      ∃ u, (s.nodes node).gate.gate.userOnline.get (clientUsername account r) = some u ∧
        ((s.nodes node).gate.gate.users.cell u).secret = secret ∧
        ((∀ i ∈ tr, ¬ Login.Item.Admits i node (clientUsername account r)) →
          ∃ packet, firstPacket (clientUsername account r) secret = some packet ∧
            GameGate.authCheck (s.nodes node).gate.gate packet = .accepted u (ofInt 1) ∧
            ∀ fd addr, GameGate.sendStatus fd (bytes "200 OK") ∈
              (GameGate.auth (s.nodes node).gate.gate fd addr packet).2) := by
  have hconcluded : Concluded (conversation l k tr) :=
    LoginGate.Run.concluded rfl (Run.loginServer h l) k
  obtain ⟨server, uid, secret, err, T', hcalled, hT'⟩ :=
    concluded_of_status hconcluded hresult hcode
  obtain ⟨rfl, rfl, hlen, htalk⟩ := called_agrees hcalled hT' hnode hauth hclient
  -- the login that the result came from
  have hlogin : .login (.returned err) ∈ conversation l k tr := by simp [hT']
  obtain ⟨flow, hmem, hreg, rfl⟩ := (Run.delivered h).delivered l k err hlogin
  have hmem' : .called (some flow.node) (some flow.uid) (some flow.secret) ∈ T' := by
    rw [hT'] at hmem
    simpa using hmem
  obtain ⟨hflow, huid, hsecret⟩ := called_unique hcalled hmem'
  obtain rfl := Option.some.inj huid
  obtain rfl := Option.some.inj hsecret
  rw [Option.getD_some, readResult_status200, Option.map_some] at htalk
  obtain ⟨u, hu, hcell⟩ := online_secret (Run.consistent h) hreg
  refine ⟨flow.node, flow.subid, flow.secret, _, Option.some.inj hflow, hreg.returned, htalk, rfl,
    ⟨flow.user, hreg.knows, rfl, rfl, rfl⟩, u, hu, hcell, fun hno => ?_⟩
  obtain ⟨packet, hpacket, haccept⟩ :=
    authCheck_firstPacket hu hcell hlen (Run.unused h hno u hu)
  refine ⟨packet, hpacket, haccept, fun fd addr => ?_⟩
  simp [GameGate.auth, haccept]

/-! ## A login -/

/-- A client of `account` logs in at node `game1`, with the key 1. -/
def clientLogin : List Login.Event :=
  [.login 0 .accept, .login 0 (.started 0 1), .login 0 (.line 0 (some (bytes "BQAAAAAAAAA=")) 1),
    .login 0 (.line 0 (some (bytes "t+KQEj/MZ28=")) 0),
    .login 0 (.line 0 (some (bytes "D3va7RKOSKurZMn4IgUVuHsfxKyKPAdg")) 0),
    .login 0 (.authed 0 (.accepts (bytes "game1") (bytes "account"))), .login 0 (.resume 0),
    .receive 0, .search 0 (.bound (some ⟨[bytes "checkRepetitionLogin"]⟩)), .check 0,
    .checked 0 true, .agent 0, .agentDone 0, .answer 0]

theorem clientLogin_run : ∃ (tr : List (Login.Item someConf)) (s : Login.State),
    (Login.machine someConf).Run tr s ∧ tr.map (·.ev) = clientLogin ∧
      (∀ token, .handed token ∈ conversation 0 0 tr →
        token = Client.token (bytes "account") (some (bytes "game1"))) ∧
      (∀ r, .authed r ∈ conversation 0 0 tr → r = .accepts (bytes "game1") (bytes "account")) ∧
      IsClient (bytes "account") (some (bytes "game1")) (push64 1) (conversation 0 0 tr) ∧
      ∃ result, (clientLines (conversation 0 0 tr))[2]? = some result ∧
        statusCode result = some (ofInt 200) := by
  have h : ((Login.machine someConf).items (Login.machine someConf).init clientLogin).map (fun tr =>
      decide (tr.map (·.ev) = clientLogin ∧
        (∀ x ∈ conversation 0 0 tr, ∀ token ∈ [x].filterMap fun | .handed t => some t | _ => none,
          token = Client.token (bytes "account") (some (bytes "game1"))) ∧
        (∀ x ∈ conversation 0 0 tr, ∀ r ∈ [x].filterMap fun | .authed r => some r | _ => none,
          r = .accepts (bytes "game1") (bytes "account")) ∧
        heard (conversation 0 0 tr) <+: splitLines (loginTalk (bytes "account")
          (some (bytes "game1")) (push64 1) (clientLines (conversation 0 0 tr))).1 ∧
        ∃ result ∈ (clientLines (conversation 0 0 tr))[2]?,
          statusCode result = some (ofInt 200))) = some true := by
    decide +kernel
  obtain ⟨tr, hrun, hP⟩ := Machine.exists_run h
  obtain ⟨hev, htoken, hauthed, hclient, result, hresult, hcode⟩ := of_decide_eq_true hP
  exact ⟨tr, _, hrun, hev, fun token hmem => htoken _ hmem token (by simp),
    fun r hmem => hauthed _ hmem r (by simp), hclient, result, hresult, hcode⟩

theorem login_agrees_clientLogin : ∃ (tr : List (Login.Item someConf)) (s : Login.State)
    (subid : Nat) (secret : Bytes) (r : LoginResult) (u : GameGate.UserId) (packet : Bytes),
    (Login.machine someConf).Run tr s ∧ tr.map (·.ev) = clientLogin ∧
      (loginTalk (bytes "account") (some (bytes "game1")) (push64 1)
        (clientLines (conversation 0 0 tr))).2 = some (secret, r) ∧
      r = ⟨bytes "127.0.0.1", bytes "8888", bytes "game1", tostring subid⟩ ∧
      firstPacket (clientUsername (bytes "account") r) secret = some packet ∧
      GameGate.authCheck (s.nodes (bytes "game1")).gate.gate packet = .accepted u (ofInt 1) := by
  obtain ⟨tr, s, hrun, hev, htoken, hauthed, hclient, result, hresult, hcode⟩ := clientLogin_run
  have haccepts : authHandler (fun _ => true) (token (bytes "account") (some (bytes "game1"))) =
      .accepts (bytes "game1") (bytes "account") := by decide +kernel
  have hauth : Authenticated (fun _ => true) (conversation 0 0 tr) := fun token r hhanded hmem => by
    rw [htoken token hhanded, hauthed r hmem, haccepts]
    exact .inl rfl
  obtain ⟨node, subid, secret, r, rfl, -, htalk, rfl, -, u, -, -, hadmit⟩ :=
    login_agrees hrun (fun _ _ => rfl) hauth hclient hresult hcode
  have hno : ∀ i ∈ tr, ¬ Login.Item.Admits i (bytes "game1") (clientUsername (bytes "account")
      ⟨bytes "127.0.0.1", bytes "8888", bytes "game1", tostring subid⟩) := by
    rintro i hi ⟨x, hx, -⟩
    have hmem : i.ev ∈ clientLogin := hev ▸ List.mem_map_of_mem hi
    rw [hx] at hmem
    exact absurd hmem (by simp [clientLogin])
  obtain ⟨packet, hpacket, haccept, -⟩ := hadmit hno
  exact ⟨tr, s, subid, secret, _, u, packet, hrun, hev, htalk, rfl, hpacket, haccept⟩

end LsServer.Client
