import LsServer.Agent.Request
import LsServer.Client.Common
import LsServer.GameGate.Served

/-!
# A request on its way (ClientCommon.lua, GameGate.lua, Gamed.lua, Agent.lua)

A request is framed three times: `sendpack` puts the session behind the ciphertext and a length in
front, `request_handler` puts the name of the user and its length in front of what `do_request`
cuts out. Each reader has its own way to find the borders.

Source: ClientCommon.lua 46-59; GameGate.lua 229-230 and 250; Gamed.lua 85-89; Agent.lua 27-33.

* On the wire a package is its length (two bytes), the ciphertext, and the session (four bytes).
* `do_request` reads the session from the last four bytes and cuts them off.
* `request_handler` puts the length of the name as a double and the name in front.
* The agent takes the name off, looks its secret up and decrypts.

The statement is for every text, session, name and secret that the client can send: the length of
the ciphertext is bounded by the two bytes, and the session by the four.

Result: `request_lossless`: the session and the text of the client arrive at the agent.
-/

namespace LsServer.Client

open LsServer.Lib LsServer.Lua LsServer.Crypt LsServer.Sproto LsServer.Login LsServer.Agent

/-! ## The frame of the client -/

theorem packI4_eq_some {n : Int} (h : 0 ≤ n ∧ n < 2 ^ 32) : packI4 n = some (packBE 4 n.toNat) :=
  if_pos h

theorem sendpack_eq {c : ClientCommon} {e : Bytes}
    (hsession : 0 ≤ c.session + 1 ∧ c.session + 1 < 2 ^ 32) (hlen : e.length ≤ 65531) :
    sendpack c e = some ({ c with session := c.session + 1 },
      packBE 2 (e ++ packBE 4 (c.session + 1).toNat).length ++
        (e ++ packBE 4 (c.session + 1).toNat)) := by
  have hpack : packS2 (e ++ packBE 4 (c.session + 1).toNat) = some _ :=
    if_pos (by rw [List.length_append, packBE_length]; omega)
  simp only [sendpack, packI4_eq_some hsession, hpack, Option.bind_eq_bind, Option.bind_some]

/-! ## The cut of the gate -/

section trailer

variable (e : Bytes) {n : Nat}

theorem drop_trailer : (e ++ packBE 4 n).drop ((e ++ packBE 4 n).length - 4) = packBE 4 n := by
  rw [List.length_append, packBE_length, Nat.add_sub_cancel, List.drop_left]

theorem sessionOf_trailer (hn : n < 2 ^ 32) : GameGate.sessionOf (e ++ packBE 4 n) = n := by
  rw [GameGate.sessionOf, drop_trailer, unpackBE_packBE_of_lt (by simpa using hn)]

theorem contentOf_trailer : GameGate.contentOf (e ++ packBE 4 n) = e := by
  rw [GameGate.contentOf, List.length_append, packBE_length, Nat.add_sub_cancel, List.take_left]

end trailer

/-- What `do_request` hands to `request_handler`, and what it keeps in the task that waits. -/
theorem doRequest_invoke {conf : GameGate.Conf} {g : GameGate.Gate} {fd k : Nat}
    {data name m : Bytes} (h : .invoke k name m ∈ (GameGate.doRequest conf g fd data).2.1) :
    ∃ u t, g.connection.get fd = some u ∧ (g.users.cell u).username = name ∧
      GameGate.contentOf data = m ∧
      (GameGate.doRequest conf g fd data).1.tasks.get k = some t ∧ t.user = u ∧
      t.session = GameGate.sessionOf data := by
  have hreq := GameGate.doRequest_requested conf g fd data
  generalize (GameGate.doRequest conf g fd data).1 = g',
    (GameGate.doRequest conf g fd data).2.1 = acts,
    (GameGate.doRequest conf g fd data).2.2 = ok at hreq h ⊢
  cases hreq with
  | invalid => simp at h
  | short => simp at h
  | @fresh u hc =>
    obtain ⟨rfl, rfl, rfl⟩ := by simpa [GameGate.invokeHandler] using h
    exact ⟨u, _, hc, rfl, rfl, Table.get_set_self _ _ _, rfl, rfl⟩
  | conflict => simp at h
  | @reuse u j hc =>
    obtain ⟨rfl, rfl, rfl⟩ := by
      simpa [GameGate.invokeHandler, GameGate.dropEntry] using h
    exact ⟨u, _, hc, rfl, rfl, Table.get_set_self _ _ _, rfl, rfl⟩
  | pending => simp at h
  | again =>
    obtain ⟨_, _, h, -⟩ := GameGate.mem_finish h
    exact absurd h (by simp)

/-! ## The way to the agent -/

/-- **A request is lossless.** What `sendpack` sends is a frame whose body `do_request` cuts into
the session of the client and its ciphertext. It calls `request_handler` for a session that is
not cached. Whenever it does, the message that is forwarded gives the agent the name of the
connection, and the text of the client is what the agent hands to `dispatch`. -/
theorem request_lossless {c : ClientCommon} {x e : Bytes}
    (hsession : 0 ≤ c.session + 1 ∧ c.session + 1 < 2 ^ 32)
    (he : desencode c.secret x = some e) (hlen : e.length ≤ 65531) :
    ∃ (session : Nat) (data : Bytes), (session : Int) = c.session + 1 ∧
      sendpack c e = some ({ c with session := c.session + 1 },
        packBE 2 data.length ++ data) ∧ data.length < 2 ^ 16 ∧
      GameGate.sessionOf data = session ∧
      (∀ conf g fd u, g.connection.get fd = some u →
        (g.users.cell u).response.get session = none →
        GameGate.doRequest conf g fd data = GameGate.invokeHandler g fd u session e) ∧
      ∀ conf g fd k name m, .invoke k name m ∈ (GameGate.doRequest conf g fd data).2.1 →
        (∃ u t, g.connection.get fd = some u ∧ (g.users.cell u).username = name ∧
          (GameGate.doRequest conf g fd data).1.tasks.get k = some t ∧ t.user = u ∧
          t.session = session) ∧
        ∀ node agent, Knows node name c.secret agent → name.length < 2 ^ 53 →
          ∃ msg, requestHandler node name m = some (agent, msg) ∧
            rawMsg (node.agentNames agent) msg = some (name, x) ∧
            msgUnpack (node.agentNames agent) msg = (dispatch x).map fun d => (d, name) := by
  have hsess := sessionOf_trailer e (n := (c.session + 1).toNat) (by omega)
  have hcont := contentOf_trailer e (n := (c.session + 1).toNat)
  have hbody : (e ++ packBE 4 (c.session + 1).toNat).length = e.length + 4 := by
    rw [List.length_append, packBE_length]
  have hplain := desdecode_eq_of_desencode he
  refine ⟨(c.session + 1).toNat, _, by omega, sendpack_eq hsession hlen, by omega, hsess,
    fun conf g fd u hc hs => ?_, fun conf g fd k name m h => ?_⟩
  · unfold GameGate.doRequest
    simp only [hc, hsess, hcont, hs]
    rw [if_neg (by omega)]
  · obtain ⟨u, t, hc, hname, hm, ht, htu, hts⟩ := doRequest_invoke h
    rw [hsess] at hts
    rw [hcont] at hm
    subst hm
    refine ⟨⟨u, t, hc, hname, ht, htu, hts⟩, fun node agent hknows hn => ?_⟩
    obtain ⟨msg, hmsg, hraw⟩ := rawMsg_requestHandler (e := e) hknows hn
    rw [hplain, Option.map_some] at hraw
    refine ⟨msg, hmsg, hraw, ?_⟩
    simp only [msgUnpack, hraw, Option.bind_eq_bind, Option.bind_some, Option.map_eq_bind,
      Function.comp_def]

/-- The secret of the runs on fixed inputs. -/
def someSecret : Bytes := [1, 2, 3, 4, 5, 6, 7, 8]

/-- A node with one user, at agent 1. -/
def oneUser : Gamed :=
  let name := bytes "user"
  { Gamed.init with
    usernameMap := Table.set .empty name ⟨name, someSecret, bytes "test", 1, 1⟩
    agentNames := fun _ => Table.set .empty name ⟨bytes "test", 1, someSecret⟩ }

/-- A gate that serves the connection 7 of this user. -/
def oneConnection : GameGate.Gate :=
  { GameGate.Gate.init with
    connection := Table.set .empty 7 0
    users := (Heap.empty ⟨[], [], ofInt 0, 0, .empty, none, none⟩).alloc
      ⟨bytes "user", someSecret, ofInt 1, 1, .empty, some 7, none⟩ }

/-- `desencode` of "hello agent". -/
def helloCipher : Bytes :=
  [28, 175, 152, 53, 0, 90, 152, 83, 193, 160, 101, 42, 128, 22, 54, 38]

/-- A first request arrives. -/
theorem request_lossless_first :
    ∃ data msg, sendpack ⟨0, 0, someSecret, .init⟩ helloCipher =
        some (⟨1, 0, someSecret, .init⟩, packBE 2 data.length ++ data) ∧
      GameGate.sessionOf data = 1 ∧
      .invoke 0 (bytes "user") helloCipher ∈ (GameGate.doRequest {} oneConnection 7 data).2.1 ∧
      requestHandler oneUser (bytes "user") helloCipher = some (1, msg) ∧
      rawMsg (oneUser.agentNames 1) msg = some (bytes "user", bytes "hello agent") := by
  obtain ⟨session, data, hs, hsend, -, hsess, hfresh, hinv⟩ :=
    request_lossless (c := ⟨0, 0, someSecret, .init⟩) (x := bytes "hello agent")
      (e := helloCipher) (by decide) (by decide +kernel) (by decide)
  obtain rfl : session = 1 := by simpa using hs
  have hmem : .invoke 0 (bytes "user") helloCipher ∈
      (GameGate.doRequest {} oneConnection 7 data).2.1 := by
    rw [hfresh {} oneConnection 7 0 rfl rfl]
    exact List.mem_singleton.mpr rfl
  obtain ⟨-, harrive⟩ := hinv {} oneConnection 7 0 _ _ hmem
  obtain ⟨msg, hmsg, hraw, -⟩ :=
    harrive oneUser 1 ⟨⟨_, rfl, rfl⟩, ⟨_, rfl, rfl⟩⟩ (by decide)
  exact ⟨data, msg, hsend, hsess, hmem, hmsg, hraw⟩

end LsServer.Client
