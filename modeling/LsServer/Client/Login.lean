import LsServer.Client.Common
import LsServer.Login.System
import LsServer.LoginGate.Logind
import LsServer.LoginGate.Transcript

/-!
# The client's login (ClientLoginLogic.lua)

`ClientLogic:login` reads three lines of the login server. `loginTalk` says what it has written when
it has read some of them, and what it has made of the last. The rest is its first packet to the
game node.

Source: tool/script/client/logic/ClientLoginLogic.lua `ClientLogic:login` 54-118, with its `token`;
ClientCommon.lua `unpack_line` 83-89.

* `readLines` reads a stream line by line; what stands behind the last line break is kept.
* `sendKey` and `sendToken` are what the client writes after the first and the second line. They
  raise (`none`) where a line is no base64 or no key.
* `readResult` is for a third line whose code is 200: four fields that `match
  "([^@]*)@(.*)@(.*)@(.*)"` takes apart, each in base64. The last two `@` are the ones that count,
  and base64 has none.
* `firstPacket` is the handshake with index 1 on the gate of the node.

`loginTalk` gets the lines, whoever sends them. That they are those of a connection of the login
server is in the statements that use it (`IsClient`).

Results:
* `splitLines_append`: a line is read back from a stream;
* `authHandler_token`: the login server reads the token as it was written;
* `readResult_status200`: the client reads the reply as it was written.

Out of scope: the sockets of the client, and a second `login` in one process.
-/

namespace LsServer.Client

open LsServer.Lua LsServer.Crypt LsServer.LoginGate LsServer.Login

/-! ## Lines -/

/-- `unpack_line`. -/
def unpackLine : Bytes → Option (Bytes × Bytes)
  | [] => none
  | c :: text => if c = 10 then some ([], text) else (unpackLine text).map fun x => (c :: x.1, x.2)

/-- The lines that `readline` finds in a stream, one call after the other; each takes a byte at
least. -/
def readLines : Nat → Bytes → List Bytes
  | 0, _ => []
  | n + 1, text =>
    match unpackLine text with
    | none => []
    | some (line, text) => line :: readLines n text

def splitLines (text : Bytes) : List Bytes := readLines text.length text

/-! ## The dialogue with the login server -/

/-- `token`, or `token1` where no node is selected. -/
def token (account : Bytes) (selectNode : Option Bytes) : Bytes :=
  match selectNode with
  | some node => base64encode account ++ bytes ":" ++ base64encode node
  | none => base64encode account

/-- After the first line: the challenge, and the line with the client's key; `none` where it
raises. -/
def sendKey (clientkey line : Bytes) : Option (Bytes × Bytes) := do
  let challenge ← base64decode line
  let key ← dhexchange clientkey
  some (challenge, base64encode key ++ bytes "\n")

/-- After the second line: the secret, and the lines with the hmac and the token. -/
def sendToken (account : Bytes) (selectNode : Option Bytes) (clientkey challenge line : Bytes) :
    Option (Bytes × Bytes) := do
  let serverkey ← base64decode line
  let secret ← dhsecret serverkey clientkey
  let hmac ← hmac64 challenge secret
  let etoken ← desencode secret (token account selectNode)
  some (secret, base64encode hmac ++ bytes "\n" ++ (base64encode etoken ++ bytes "\n"))

/-- What the login server tells the client. -/
structure LoginResult where
  connectip : Bytes
  connectport : Bytes
  gameNode : Bytes
  subid : Bytes
  deriving DecidableEq

/-- The pattern `([^@]*)@(.*)@(.*)@(.*)`. -/
def resultPattern : List Lua.Item :=
  [.openCap, .star (notSep 64), .closeCap, .one (.lit 64), .openCap, .star .any, .closeCap,
   .one (.lit 64), .openCap, .star .any, .closeCap, .one (.lit 64), .openCap, .star .any, .closeCap]

example : compile (bytes "([^@]*)@(.*)@(.*)@(.*)") = .ok resultPattern := by decide +kernel

/-- After the third line, where its code is 200. -/
def readResult (result : Bytes) : Option LoginResult := do
  let ret ← base64decode (sub result 5 result.length)
  match strMatch resultPattern ret with
  | some [connectip, connectport, gameNode, subid] => do
    let connectip ← base64decode connectip
    let connectport ← base64decode connectport
    let gameNode ← base64decode gameNode
    let subid ← base64decode subid
    some ⟨connectip, connectport, gameNode, subid⟩
  | _ => none

/-- `tonumber(string.sub(result, 1, 3))`. -/
def statusCode (result : Bytes) : Option Number := tonumber (sub result 1 3)

/-- What the client has written when it has read these lines, and in the end the secret and the
result. -/
def loginTalk (account : Bytes) (selectNode : Option Bytes) (clientkey : Bytes) :
    List Bytes → Bytes × Option (Bytes × LoginResult)
  | [] => ([], none)
  | line :: lines =>
    match sendKey clientkey line with
    | none => ([], none)
    | some (challenge, text) =>
      match lines with
      | [] => (text, none)
      | line :: lines =>
        match sendToken account selectNode clientkey challenge line with
        | none => (text, none)
        | some (secret, text') =>
          match lines with
          | [] => (text ++ text', none)
          | result :: _ =>
            (text ++ text',
              if statusCode result = some (ofInt 200) then
                (readResult result).map fun r => (secret, r)
              else none)

/-! ## The first packet -/

/-- `username` of the client. -/
def clientUsername (account : Bytes) (r : LoginResult) : Bytes :=
  base64encode account ++ bytes "@" ++ base64encode r.gameNode ++ bytes "@" ++
    base64encode r.subid

/-- The text of the first packet, with index 1. -/
def firstPacket (username secret : Bytes) : Option Bytes := do
  let index := tostring 1
  let hmac ← hmac64 (hashkey index) secret
  some (base64encode username ++ bytes ":" ++ index ++ bytes ":" ++ base64encode hmac)

/-! ## Lines of a stream -/

theorem unpackLine_append {line : Bytes} (h : (10 : UInt8) ∉ line) (rest : Bytes) :
    unpackLine (line ++ 10 :: rest) = some (line, rest) := by
  induction line with
  | nil => rfl
  | cons c line ih =>
    have hc : c ≠ 10 := fun hc => h (by simp [hc])
    rw [List.cons_append, unpackLine, if_neg hc, ih fun hmem => h (List.mem_cons_of_mem _ hmem)]
    rfl

theorem unpackLine_length {text line rest : Bytes} (h : unpackLine text = some (line, rest)) :
    rest.length < text.length := by
  induction text generalizing line with
  | nil => exact absurd h (by simp [unpackLine])
  | cons c text ih =>
    rw [unpackLine] at h
    split at h
    · obtain ⟨-, rfl⟩ := Prod.mk.inj (Option.some.inj h)
      exact Nat.lt_succ_self _
    · obtain ⟨⟨line, rest⟩, hx, heq⟩ := Option.map_eq_some_iff.mp h
      obtain ⟨-, rfl⟩ := Prod.mk.inj heq
      exact (ih hx).trans (Nat.lt_succ_self _)

/-- The length of the stream is rounds enough. -/
theorem readLines_of_le {n : Nat} {text : Bytes} (h : text.length ≤ n) :
    readLines n text = splitLines text := by
  unfold splitLines
  induction n using Nat.strong_induction_on generalizing text with
  | _ n ih =>
    cases text with
    | nil => cases n <;> rfl
    | cons c text =>
      obtain ⟨n, rfl⟩ : ∃ k, n = k + 1 := ⟨n - 1, by simp at h; omega⟩
      rw [List.length_cons, readLines, readLines]
      cases hx : unpackLine (c :: text) with
      | none => rfl
      | some x =>
        obtain ⟨line, rest⟩ := x
        have hlt := unpackLine_length hx
        rw [List.length_cons] at hlt h
        have hleft : readLines n rest = splitLines rest := ih n (by omega) (by omega)
        have hright : readLines text.length rest = splitLines rest :=
          ih text.length (by omega) (by omega)
        dsimp only
        rw [hleft, hright]

/-- **A line is read back.** -/
theorem splitLines_append {line : Bytes} (h : (10 : UInt8) ∉ line) (rest : Bytes) :
    splitLines (line ++ 10 :: rest) = line :: splitLines rest := by
  rw [splitLines, List.length_append, List.length_cons, Nat.add_succ, readLines,
    unpackLine_append h]
  dsimp only
  rw [readLines_of_le (by omega)]

/-! ## The token -/

/-- The account and the node of a token, whose node exists if one is selected. -/
theorem authHandler_token {nodeIsExist : Bytes → Bool} (account : Bytes)
    {selectNode : Option Bytes} (h : ∀ node, selectNode = some node → nodeIsExist node = true) :
    authHandler nodeIsExist (token account selectNode) =
      .accepts (selectNode.getD (bytes "game1")) account := by
  have hcolon : ∀ s, (58 : UInt8) ∉ base64encode s := fun s => not_mem_base64encode (by decide)
  cases selectNode with
  | none =>
    simp only [authHandler, token, split_one (hcolon account), List.getElem?_cons_zero,
      List.getElem?_cons_succ, List.getElem?_nil, tokenField, base64decode_encode, Option.map_some,
      accountAuth, Option.getD_none]
  | some node =>
    have htoken : token account (some node) = base64encode account ++ 58 :: base64encode node := by
      simp [token, show bytes ":" = [58] from rfl]
    simp only [authHandler, htoken, split_two (hcolon account) (hcolon node),
      List.getElem?_cons_zero, List.getElem?_cons_succ, tokenField, base64decode_encode,
      Option.map_some, accountAuth, h node rfl, if_true, Option.getD_some]

/-! ## The reply -/

/-- The pattern takes four fields apart. -/
theorem strMatch_resultPattern {a b c d : Bytes} (ha : (64 : UInt8) ∉ a) (hc : (64 : UInt8) ∉ c)
    (hd : (64 : UInt8) ∉ d) :
    strMatch resultPattern (a ++ 64 :: (b ++ 64 :: (c ++ 64 :: d))) = some [a, b, c, d] := by
  have hall : d.takeWhile (CharClass.matches · .any) = d := by
    rw [List.takeWhile_eq_self_iff]
    exact fun _ _ => rfl
  have hdcount : d.count 64 = 0 := List.count_eq_zero.mpr hd
  have hccount : (c ++ 64 :: d).count 64 = 1 := by
    rw [List.count_append, List.count_cons_self, List.count_eq_zero.mpr hc, hdcount]
  have hmatch : matchAt resultPattern (a ++ 64 :: (b ++ 64 :: (c ++ 64 :: d))) [] =
      some ([], [.closed d, .closed c, .closed b, .closed a]) := by
    refine match_field ha ?_
    refine match_greedy ?_ ?_
    · rw [hccount]
      decide
    refine match_greedy ?_ (match_last hall)
    rw [hdcount]
    exact Nat.zero_le _
  rw [strMatch_of_matchAt hmatch]
  rfl

/-- **The reply is read back**, up to the number, which becomes a text. -/
theorem readResult_status200 (connectip connectport gameNode : Bytes) (subid : Nat) :
    readResult (bytes "200 " ++
        base64encode (loginReply connectip connectport gameNode subid)) =
      some ⟨connectip, connectport, gameNode, tostring subid⟩ := by
  have hreply : loginReply connectip connectport gameNode subid =
      base64encode connectip ++ 64 :: (base64encode connectport ++ 64 ::
        (base64encode gameNode ++ 64 :: base64encode (tostring subid))) := by
    simp [loginReply, show bytes "@" = [64] from rfl]
  have hsub : ∀ text : Bytes, sub (bytes "200 " ++ text) 5 (bytes "200 " ++ text).length = text :=
    fun text => sub_length (bytes "200 " ++ text) 4
  simp only [readResult, hsub, base64decode_encode, hreply, Option.bind_eq_bind, Option.bind_some,
    strMatch_resultPattern (at_not_mem_base64encode _) (at_not_mem_base64encode _)
      (at_not_mem_base64encode _)]

theorem statusCode_status200 (text : Bytes) :
    statusCode (bytes "200 " ++ text) = some (ofInt 200) := by
  have hcode : sub (bytes "200 " ++ text) 1 3 = bytes "200" := sub_one (bytes "200 " ++ text) 3
  rw [statusCode, hcode]
  decide +kernel

/-! ## Both ends of a conversation -/

/-- In the conversation `T`, `auth_handler` did what that of `Logind` does, or raised. -/
def Authenticated (nodeIsExist : Bytes → Bool) (T : List Spoken) : Prop :=
  ∀ token r, .handed token ∈ T → .authed r ∈ T → r = authHandler nodeIsExist token ∨ r = .raises

/-- The lines that the client reads in the conversation `T`. -/
def clientLines (T : List Spoken) : List Bytes := splitLines (said T).flatten

/-- In the conversation `T`, the login server talks with `ClientLogic:login`. -/
def IsClient (account : Bytes) (selectNode : Option Bytes) (clientkey : Bytes)
    (T : List Spoken) : Prop :=
  heard T <+: splitLines (loginTalk account selectNode clientkey (clientLines T)).1

theorem newline_not_mem_base64encode (s : Bytes) : (10 : UInt8) ∉ base64encode s :=
  not_mem_base64encode (by decide)

theorem keyLine_append (key rest : Bytes) : keyLine key ++ rest = base64encode key ++ 10 :: rest :=
  by simp [keyLine, show bytes "\n" = [10] from rfl]

theorem splitLines_keyLine (key rest : Bytes) :
    splitLines (keyLine key ++ rest) = base64encode key :: splitLines rest := by
  rw [keyLine_append, splitLines_append (newline_not_mem_base64encode key)]

theorem splitLines_keyLines (keys : List Bytes) (rest : Bytes) :
    splitLines ((keys.map keyLine).flatten ++ rest) =
      keys.map base64encode ++ splitLines rest := by
  induction keys with
  | nil => rfl
  | cons key keys ih =>
    rw [List.map_cons, List.flatten_cons, List.append_assoc, splitLines_keyLine, ih]
    rfl

theorem splitLines_status200 (err : Bytes) :
    splitLines (status200 err) = [bytes "200 " ++ base64encode err] := by
  have hline : (10 : UInt8) ∉ bytes "200 " ++ base64encode err := by
    rw [List.mem_append, not_or]
    exact ⟨by decide, newline_not_mem_base64encode err⟩
  exact splitLines_append hline []

/-- **A client that gets status 200** has been called for. -/
theorem concluded_of_status {T : List Spoken} (h : Concluded T) {result : Bytes}
    (hresult : (clientLines T)[2]? = some result) (hcode : statusCode result = some (ofInt 200)) :
    ∃ server uid secret err T', Called server uid secret T' ∧
      T = T' ++ [.login (.returned err), .said (status200 (err.getD []))] := by
  cases h with
  | @refused _ keys status hkeys hstatus hsaid =>
    rw [clientLines, hsaid, List.flatten_append, splitLines_keyLines,
      List.getElem?_append_right (by rwa [List.length_map])] at hresult
    have hmem := List.mem_of_getElem? hresult
    have hrefused : ∀ status ∈ [[], [status401], [status403], [status406]],
        ∀ line ∈ splitLines status.flatten, statusCode line ≠ some (ofInt 200) := by
      decide +kernel
    exact absurd hcode (hrefused status hstatus result hmem)
  | @answered server uid secret err T' h => exact ⟨server, uid, secret, err, T', h, rfl⟩

/-- What was said and heard until `login_handler` was called. -/
theorem called_lines {server uid secret : Bytes} {T : List Spoken}
    (h : Called server uid secret T) :
    ∃ challenge serverkey key line line' line'' clientkey hmac token,
      said T = [keyLine challenge, keyLine key] ∧ heard T = [line, line', line''] ∧
      base64decode line = some clientkey ∧ dhexchange serverkey = some key ∧
      dhsecret clientkey serverkey = some secret ∧ hmac64 challenge secret = some hmac ∧
      (base64decode line'').bind (desdecode secret) = some token ∧
      .handed token ∈ T ∧ .authed (.accepts server uid) ∈ T := by
  cases h with
  | intro h =>
    cases h with
    | @intro token line'' _ h hline'' =>
      cases h with
      | @intro challenge _ hmac line' _ h hhmac hline' =>
        cases h with
        | @intro random random' line clientkey key _ hline hkey hsecret =>
          exact ⟨_, _, key, line, line', line'', clientkey, hmac, token, rfl, rfl, hline, hkey,
            hsecret, hhmac, hline'', by simp, by simp⟩

/-- The client writes three lines or fewer. -/
theorem loginTalk_lines {account : Bytes} {selectNode : Option Bytes}
    {clientkey challenge key result : Bytes} {line line' line'' : Bytes}
    (h : [line, line', line''] <+: splitLines (loginTalk account selectNode clientkey
      [base64encode challenge, base64encode key, result]).1) :
    ∃ clientkey' secret hmac etoken, dhexchange clientkey = some clientkey' ∧
      dhsecret key clientkey = some secret ∧ hmac64 challenge secret = some hmac ∧
      desencode secret (token account selectNode) = some etoken ∧
      line = base64encode clientkey' ∧ line'' = base64encode etoken ∧
      (loginTalk account selectNode clientkey
        [base64encode challenge, base64encode key, result]).2 =
          if statusCode result = some (ofInt 200) then
            (readResult result).map fun r => (secret, r)
          else none := by
  have hlen := h.length_le
  cases hkey : dhexchange clientkey with
  | none => simp [loginTalk, sendKey, base64decode_encode, hkey, splitLines, readLines] at hlen
  | some clientkey' =>
    have hsendKey : sendKey clientkey (base64encode challenge) =
        some (challenge, keyLine clientkey') := by
      simp [sendKey, base64decode_encode, hkey, keyLine]
    cases hsend : sendToken account selectNode clientkey challenge (base64encode key) with
    | none =>
      simp only [loginTalk, hsendKey, hsend] at hlen
      rw [← List.append_nil (keyLine clientkey'), splitLines_keyLine] at hlen
      exact absurd hlen (by simp [splitLines, readLines])
    | some x =>
      obtain ⟨secret, text⟩ := x
      simp only [loginTalk, hsendKey, hsend] at h ⊢
      simp only [sendToken, base64decode_encode, Option.bind_eq_bind, Option.bind_some,
        Option.bind_eq_some_iff, Option.some.injEq, Prod.mk.injEq] at hsend
      obtain ⟨secret', hsecret, hmac, hhmac, etoken, hetoken, rfl, rfl⟩ := hsend
      have htext : keyLine clientkey' ++ (base64encode hmac ++ bytes "\n" ++
          (base64encode etoken ++ bytes "\n")) =
          (([clientkey', hmac, etoken].map keyLine).flatten ++ []) := by
        simp [keyLine]
      rw [htext, splitLines_keyLines] at h
      have heq : [line, line', line''] = [base64encode clientkey', base64encode hmac,
          base64encode etoken] := h.eq_of_length (by simp [splitLines, readLines])
      simp only [List.cons.injEq, and_true] at heq
      exact ⟨clientkey', secret', hmac, etoken, rfl, hsecret, hhmac, hetoken, heq.1, heq.2.2, rfl⟩

/-- **Client and login server agree** on the node, the account and the secret. -/
theorem called_agrees {server uid secret : Bytes} {err : Option Bytes} {T T' : List Spoken}
    {account : Bytes} {selectNode : Option Bytes} {clientkey : Bytes} {nodeIsExist : Bytes → Bool}
    (h : Called server uid secret T')
    (hT : T = T' ++ [.login (.returned err), .said (status200 (err.getD []))])
    (hnode : ∀ node, selectNode = some node → nodeIsExist node = true)
    (hauth : Authenticated nodeIsExist T) (hclient : IsClient account selectNode clientkey T) :
    server = selectNode.getD (bytes "game1") ∧ uid = account ∧ secret.length = 8 ∧
      (loginTalk account selectNode clientkey (clientLines T)).2 =
        (readResult (bytes "200 " ++ base64encode (err.getD []))).map fun r => (secret, r) := by
  obtain ⟨challenge, serverkey, key, line, line', line'', clientkey', hmac, tok, hsaid, hheard,
    hline, hkey, hsecret, hhmac, hline'', hhanded, hauthed⟩ := called_lines h
  have hsaidT : said T = [keyLine challenge, keyLine key] ++ [status200 (err.getD [])] := by
    rw [hT, said_append, hsaid]
    rfl
  have hheardT : heard T = [line, line', line''] := by
    rw [hT, heard_append, hheard]
    rfl
  have hlines : clientLines T = [base64encode challenge, base64encode key,
      bytes "200 " ++ base64encode (err.getD [])] := by
    have hflat : (said T).flatten = ([challenge, key].map keyLine).flatten ++
        status200 (err.getD []) := by
      rw [hsaidT]
      simp
    rw [clientLines, hflat, splitLines_keyLines, splitLines_status200]
    rfl
  rw [IsClient, hheardT, hlines] at hclient
  obtain ⟨clientkey'', secret', hmac', etoken, hkey', hsecret', hhmac', hetoken, rfl, rfl,
    hresult⟩ := loginTalk_lines hclient
  -- the same secret
  obtain rfl : clientkey'' = clientkey' :=
    Option.some.inj ((base64decode_encode clientkey'').symm.trans hline)
  obtain ⟨common, hcommon, hcommon', hlen⟩ := dhsecret_comm hkey' hkey
  obtain rfl : common = secret := Option.some.inj (hcommon.symm.trans hsecret)
  obtain rfl : common = secret' := Option.some.inj (hcommon'.symm.trans hsecret')
  -- the same token
  rw [base64decode_encode, Option.bind_some, desdecode_eq_of_desencode hetoken] at hline''
  obtain rfl := Option.some.inj hline''
  have haccepts : AuthReturn.accepts server uid =
      authHandler nodeIsExist (token account selectNode) := by
    refine (hauth _ _ ?_ ?_).resolve_right (by simp)
    · exact hT ▸ List.mem_append_left _ hhanded
    · exact hT ▸ List.mem_append_left _ hauthed
  rw [authHandler_token account hnode] at haccepts
  obtain ⟨rfl, rfl⟩ := AuthReturn.accepts.inj haccepts
  refine ⟨rfl, rfl, hlen, ?_⟩
  rw [hlines, hresult, if_pos]
  exact statusCode_status200 _

/-! ## The handshake with the node -/

/-- The gate takes the first packet apart. -/
theorem splitHandshake_packet {a b c : Bytes} (ha : (58 : UInt8) ∉ a) (hb : (58 : UInt8) ∉ b)
    (hc : (58 : UInt8) ∉ c) :
    GameGate.splitHandshake (a ++ bytes ":" ++ b ++ bytes ":" ++ c) = some (a, b, c) := by
  have hmatch : matchAt GameGate.handshakePattern (a ++ 58 :: (b ++ 58 :: c)) [] =
      some ([], [.closed c, .closed b, .closed a]) :=
    match_field ha (match_field hb (match_last (takeWhile_notSep hc)))
  have hpacket : a ++ bytes ":" ++ b ++ bytes ":" ++ c = a ++ 58 :: (b ++ 58 :: c) := by
    simp [show bytes ":" = [58] from rfl]
  rw [hpacket, GameGate.splitHandshake, strMatch_of_matchAt hmatch]
  rfl

/-- **The gate accepts the first packet** of a user who has not shaken hands yet. -/
theorem authCheck_firstPacket {g : GameGate.Gate} {name secret : Bytes} {u : GameGate.UserId}
    (hu : g.userOnline.get name = some u) (hsecret : (g.users.cell u).secret = secret)
    (hlen : secret.length = 8) (hversion : (g.users.cell u).version = ofInt 0) :
    ∃ packet, firstPacket name secret = some packet ∧
      GameGate.authCheck g packet = .accepted u (ofInt 1) := by
  have hcolon : ∀ s, (58 : UInt8) ∉ base64encode s := fun s => not_mem_base64encode (by decide)
  obtain ⟨hmac, hhmac⟩ : ∃ hmac, hmac64 (hashkey (tostring 1)) secret = some hmac :=
    Option.isSome_iff_exists.mp (hmac64_isSome.mpr ⟨hashkey_length _, hlen⟩)
  have hindex : tonumber (tostring 1) = some (ofInt 1) := by decide +kernel
  have hlt : ¬ ofInt 1 ≤ ofInt 0 := by decide +kernel
  have hpacket : firstPacket name secret = some (base64encode name ++ bytes ":" ++ tostring 1 ++
      bytes ":" ++ base64encode hmac) := by
    simp only [firstPacket, hhmac, Option.bind_eq_bind, Option.bind_some]
  have hone : (58 : UInt8) ∉ tostring 1 := by decide
  refine ⟨_, hpacket, ?_⟩
  unfold GameGate.authCheck
  simp only [splitHandshake_packet (hcolon name) hone (hcolon hmac), base64decode_encode, hu,
    hindex, hversion, hlt, hsecret, hhmac, if_false, ne_eq, not_true_eq_false]

end LsServer.Client
