import LsServer.Crypt.Base64
import LsServer.Crypt.Des

/-!
# The handshake with the login server (LoginGate.lua, slave)

A slave greets a client with a challenge, exchanges keys with it, checks its answer and decrypts
its token, and then calls `auth_handler` with the token. Each step of `auth` between two waits is
a function here: it writes at most one line and then waits on (`Phase`) or raises (`Raised`).
`retPack` is what the slave sends to the master in the end.

Source: LoginGate.lua, `assert_socket` and `write` 36-47, `auth` 50-82, `ret_pack` 84-94, `auth_fd`
and the dispatch function 96-111.

* The random numbers of the challenge and of the key are arguments, eight bytes each; `randomkey` is
  the C function, which avoids a key whose bytes add up to zero.
* `isOpen` says whether the socket is still open. A `write` to a closed one and a `readline` without
  a line raise `socket_error`.
* A line is base64, so bytes outside the alphabet are skipped (`base64decode`).
* `authValues` is the `pcall` of `auth_handler`: where it raises, `ok` is `false`, and where it
  returns nothing, `ok` is `true` and node and account are `nil`.

`AuthReturn.accepts` has a node and an account. `auth_handler` could return other values, but that
of `Logind` does not.

Out of scope: `socket.limit`, which closes the socket of a client that sends more than 8 KB without
a line break; for `auth` the socket is closed then.
-/

namespace LsServer.LoginGate

open LsServer.Lua LsServer.Crypt

/-- The error values that `ret_pack` distinguishes: `socket_error`, and all others. -/
inductive Raised
  | socket
  | other
  deriving DecidableEq

/-- How a call of `auth_handler` ends: it returns a node and an account, returns nothing, or
raises. -/
inductive AuthReturn
  | accepts (server uid : Bytes)
  | nothing
  | raises
  deriving DecidableEq

/-- What `auth` returns to `ret_pack`: `ok, server, uid, secret`. -/
structure AuthValues where
  ok : Bool
  server : Option Bytes
  uid : Option Bytes
  secret : Bytes
  deriving DecidableEq

/-- The first four values that the slave answers with. Where the first is `nil` or `false`, the
second is an error value, which no branch looks at. -/
structure Answer where
  ok : Option Bool
  server : Option Bytes
  uid : Option Bytes
  secret : Option Bytes
  deriving DecidableEq

/-- What `accept` waits for: `socket.start`, the three lines of the client, `auth_handler`, the
answer of the slave on its way, `login_handler`. -/
inductive Phase
  | starting
  | clientKey (challenge : Bytes)
  | response (challenge secret : Bytes)
  | token (secret : Bytes)
  | authenticating (secret : Bytes)
  | answered (a : Answer)
  | loggingIn (uid : Option Bytes)
  deriving DecidableEq

/-- `crypt.randomkey`, from eight random bytes. -/
def randomkey (random : UInt64) : Bytes :=
  let tmp := push64 random
  if tmp.foldl (· ^^^ ·) 0 = 0 then (tmp.headD 0 ||| 1) :: tmp.tail else tmp

/-- The text that `write` sends, and how the caller goes on. -/
def write (isOpen : Bool) (text : Bytes) (next : Except Raised Phase) :
    List Bytes × Except Raised Phase :=
  if isOpen then ([text], next) else ([], .error .socket)

/-- `auth` up to the first `readline`. -/
def greet (isOpen : Bool) (random : UInt64) : List Bytes × Except Raised Phase :=
  let challenge := randomkey random
  write isOpen (base64encode challenge ++ bytes "\n") (.ok (.clientKey challenge))

/-- `auth` after the first line. -/
def exchange (isOpen : Bool) (challenge : Bytes) (random : UInt64) (handshake : Option Bytes) :
    List Bytes × Except Raised Phase :=
  match handshake with
  | none => ([], .error .socket)
  | some handshake =>
    match base64decode handshake with
    | none => ([], .error .other)
    | some clientkey =>
      if clientkey.length ≠ 8 then ([], .error .other)
      else
        let serverkey := randomkey random
        match dhexchange serverkey with
        | none => ([], .error .other)
        | some key =>
          write isOpen (base64encode key ++ bytes "\n")
            (match dhsecret clientkey serverkey with
            | none => .error .other
            | some secret => .ok (.response challenge secret))

/-- `auth` after the second line. -/
def checkResponse (challenge secret : Bytes) (response : Option Bytes) : Except Raised Phase :=
  match response with
  | none => .error .socket
  | some response =>
    match hmac64 challenge secret, base64decode response with
    | some hmac, some response =>
      if hmac ≠ response then .error .other else .ok (.token secret)
    | _, _ => .error .other

/-- `auth` after the third line: the token, for `auth_handler`. -/
def readToken (secret : Bytes) (etoken : Option Bytes) : Except Raised Bytes :=
  match etoken with
  | none => .error .socket
  | some etoken =>
    match (base64decode etoken).bind (desdecode secret) with
    | none => .error .other
    | some token => .ok token

/-- `pcall(auth_handler, token)`, with the secret. -/
def authValues (secret : Bytes) : AuthReturn → AuthValues
  | .accepts server uid => ⟨true, some server, some uid, secret⟩
  | .nothing => ⟨true, none, none, secret⟩
  | .raises => ⟨false, none, none, secret⟩

/-- `ret_pack(pcall(auth, fd, addr))`. -/
def retPack : Except Raised AuthValues → Answer
  | .ok v => ⟨some v.ok, v.server, v.uid, some v.secret⟩
  | .error .socket => ⟨none, none, none, none⟩
  | .error .other => ⟨some false, none, none, none⟩

/-- The phase after a part of `auth`. -/
def settle : Except Raised Phase → Phase
  | .ok p => p
  | .error e => .answered (retPack (.error e))

/-- A line read in this phase fails the handshake: it is not the base64 text of a key, not that of
the right hmac, or not that of an encrypted token. -/
def Phase.fails (random : UInt64) (line : Bytes) : Phase → Bool
  | .clientKey _ => ((base64decode line).bind (dhsecret · (randomkey random))).isNone
  | .response challenge secret =>
    match hmac64 challenge secret with
    | some hmac => base64decode line ≠ some hmac
    | none => true
  | .token secret => ((base64decode line).bind (desdecode secret)).isNone
  | _ => false

/-! ## What a line does -/

theorem dhexchange_isSome_of_dhsecret {x y s : Bytes} (h : dhsecret x y = some s) :
    x.length = 8 ∧ ∃ e, dhexchange y = some e := by
  unfold dhsecret at h
  split at h
  · rename_i hxy
    exact ⟨hxy.1, _, dhexchange_eq_some.mpr ⟨hxy.2.1, hxy.2.2.2, rfl⟩⟩
  · exact absurd h (by simp)

/-- The first line, on an open socket. -/
theorem exchange_some (challenge : Bytes) (random : UInt64) (line : Bytes) :
    (Phase.clientKey challenge).fails random line = true ∧
        settle (exchange true challenge random (some line)).2 =
          .answered ⟨some false, none, none, none⟩ ∨
      (Phase.clientKey challenge).fails random line = false ∧
        ∃ secret, settle (exchange true challenge random (some line)).2 =
          .response challenge secret := by
  cases hd : base64decode line with
  | none => exact Or.inl ⟨by simp [Phase.fails, hd], by simp [exchange, hd, settle, retPack]⟩
  | some key =>
    cases hs : dhsecret key (randomkey random) with
    | some secret =>
      obtain ⟨hlen, e, he⟩ := dhexchange_isSome_of_dhsecret hs
      exact Or.inr ⟨by simp [Phase.fails, hd, hs], secret,
        by simp [exchange, hd, he, hs, hlen, write, settle]⟩
    | none =>
      refine Or.inl ⟨by simp [Phase.fails, hd, hs], ?_⟩
      by_cases hlen : key.length = 8
      · cases he : dhexchange (randomkey random) with
        | none => simp [exchange, hd, he, hlen, settle, retPack]
        | some e => simp [exchange, hd, he, hlen, hs, write, settle, retPack]
      · simp [exchange, hd, hlen, settle, retPack]

/-- On a closed socket the key cannot be sent. -/
theorem exchange_closed (challenge : Bytes) (random : UInt64) (line : Option Bytes) :
    ∃ e, (exchange false challenge random line).2 = .error e := by
  cases line with
  | none => exact ⟨_, rfl⟩
  | some line =>
    cases hd : base64decode line with
    | none => exact ⟨.other, by simp [exchange, hd]⟩
    | some key =>
      by_cases hlen : key.length = 8
      · cases he : dhexchange (randomkey random) with
        | none => exact ⟨.other, by simp [exchange, hd, hlen, he]⟩
        | some e => exact ⟨.socket, by simp [exchange, hd, hlen, he, write]⟩
      · exact ⟨.other, by simp [exchange, hd, hlen]⟩

/-- The second line. -/
theorem checkResponse_some (challenge secret : Bytes) (random : UInt64) (line : Bytes) :
    (Phase.response challenge secret).fails random line = true ∧
        settle (checkResponse challenge secret (some line)) =
          .answered ⟨some false, none, none, none⟩ ∨
      (Phase.response challenge secret).fails random line = false ∧
        settle (checkResponse challenge secret (some line)) = .token secret := by
  cases hh : hmac64 challenge secret with
  | none =>
    exact Or.inl ⟨by simp [Phase.fails, hh], by simp [checkResponse, hh, settle, retPack]⟩
  | some hmac =>
    cases hd : base64decode line with
    | none =>
      exact Or.inl ⟨by simp [Phase.fails, hh, hd], by simp [checkResponse, hh, hd, settle, retPack]⟩
    | some r =>
      by_cases hr : hmac = r
      · exact Or.inr ⟨by simp [Phase.fails, hh, hd, hr],
          by simp [checkResponse, hh, hd, hr, settle]⟩
      · exact Or.inl ⟨by simp [Phase.fails, hh, hd, Ne.symm hr],
          by simp [checkResponse, hh, hd, hr, settle, retPack]⟩

/-- The third line. -/
theorem readToken_some (secret : Bytes) (random : UInt64) (line : Bytes) :
    (Phase.token secret).fails random line = true ∧ readToken secret (some line) = .error .other ∨
      (Phase.token secret).fails random line = false ∧
        ∃ token, readToken secret (some line) = .ok token := by
  cases hd : (base64decode line).bind (desdecode secret) with
  | none => exact Or.inl ⟨by simp [Phase.fails, hd], by simp [readToken, hd]⟩
  | some token => exact Or.inr ⟨by simp [Phase.fails, hd], token, by simp [readToken, hd]⟩

end LsServer.LoginGate
