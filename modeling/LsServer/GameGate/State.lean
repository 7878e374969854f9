import LsServer.Lib.Table
import LsServer.Lua.Number

/-!
# The tables of the gate (GameGate.lua over snax/gateserver.lua)

The Lua tables `user_online`, `handshake` and `connection` of `GameGate` and `connection` and
`client_number` of `gateserver`, next to the records they share by reference: a user `u` and a
cached response `p` are numbered cells, so two tables can name one record. A `Task` is a coroutine
suspended in `request_handler`.

The functions here are those of `gateserver` and the callbacks that neither authenticate nor
serve a request: each takes the gate and gives the gate after it, with the socket calls it makes.

Source: GameGate.lua 10-12 for the tables, `server.login` 97-105, `server.logout` 107-116,
`handler.connect` 129-132, `handler.disconnect` 134-150; snax/gateserver.lua `openclient` 19-23,
`closeclient` 25-31, `MSG.open` 92-103, `MSG.close` 105-117, `MSG.error` 119-128.

* `User` is the record `u`: `fd` and `ip` are absent until a handshake, `response` is the cache. A
  record lives on where a table still names it: `connection` of an old socket may name a user that
  has logged in again.
* `Entry` is `p`. Its four fields are optional, as `p[1]` to `p[4]` are.
* `version` is a number of any kind, since the index of a handshake is read by `tonumber`.
* `clientNumber` counts connections from their open event to their close event, also those that were
  refused at once.

A descriptor is the id of a socket of skynet, which is used again only after the socket is gone.
`Act.disconnect` is the call of `conf.disconnect_handler`; what that does is of another module.

Out of scope: `server.userid` and `server.ip`, which are only documented, the commands of other
services besides `login` and `logout` (`kick` calls an empty handler), and the listening socket.
-/

namespace LsServer.GameGate

open LsServer.Lib LsServer.Lua

abbrev Fd := Nat
abbrev UserId := Nat
abbrev EntryId := Nat
abbrev TaskId := Nat

/-- A cached response `p`, the struct `{ return_fd, response, version, index }`. -/
structure Entry where
  fd : Option Fd
  response : Option Bytes
  version : Option Number
  index : Option Nat
  deriving DecidableEq

/-- A user record of `user_online`. `response` is the cache, by session. -/
structure User where
  username : Bytes
  secret : Bytes
  version : Number
  index : Nat
  response : Table Nat EntryId
  fd : Option Fd
  ip : Option Bytes

/-- The locals of a `do_request` that waits for `request_handler(u.username, message)`. -/
structure Task where
  fd : Fd
  user : UserId
  session : Nat
  message : Bytes
  entry : EntryId

/-- What `server.start` and `CMD.open` read from their configuration. -/
structure Conf where
  maxclient : Int := 1024
  expired_number : Nat := 128

/-- The tables of the service. `gsConnection` is the table `connection` of `gateserver`: `true`
for connected, `false` for closed by the peer. -/
structure Gate where
  clientNumber : Int
  gsConnection : Table Fd Bool
  userOnline : Table Bytes UserId
  handshake : Table Fd Bytes
  connection : Table Fd UserId
  users : Heap User
  entries : Heap Entry
  tasks : Table TaskId Task
  nextTask : TaskId

/-- What the service does to its surroundings: socket calls, and calls of the callbacks
`request_handler` (in task `k`) and `disconnect_handler`. -/
inductive Act
  | start (fd : Fd)
  | send (fd : Fd) (data : Bytes)
  | shutdown (fd : Fd)
  | close (fd : Fd)
  | invoke (k : TaskId) (username message : Bytes)
  | disconnect (username : Bytes)
  deriving DecidableEq

/-- The gate when the service starts. -/
def Gate.init : Gate where
  clientNumber := 0
  gsConnection := .empty
  userOnline := .empty
  handshake := .empty
  connection := .empty
  users := .empty ⟨[], [], ofInt 0, 0, .empty, none, none⟩
  entries := .empty ⟨none, none, none, none⟩
  tasks := .empty
  nextTask := 0

/-! ## gateserver -/

/-- `gateserver.openclient`. -/
def openclient (g : Gate) (fd : Fd) : List Act :=
  if g.gsConnection.get fd = some true then [.start fd] else []

/-- `gateserver.closeclient`. -/
def closeclient (g : Gate) (fd : Fd) : Gate × List Act :=
  match g.gsConnection.get fd with
  | some _ => ({ g with gsConnection := g.gsConnection.del fd }, [.close fd])
  | none => (g, [])

theorem closeclient_eq (g : Gate) (fd : Fd) : closeclient g fd =
    ({ g with gsConnection := g.gsConnection.del fd },
      if (g.gsConnection.get fd).isSome then [.close fd] else []) := by
  unfold closeclient
  cases h : g.gsConnection.get fd with
  | some b => rfl
  | none => simp [h]

/-- `handler.connect`. -/
def handlerConnect (g : Gate) (fd : Fd) (addr : Bytes) : Gate × List Act :=
  ({ g with handshake := g.handshake.set fd addr }, openclient g fd)

/-- `MSG.open`. -/
def msgOpen (c : Conf) (g : Gate) (fd : Fd) (addr : Bytes) : Gate × List Act :=
  let g := { g with clientNumber := g.clientNumber + 1 }
  if c.maxclient ≤ g.clientNumber then (g, [.shutdown fd])
  else handlerConnect { g with gsConnection := g.gsConnection.set fd true } fd addr

theorem msgOpen_cases (c : Conf) (g : Gate) (fd : Fd) (addr : Bytes) :
    msgOpen c g fd addr = ({ g with clientNumber := g.clientNumber + 1 }, [.shutdown fd]) ∨
    msgOpen c g fd addr =
      ({ g with
          clientNumber := g.clientNumber + 1
          gsConnection := g.gsConnection.set fd true
          handshake := g.handshake.set fd addr }, [.start fd]) := by
  unfold msgOpen
  by_cases h : c.maxclient ≤ g.clientNumber + 1
  · exact Or.inl (by simp [h])
  · exact Or.inr (by simp [h, handlerConnect, openclient])

/-- `handler.disconnect`, also `handler.error`. The service's `disconnect_handler` is called with
one argument and returns at once, so the second test of `connection[fd]` holds whenever the first
one does. -/
def disconnect (g : Gate) (fd : Fd) : Gate × List Act :=
  let g := { g with handshake := g.handshake.del fd }
  match g.connection.get fd with
  | none => (g, [])
  | some u =>
    let c := g.users.cell u
    let g := { g with
      users := g.users.set u { c with fd := none }
      connection := g.connection.del fd }
    let (g, acts) := closeclient g fd
    (g, .disconnect c.username :: acts)

theorem disconnect_none {g : Gate} {fd : Fd} (h : g.connection.get fd = none) :
    disconnect g fd = ({ g with handshake := g.handshake.del fd }, []) := by
  simp [disconnect, h]

theorem disconnect_some {g : Gate} {fd : Fd} {u : UserId} (h : g.connection.get fd = some u) :
    disconnect g fd =
      ({ g with
          handshake := g.handshake.del fd
          users := g.users.set u { g.users.cell u with fd := none }
          connection := g.connection.del fd
          gsConnection := g.gsConnection.del fd },
        .disconnect (g.users.cell u).username ::
          if (g.gsConnection.get fd).isSome then [.close fd] else []) := by
  simp [disconnect, h, closeclient_eq]

theorem mem_disconnect {g : Gate} {fd : Fd} {a : Act} (h : a ∈ (disconnect g fd).2) :
    (∃ username, a = .disconnect username) ∨ a = .close fd := by
  cases hc : g.connection.get fd with
  | none =>
    rw [disconnect_none hc] at h
    exact absurd h (by simp)
  | some u =>
    rw [disconnect_some hc] at h
    rcases List.mem_cons.mp h with h | h
    · exact Or.inl ⟨_, h⟩
    · split at h
      · exact Or.inr (List.mem_singleton.mp h)
      · exact absurd h (by simp)

theorem disconnect_gsConnection (g : Gate) (fd : Fd) : (disconnect g fd).1.gsConnection =
    if (g.connection.get fd).isSome then g.gsConnection.del fd else g.gsConnection := by
  cases h : g.connection.get fd with
  | none => rw [disconnect_none h]; rfl
  | some u => rw [disconnect_some h]; rfl

/-- `MSG.close` of a client. -/
def msgClose (g : Gate) (fd : Fd) : Gate × List Act :=
  let g := { g with
    clientNumber := g.clientNumber - 1
    gsConnection := if g.gsConnection.get fd = some true then g.gsConnection.set fd false
      else g.gsConnection }
  disconnect g fd

/-- `MSG.error` of a client. -/
def msgError (g : Gate) (fd : Fd) : Gate × List Act :=
  let (g, acts) := disconnect g fd
  (g, .shutdown fd :: acts)

/-! ## Users -/

/-- `server.login`: a fresh record, also for a name that is online. -/
def serverLogin (g : Gate) (username secret : Bytes) : Gate :=
  { g with
    users := g.users.alloc ⟨username, secret, ofInt 0, 0, .empty, none, none⟩
    userOnline := g.userOnline.set username g.users.next }

/-- `server.logout`. For a name that is not online it raises after deleting nothing. -/
def serverLogout (g : Gate) (username : Bytes) : Gate × List Act :=
  match g.userOnline.get username with
  | none => (g, [])
  | some u =>
    let g := { g with userOnline := g.userOnline.del username }
    match (g.users.cell u).fd with
    | none => (g, [])
    | some fd =>
      if (g.connection.get fd).isSome then
        let (g, acts) := closeclient g fd
        ({ g with connection := g.connection.del fd }, acts)
      else (g, [])

theorem serverLogout_none {g : Gate} {username : Bytes} {u : UserId}
    (h : g.userOnline.get username = some u) (hfd : (g.users.cell u).fd = none) :
    serverLogout g username = ({ g with userOnline := g.userOnline.del username }, []) := by
  simp [serverLogout, h, hfd]

theorem serverLogout_some {g : Gate} {username : Bytes} {u v : UserId} {fd : Fd}
    (h : g.userOnline.get username = some u) (hfd : (g.users.cell u).fd = some fd)
    (hc : g.connection.get fd = some v) :
    serverLogout g username =
      ({ g with
          userOnline := g.userOnline.del username
          connection := g.connection.del fd
          gsConnection := g.gsConnection.del fd },
        if (g.gsConnection.get fd).isSome then [.close fd] else []) := by
  simp [serverLogout, h, hfd, hc, closeclient_eq]

end LsServer.GameGate
