import LsServer.Crypt.Base64
import LsServer.Crypt.Hash
import LsServer.GameGate.State
import LsServer.Lua.Pattern

/-!
# The handshake of the gate (GameGate.lua)

The first packet of a connection is `base64(uid)@base64(server)@base64(subid):index:base64(hmac)`,
with the part before the first colon encoded once more. `authCheck` is `do_auth` up to its first
assignment: it reads the gate and either raises, answers with an error status or accepts. `bind`
is the rest of `do_auth`, the takeover of the user by the new connection.

Source: GameGate.lua, `server.username` 89-95, `do_auth` 153-179, `auth` 181-200.

* The pattern is `([^:]*):([^:]*):([^:]*)`, which is compiled and matched as Lua does. It is not
  anchored, and the third field ends at the next colon, so a packet may have more behind it.
* The comment at line 24 has the username in plain text; the code decodes the whole first field from
  base64.
* Where `string.match` finds nothing `b64decode(nil)` raises, and so do an index that is no number,
  a third field that is no base64 and a secret that has not eight bytes: the status is 400 then.
* `hmac64(hashkey(index), secret)` is over the text of the index, and what is compared with
  `u.version` is its number.

`auth` sends one status, and closes the connection unless it is 200.

Results: `authCheck_accepted` says what an accepted packet carries.
-/

namespace LsServer.GameGate

open LsServer.Lib LsServer.Lua LsServer.Crypt

/-- `server.username`. -/
def username (uid subid servername : Bytes) : Bytes :=
  base64encode uid ++ bytes "@" ++ base64encode servername ++ bytes "@" ++ base64encode subid

/-- The pattern `([^:]*):([^:]*):([^:]*)`. -/
def handshakePattern : List Item :=
  [.openCap, .star (.set true [.lit 58]), .closeCap, .one (.lit 58),
   .openCap, .star (.set true [.lit 58]), .closeCap, .one (.lit 58),
   .openCap, .star (.set true [.lit 58]), .closeCap]

example : compile (bytes "([^:]*):([^:]*):([^:]*)") = .ok handshakePattern := by decide +kernel

/-- The three captures of a handshake packet. -/
def splitHandshake (message : Bytes) : Option (Bytes × Bytes × Bytes) :=
  match strMatch handshakePattern message with
  | some [username, index, hmac] => some (username, index, hmac)
  | _ => none

/-- How `do_auth` ends. -/
inductive AuthResult
  | raised
  | rejected (status : Bytes)
  | accepted (u : UserId) (idx : Number)
  deriving DecidableEq

/-- `do_auth` up to the takeover. -/
def authCheck (g : Gate) (message : Bytes) : AuthResult :=
  match splitHandshake message with
  -- `b64decode(nil)` raises
  | none => .raised
  | some (username, index, hmac) =>
    match base64decode username with
    | none => .raised
    | some username =>
      match g.userOnline.get username with
      | none => .rejected (bytes "404 User Not Found")
      | some u =>
        match tonumber index with
        | none => .raised
        | some idx =>
          match base64decode hmac with
          | none => .raised
          | some hmac =>
            if idx ≤ (g.users.cell u).version then .rejected (bytes "403 Index Expired")
            else
              match hmac64 (hashkey index) (g.users.cell u).secret with
              | none => .raised
              | some h =>
                if h ≠ hmac then .rejected (bytes "401 Unauthorized") else .accepted u idx

/-- The end of `do_auth`: the old connection of the user is shut down and the new one bound. -/
def bind (g : Gate) (fd : Fd) (addr : Bytes) (u : UserId) (idx : Number) : Gate × List Act :=
  let r := g.users.cell u
  ({ g with
      users := g.users.set u { r with version := idx, fd := some fd, ip := some addr }
      connection := g.connection.set fd u },
    match r.fd with
    | some old => [.shutdown old]
    | none => [])

/-- `socketdriver.send(fd, string.pack('>s2', result))`. -/
def sendStatus (fd : Fd) (result : Bytes) : Act := .send fd (packBE 2 result.length ++ result)

/-- `auth`. -/
def auth (g : Gate) (fd : Fd) (addr message : Bytes) : Gate × List Act :=
  match authCheck g message with
  | .raised =>
    let (g, acts) := closeclient g fd
    (g, sendStatus fd (bytes "400 Bad Request") :: acts)
  | .rejected status =>
    let (g, acts) := closeclient g fd
    (g, sendStatus fd status :: acts)
  | .accepted u idx =>
    let (g, acts) := bind g fd addr u idx
    (g, acts ++ [sendStatus fd (bytes "200 OK")])

/-- **What an accepted packet carries**: the base64 text of an online user's name, an index above
the user's version and the hmac of the index text under the user's secret. -/
theorem authCheck_accepted {g : Gate} {message : Bytes} {u : UserId} {idx : Number}
    (h : authCheck g message = .accepted u idx) :
    ∃ name64 index hmac64' name hm, splitHandshake message = some (name64, index, hmac64') ∧
      base64decode name64 = some name ∧ g.userOnline.get name = some u ∧
      tonumber index = some idx ∧ base64decode hmac64' = some hm ∧
      (g.users.cell u).version < idx ∧
      hmac64 (hashkey index) (g.users.cell u).secret = some hm := by
  unfold authCheck at h
  split at h
  · exact absurd h (by simp)
  rename_i name64 index hmac64' hs
  split at h
  · exact absurd h (by simp)
  rename_i name hname
  split at h
  · exact absurd h (by simp)
  rename_i u' hu
  split at h
  · exact absurd h (by simp)
  rename_i idx' hidx
  split at h
  · exact absurd h (by simp)
  rename_i hm hhm
  split at h
  · exact absurd h (by simp)
  rename_i hlt
  split at h
  · exact absurd h (by simp)
  rename_i h' hh
  split at h
  · exact absurd h (by simp)
  rename_i heq
  obtain ⟨rfl, rfl⟩ : u' = u ∧ idx' = idx := by simpa using h
  rw [not_not] at heq
  exact ⟨name64, index, hmac64', name, hm, hs, hname, hu, hidx, hhm, not_le.mp hlt, heq ▸ hh⟩

end LsServer.GameGate
