import LsServer.LoginGate.Auth
import LsServer.Lua.Match

/-!
# Tokens (Logind.lua, AccountMgr.lua)

`server.auth_handler` cuts a token at its colons: the account, and the node that the player has
selected. `AccountMgr` takes every account, at a node that exists, or picks one.

Source: Logind.lua `server.auth_handler` 15-34; AccountMgr.lua `response.auth` 12-27; LuaExt.lua
`string.split` for the token.

* A token has one or two fields: the pieces of `[^:]*`, each decoded from base64. A third one is not
  looked at. An empty field is the empty account, which is a string and goes through.
* `nodeIsExist` is `NodeIsExist` of `MonitorSubscribe`, on the map that the login server has at that
  time.
* A node that does not exist makes `auth` return nothing, and `auth_handler` then returns nothing,
  too: this is no error for `pcall`.

`server.login_handler` (36-54) is a remote call and its reply: `Login.loginReply`.

Out of scope: `command_handler`, whose table of commands is empty.
-/

namespace LsServer.LoginGate

open LsServer.Lua LsServer.Crypt

/-- `response.auth` of `AccountMgr`. -/
def accountAuth (nodeIsExist : Bytes → Bool) (_account : Bytes) (selectNode : Option Bytes) :
    Option Bytes :=
  match selectNode with
  | some node => if nodeIsExist node then some node else none
  | none => some (bytes "game1")

/-- A field of the token, decoded: `field and crypt.base64decode(field)`; the outer `none` where
it raises. -/
def tokenField (field : Option Bytes) : Option (Option Bytes) :=
  match field with
  | none => some none
  | some field => (base64decode field).map some

/-- `server.auth_handler`. -/
def authHandler (nodeIsExist : Bytes → Bool) (token : Bytes) : AuthReturn :=
  let tokenInfo := split token 58
  match tokenField tokenInfo[0]?, tokenField tokenInfo[1]? with
  | some (some account), some selectNode =>
    match accountAuth nodeIsExist account selectNode with
    | some gameNode => .accepts gameNode account
    | none => .nothing
  | _, _ => .raises

end LsServer.LoginGate
