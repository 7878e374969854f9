import LsServer.Lua.Bytes

/-!
# Remote calls (SnaxUtil.lua)

`remoteCall` finds the service of a node by `cluster.query` and `cluster.snax`, both of which
suspend the caller and can raise, and then makes the request. A failed search is not an error for
the caller: the call returns `nil` and no request is made.

Source: SnaxUtil.lua, `getRemoteSrv` 3-24, `remoteCall` 26-34.

* `Search` is how the search ends. Both searches are in a `pcall`, and where one raises
  `getRemoteSrv` returns `nil`.
* Where `cluster.snax` returns nothing, the source calls `LOG_SKYNET`. No file defines it, so the
  call raises, outside of any `pcall`.
* `remoteCall` returns `nil` like a method without a result. A caller that does not look at the
  result cannot tell, and one that does cannot either.
* `snaxObj.req[method]` raises for a name that the service does not have.

What happens to a request is not said here: it is sent, handled and answered by the events of the
machines that use this module.

Out of scope: the log, and the two ways in which `cluster.query` can find nothing, which both raise.
-/

namespace LsServer.Cluster

open LsServer.Lua

abbrev NodeName := Bytes

/-- A bound remote service: the names of its `response` methods. -/
structure SnaxObj where
  methods : List Bytes
  deriving DecidableEq

/-- How the search for a remote service ends: `cluster.query` raises, `cluster.snax` raises, or
`cluster.snax` returns. -/
inductive Search
  | queryFails
  | snaxFails
  | bound (snaxObj : Option SnaxObj)
  deriving DecidableEq

/-- `SnaxUtil.getRemoteSrv`. Its last branch calls `LOG_SKYNET`, a global that nothing defines. -/
def getRemoteSrv : Search → Except Bytes (Option SnaxObj)
  | .queryFails => .ok none
  | .snaxFails => .ok none
  | .bound (some snaxObj) => .ok (some snaxObj)
  | .bound none => .error (bytes "attempt to call a nil value (global 'LOG_SKYNET')")

/-- How `SnaxUtil.remoteCall` goes on after the search: it returns `nil`, `getRemoteSrv` or
`snaxObj.req[method]` raises, or the request is made. -/
inductive Remote
  | absent
  | raises
  | request
  deriving DecidableEq

/-- `SnaxUtil.remoteCall`, up to the request. -/
def remoteCall (r : Search) (method : Bytes) : Remote :=
  match getRemoteSrv r with
  | .error _ => .raises
  | .ok none => .absent
  | .ok (some snaxObj) => if method ∈ snaxObj.methods then .request else .raises

end LsServer.Cluster
