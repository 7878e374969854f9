import LsServer.Cluster.Wire
import LsServer.Lib.Run
import LsServer.Lib.Table

/-!
# Cluster calls (clustersender.lua, socketchannel.lua, clusteragent.lua)

The calls from one node to another go through one sender. It numbers them with sessions, writes
their packages to a socket and lets the caller wait under its session. Behind every connection the
other node has an agent, which puts large requests together, looks up names, calls the service and
writes the response. A package that is written with `lwrite` can be overtaken by later ones, so two
lists are on their way in each direction.

Source: clustersender.lua 12-70; socketchannel.lua 59-137, 160-173, 416-562; clusteragent.lua
14-147; clusterd.lua 233-259 for the `exit` of an agent.

* A request is packed at once, under the next session, and written when `block_connect` has come
  back: it waits there (`Pending`) while another one connects.
* A connection breaks (`broke`) where `dispatch_by_session` reads the end of the socket, and in
  `changenode`. Then all callers that wait get an error, and the next request makes a new connection
  with a new agent. The agent of the old one may still get what was on its way, but its responses go
  nowhere. A write that fails is a break, after which the request gets its error, too.
* clusterd lets an agent exit when the gate has closed its socket. The sender may not know yet:
  requests are written that will never arrive, and responses still come that were written before.
* `skynet.rawcall` waits for the service (`tasks`). A name, and the address 0, are looked up at
  clusterd first (`queries`); what comes of it is open. A coroutine that is killed by an error there
  (the body of a request for the address 0 is no name) does nothing any more: it stays where it is.

A message is what `skynet.pack` has made, so its length is an `int`.

Out of scope: tracing (`packtrace`, `tracecall`), which writes a package of its own; the packages of
a request whose write fails half way; the mode of a channel without sessions, `auth` and backup
hosts; the session after 2^31 - 1, which is 1 again.
-/

namespace LsServer.Cluster.Call

open LsServer.Lua LsServer.Lib LsServer.Lib.Fragments

/-- The caller: the coroutine of the sender that handles its request. -/
abbrev Co := Nat

/-- `large_request[session]`; the address is `false` where a part was the first to come. -/
structure LargeRequest where
  addr : Option Addr
  isPush : Bool
  table : List Piece

/-- An agent, with the requests for which it looks up an address and those for which it waits for a
service. -/
structure Agent where
  largeRequest : Table Nat LargeRequest
  queries : List RequestParcel
  tasks : List RequestParcel

/-- A connection: requests that are on their way, the agent, responses on their way back. -/
structure Conn where
  high : List Bytes
  low : List Bytes
  agent : Agent
  exited : Bool
  rhigh : List Bytes
  rlow : List Bytes

/-- `__thread[session]`, with its `__result_data`. -/
structure Waiting where
  co : Co
  resultData : Option (List Piece)

/-- What may be packed: handles are of 32 bits. -/
def Addr.uint32 : Addr → Prop
  | .handle n => n < 2 ^ 32
  | .name _ => True

instance (addr : Addr) : Decidable (Addr.uint32 addr) := by
  cases addr <;> unfold Addr.uint32 <;> infer_instance

/-- A request, or a push, that is packed and waits in `block_connect`. -/
structure Pending where
  co : Option Co
  addr : Addr
  session : Nat
  msg : Bytes
  request : Bytes
  newSession : Nat
  padding : Option (List Bytes)
  uint32 : Addr.uint32 addr
  length : msg.length < 2 ^ 31
  packed : packrequest addr session msg co.isNone = some (request, newSession, padding)

/-- What its packages carry. -/
def Pending.parcel (e : Pending) : RequestParcel :=
  requestParcel e.addr e.session e.msg e.co.isNone

/-- The sender with its connection, and the connections it had before. -/
structure Link where
  session : Nat
  pending : List Pending
  thread : Table Nat Waiting
  conn : Option Conn
  old : List Conn

/-- What happens next: `command.req` or `command.push`; `block_connect` comes back, with a
connection if there is one or `ok`; a package arrives at an agent; an address has been looked up,
`found` is it packed; a service answers; a package of a response arrives; the connection breaks; an
agent exits. The agents are that of the connection, `none`, and those before. -/
inductive Event
  | req (co : Co) (addr : Addr) (msg : Bytes)
  | push (addr : Addr) (msg : Bytes)
  | connected (i : Nat) (ok : Bool)
  | arrive (n : Option Nat) (low : Bool)
  | lookup (n : Option Nat) (i : Nat) (found : Option Bytes)
  | finish (n : Option Nat) (i : Nat) (ok : Bool) (msg : Bytes)
  | reply (low : Bool)
  | broke
  | exit (n : Option Nat)
  deriving DecidableEq

/-- What is seen: a request that is written, and who waits for it; one that the agent gives to
`skynet.rawcall` or `skynet.rawsend`; one that it answers itself; a response that it writes; a
caller that gets a message or an error from the other node; a caller that gets an error of the
socket; an error of `packrequest`; a response for which nobody waits. -/
inductive Act
  | issued (co : Option Co) (p : RequestParcel)
  | handed (p : RequestParcel)
  | kept (p : RequestParcel)
  | answered (p : ResponseParcel)
  | returned (co : Co) (session : Nat) (result : Option Bytes)
  | raised (co : Co) (session : Nat)
  | refused
  | unknown (session : Nat)
  deriving DecidableEq

def Agent.init : Agent := ⟨.empty, [], []⟩

def Conn.init : Conn := ⟨[], [], .init, false, [], []⟩

/-! ## The agent -/

/-- The address is 0, or `cluster.isname` of it. -/
def Addr.looked : Addr → Bool
  | .handle n => n = 0
  | .name s => s.head? = some 64

/-- `skynet.rawcall` waits for the service, `skynet.rawsend` does not. -/
def Agent.hand (a : Agent) (p : RequestParcel) : Agent :=
  if p.label.2 then a else { a with tasks := a.tasks ++ [p] }

/-- A request, put together or not, has come: `msg` is `nil` where that has failed. -/
def Agent.accept (a : Agent) (addr : Option Addr) (session : Nat) (msg : Option Bytes)
    (isPush : Bool) : Agent × List ResponseParcel × List Act :=
  match msg, addr with
  | none, _ => (a, [responseParcel session false (bytes "Invalid large req")], [])
  | some _, none => (a, [responseParcel session false (bytes "Invalid name")], [])
  | some msg, some addr =>
    let p : RequestParcel := ⟨session, (addr, isPush), msg⟩
    if Addr.looked addr then ({ a with queries := a.queries ++ [p] }, [], [])
    else (a.hand p, [], [.handed p])

/-- The branch `padding` of `dispatch_request`. -/
def Agent.append (a : Agent) (addr : Option Addr) (session : Nat) (piece : Piece) (isPush : Bool) :
    Agent :=
  let req := (a.largeRequest.get session).getD ⟨addr, isPush, []⟩
  { a with largeRequest := a.largeRequest.set session { req with table := req.table ++ [piece] } }

/-- The other branch. -/
def Agent.complete (a : Agent) (addr : Option Addr) (session : Nat) (msg : Bytes) (isPush : Bool) :
    Agent × List ResponseParcel × List Act :=
  match a.largeRequest.get session with
  | some req =>
    Agent.accept { a with largeRequest := a.largeRequest.del session } req.addr session
      (concat (req.table ++ [.data msg])) req.isPush
  | none => a.accept addr session (some msg) isPush

/-- `dispatch_request`, until it waits. -/
def Agent.dispatchRequest (a : Agent) : Unpacked → Agent × List ResponseParcel × List Act
  | .request addr session msg isPush => a.complete (some addr) session msg isPush
  | .head addr session size isPush => (a.append (some addr) session (.size size) isPush, [], [])
  | .part session msg true => (a.append none session (.data msg) false, [], [])
  | .part session msg false => a.complete none session msg false
  | .trace _ => (a, [], [])

/-- The agent writes a response. -/
def Conn.respond (c : Conn) (session : Nat) (ok : Bool) (msg : Bytes) : Conn :=
  match packresponse session ok msg with
  | .inl package => { c with rhigh := c.rhigh ++ [package] }
  | .inr packages => { c with rlow := c.rlow ++ packages }

/-- A package arrives at the agent, by way of the gate. -/
def Conn.arrive (c : Conn) (package : Bytes) : Conn × List Act :=
  match (Skynet.packages.read package).bind fun x => unpackrequest x.1 with
  | some request =>
    let (agent, responses, acts) := c.agent.dispatchRequest request
    (responses.foldl (fun c r => c.respond r.id r.label r.body) { c with agent := agent },
      acts ++ responses.map .answered)
  | none => (c, [])

/-- The address for `p` has been looked up: what is left of `dispatch_request`. -/
def Conn.lookup (c : Conn) (p : RequestParcel) (found : Option Bytes) : Conn × List Act :=
  match p.label.1, found with
  | .name _, some _ => ({ c with agent := c.agent.hand p }, [.handed p])
  | .name _, none =>
    (c.respond p.id false (bytes "Invalid name"),
      [.kept p, .answered (responseParcel p.id false (bytes "Invalid name"))])
  | .handle _, some addr =>
    (c.respond p.id true addr, [.kept p, .answered (responseParcel p.id true addr)])
  | .handle _, none =>
    (c.respond p.id false (bytes "name not found"),
      [.kept p, .answered (responseParcel p.id false (bytes "name not found"))])

/-! ## The sender -/

/-- `channel:request`, once connected. -/
def Conn.write (c : Conn) (request : Bytes) (padding : Option (List Bytes)) : Conn :=
  match padding with
  | none => { c with high := c.high ++ [request] }
  | some padding => { c with low := c.low ++ request :: padding }

/-- `block_connect`: the connection, or a new one. -/
def Link.connect (s : Link) (ok : Bool) : Option Conn :=
  match s.conn with
  | some c => some c
  | none => if ok then some .init else none

/-- `push_response`; a push waits for nothing. -/
def pushResponse (thread : Table Nat Waiting) (response : Nat) : Option Co → Table Nat Waiting
  | some co => thread.set response ⟨co, none⟩
  | none => thread

/-- `wait_for_response` has come back: the message, or an error. -/
def resultOf (w : Waiting) (r : Reply) : Option Bytes :=
  if r.ok then
    match w.resultData, r.data with
    | some table, piece => some ((concat (table ++ [piece])).getD [])
    | none, .data msg => some msg
    | none, .size _ => none
  else none

/-- An iteration of `dispatch_by_session`. -/
def Link.dispatchReply (s : Link) (r : Reply) : Link × List Act :=
  match s.thread.get r.session with
  | none => (s, [.unknown r.session])
  | some w =>
    if r.padding && r.ok then
      let table := w.resultData.getD [] ++ [r.data]
      ({ s with thread := s.thread.set r.session { w with resultData := some table } }, [])
    else
      ({ s with thread := s.thread.del r.session }, [.returned w.co r.session (resultOf w r)])

/-- `close_channel_socket` and `wakeup_all`. -/
def Link.close (s : Link) : Link × List Act :=
  ({ s with thread := .empty, conn := none, old := s.conn.toList ++ s.old },
    s.thread.entries.map fun x => .raised x.2.co x.1)

def Link.get (s : Link) : Option Nat → Option Conn
  | none => s.conn
  | some n => s.old[n]?

/-- The connection, if its agent has not exited. -/
def Link.running (s : Link) (n : Option Nat) : Option Conn := (s.get n).filter fun c => !c.exited

def Link.put (s : Link) (c : Conn) : Option Nat → Link
  | none => { s with conn := some c }
  | some n => { s with old := s.old.set n c }

/-- Takes the next package out of one of two lists. -/
def next (low : Bool) (high lows : List Bytes) : Option (Bytes × List Bytes × List Bytes) :=
  if low then
    match lows with
    | [] => none
    | package :: lows => some (package, high, lows)
  else
    match high with
    | [] => none
    | package :: high => some (package, high, lows)

/-- `send_request` or `command.push`, up to `channel:request`. -/
def Link.request (s : Link) (co : Option Co) (addr : Addr) (msg : Bytes)
    (h : Addr.uint32 addr ∧ msg.length < 2 ^ 31) : Link × List Act :=
  match hp : packrequest addr s.session msg co.isNone with
  | none => (s, [.refused])
  | some (request, new, padding) =>
    let e : Pending := ⟨co, addr, s.session, msg, request, new, padding, h.1, h.2, hp⟩
    ({ s with
        session := if co.isSome ∨ padding.isSome then new else s.session
        pending := s.pending ++ [e] }, [])

/-- `channel:request`, from where `block_connect` has come back. -/
def Link.written (s : Link) (e : Pending) (ok : Bool) : Link × List Act :=
  match s.connect ok with
  | none => (s, e.co.toList.map fun co => .raised co e.session)
  | some c =>
    ({ s with
        conn := some (c.write e.request e.padding)
        thread := pushResponse s.thread e.session e.co },
      [.issued e.co e.parcel])

/-- One event, if it can happen. -/
def step (s : Link) : Event → Option (Link × List Act)
  | .req co addr msg =>
    if h : Addr.uint32 addr ∧ msg.length < 2 ^ 31 then some (s.request (some co) addr msg h)
    else none
  | .push addr msg =>
    if h : Addr.uint32 addr ∧ msg.length < 2 ^ 31 then some (s.request none addr msg h) else none
  | .connected i ok =>
    s.pending[i]?.map fun e => Link.written { s with pending := s.pending.eraseIdx i } e ok
  | .arrive n low => do
    let c ← s.running n
    let (package, high, lows) ← next low c.high c.low
    let (c, acts) := { c with high := high, low := lows }.arrive package
    some (s.put c n, acts)
  | .lookup n i found => do
    let c ← s.running n
    let p ← c.agent.queries[i]?
    -- the address of a service fits into one package
    if found.all fun addr => addr.length ≤ MULTI_PART then
      let (c, acts) := Conn.lookup
        { c with agent := { c.agent with queries := c.agent.queries.eraseIdx i } } p found
      some (s.put c n, acts)
    else none
  | .finish n i ok msg => do
    let c ← s.running n
    let p ← c.agent.tasks[i]?
    let c := { c with agent := { c.agent with tasks := c.agent.tasks.eraseIdx i } }
    if msg.length < 2 ^ 31 then
      some (s.put (c.respond p.id ok msg) n, [.answered (responseParcel p.id ok msg)])
    else none
  | .reply low => do
    let c ← s.conn
    let (package, high, lows) ← next low c.rhigh c.rlow
    let s := { s with conn := some { c with rhigh := high, rlow := lows } }
    match (Skynet.packages.read package).bind fun x => unpackresponse x.1 with
    | some r => some (s.dispatchReply r)
    | none => some s.close
  | .broke => s.conn.map fun _ => s.close
  | .exit n => (s.running n).map fun c => (s.put { c with exited := true } n, [])

/-- **The calls from one node to another.** -/
def calls : Machine Link Event Act where
  init := ⟨1, [], .empty, none, []⟩
  step := step

/-- A step. -/
abbrev Item := calls.Item

end LsServer.Cluster.Call
