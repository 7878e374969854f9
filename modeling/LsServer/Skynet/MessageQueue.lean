import LsServer.Lib.Ring
import LsServer.Lib.Run
import Mathlib.Logic.Function.Basic

/-!
# Message queues and worker threads (skynet_mq.c, skynet_server.c)

Every service has a queue of its own, and the queues that have messages stand in one global queue.
A worker thread takes a queue from there, grabs the service, handles some of its messages and puts
the queue back. Other threads push messages, kill services and start new ones at the same time, and
the queue of a dead service has to be emptied by a worker before it is freed.

What a thread is doing is a `Phase`: where it stands in `skynet_context_message_dispatch`,
`skynet_context_push`, `skynet_handle_retire`, `skynet_context_new` or, behind that, `cmd_launch`. A
step is what happens under one lock, or by one atomic operation.

`skynet_context_new` gives up its reference and goes on with `ctx`: it writes `init`, logs the
launch, and `cmd_launch` reads `inst->handle`. Whoever kills the service in the meantime frees it
under the launcher. `used` is that: what the code does then is not defined, and here the write is
lost and the launcher goes on.

Source: skynet_mq.c 44-250, skynet_server.c 115-353 and 484-498, skynet_handle.c 76-156,
skynet_start.c 154-181. Locks and atomic counters are taken as what they are for, so a step is
atomic.

Out of scope: the messages that `skynet_error` sends to the logger, `skynet_context_dispatchall` and
`skynet_context_reserve`, which only the shutdown uses, the profile and log file of a context, the
monitor, and other harbors. Registering a handle and creating the queue are one step: the table of
handles has a context without a queue in between, but nobody knows its handle yet. A handle is used
again only when nothing of the old service is left, its launcher included; in the source that is
after 2^24 others.
-/

namespace LsServer.Skynet.Dispatch

open LsServer.Lib

abbrev Handle := Nat

/-- `struct skynet_message`; the type is what the high bits of `sz` hold. -/
structure Message (δ : Type) where
  source : Handle
  session : Nat
  type : Nat
  data : Option δ
  deriving DecidableEq

instance {δ : Type} : Inhabited (Message δ) := ⟨⟨0, 0, 0, none⟩⟩

def PTYPE_ERROR : Nat := 7

def DEFAULT_QUEUE_SIZE : Nat := 64

def MQ_OVERLOAD : Nat := 1024

/-- `struct message_queue`. -/
structure Queue (δ : Type) where
  ring : RingBuffer (Message δ)
  release : Bool
  inGlobal : Bool
  overload : Nat
  overloadThreshold : Nat

/-- `struct skynet_context`; it is `registered` while the handle table has it. -/
structure Context where
  ref : Nat
  registered : Bool
  cb : Bool
  init : Bool

/-- What the threads share. A context or a queue that has been freed is `none`. -/
structure Core (δ : Type) where
  ctx : Handle → Option Context
  mq : Handle → Option (Queue δ)
  global : List Handle

/-- What a thread does next. -/
inductive Phase (δ : Type)
  /-- The next dispatch of a worker, of `q` or of what the global queue has; elsewhere, a call has
  returned. -/
  | idle (q : Option Handle)
  /-- `skynet_mq_pop` of message `i` of `n`. -/
  | taken (h : Handle) (i n : Nat)
  /-- The message has been popped. -/
  | popped (h : Handle) (m : Message δ) (i n : Nat)
  /-- In the callback. -/
  | running (h : Handle) (m : Message δ) (i n : Nat)
  /-- The loop has ended, with messages left perhaps. -/
  | served (h : Handle)
  /-- The queue goes back, for another one. -/
  | swap (h nq : Handle)
  /-- `skynet_context_release`, and then the phase `p`. -/
  | leaving (h : Handle) (p : Phase δ)
  /-- `delete_context`, and then the phase `p`. -/
  | deleting (h : Handle) (p : Phase δ)
  /-- `skynet_mq_release`. -/
  | orphan (h : Handle)
  /-- `_drop_queue`. -/
  | dropping (h : Handle)
  /-- `drop_message`, of a message that has been popped. -/
  | answering (h : Handle) (m : Message δ)
  /-- `skynet_mq_push`, for a context that has been grabbed. -/
  | pushing (h : Handle) (m : Message δ) (p : Phase δ)
  /-- `skynet_module_instance_init`. -/
  | starting (h : Handle)
  /-- `skynet_context_release` of `skynet_context_new`, after a success. -/
  | started (h : Handle)
  /-- It was the last reference: `ret` is `NULL`. -/
  | vanished (h : Handle)
  /-- It was not: `ctx->init = true`. -/
  | launched (h : Handle)
  /-- `skynet_globalmq_push(queue)`. -/
  | readied (h : Handle)
  /-- `skynet_error(ret, "LAUNCH %s %s", ..)`. -/
  | logging (h : Handle)
  /-- `inst->handle` of `cmd_launch`. -/
  | returned (h : Handle)
  /-- `skynet_context_new` after a failure. -/
  | failed (h : Handle)
  deriving DecidableEq

/-- What is seen of a step; `failed` is an `assert` that fails, a queue that is used after it was
freed, or a context that a thread with a reference to it does not find; `used` is a context that its
launcher uses after it was freed. -/
inductive Act (δ : Type)
  | pushed (h : Handle) (m : Message δ)
  | refused (h : Handle) (m : Message δ)
  | dispatched (h : Handle) (m : Message δ)
  | freed (h : Handle) (m : Message δ)
  | dropped (h : Handle) (m : Message δ)
  | overload (h : Handle) (length : Nat)
  | used (h : Handle)
  | failed
  deriving DecidableEq

/-- A thread: a worker with its weight, or some other one in a single call. -/
structure Thread (δ : Type) where
  weight : Option Int
  phase : Phase δ

/-- The threads and what they share. -/
structure Node (δ : Type) where
  core : Core δ
  threads : List (Thread δ)

variable {δ : Type}

/-! ## skynet_mq.c -/

/-- `skynet_mq_create`. -/
def mqCreate : Queue δ where
  ring := .empty DEFAULT_QUEUE_SIZE (by decide) default
  release := false
  inGlobal := true
  overload := 0
  overloadThreshold := MQ_OVERLOAD

/-- The `while` of `skynet_mq_pop`: the new `overload` and `overload_threshold`. -/
def overloaded (length overload threshold : Nat) : Nat × Nat :=
  if 0 < threshold ∧ threshold < length then overloaded length length (threshold * 2)
  else (overload, threshold)
termination_by length - threshold

/-- `skynet_mq_pop`. -/
def Queue.pop (q : Queue δ) : Queue δ × Option (Message δ) :=
  match q.ring.pop with
  | some (m, r) =>
    let o := overloaded r.length q.overload q.overloadThreshold
    ({ q with ring := r, overload := o.1, overloadThreshold := o.2 }, some m)
  | none => ({ q with overloadThreshold := MQ_OVERLOAD, inGlobal := false }, none)

/-- The ring of `skynet_mq_push`; `expand_queue` doubles it. -/
def Queue.push (q : Queue δ) (m : Message δ) : Queue δ :=
  { q with ring := q.ring.push (· * 2) (by omega) m }

/-- `skynet_globalmq_push`: a queue that is there already would cut the list, or make it a loop. -/
def globalPush (c : Core δ) (h : Handle) : Option (Core δ) :=
  if h ∈ c.global then none else some { c with global := c.global ++ [h] }

/-- `skynet_globalmq_pop`. -/
def globalPop (c : Core δ) : Core δ × Option Handle :=
  ({ c with global := c.global.tail }, c.global.head?)

/-- Writes the queue. -/
def Core.setMq (c : Core δ) (h : Handle) (q : Option (Queue δ)) : Core δ :=
  { c with mq := Function.update c.mq h q }

/-- Writes the context. -/
def Core.setCtx (c : Core δ) (h : Handle) (x : Option Context) : Core δ :=
  { c with ctx := Function.update c.ctx h x }

/-- `skynet_mq_push`. -/
def mqPush (c : Core δ) (h : Handle) (m : Message δ) : Option (Core δ) := do
  let q ← c.mq h
  let c := c.setMq h (some { q.push m with inGlobal := true })
  if q.inGlobal then some c else globalPush c h

/-- `skynet_mq_mark_release`. -/
def mqMarkRelease (c : Core δ) (h : Handle) : Option (Core δ) := do
  let q ← c.mq h
  if q.release then none
  else
    let c := c.setMq h (some { q with release := true })
    if q.inGlobal then some c else globalPush c h

/-- `skynet_handle_grab`. -/
def handleGrab (c : Core δ) (h : Handle) : Option (Core δ) :=
  match c.ctx h with
  | some x => if x.registered then some (c.setCtx h (some { x with ref := x.ref + 1 })) else none
  | none => none

/-! ## skynet_server.c -/

/-- The error for the source of a message that `h` will not handle. -/
def Message.error (h : Handle) (m : Message δ) : Message δ := ⟨h, m.session, PTYPE_ERROR, none⟩

/-- `n`, after the first message. -/
def share (weight : Option Int) (q : Queue δ) (i n : Nat) : Nat :=
  match weight with
  | some w => if i = 0 ∧ 0 ≤ w then q.ring.length >>> w.toNat else n
  | none => n

/-- The end of the loop's body. -/
def loop (h : Handle) (i n : Nat) : Phase δ :=
  if i + 1 < n then .taken h (i + 1) n else .served h

/-- The queue and the context go on as they are: the handling of a message. -/
def handle (c : Core δ) (weight : Option Int) (h : Handle) (m : Message δ) (i n : Nat) :
    Option (Core δ × Phase δ × List (Act δ)) := do
  let q ← c.mq h
  let x ← c.ctx h
  let n := share weight q i n
  let warning := if q.overload = 0 then [] else [.overload h q.overload]
  let c := c.setMq h (some { q with overload := 0 })
  if x.cb then
    if x.init then some (c, .running h m i n, warning ++ [.dispatched h m]) else none
  else some (c, loop h i n, warning ++ [.freed h m])

/-- The launcher of `h` uses its context. -/
def uses (c : Core δ) (h : Handle) : List (Act δ) := if (c.ctx h).isSome then [] else [.used h]

/-- A step of a thread; `none` is a failure. -/
def Phase.step (c : Core δ) (weight : Option Int) : Phase δ →
    Option (Core δ × Phase δ × List (Act δ))
  | .idle none =>
    let (c, q) := globalPop c
    some (c, .idle q, [])
  | .idle (some h) =>
    match handleGrab c h with
    | some c => some (c, .taken h 0 1, [])
    | none => some (c, .orphan h, [])
  | .taken h i n => do
    let q ← c.mq h
    match q.pop with
    | (q, some m) => some (c.setMq h (some q), .popped h m i n, [])
    | (q, none) => some (c.setMq h (some q), .leaving h (.idle none), [])
  | .popped h m i n => handle c weight h m i n
  | .running h _ i n => some (c, loop h i n, [])
  | .served h =>
    match globalPop c with
    | (c, some nq) => some (c, .swap h nq, [])
    | (c, none) => some (c, .leaving h (.idle (some h)), [])
  | .swap h nq => (globalPush c h).map fun c => (c, .leaving h (.idle (some nq)), [])
  | .leaving h p => do
    let x ← c.ctx h
    if x.ref = 1 then some (c.setCtx h none, .deleting h p, [])
    else some (c.setCtx h (some { x with ref := x.ref - 1 }), p, [])
  | .deleting h p => (mqMarkRelease c h).map fun c => (c, p, [])
  | .orphan h => do
    let q ← c.mq h
    if q.release then some (c, .dropping h, [])
    else (globalPush c h).map fun c => (c, .idle none, [])
  | .dropping h => do
    let q ← c.mq h
    match q.pop with
    | (q, some m) => some (c.setMq h (some q), .answering h m, [.dropped h m])
    | (_, none) => if h ∈ c.global then none else some (c.setMq h none, .idle none, [])
  | .answering h m =>
    if h = 0 then none
    else if m.source = 0 then some (c, .dropping h, [])
    else
      match handleGrab c m.source with
      | some c => some (c, .pushing m.source (m.error h) (.dropping h), [])
      | none => some (c, .dropping h, [.refused m.source (m.error h)])
  | .pushing h m p => (mqPush c h m).map fun c => (c, .leaving h p, [.pushed h m])
  | .starting h => some (c, .starting h, [])
  | .started h => do
    let x ← c.ctx h
    if x.ref = 1 then some (c.setCtx h none, .deleting h (.vanished h), [])
    else some (c.setCtx h (some { x with ref := x.ref - 1 }), .launched h, [])
  | .vanished h => (globalPush c h).map fun c => (c, .idle none, [])
  | .launched h =>
    some (c.setCtx h ((c.ctx h).map fun x => { x with init := true }), .readied h, uses c h)
  | .readied h => (globalPush c h).map fun c => (c, .logging h, [])
  | .logging h => some (c, .returned h, uses c h)
  | .returned h => some (c, .idle none, uses c h)
  | .failed h =>
    match c.ctx h with
    | some x =>
      if x.registered then
        some (c.setCtx h (some { x with registered := false }), .leaving h (.orphan h), [])
      else some (c, .orphan h, [])
    | none => some (c, .orphan h, [])

/-- What happens next: thread `t` goes on; the module of a starting service has returned; a worker
starts; some code calls `skynet_context_push`, `skynet_handle_retire`, `skynet_context_new` or
`skynet_callback`. -/
inductive Event (δ : Type)
  | run (t : Nat)
  | inited (t : Nat) (ok : Bool)
  | worker (weight : Int)
  | push (h : Handle) (m : Message δ)
  | retire (h : Handle)
  | new (h : Handle)
  | callback (h : Handle)
  deriving DecidableEq

/-- Another thread, in a call. -/
def Node.call (s : Node δ) (c : Core δ) (p : Phase δ) : Node δ :=
  ⟨c, s.threads ++ [⟨none, p⟩]⟩

/-- Whether a thread can go on by itself. -/
def Thread.goesOn (t : Thread δ) : Bool :=
  match t.phase with
  | .idle _ => t.weight.isSome
  | .starting _ => false
  | _ => true

/-- The module of a starting service has returned. -/
def Phase.inited (ok : Bool) : Phase δ → Option (Phase δ)
  | .starting h => some (if ok then .started h else .leaving h (.failed h))
  | _ => none

/-- Whose `skynet_context_new` it is, while that has a use for the context or the handle. -/
def Phase.launcher : Phase δ → Option Handle
  | .starting h | .started h | .launched h | .readied h | .logging h | .returned h
  | .failed h => some h
  | .leaving _ p | .deleting _ p | .pushing _ _ p => p.launcher
  | _ => none

/-- One event, if it can happen. A new service has a handle that nothing of an older one still
bears, and no launcher. -/
def step (s : Node δ) : Event δ → Option (Node δ × List (Act δ))
  | .run t => do
    let w ← s.threads[t]?
    if w.goesOn then
      match w.phase.step s.core w.weight with
      | some (c, p, out) => some (⟨c, s.threads.set t { w with phase := p }⟩, out)
      | none => some (s, [.failed])
    else none
  | .inited t ok => do
    let w ← s.threads[t]?
    let p ← w.phase.inited ok
    some ({ s with threads := s.threads.set t { w with phase := p } }, [])
  | .worker weight => some ({ s with threads := s.threads ++ [⟨some weight, .idle none⟩] }, [])
  | .push h m =>
    match handleGrab s.core h with
    | some c => some (s.call c (.pushing h m (.idle none)), [])
    | none => some (s, [.refused h m])
  | .retire h => do
    let x ← s.core.ctx h
    if x.registered then
      some (s.call (s.core.setCtx h (some { x with registered := false }))
        (.leaving h (.idle none)), [])
    else none
  | .new h =>
    if h ≠ 0 ∧ s.core.ctx h = none ∧ (s.core.mq h).isNone ∧
        ∀ w ∈ s.threads, w.phase.launcher ≠ some h then
      some (s.call ((s.core.setCtx h (some ⟨2, true, false, false⟩)).setMq h (some mqCreate))
        (.starting h), [])
    else none
  | .callback h => do
    let x ← s.core.ctx h
    some ({ s with core := s.core.setCtx h (some { x with cb := true }) }, [])

/-- **A node.** -/
def node (δ : Type) : Machine (Node δ) (Event δ) (Act δ) where
  init := ⟨⟨fun _ => none, fun _ => none, []⟩, []⟩
  step := step

/-- A step of the node. -/
abbrev Item (δ : Type) := (node δ).Item

end LsServer.Skynet.Dispatch
