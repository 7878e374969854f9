import LsServer.GameGate.Live
import LsServer.Skynet.Netpack

/-!
# The gate at its sockets (snax/gateserver.lua)

A socket gives pieces of a stream, and the gate handles packets. Between them is the queue of
`netpack`: a piece that completes several packages fills it, and `dispatch_queue` empties it. A
coroutine whose `handler.message` waits leaves the rest to the `dispatch_queue` it has forked, which
runs before the next event; when it goes on, it looks into the queue again (`Rest`).

Every event here is some events of the gate, one after the other.

Source: snax/gateserver.lua `dispatch_msg` 66-72, `dispatch_queue` 76-88, the table `MSG` 92-134,
the protocol of socket messages 149-161; lua-netpack.c for `filter` and `pop`.

* `netpack.filter` gives one package (`data`) or fills the queue (`more`). In `more` the first
  coroutine forks `dispatch_queue` before it handles its package, so that a handler that waits does
  not hold the queue up.
* A handler waits only in `request_handler`. What a coroutine does when it goes on is its `Rest`:
  nothing more, or the loop of `dispatch_queue`, which finds what other coroutines have left.
* `SockEvent` has the pieces of the sockets; the others are events of the gate. Close and error also
  drop the piece that is kept (`close_uncomplete`).
* A package is handled at its turn, also when its socket has been closed in the meantime;
  `dispatch_msg` drops it then.

Every `request_handler` waits here, and its end is an event of its own. The one of `Gamed` ends
without waiting where `skynet.rawcall` raises at once, for an agent that is dead; such a run is not
among these. No part of the repository kills an agent.

Results:
* `handed_dispatchQueue`, `filtered_spec`: `dispatch_queue` with its forks hands the packages of the
  queue over, in order, and the queue is empty before the next event;
* `server_refines`: a run at the sockets is a run of the gate;
* `server_reassembles`: the packets of a socket are the frames of its stream.

Out of scope: the listening socket, `nodelay`, and the messages `warning` and `init`.
-/

namespace LsServer.GameGate

open LsServer.Lib LsServer.Lua LsServer.Skynet

/-- What a coroutine does when its `handler.message` returns. -/
inductive Rest
  /-- `MSG.data` ends. -/
  | ends
  /-- `dispatch_queue` starts its loop, over the queue of then. -/
  | starts
  /-- `dispatch_queue` goes on with its loop, over the queue with that capacity. One that has been
  expanded is another one, and it leaves nothing behind. -/
  | goesOn (cap : Nat)
  deriving DecidableEq

/-- The service: the gate and its sockets, `queue`, the coroutines that wait. -/
structure Server where
  gate : State
  queue : Queue
  waiting : Table TaskId Rest

/-- What the service receives: messages of the socket server, responses of `request_handler`, calls
of `server.login` and `server.logout`. -/
inductive SockEvent
  | accept (fd : Fd) (addr : Bytes)
  | data (fd : Fd) (buffer : Bytes)
  | close (fd : Fd)
  | error (fd : Fd)
  | complete (k : TaskId) (r : HandlerResult)
  | login (username secret : Bytes)
  | logout (username : Bytes)
  deriving DecidableEq

/-- An event of the gate, with what the gate does. -/
abbrev Handling := Event × List Act

def Server.init : Server := ⟨⟨.init, .empty⟩, .init, .empty⟩

/-- `dispatch_msg`. -/
def Server.dispatch (c : Conf) (s : Server) (fd : Fd) (msg : Bytes) : Server × Handling :=
  let (g, acts) := dispatchMsg c s.gate.gate fd msg
  ({ s with gate := ⟨g, acts.foldl Act.onNet s.gate.net⟩ }, (.packet fd msg, acts))

/-- The task in which `handler.message` waits. -/
def waits (acts : List Act) : Option TaskId :=
  acts.findSome? fun
    | .invoke k _ _ => some k
    | _ => none

/-- `dispatch_msg` of a coroutine that does `rest` afterwards: whether it has returned. -/
def Server.call (c : Conf) (s : Server) (fd : Fd) (msg : Bytes) (rest : Rest) :
    Server × Handling × Bool :=
  let (s, h) := s.dispatch c fd msg
  match waits h.2 with
  | some k => ({ s with waiting := s.waiting.set k rest }, h, false)
  | none => (s, h, true)

theorem queue_call (c : Conf) (s : Server) (fd : Fd) (msg : Bytes) (rest : Rest) :
    (s.call c fd msg rest).1.queue = s.queue := by
  unfold Server.call Server.dispatch
  dsimp only
  split <;> rfl

theorem length_popQueue {q q' : Queue} {x : Nat × Bytes} (h : popQueue q = some (x, q')) :
    q'.ring.length < q.ring.length := by
  obtain ⟨⟨y, r⟩, hpop, heq⟩ := Option.map_eq_some_iff.mp h
  obtain ⟨rfl, rfl⟩ := Prod.mk.inj heq
  rw [← RingBuffer.length_toList q.ring, RingBuffer.toList_of_pop hpop, List.length_cons,
    RingBuffer.length_toList]
  exact Nat.lt_succ_self _

/-- The loop of `dispatch_queue`: `for fd, msg, sz in netpack.pop, queue`. -/
def Server.popLoop (c : Conf) (cap : Nat) (s : Server) : Server × List Handling :=
  if s.queue.ring.cap = cap then
    match _h : popQueue s.queue with
    | none => (s, [])
    | some ((fd, msg), queue) =>
      let x := Server.call c { s with queue } fd msg (.goesOn cap)
      if x.2.2 then
        let y := popLoop c cap x.1
        (y.1, x.2.1 :: y.2)
      else (x.1, [x.2.1])
  else (s, [])
termination_by s.queue.ring.length
decreasing_by
  rw [queue_call]
  exact length_popQueue ‹_›

/-- `dispatch_queue`, up to its end or its first wait; `none` if the queue is empty, so that it does
not fork. -/
def Server.dispatchQueue (c : Conf) (s : Server) : Option (Server × List Handling) :=
  match popQueue s.queue with
  | none => none
  | some ((fd, msg), queue) =>
    let x := Server.call c { s with queue } fd msg .starts
    if x.2.2 then
      let y := x.1.popLoop c x.1.queue.ring.cap
      some (y.1, x.2.1 :: y.2)
    else some (x.1, [x.2.1])

theorem length_popLoop (c : Conf) (cap : Nat) (s : Server) :
    (s.popLoop c cap).1.queue.ring.length ≤ s.queue.ring.length := by
  fun_induction Server.popLoop c cap s with
  | case1 s hcap hnone => exact Nat.le_refl _
  | case2 s hcap fd msg queue h x hx y ih =>
    have hlt := length_popQueue h
    rw [queue_call] at ih
    exact Nat.le_trans ih hlt.le
  | case3 s hcap fd msg queue h x hx =>
    have hlt := length_popQueue h
    rw [show x.1.queue = queue from queue_call ..]
    exact hlt.le
  | case4 s hcap => exact Nat.le_refl _

theorem length_dispatchQueue {c : Conf} {s : Server} {y : Server × List Handling}
    (h : s.dispatchQueue c = some y) : y.1.queue.ring.length < s.queue.ring.length := by
  unfold Server.dispatchQueue at h
  cases hpop : popQueue s.queue with
  | none =>
    rw [hpop] at h
    exact absurd h (by simp)
  | some p =>
    obtain ⟨⟨fd, msg⟩, queue⟩ := p
    have hlt := length_popQueue hpop
    have hqueue := queue_call c { s with queue } fd msg .starts
    rw [hpop] at h
    dsimp only at h hqueue
    split at h
    · obtain rfl := Option.some.inj h
      refine Nat.lt_of_le_of_lt (length_popLoop c _ _) ?_
      rwa [hqueue]
    · obtain rfl := Option.some.inj h
      rwa [hqueue]

/-- `MSG.more`: `dispatch_queue`, and after it the `dispatch_queue` that it has forked. -/
def Server.msgMore (c : Conf) (s : Server) : Server × List Handling :=
  match _h : s.dispatchQueue c with
  | none => (s, [])
  | some y =>
    let z := y.1.msgMore c
    (z.1, y.2 ++ z.2)
termination_by s.queue.ring.length
decreasing_by exact length_dispatchQueue ‹_›

/-- What follows a piece that `netpack.filter` has taken. -/
def Server.filtered (c : Conf) (s : Server) : Filtered → Server × List Handling
  | .nothing => (s, [])
  | .data fd msg =>
    let x := s.call c fd msg .ends
    (x.1, [x.2.1])
  | .more => s.msgMore c

/-- What a coroutine does after its `handler.message`. -/
def Server.goOn (c : Conf) (s : Server) : Option Rest → Server × List Handling
  | none | some .ends => (s, [])
  | some .starts => s.popLoop c s.queue.ring.cap
  | some (.goesOn cap) => s.popLoop c cap

/-- The event of the gate that is not a packet. -/
def SockEvent.event : SockEvent → Option Event
  | .accept fd addr => some (.connect fd addr)
  | .data _ _ => none
  | .close fd => some (.close fd)
  | .error fd => some (.error fd)
  | .complete k r => some (.complete k r)
  | .login username secret => some (.login username secret)
  | .logout username => some (.logout username)

/-- `netpack.filter` of what is not data: a socket that is closed has no uncomplete package. -/
def SockEvent.onQueue (q : Queue) : SockEvent → Queue
  | .close fd | .error fd => closeUncomplete q fd
  | _ => q

/-- A step of the service. -/
def Server.step (c : Conf) (s : Server) : SockEvent → Option (Server × List Handling)
  | .data fd buffer =>
    if s.gate.net.get fd = none ∨ buffer = [] then none
    else (filterData s.queue fd buffer).map fun x => Server.filtered c { s with queue := x.2 } x.1
  | .complete k r =>
    (GameGate.step c s.gate (.complete k r)).map fun x =>
      let s' : Server := { s with gate := x.1, waiting := s.waiting.del k }
      let y := s'.goOn c (s.waiting.get k)
      (y.1, (.complete k r, x.2) :: y.2)
  | e =>
    match e.event with
    | none => none
    | some ev => (GameGate.step c s.gate ev).map fun x =>
      ({ s with gate := x.1, queue := e.onQueue s.queue }, [(ev, x.2)])

/-- **The service.** -/
def server (c : Conf) : Machine Server SockEvent Handling := ⟨.init, Server.step c⟩

/-! ## What the gate does -/

variable {c : Conf}

/-- From `s`, the gate handles these events with these actions. -/
def Does (c : Conf) (s : State) (hs : List Handling) (t : State) : Prop :=
  ∃ tr, (machine c).Path s tr t ∧ tr.map (fun i => (i.ev, i.out)) = hs

theorem Does.refl (s : State) : Does c s [] s := ⟨[], .nil s, rfl⟩

theorem Does.trans {s m t : State} {a b : List Handling} (h : Does c s a m) (h' : Does c m b t) :
    Does c s (a ++ b) t := by
  obtain ⟨tr, htr, rfl⟩ := h
  obtain ⟨tr', htr', rfl⟩ := h'
  exact ⟨tr ++ tr', htr.append htr', List.map_append⟩

theorem Does.of_step {s t : State} {e : Event} {acts : List Act}
    (h : GameGate.step c s e = some (t, acts)) : Does c s [(e, acts)] t :=
  ⟨[⟨s, e, t, acts, h⟩], .single (M := machine c) ⟨s, e, t, acts, h⟩, rfl⟩

/-- A packet, as an event. -/
def packet (m : Nat × Bytes) : Event := .packet m.1 m.2

/-- From `s`, the service hands the next packets of the queue to the gate. -/
structure Handed (c : Conf) (s : Server) (hs : List Handling) (t : Server) : Prop where
  does : Does c s.gate hs t.gate
  hash : t.queue.hash = s.queue.hash
  order : ∃ msgs, hs.map Prod.fst = msgs.map packet ∧
    s.queue.ring.toList = msgs ++ t.queue.ring.toList
  net : ∀ fd, t.gate.net.get fd = none ↔ s.gate.net.get fd = none

theorem Handed.refl (s : Server) : Handed c s [] s :=
  ⟨.refl _, rfl, ⟨[], rfl, rfl⟩, fun _ => Iff.rfl⟩

theorem Handed.trans {s m t : Server} {a b : List Handling} (h : Handed c s a m)
    (h' : Handed c m b t) : Handed c s (a ++ b) t where
  does := h.does.trans h'.does
  hash := h'.hash.trans h.hash
  order := by
    obtain ⟨msgs, hmsgs, hring⟩ := h.order
    obtain ⟨msgs', hmsgs', hring'⟩ := h'.order
    exact ⟨msgs ++ msgs', by rw [List.map_append, hmsgs, hmsgs', List.map_append],
      by rw [hring, hring', List.append_assoc]⟩
  net := fun fd => (h'.net fd).trans (h.net fd)

/-- The sockets whose packets are in the queue are there. -/
def Present (s : Server) : Prop := ∀ m ∈ s.queue.ring.toList, s.gate.net.get m.1 ≠ none

theorem Handed.present {s t : Server} {hs : List Handling} (h : Handed c s hs t)
    (hs : Present s) : Present t := by
  intro m hm
  obtain ⟨msgs, -, hring⟩ := h.order
  rw [ne_eq, h.net]
  exact hs m (by rw [hring]; exact List.mem_append_right _ hm)

theorem gate_call (s : Server) (fd : Fd) (msg : Bytes) (rest : Rest) :
    (s.call c fd msg rest).1.gate = ⟨(dispatchMsg c s.gate.gate fd msg).1,
      (dispatchMsg c s.gate.gate fd msg).2.foldl Act.onNet s.gate.net⟩ := by
  unfold Server.call Server.dispatch
  dsimp only
  split <;> rfl

theorem handling_call (s : Server) (fd : Fd) (msg : Bytes) (rest : Rest) :
    (s.call c fd msg rest).2.1 = (.packet fd msg, (dispatchMsg c s.gate.gate fd msg).2) := by
  unfold Server.call Server.dispatch
  dsimp only
  split <;> rfl

/-- A packet of a socket that is there is an event of the gate. -/
theorem does_call {s : Server} {fd : Fd} (hfd : s.gate.net.get fd ≠ none) (msg : Bytes)
    (rest : Rest) : Does c s.gate [(s.call c fd msg rest).2.1] (s.call c fd msg rest).1.gate := by
  rw [handling_call, gate_call]
  refine .of_step ?_
  simp only [GameGate.step, handle, if_neg hfd, Option.map_some]
  rfl

/-- **One packet** is taken from the queue and handed over. -/
theorem handed_call {s : Server} {queue : Queue} {m : Nat × Bytes}
    (hpop : popQueue s.queue = some (m, queue)) (hs : Present s) (rest : Rest) :
    Handed c s [(Server.call c { s with queue } m.1 m.2 rest).2.1]
      (Server.call c { s with queue } m.1 m.2 rest).1 := by
  obtain ⟨⟨y, r⟩, hr, heq⟩ := Option.map_eq_some_iff.mp hpop
  obtain ⟨rfl, rfl⟩ := Prod.mk.inj heq
  have hring := RingBuffer.toList_of_pop hr
  have hfd : s.gate.net.get y.1 ≠ none := hs y (by rw [hring]; exact List.mem_cons_self ..)
  refine ⟨does_call (s := { s with queue := { s.queue with ring := r } }) hfd y.2 rest, ?_,
    ⟨[y], ?_, ?_⟩, fun fd => ?_⟩
  · rw [queue_call]
  · rw [handling_call]
    rfl
  · rw [queue_call, hring]
    rfl
  · rw [gate_call]
    exact foldl_onNet_none

theorem handed_popLoop {cap : Nat} {s : Server} (hs : Present s) :
    Handed c s (s.popLoop c cap).2 (s.popLoop c cap).1 := by
  fun_induction Server.popLoop c cap s with
  | case1 s hcap hnone => exact .refl s
  | case2 s hcap fd msg queue h x hx y ih =>
    have hcall := handed_call (c := c) h hs (.goesOn cap)
    exact hcall.trans (ih (hcall.present hs))
  | case3 s hcap fd msg queue h x hx => exact handed_call h hs (.goesOn cap)
  | case4 s hcap => exact .refl s

theorem handed_dispatchQueue {s : Server} (hs : Present s) {y : Server × List Handling}
    (h : s.dispatchQueue c = some y) : Handed c s y.2 y.1 := by
  unfold Server.dispatchQueue at h
  cases hpop : popQueue s.queue with
  | none =>
    rw [hpop] at h
    exact absurd h (by simp)
  | some p =>
    obtain ⟨m, queue⟩ := p
    have hcall := handed_call (c := c) hpop hs .starts
    rw [hpop] at h
    dsimp only at h
    split at h
    · obtain rfl := Option.some.inj h
      exact hcall.trans (handed_popLoop (hcall.present hs))
    · obtain rfl := Option.some.inj h
      exact hcall

theorem popQueue_eq_none {q : Queue} : popQueue q = none ↔ q.ring.toList = [] := by
  rw [popQueue, Option.map_eq_none_iff, RingBuffer.pop_eq_none]

theorem dispatchQueue_eq_none {s : Server} (h : s.dispatchQueue c = none) :
    s.queue.ring.toList = [] := by
  unfold Server.dispatchQueue at h
  cases hpop : popQueue s.queue with
  | none => exact popQueue_eq_none.mp hpop
  | some p =>
    rw [hpop] at h
    dsimp only at h
    split at h <;> exact absurd h (by simp)

/-- **`dispatch_queue` with its forks empties the queue**, whatever waits. -/
theorem handed_msgMore {s : Server} (hs : Present s) :
    Handed c s (s.msgMore c).2 (s.msgMore c).1 ∧ (s.msgMore c).1.queue.ring.toList = [] := by
  fun_induction Server.msgMore c s with
  | case1 s h => exact ⟨.refl s, dispatchQueue_eq_none h⟩
  | case2 s y h z ih =>
    have hy := handed_dispatchQueue hs h
    obtain ⟨hz, hring⟩ := ih (hy.present hs)
    exact ⟨hy.trans hz, hring⟩

theorem popLoop_empty {cap : Nat} {s : Server} (h : s.queue.ring.toList = []) :
    s.popLoop c cap = (s, []) := by
  unfold Server.popLoop
  split
  · split
    · rfl
    · rename_i hpop
      exact absurd (hpop.symm.trans (popQueue_eq_none.mpr h)) (by simp)
  · rfl

/-- A coroutine that goes on finds nothing. -/
theorem goOn_empty {s : Server} (h : s.queue.ring.toList = []) (rest : Option Rest) :
    s.goOn c rest = (s, []) := by
  unfold Server.goOn
  split
  · rfl
  · rfl
  · exact popLoop_empty h
  · exact popLoop_empty h

/-! ## A step of the service -/

/-- **The invariant**: between two events the queue is empty, and only a socket that is there has
an uncomplete package. -/
structure Server.Inv (s : Server) : Prop where
  sound : s.queue.Sound
  empty : s.queue.ring.toList = []
  absent : ∀ fd, s.gate.net.get fd = none → s.queue.uncomplete fd = none

/-- What an event adds to the stream of a socket. A number that is closed may be used again. -/
def SockEvent.onStream (fd : Fd) (text : Bytes) : SockEvent → Bytes
  | .data x buffer => if x = fd then text ++ buffer else text
  | .accept x _ | .close x | .error x => if x = fd then [] else text
  | _ => text

/-- What an event adds to the packets of a socket. -/
def Event.onPackets (fd : Fd) (msgs : List Bytes) : Event → List Bytes
  | .packet x msg => if x = fd then msgs ++ [msg] else msgs
  | .connect x _ | .close x | .error x => if x = fd then [] else msgs
  | _ => msgs

/-- The stream of `fd` since it has been opened. -/
def received (fd : Fd) (es : List SockEvent) : Bytes := es.foldl (SockEvent.onStream fd) []

/-- The packets of `fd` since it has been opened. -/
def packetsOf (fd : Fd) (es : List Event) : List Bytes := es.foldl (Event.onPackets fd) []

theorem foldl_packets (fd x : Fd) (msgs acc : List Bytes) :
    (msgs.map (Event.packet x)).foldl (Event.onPackets fd) acc =
      if x = fd then acc ++ msgs else acc := by
  induction msgs generalizing acc with
  | nil => simp
  | cons m msgs ih =>
    rw [List.map_cons, List.foldl_cons, ih]
    by_cases hx : x = fd
    · simp [Event.onPackets, hx]
    · simp [Event.onPackets, hx]

/-- `fd` has sent `text`; the gate has handled the packets `msgs` of it, and `q` has its rest. -/
def Tracks (q : Queue) (fd : Fd) (text : Bytes) (msgs : List Bytes) : Prop :=
  packages.frames text = (msgs, q.pending fd)

/-- What a step of the service does: the gate handles some events, and the packets of every socket
are still the frames of its stream. -/
structure Stepped (c : Conf) (s : Server) (e : SockEvent) (hs : List Handling) (t : Server) :
    Prop where
  does : Does c s.gate hs t.gate
  inv : t.Inv
  tracks : ∀ {fd text msgs}, Tracks s.queue fd text msgs →
    Tracks t.queue fd (e.onStream fd text) ((hs.map Prod.fst).foldl (Event.onPackets fd) msgs)

/-- The packets that a piece completes, handed over. -/
theorem filtered_spec {s : Server} (hempty : s.queue.ring.toList = []) {fd : Fd}
    (hfd : s.gate.net.get fd ≠ none) {fr : List Bytes × Bytes} {x : Filtered × Queue}
    (hx : Filters s.queue fd fr x) :
    ∃ hs t, Server.filtered c { s with queue := x.2 } x.1 = (t, hs) ∧ Does c s.gate hs t.gate ∧
      hs.map Prod.fst = fr.1.map (Event.packet fd) ∧ t.queue.hash = x.2.hash ∧
      t.queue.ring.toList = [] ∧ ∀ y, t.gate.net.get y = none ↔ s.gate.net.get y = none := by
  cases hx with
  | @nothing q' hmsgs h =>
    exact ⟨[], _, rfl, .refl _, by rw [hmsgs]; rfl, rfl, by rw [h.ring, hempty]; rfl,
      fun _ => Iff.rfl⟩
  | @data q' msg hmsgs h =>
    refine ⟨_, _, rfl, does_call (s := { s with queue := q' }) hfd msg .ends, ?_, ?_, ?_,
      fun y => ?_⟩
    · rw [hmsgs, List.map_singleton, handling_call]
      rfl
    · rw [queue_call]
    · rw [queue_call, h.ring, hempty]
      rfl
    · rw [gate_call]
      exact foldl_onNet_none
  | @more q' h =>
    have hring : q'.ring.toList = fr.1.map fun msg => (fd, msg) := by
      rw [h.ring, hempty, List.nil_append]
    have hpresent : Present { s with queue := q' } := by
      intro m hm
      obtain ⟨msg, -, rfl⟩ := List.mem_map.mp (hring ▸ hm)
      exact hfd
    obtain ⟨hhanded, hnil⟩ := handed_msgMore (c := c) hpresent
    obtain ⟨msgs, hmsgs, horder⟩ := hhanded.order
    refine ⟨_, _, rfl, hhanded.does, ?_, hhanded.hash, hnil, hhanded.net⟩
    rw [hnil, List.append_nil] at horder
    rw [hmsgs, ← horder, show Queue.ring _ = q'.ring from rfl, hring, List.map_map]
    rfl

/-- A piece of a stream. -/
theorem stepped_data {s : Server} (hs : s.Inv) {fd : Fd} (hfd : s.gate.net.get fd ≠ none)
    {buffer : Bytes} (hne : buffer ≠ []) :
    ∃ t hs, s.step c (.data fd buffer) = some (t, hs) ∧ Stepped c s (.data fd buffer) hs t := by
  obtain ⟨x, hx, hfilters⟩ := filterData_spec hs.sound fd hne
  obtain ⟨hs', t, heq, hdoes, hevents, hhash, hring, hnet⟩ :=
    filtered_spec (c := c) hs.empty hfd hfilters
  refine ⟨t, hs', ?_, hdoes, ?_, ?_⟩
  · rw [Server.step, if_neg (by simp [hfd, hne]), hx, Option.map_some, heq]
  all_goals
    obtain ⟨msgs, hfed⟩ : ∃ msgs, s.queue.Fed x.2 fd msgs
        (packages.frames (s.queue.pending fd ++ buffer)).2 := by
      cases hfilters with
      | nothing _ h => exact ⟨_, h⟩
      | data _ h => exact ⟨_, h⟩
      | more h => exact ⟨_, h⟩
  · refine ⟨hfed.sound.of_hash hhash, hring, fun y hy => ?_⟩
    rw [hnet] at hy
    have hyfd : y ≠ fd := fun h => hfd (h ▸ hy)
    rw [uncomplete_of_hash hhash, hfed.other y hyfd]
    exact hs.absent y hy
  · intro y text msgs htracks
    rw [hevents, foldl_packets]
    unfold Tracks at htracks ⊢
    rw [pending_of_hash hhash, SockEvent.onStream]
    by_cases hy : fd = y
    · subst hy
      rw [if_pos rfl, if_pos rfl, Reader.frames_append, htracks, hfed.pending]
    · rw [if_neg hy, if_neg hy, htracks, Queue.pending, Queue.pending, hfed.other y (Ne.symm hy)]

/-- The end of a `request_handler`. -/
theorem stepped_complete {s : Server} (hs : s.Inv) {k : TaskId} {r : HandlerResult} {t : Server}
    {hs' : List Handling} (h : s.step c (.complete k r) = some (t, hs')) :
    Stepped c s (.complete k r) hs' t ∧ ∃ acts, hs' = [(.complete k r, acts)] := by
  obtain ⟨⟨g, acts⟩, hstep, heq⟩ := Option.map_eq_some_iff.mp h
  dsimp only at heq
  rw [goOn_empty (by exact hs.empty)] at heq
  obtain ⟨rfl, rfl⟩ := Prod.mk.inj heq
  refine ⟨⟨.of_step hstep, ⟨hs.sound, hs.empty, fun fd hfd => hs.absent fd ?_⟩, ?_⟩, acts, rfl⟩
  · let i : Item c := ⟨s.gate, .complete k r, g, acts, hstep⟩
    have hnone := i.net_none.mp hfd
    simpa [i] using hnone.2
  · intro fd text msgs htracks
    exact htracks

/-- A message of the socket server that is not data, and calls. -/
theorem step_event {s : Server} {e : SockEvent} {ev : Event} (hev : e.event = some ev)
    (hne : ∀ k r, e ≠ .complete k r) : s.step c e = (GameGate.step c s.gate ev).map fun x =>
      ({ s with gate := x.1, queue := e.onQueue s.queue }, [(ev, x.2)]) := by
  cases e with
  | data fd buffer => exact absurd hev (by simp [SockEvent.event])
  | complete k r => exact absurd rfl (hne k r)
  | accept fd addr => rw [Server.step, hev]; all_goals simp
  | close fd => rw [Server.step, hev]; all_goals simp
  | error fd => rw [Server.step, hev]; all_goals simp
  | login username secret => rw [Server.step, hev]; all_goals simp
  | logout username => rw [Server.step, hev]; all_goals simp

theorem onQueue_spec {q : Queue} (hq : q.Sound) (e : SockEvent) :
    (e.onQueue q).Sound ∧ (e.onQueue q).ring = q.ring ∧
      ∀ fd, (e.onQueue q).uncomplete fd =
        if e = .close fd ∨ e = .error fd then none else q.uncomplete fd := by
  cases e with
  | close fd => simpa [SockEvent.onQueue, eq_comm] using closeUncomplete_spec hq fd
  | error fd => simpa [SockEvent.onQueue, eq_comm] using closeUncomplete_spec hq fd
  | accept fd addr => simpa [SockEvent.onQueue] using hq
  | data fd buffer => simpa [SockEvent.onQueue] using hq
  | complete k r => simpa [SockEvent.onQueue] using hq
  | login username secret => simpa [SockEvent.onQueue] using hq
  | logout username => simpa [SockEvent.onQueue] using hq

theorem stepped_event {s : Server} (hs : s.Inv) {e : SockEvent} {ev : Event}
    (hev : e.event = some ev) {g : State} {acts : List Act}
    (hstep : GameGate.step c s.gate ev = some (g, acts)) :
    Stepped c s e [(ev, acts)] { s with gate := g, queue := e.onQueue s.queue } := by
  let i : Item c := ⟨s.gate, ev, g, acts, hstep⟩
  obtain ⟨hsound, hring, hget⟩ := onQueue_spec hs.sound e
  refine ⟨.of_step hstep, ⟨hsound, by rw [hring]; exact hs.empty, fun fd hfd => ?_⟩, ?_⟩
  · obtain ⟨-, hclose | hnone⟩ := i.net_none.mp hfd
    · obtain rfl : e = .close fd := by
        cases e <;> simp_all [SockEvent.event, i]
      simp [hget]
    · rw [hget, hs.absent fd hnone, ite_self]
  · intro fd text msgs htracks
    rw [List.map_singleton, List.foldl_cons, List.foldl_nil]
    -- the number of a new socket, or of one that ends, has neither stream nor packets
    have hreset : (e.onQueue s.queue).uncomplete fd = none → Tracks (e.onQueue s.queue) fd [] [] :=
      fun hnone => by rw [Tracks, Reader.frames_nil, pending_of_none hnone]
    have hkept : (e.onQueue s.queue).uncomplete fd = s.queue.uncomplete fd →
        Tracks (e.onQueue s.queue) fd text msgs :=
      fun hsame => by rw [Tracks, Queue.pending, hsame]; exact htracks
    cases e with
    | data x buffer => exact absurd hev (by simp [SockEvent.event])
    | accept x addr =>
      obtain rfl := Option.some.inj hev
      by_cases hx : x = fd
      · have hnone := hs.absent fd (i.connect_fresh (show i.ev = .connect fd addr by rw [← hx]))
        simpa [SockEvent.onStream, Event.onPackets, hx] using hreset (by simpa [hget] using hnone)
      · simpa [SockEvent.onStream, Event.onPackets, hx] using hkept (by simp [hget])
    | close x =>
      obtain rfl := Option.some.inj hev
      by_cases hx : x = fd
      · simpa [SockEvent.onStream, Event.onPackets, hx] using hreset (by rw [hget, hx]; simp)
      · simpa [SockEvent.onStream, Event.onPackets, hx] using hkept (by simp [hget, hx])
    | error x =>
      obtain rfl := Option.some.inj hev
      by_cases hx : x = fd
      · simpa [SockEvent.onStream, Event.onPackets, hx] using hreset (by rw [hget, hx]; simp)
      · simpa [SockEvent.onStream, Event.onPackets, hx] using hkept (by simp [hget, hx])
    | complete k r =>
      obtain rfl := Option.some.inj hev
      exact htracks
    | login username secret =>
      obtain rfl := Option.some.inj hev
      exact htracks
    | logout username =>
      obtain rfl := Option.some.inj hev
      exact htracks

/-- **Inversion of a step of the service.** -/
theorem stepped (i : (server c).Item) (hs : i.pre.Inv) : Stepped c i.pre i.ev i.out i.post := by
  have h : Server.step c i.pre i.ev = some (i.post, i.out) := i.ok
  generalize i.pre = s, i.ev = e, i.post = t, i.out = out at h hs
  cases hev : e.event with
  | some ev =>
    by_cases hcomplete : ∃ k r, e = .complete k r
    · obtain ⟨k, r, rfl⟩ := hcomplete
      exact (stepped_complete hs h).1
    · rw [step_event hev fun k r he => hcomplete ⟨k, r, he⟩] at h
      obtain ⟨⟨g, acts⟩, hstep, heq⟩ := Option.map_eq_some_iff.mp h
      obtain ⟨rfl, rfl⟩ := Prod.mk.inj heq
      exact stepped_event hs hev hstep
  | none =>
    cases e with
    | data fd buffer =>
      by_cases hdata : s.gate.net.get fd = none ∨ buffer = []
      · rw [Server.step, if_pos hdata] at h
        exact absurd h (by simp)
      · rw [not_or] at hdata
        obtain ⟨t', hs', hstep, hstepped⟩ := stepped_data (c := c) hs hdata.1 hdata.2
        obtain ⟨rfl, rfl⟩ := Prod.mk.inj (Option.some.inj (hstep.symm.trans h))
        exact hstepped
    | accept | close | error | complete | login | logout =>
      exact absurd hev (by simp [SockEvent.event])

/-! ## Runs of the service -/

theorem inv_init : Server.init.Inv where
  sound := ⟨fun _ _ h => absurd h (by simp [Server.init, Queue.init]), fun _ => List.nodup_nil⟩
  empty := rfl
  absent := fun _ _ => rfl

theorem server_inv {tr : List (server c).Item} {s : Server} (h : (server c).Run tr s) : s.Inv :=
  h.invariant inv_init fun i hi => (stepped i hi).inv

/-- What the gate handles in a run of the service. -/
def handlings (tr : List (server c).Item) : List Handling := tr.flatMap Machine.Item.out

theorem run_does {tr : List (server c).Item} {s : Server} (h : (server c).Run tr s) :
    Does c Server.init.gate (handlings tr) s.gate := by
  refine h.history (J := fun tr s => Does c Server.init.gate (handlings tr) s.gate) (.refl _) ?_
  intro tr i hrun hdoes
  unfold handlings
  rw [List.flatMap_append, List.flatMap_singleton]
  exact hdoes.trans (stepped i (server_inv hrun)).does

/-- A client's handshake and two requests, in two pieces, while another client connects. The
handlers of both requests wait; the second one is called by a `dispatch_queue` that has been
forked. -/
def cutRun : List SockEvent :=
  let name := bytes "dQ==@cw==@MQ=="
  let secret := bytes "12345678"
  let stream := Client.package (handshakeOf name secret (bytes "1")) ++
    Client.package (bytes "move" ++ packBE 4 7) ++ Client.package (bytes "stop" ++ packBE 4 8)
  [.login name secret, .accept 5 (bytes "10.0.0.1:1"), .accept 6 (bytes "10.0.0.1:2"),
    .data 5 (stream.take 1), .data 6 [0, 1, 97], .data 5 (stream.drop 1),
    .complete 1 (.ok (some (bytes "done")))]

theorem cutRun_run : ∃ tr s, (server {}).Run tr s ∧ tr.map Machine.Item.ev = cutRun ∧
    (handlings tr).length = 8 ∧ s.waiting.get 0 = some (.goesOn 1024) := by
  have h : ((server {}).items (server {}).init cutRun).map (fun tr =>
      decide (tr.map Machine.Item.ev = cutRun ∧ (handlings tr).length = 8 ∧
        ((Machine.last (server {}).init tr).waiting.get 0) = some (.goesOn 1024))) = some true := by
    decide +kernel
  obtain ⟨tr, hrun, hP⟩ := Machine.exists_run h
  exact ⟨tr, _, hrun, of_decide_eq_true hP⟩

/-- **A run of the service is a run of the gate**, with the same actions. -/
theorem server_refines {tr : List (server c).Item} {s : Server} (h : (server c).Run tr s) :
    ∃ tr', (machine c).Run tr' s.gate ∧ tr'.map (fun i => (i.ev, i.out)) = handlings tr :=
  run_does h

theorem server_refines_cutRun : ∃ tr' : List (Item {}), tr'.length = 8 ∧
    ∃ s, (machine {}).Run tr' s := by
  obtain ⟨tr, s, hrun, -, hlen, -⟩ := cutRun_run
  obtain ⟨tr', hrun', hmap⟩ := server_refines hrun
  exact ⟨tr', by rw [← hlen, ← hmap, List.length_map], _, hrun'⟩

/-- What a client has written as packages has these frames. -/
theorem frames_packages {bodies : List Bytes} (hbodies : ∀ b ∈ bodies, b.length ≤ 65535) :
    packages.frames (bodies.map Client.package).flatten = (bodies, []) := by
  have h := Reader.frames_encoded (r := packages) (e := Client.package)
    (fun b hb rest => Client.framing_package.read rest (hbodies b hb)) []
  rwa [List.append_nil, Reader.frames_nil, List.append_nil] at h

/-- **The packets of a socket are the frames of its stream**, in order, however the stream is cut,
whatever other sockets send and whatever waits: the bodies that a client has written as packages.
The next piece is taken. -/
theorem server_reassembles {tr : List (server c).Item} {s : Server} (h : (server c).Run tr s)
    (fd : Fd) :
    packetsOf fd ((handlings tr).map Prod.fst) =
        (packages.frames (received fd (tr.map Machine.Item.ev))).1 ∧
      s.queue.pending fd = (packages.frames (received fd (tr.map Machine.Item.ev))).2 ∧
      s.queue.ring.toList = [] ∧
      (∀ bodies : List Bytes, (∀ b ∈ bodies, b.length ≤ 65535) →
        received fd (tr.map Machine.Item.ev) = (bodies.map Client.package).flatten →
        packetsOf fd ((handlings tr).map Prod.fst) = bodies) ∧
      ∀ buffer, s.gate.net.get fd ≠ none → buffer ≠ [] →
        (s.step c (.data fd buffer)).isSome := by
  have htracks : Tracks s.queue fd (received fd (tr.map Machine.Item.ev))
      (packetsOf fd ((handlings tr).map Prod.fst)) := by
    refine h.history (J := fun tr s => Tracks s.queue fd (received fd (tr.map Machine.Item.ev))
      (packetsOf fd ((handlings tr).map Prod.fst))) ?_ ?_
    · exact Reader.frames_nil
    · intro tr i hrun hi
      have hstep := (stepped i (server_inv hrun)).tracks hi
      unfold handlings received packetsOf at *
      simpa [List.flatMap_append, List.map_append, List.foldl_append] using hstep
  unfold Tracks at htracks
  refine ⟨by rw [htracks], by rw [htracks], (server_inv h).empty,
    fun bodies hbodies hstream => ?_, fun buffer hfd hne => ?_⟩
  · rw [hstream, frames_packages hbodies] at htracks
    exact (congrArg Prod.fst htracks).symm
  · obtain ⟨t, hs, hstep, -⟩ := stepped_data (c := c) (server_inv h) hfd hne
    rw [hstep]
    rfl

theorem server_reassembles_cutRun : ∃ tr s, (server {}).Run tr s ∧
    tr.map Machine.Item.ev = cutRun ∧
      packetsOf 5 ((handlings tr).map Prod.fst) = (packages.frames (received 5 cutRun)).1 := by
  obtain ⟨tr, s, hrun, hev, -⟩ := cutRun_run
  exact ⟨tr, s, hrun, hev, hev ▸ (server_reassembles hrun 5).1⟩

end LsServer.GameGate
