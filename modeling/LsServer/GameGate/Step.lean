import LsServer.GameGate.Request
import LsServer.Lib.Run

/-!
# The gate as a machine

The gate handles one event at a time: a socket event, the end of a `request_handler`, a call of
`server.login` or `server.logout`. `net` says which sockets exist. A socket is `open` until the
gate shuts it down or closes it; then it is `cut`, and packets that were queued before can still
be handled until its close event is. After the close event the number may be used again.

Source: GameGate.lua `handler.message` 296-304; snax/gateserver.lua `dispatch_msg` 66-72 and the
table `MSG`; skynet-src/socket_server.c for what comes after a shutdown or a close.

* `handle` is `none` for an event that cannot come: a packet, a close or an error of a socket that
  there is not, a connect of a number that is in use, the end of a task that is not there.
* `dispatch_msg` drops a packet of a connection that `gateserver` does not have or has as closed.
* A connection is in its handshake as long as `handshake` has its address; its first packet ends
  that, whatever the answer.
* `complete` is the end of a `request_handler`, with any result at any time, or never.

`Handled` has one case for each way through the callbacks, and `Item.handled` puts a step into one
of them; the proofs about runs start from there.

Out of scope: the errors that a callback itself raises in `skynet.dispatch`, which end the coroutine
of that message only; where a callback of the source raises half way, the model has the state of
that moment.
-/

namespace LsServer.GameGate

open LsServer.Lib LsServer.Lua

/-- A client socket whose close event has not been handled. -/
inductive Sock
  | open
  | cut
  deriving DecidableEq

structure State where
  gate : Gate
  net : Table Fd Sock

/-- What the gate handles. -/
inductive Event
  | connect (fd : Fd) (addr : Bytes)
  | packet (fd : Fd) (data : Bytes)
  | complete (k : TaskId) (r : HandlerResult)
  | close (fd : Fd)
  | error (fd : Fd)
  | login (username secret : Bytes)
  | logout (username : Bytes)
  deriving DecidableEq

/-- `handler.message`. -/
def handlerMessage (c : Conf) (g : Gate) (fd : Fd) (data : Bytes) : Gate × List Act :=
  match g.handshake.get fd with
  | some addr =>
    let (g, acts) := auth g fd addr data
    ({ g with handshake := g.handshake.del fd }, acts)
  | none => request c g fd data

/-- `dispatch_msg`. -/
def dispatchMsg (c : Conf) (g : Gate) (fd : Fd) (data : Bytes) : Gate × List Act :=
  if g.gsConnection.get fd = some true then handlerMessage c g fd data
  -- Drop message
  else (g, [])

/-- The coroutine of task `k` goes on. -/
def complete (c : Conf) (g : Gate) (k : TaskId) (t : Task) (r : HandlerResult) :
    Gate × List Act :=
  settle t.fd (resume c { g with tasks := g.tasks.del k } t r)

/-- What an event does to the sockets before the gate handles it. -/
def Event.onNet (net : Table Fd Sock) : Event → Table Fd Sock
  | .connect fd _ => net.set fd .open
  | .close fd => net.del fd
  | _ => net

/-- What an action does to the sockets. -/
def Act.onNet (net : Table Fd Sock) : Act → Table Fd Sock
  | .shutdown fd | .close fd => if (net.get fd).isSome then net.set fd .cut else net
  | _ => net

/-- What the gate does with an event, if the event can happen. -/
def handle (c : Conf) (s : State) : Event → Option (Gate × List Act)
  | .connect fd addr => if s.net.get fd = none then some (msgOpen c s.gate fd addr) else none
  | .packet fd data => if s.net.get fd = none then none else some (dispatchMsg c s.gate fd data)
  | .complete k r => (s.gate.tasks.get k).map fun t => complete c s.gate k t r
  | .close fd => if s.net.get fd = none then none else some (msgClose s.gate fd)
  | .error fd => if s.net.get fd = none then none else some (msgError s.gate fd)
  | .login username secret => some (serverLogin s.gate username secret, [])
  | .logout username => some (serverLogout s.gate username)

/-- One event. -/
def step (c : Conf) (s : State) (e : Event) : Option (State × List Act) :=
  (handle c s e).map fun x => (⟨x.1, x.2.foldl Act.onNet (e.onNet s.net)⟩, x.2)

/-- **The gate.** -/
def machine (c : Conf) : Machine State Event Act := ⟨⟨.init, .empty⟩, step c⟩

/-- A step of the gate. -/
abbrev Item (c : Conf) := (machine c).Item

/-! ## Inverting a step -/

/-- What the gate does with an event, down to the callbacks: a packet is dropped, ends a handshake
or is a request. -/
inductive Handled (c : Conf) (g : Gate) : Event → Gate → List Act → Prop
  | connect (fd : Fd) (addr : Bytes) :
    Handled c g (.connect fd addr) (msgOpen c g fd addr).1 (msgOpen c g fd addr).2
  | dropped {fd : Fd} {data : Bytes} (hgs : g.gsConnection.get fd ≠ some true) :
    Handled c g (.packet fd data) g []
  | refused {fd : Fd} {data addr : Bytes} (status : Bytes)
    (hgs : g.gsConnection.get fd = some true) (hhs : g.handshake.get fd = some addr)
    (hauth : ∀ u idx, authCheck g data ≠ .accepted u idx) :
    Handled c g (.packet fd data)
      { g with gsConnection := g.gsConnection.del fd, handshake := g.handshake.del fd }
      [sendStatus fd status, .close fd]
  | accepted {fd : Fd} {data addr : Bytes} {u : UserId} {idx : Number}
    (hgs : g.gsConnection.get fd = some true) (hhs : g.handshake.get fd = some addr)
    (hauth : authCheck g data = .accepted u idx) :
    Handled c g (.packet fd data)
      { (bind g fd addr u idx).1 with handshake := g.handshake.del fd }
      ((bind g fd addr u idx).2 ++ [sendStatus fd (bytes "200 OK")])
  | request {fd : Fd} {data : Bytes}
    (hgs : g.gsConnection.get fd = some true) (hhs : g.handshake.get fd = none) :
    Handled c g (.packet fd data) (request c g fd data).1 (request c g fd data).2
  | complete {k : TaskId} {t : Task} (r : HandlerResult) (ht : g.tasks.get k = some t) :
    Handled c g (.complete k r) (complete c g k t r).1 (complete c g k t r).2
  | close (fd : Fd) : Handled c g (.close fd) (msgClose g fd).1 (msgClose g fd).2
  | error (fd : Fd) : Handled c g (.error fd) (msgError g fd).1 (msgError g fd).2
  | login (username secret : Bytes) :
    Handled c g (.login username secret) (serverLogin g username secret) []
  | logout (username : Bytes) :
    Handled c g (.logout username) (serverLogout g username).1 (serverLogout g username).2

theorem dispatchMsg_handled (c : Conf) (g : Gate) (fd : Fd) (data : Bytes) :
    Handled c g (.packet fd data) (dispatchMsg c g fd data).1 (dispatchMsg c g fd data).2 := by
  unfold dispatchMsg
  by_cases hgs : g.gsConnection.get fd = some true
  · rw [if_pos hgs]
    unfold handlerMessage
    cases hhs : g.handshake.get fd with
    | none => exact .request hgs hhs
    | some addr =>
      cases ha : authCheck g data with
      | raised =>
        have := Handled.refused (c := c) (bytes "400 Bad Request") hgs hhs
          (fun u idx h => by rw [ha] at h; exact absurd h (by simp))
        simpa [auth, ha, closeclient_eq, hgs] using this
      | rejected status =>
        have := Handled.refused (c := c) status hgs hhs
          (fun u idx h => by rw [ha] at h; exact absurd h (by simp))
        simpa [auth, ha, closeclient_eq, hgs] using this
      | accepted u idx =>
        have := Handled.accepted (c := c) hgs hhs ha
        simpa [auth, ha, bind] using this
  · rw [if_neg hgs]
    exact .dropped hgs

variable {c : Conf}

/-- **Inversion of a step**: the gate handles the event and its actions reach the sockets. -/
theorem Item.inv (i : Item c) : handle c i.pre i.ev = some (i.post.gate, i.out) ∧
    i.post.net = i.out.foldl Act.onNet (i.ev.onNet i.pre.net) := by
  have h : (handle c i.pre i.ev).map _ = _ := i.ok
  obtain ⟨⟨g, acts⟩, hx, heq⟩ := Option.map_eq_some_iff.mp h
  simp only [Prod.mk.injEq] at heq
  obtain ⟨hpost, rfl⟩ := heq
  rw [← hpost]
  exact ⟨hx, rfl⟩

theorem Item.handled (i : Item c) : Handled c i.pre.gate i.ev i.post.gate i.out := by
  have h := i.inv.1
  generalize i.pre = s, i.ev = e, i.post.gate = g, i.out = acts at h
  cases e with
  | connect fd addr =>
    obtain ⟨-, heq⟩ := by simpa only [handle, Option.ite_none_right_eq_some] using h
    obtain ⟨rfl, rfl⟩ := by simpa [Prod.ext_iff] using heq
    exact .connect fd addr
  | packet fd data =>
    obtain ⟨-, heq⟩ := by simpa only [handle, Option.ite_none_left_eq_some] using h
    obtain ⟨rfl, rfl⟩ := by simpa [Prod.ext_iff] using heq
    exact dispatchMsg_handled c s.gate fd data
  | complete k r =>
    obtain ⟨t, ht, heq⟩ := Option.map_eq_some_iff.mp h
    obtain ⟨rfl, rfl⟩ := by simpa [Prod.ext_iff] using heq
    exact .complete r ht
  | close fd =>
    obtain ⟨-, heq⟩ := by simpa only [handle, Option.ite_none_left_eq_some] using h
    obtain ⟨rfl, rfl⟩ := by simpa [Prod.ext_iff] using heq
    exact .close fd
  | error fd =>
    obtain ⟨-, heq⟩ := by simpa only [handle, Option.ite_none_left_eq_some] using h
    obtain ⟨rfl, rfl⟩ := by simpa [Prod.ext_iff] using heq
    exact .error fd
  | login username secret =>
    obtain ⟨rfl, rfl⟩ := by simpa [handle, Prod.ext_iff] using h
    exact .login username secret
  | logout username =>
    obtain ⟨rfl, rfl⟩ := by simpa [handle, Prod.ext_iff] using h
    exact .logout username

/-- A connection is new. -/
theorem Item.connect_fresh (i : Item c) {fd : Fd} {addr : Bytes} (h : i.ev = .connect fd addr) :
    i.pre.net.get fd = none := by
  have hi := i.inv.1
  rw [h, handle, Option.ite_none_right_eq_some] at hi
  exact hi.1

/-- A packet comes from a socket. -/
theorem Item.packet_present (i : Item c) {fd : Fd} {data : Bytes} (h : i.ev = .packet fd data) :
    i.pre.net.get fd ≠ none := by
  have hi := i.inv.1
  rw [h, handle, Option.ite_none_left_eq_some] at hi
  exact hi.1

/-! ## Sockets -/

/-- `a` cuts the socket `fd`. -/
def Act.Cuts (a : Act) (fd : Fd) : Prop := a = .shutdown fd ∨ a = .close fd

theorem get_onNet (a : Act) (net : Table Fd Sock) (fd : Fd) [Decidable (a.Cuts fd)] :
    (a.onNet net).get fd =
      if a.Cuts fd ∧ (net.get fd).isSome then some .cut else net.get fd := by
  have key : ∀ x, ((if (net.get x).isSome then net.set x .cut else net) : Table Fd Sock).get fd =
      if x = fd ∧ (net.get fd).isSome then some .cut else net.get fd := by
    intro x
    by_cases hx : x = fd
    · subst hx
      cases h : net.get x <;> simp [h]
    · simp only [hx, false_and, if_false]
      split
      · exact Table.get_set_ne fun h => hx h.symm
      · rfl
  cases a with
  | shutdown x => simpa [Act.Cuts, Act.onNet] using key x
  | close x => simpa [Act.Cuts, Act.onNet] using key x
  | start x => simp [Act.Cuts, Act.onNet]
  | send x d => simp [Act.Cuts, Act.onNet]
  | invoke k n m => simp [Act.Cuts, Act.onNet]
  | disconnect n => simp [Act.Cuts, Act.onNet]

/-- Actions neither open nor free a socket. -/
theorem foldl_onNet_none {net : Table Fd Sock} {acts : List Act} {fd : Fd} :
    (acts.foldl Act.onNet net).get fd = none ↔ net.get fd = none := by
  classical
  induction acts generalizing net with
  | nil => rfl
  | cons a acts ih =>
    rw [List.foldl_cons, ih, get_onNet]
    split
    · rename_i h
      simp [Option.isSome_iff_ne_none.mp h.2]
    · rfl

/-- A socket stays open exactly if no action cuts it. -/
theorem foldl_onNet_open {net : Table Fd Sock} {acts : List Act} {fd : Fd} :
    (acts.foldl Act.onNet net).get fd = some .open ↔
      net.get fd = some .open ∧ ∀ a ∈ acts, ¬ a.Cuts fd := by
  classical
  induction acts generalizing net with
  | nil => simp
  | cons a acts ih =>
    rw [List.foldl_cons, ih, get_onNet, List.forall_mem_cons]
    split
    · rename_i h
      simp [h.1]
    · rename_i h
      constructor
      · rintro ⟨ho, ha⟩
        exact ⟨ho, fun hc => h ⟨hc, by simp [ho]⟩, ha⟩
      · rintro ⟨ho, -, ha⟩
        exact ⟨ho, ha⟩

theorem get_eventNet (e : Event) (net : Table Fd Sock) (fd : Fd)
    [Decidable (∃ addr, e = .connect fd addr)] :
    (e.onNet net).get fd = if (∃ addr, e = .connect fd addr) then some .open
      else if e = .close fd then none else net.get fd := by
  cases e with
  | connect x addr =>
    rw [Event.onNet, Table.get_set]
    by_cases hx : fd = x
    · simp [hx]
    · simp [hx, Ne.symm hx]
  | close x =>
    rw [Event.onNet, Table.get_del]
    by_cases hx : fd = x
    · simp [hx]
    · simp [hx, Ne.symm hx]
  | packet x d => simp [Event.onNet]
  | complete k r => simp [Event.onNet]
  | error x => simp [Event.onNet]
  | login n k => simp [Event.onNet]
  | logout n => simp [Event.onNet]

/-- The sockets that are open after a step. -/
theorem Item.net_open (i : Item c) {fd : Fd} :
    i.post.net.get fd = some .open ↔
      ((∃ addr, i.ev = .connect fd addr) ∨ i.ev ≠ .close fd ∧ i.pre.net.get fd = some .open) ∧
        ∀ a ∈ i.out, ¬ a.Cuts fd := by
  classical
  rw [i.inv.2, foldl_onNet_open, get_eventNet]
  refine and_congr_left' ?_
  split
  · rename_i h
    simp [h]
  · rename_i h
    split
    · rename_i hc
      simp [hc]
    · rename_i hc
      simp [h, hc]

/-- The sockets that are gone after a step. -/
theorem Item.net_none (i : Item c) {fd : Fd} :
    i.post.net.get fd = none ↔
      (¬ ∃ addr, i.ev = .connect fd addr) ∧ (i.ev = .close fd ∨ i.pre.net.get fd = none) := by
  classical
  rw [i.inv.2, foldl_onNet_none, get_eventNet]
  split
  · rename_i h
    simp [h]
  · rename_i h
    split
    · rename_i hc
      simp [hc]
    · rename_i hc
      simp [h, hc]

end LsServer.GameGate
