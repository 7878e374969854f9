import LsServer.GameGate.Released

/-!
# Connections that fail their handshake do not interfere

`do_auth` makes all its checks before its first assignment, so a packet that it rejects changes
nothing but the entries of its own connection. `Alike` relates two gates that agree on the users,
the cached responses and `connection`, and on the entries of `handshake` and of `gateserver` for
the connections in `P`; the number of clients may differ. Every callback keeps it and does the
same to its surroundings, as long as it is about a connection in `P`.

The condition is about the packets and not about the intruder: it may send anything, at any time, as
long as its first packet is one that `do_auth` rejects, and later ones are then dropped. Its
connection counts for `maxclient`, so `BelowLimit` asks that the limit is not reached in either run.

* `eraseConn` takes the events of the connection out of a run, from its connect event to its close
  event.
* `othersSee` is what the others see of a step: its actions that are not about that connection.
* `Gate.graft` puts the users and caches of one gate into another, with which the callbacks commute.

Results:
* `Alike.handle`: both gates handle an event in the same way;
* `rejected_bystander`: a run in which the first packet of a connection is rejected, and the same
  run without the events of that connection;
* `eraseConn_eq_filter`: which events these are.

A descriptor number may be used again after the close event, so a connection is the part of a run
from a connect event to the next close event of its number.

Out of scope: time, and the memory and descriptors that an intruder takes.
-/

namespace LsServer.GameGate

open LsServer.Lib LsServer.Lua

variable {c : Conf}

/-- The connection that an event is about. -/
def Event.fd : Event → Option Fd
  | .connect fd _ | .packet fd _ | .close fd | .error fd => some fd
  | .complete _ _ | .login _ _ | .logout _ => none

/-- The connection that an action is about. -/
def Act.fd : Act → Option Fd
  | .start fd | .send fd _ | .shutdown fd | .close fd => some fd
  | .invoke _ _ _ | .disconnect _ => none

/-! ## Gates that differ in the tables of the connections -/

/-- The gate with another number of clients and other tables of the connections. -/
def Gate.graft (g : Gate) (n : Int) (t : Table Fd Bool) (hs : Table Fd Bytes) : Gate :=
  { g with clientNumber := n, gsConnection := t, handshake := hs }

section graft

variable (g : Gate) (n : Int) (t : Table Fd Bool) (hs : Table Fd Bytes)

theorem authCheck_graft (message : Bytes) :
    authCheck (g.graft n t hs) message = authCheck g message := rfl

theorem retireResponse_graft (c : Conf) (u : UserId) :
    retireResponse c (g.graft n t hs) u =
      ((retireResponse c g u).1.graft n t hs, (retireResponse c g u).2) := by
  by_cases h : c.expired_number * 2 ≤ (g.users.cell u).index
  · simp only [retireResponse, Gate.graft, if_pos h]
    exact if_pos h
  · simp only [retireResponse, Gate.graft, if_neg h]
    exact if_neg h

theorem finish_graft (c : Conf) (u : UserId) (i : EntryId) :
    finish c (g.graft n t hs) u i =
      ((finish c g u i).1.graft n t hs, (finish c g u i).2) := by
  simp only [finish]
  rw [show release (g.graft n t hs) u i = (release g u i).graft n t hs from rfl,
    retireResponse_graft]
  rfl

theorem resend_graft (c : Conf) (fd : Fd) (u : UserId) (i : EntryId) :
    resend c (g.graft n t hs) fd u i =
      ((resend c g fd u i).1.graft n t hs, (resend c g fd u i).2) := by
  unfold resend
  rw [show redirect (g.graft n t hs) fd u i = (redirect g fd u i).graft n t hs from rfl,
    show (g.graft n t hs).entries = g.entries from rfl]
  split
  · rfl
  · exact finish_graft _ n t hs c u i

theorem doRequest_graft (c : Conf) (fd : Fd) (data : Bytes) :
    doRequest c (g.graft n t hs) fd data =
      ((doRequest c g fd data).1.graft n t hs, (doRequest c g fd data).2) := by
  unfold doRequest
  rw [show (g.graft n t hs).connection = g.connection from rfl]
  cases g.connection.get fd with
  | none => rfl
  | some u =>
    dsimp only
    split
    · rfl
    · rw [show (g.graft n t hs).users = g.users from rfl,
        show (g.graft n t hs).entries = g.entries from rfl]
      cases (g.users.cell u).response.get (sessionOf data) with
      | none => rfl
      | some i =>
        dsimp only
        split
        · split <;> rfl
        · exact resend_graft g n t hs c fd u i

theorem resume_graft (c : Conf) (k : Task) (r : HandlerResult) :
    resume c (g.graft n t hs) k r =
      ((resume c g k r).1.graft n t hs, (resume c g k r).2) := by
  unfold resume
  split
  · rfl
  · rw [← finish_graft]
    rfl

end graft

/-- A step of the gate that neither looks at these tables nor changes them. -/
def Blind {α : Type} (f : Gate → Gate × α) : Prop :=
  ∀ g n t hs, f (g.graft n t hs) = ((f g).1.graft n t hs, (f g).2)

/-- Gates that agree but for the number of clients and the connections outside `P`. -/
structure Alike (P : Fd → Prop) (d : Int) (g g' : Gate) : Prop where
  graft : g' = g.graft g'.clientNumber g'.gsConnection g'.handshake
  clientNumber : g.clientNumber = g'.clientNumber + d
  gsConnection : ∀ x, P x → g.gsConnection.get x = g'.gsConnection.get x
  handshake : ∀ x, P x → g.handshake.get x = g'.handshake.get x

/-- The same is done to the surroundings. -/
structure AlikeOut {α : Type} (P : Fd → Prop) (d : Int) (x x' : Gate × α) : Prop where
  gate : Alike P d x.1 x'.1
  acts : x'.2 = x.2

variable {P : Fd → Prop} {d : Int} {g g' : Gate}

theorem Alike.blind {α : Type} {f : Gate → Gate × α} (hf : Blind f) (h : Alike P d g g') :
    AlikeOut P d (f g) (f g') := by
  have hself : f g = ((f g).1.graft g.clientNumber g.gsConnection g.handshake, (f g).2) :=
    hf g g.clientNumber g.gsConnection g.handshake
  have hother := hf g g'.clientNumber g'.gsConnection g'.handshake
  rw [← h.graft] at hother
  rw [hother]
  refine ⟨⟨rfl, ?_, fun x hx => ?_, fun x hx => ?_⟩, rfl⟩
  · rw [hself]
    exact h.clientNumber
  · rw [hself]
    exact h.gsConnection x hx
  · rw [hself]
    exact h.handshake x hx

theorem Alike.connection (h : Alike P d g g') : g'.connection = g.connection := by
  rw [h.graft]
  rfl

theorem Alike.closeclient (h : Alike P d g g') {fd : Fd} (hfd : P fd) :
    AlikeOut P d (closeclient g fd) (closeclient g' fd) := by
  rw [closeclient_eq, closeclient_eq, h.gsConnection fd hfd]
  refine ⟨⟨?_, h.clientNumber, fun x hx => ?_, h.handshake⟩, rfl⟩
  · rw [h.graft]
    rfl
  · simp only [Table.get_del, h.gsConnection x hx]

theorem AlikeOut.settle {x x' : Gate × List Act × Bool} (h : AlikeOut P d x x') {fd : Fd}
    (hfd : (x.1.connection.get fd).isSome → P fd) :
    AlikeOut P d (settle fd x) (settle fd x') := by
  unfold GameGate.settle
  rw [h.acts, h.gate.connection]
  split
  · exact ⟨h.gate, rfl⟩
  · split
    · rename_i hc
      have hcl := h.gate.closeclient (hfd hc)
      exact ⟨hcl.gate, congrArg (x.2.1 ++ ·) hcl.acts⟩
    · exact ⟨h.gate, rfl⟩

theorem Alike.request (h : Alike P d g g') {fd : Fd} (data : Bytes)
    (hfd : (g.connection.get fd).isSome → P fd) :
    AlikeOut P d (request c g fd data) (request c g' fd data) := by
  have hs := (doRequest_requested c g fd data).served
  have hdo : AlikeOut P d (doRequest c g fd data) (doRequest c g' fd data) :=
    h.blind (f := fun g => doRequest c g fd data)
      fun g n t hs => doRequest_graft g n t hs c fd data
  exact hdo.settle (by rwa [hs.connection])

theorem Alike.complete (h : Alike P d g g') (k : TaskId) (t : Task) (r : HandlerResult)
    (hfd : (g.connection.get t.fd).isSome → P t.fd) :
    AlikeOut P d (complete c g k t r) (complete c g' k t r) := by
  have hs := resume_served c { g with tasks := g.tasks.del k } t r
  have hresume : AlikeOut P d (resume c { g with tasks := g.tasks.del k } t r)
      (resume c { g' with tasks := g'.tasks.del k } t r) :=
    h.blind (f := fun g => resume c { g with tasks := g.tasks.del k } t r)
      fun g n t' hs => resume_graft { g with tasks := g.tasks.del k } n t' hs c t r
  exact hresume.settle (by rwa [hs.connection])

theorem Alike.auth (h : Alike P d g g') {fd : Fd} (hfd : P fd) (addr message : Bytes) :
    AlikeOut P d (auth g fd addr message) (auth g' fd addr message) := by
  have hcheck : authCheck g' message = authCheck g message := by
    rw [h.graft]
    exact authCheck_graft _ _ _ _ _
  have hclose : ∀ a, AlikeOut P d
      ((GameGate.closeclient g fd).1, a :: (GameGate.closeclient g fd).2)
      ((GameGate.closeclient g' fd).1, a :: (GameGate.closeclient g' fd).2) := fun a =>
    ⟨(h.closeclient hfd).gate, congrArg (a :: ·) (h.closeclient hfd).acts⟩
  unfold GameGate.auth
  rw [hcheck]
  cases authCheck g message with
  | raised => exact hclose _
  | rejected status => exact hclose _
  | accepted u idx =>
    have hbind : AlikeOut P d (bind g fd addr u idx) (bind g' fd addr u idx) :=
      h.blind (f := fun g => bind g fd addr u idx) fun _ _ _ _ => rfl
    exact ⟨hbind.gate, congrArg (· ++ [sendStatus fd (bytes "200 OK")]) hbind.acts⟩

/-- Deleting an entry of `handshake`. -/
theorem Alike.del_handshake (h : Alike P d g g') (fd : Fd) :
    Alike P d { g with handshake := g.handshake.del fd }
      { g' with handshake := g'.handshake.del fd } := by
  refine ⟨?_, h.clientNumber, h.gsConnection, fun x hx => ?_⟩
  · conv_lhs => rw [h.graft]
    rfl
  · simp only [Table.get_del, h.handshake x hx]

theorem Alike.dispatchMsg (h : Alike P d g g') {fd : Fd} (hfd : P fd) (data : Bytes) :
    AlikeOut P d (dispatchMsg c g fd data) (dispatchMsg c g' fd data) := by
  unfold GameGate.dispatchMsg
  rw [h.gsConnection fd hfd]
  split
  · unfold handlerMessage
    rw [h.handshake fd hfd]
    cases g'.handshake.get fd with
    | none => exact h.request data fun _ => hfd
    | some addr =>
      have hauth := h.auth hfd addr data
      exact ⟨hauth.gate.del_handshake fd, hauth.acts⟩
  · exact ⟨h, rfl⟩

theorem Alike.disconnect (h : Alike P d g g') {fd : Fd} (hfd : P fd) :
    AlikeOut P d (disconnect g fd) (disconnect g' fd) := by
  have hdel := h.del_handshake fd
  have husers : g'.users = g.users := by
    rw [h.graft]
    rfl
  cases hu : g.connection.get fd with
  | none =>
    rw [disconnect_none hu, disconnect_none (h.connection ▸ hu)]
    exact ⟨hdel, rfl⟩
  | some u =>
    have hmid := (hdel.blind (f := fun g => ({ g with
      users := g.users.set u { g.users.cell u with fd := none }
      connection := g.connection.del fd }, ())) fun _ _ _ _ => rfl).gate
    have hcl := hmid.closeclient hfd
    have hu' : g'.connection.get fd = some u := by rw [h.connection, hu]
    simp only [GameGate.disconnect, hu, hu']
    refine ⟨hcl.gate, List.cons_eq_cons.mpr ⟨?_, hcl.acts⟩⟩
    rw [husers]

theorem Alike.msgClose (h : Alike P d g g') {fd : Fd} (hfd : P fd) :
    AlikeOut P d (msgClose g fd) (msgClose g' fd) := by
  have hmarked : Alike P d
      { g with
        clientNumber := g.clientNumber - 1
        gsConnection := if g.gsConnection.get fd = some true then g.gsConnection.set fd false
          else g.gsConnection }
      { g' with
        clientNumber := g'.clientNumber - 1
        gsConnection := if g'.gsConnection.get fd = some true then g'.gsConnection.set fd false
          else g'.gsConnection } := by
    refine ⟨?_, ?_, fun x hx => ?_, h.handshake⟩
    · conv_lhs => rw [h.graft]
      rfl
    · have := h.clientNumber
      dsimp only
      omega
    · dsimp only
      rw [h.gsConnection fd hfd]
      split
      · simp only [Table.get_set, h.gsConnection x hx]
      · exact h.gsConnection x hx
  exact hmarked.disconnect hfd

theorem Alike.msgError (h : Alike P d g g') {fd : Fd} (hfd : P fd) :
    AlikeOut P d (msgError g fd) (msgError g' fd) :=
  ⟨(h.disconnect hfd).gate, List.cons_eq_cons.mpr ⟨rfl, (h.disconnect hfd).acts⟩⟩

/-- A connection that the gate accepts is accepted by one with fewer clients. -/
theorem Alike.msgOpen (h : Alike P d g g') (hd : 0 ≤ d) {fd : Fd} {addr : Bytes}
    (hopen : .start fd ∈ (msgOpen c g fd addr).2) :
    AlikeOut P d (msgOpen c g fd addr) (msgOpen c g' fd addr) := by
  have hbelow : ¬ c.maxclient ≤ g.clientNumber + 1 := by
    intro hle
    simp [GameGate.msgOpen, hle] at hopen
  have hbelow' : ¬ c.maxclient ≤ g'.clientNumber + 1 := by
    have := h.clientNumber
    omega
  simp only [GameGate.msgOpen, if_neg hbelow, if_neg hbelow', handlerConnect, openclient,
    Table.get_set_self]
  refine ⟨⟨?_, ?_, fun x hx => ?_, fun x hx => ?_⟩, rfl⟩
  · conv_lhs => rw [h.graft]
    rfl
  · have := h.clientNumber
    dsimp only
    omega
  · simp only [Table.get_set, h.gsConnection x hx]
  · simp only [Table.get_set, h.handshake x hx]

theorem Alike.serverLogout (h : Alike P d g g') (name : Bytes)
    (hconn : ∀ x u, g.connection.get x = some u → P x) :
    AlikeOut P d (serverLogout g name) (serverLogout g' name) := by
  have hon : g'.userOnline = g.userOnline := by
    rw [h.graft]
    rfl
  have husers : g'.users = g.users := by
    rw [h.graft]
    rfl
  have hdel : Alike P d { g with userOnline := g.userOnline.del name }
      { g' with userOnline := g'.userOnline.del name } :=
    (h.blind (f := fun g => ({ g with userOnline := g.userOnline.del name }, ()))
      fun _ _ _ _ => rfl).gate
  cases hu : g.userOnline.get name with
  | none =>
    have hu' : g'.userOnline.get name = none := by rw [hon, hu]
    simp only [GameGate.serverLogout, hu, hu']
    exact ⟨h, rfl⟩
  | some u =>
    have hu' : g'.userOnline.get name = some u := by rw [hon, hu]
    have hfd' : (g'.users.cell u).fd = (g.users.cell u).fd := by rw [husers]
    cases hfd : (g.users.cell u).fd with
    | none =>
      rw [serverLogout_none hu hfd, serverLogout_none hu' (hfd'.trans hfd)]
      exact ⟨hdel, rfl⟩
    | some fd =>
      have hc' : g'.connection.get fd = g.connection.get fd := by rw [h.connection]
      cases hc : g.connection.get fd with
      | none =>
        simp only [GameGate.serverLogout, hu, hu', hfd'.trans hfd, hfd, hc, hc'.trans hc]
        exact ⟨hdel, rfl⟩
      | some v =>
        have hcl := hdel.closeclient (hconn fd v hc)
        simp only [GameGate.serverLogout, hu, hu', hfd'.trans hfd, hfd, hc, hc'.trans hc]
        exact ⟨(hcl.gate.blind (f := fun g => ({ g with connection := g.connection.del fd }, ()))
          fun _ _ _ _ => rfl).gate, hcl.acts⟩

/-- The result of the one gate, from that of the other. -/
theorem AlikeOut.result {x x' : Gate × List Act} (h : AlikeOut P d x x') {acts : List Act}
    (hx : x = (g, acts)) : ∃ g', x' = (g', acts) ∧ Alike P d g g' := by
  subst hx
  exact ⟨x'.1, Prod.ext rfl h.acts, h.gate⟩

/-- **Both gates handle an event in the same way.** -/
theorem Alike.handle {s s' : State} (h : Alike P d s.gate s'.gate) (hd : 0 ≤ d)
    (hnet : ∀ x, P x → s.net.get x = s'.net.get x)
    (hconn : ∀ x u, s.gate.connection.get x = some u → P x) {e : Event} {g : Gate}
    {acts : List Act} (hfd : ∀ x, e.fd = some x → P x)
    (hopen : ∀ x addr, e = .connect x addr → .start x ∈ acts)
    (hstep : handle c s e = some (g, acts)) :
    ∃ g', handle c s' e = some (g', acts) ∧ Alike P d g g' := by
  have hbound : ∀ x, (s.gate.connection.get x).isSome → P x := by
    intro x hx
    obtain ⟨u, hu⟩ := Option.isSome_iff_exists.mp hx
    exact hconn x u hu
  cases e with
  | connect x addr =>
    have hx := hfd x rfl
    simp only [GameGate.handle, Option.ite_none_right_eq_some, ← hnet x hx,
      Option.some_inj] at hstep ⊢
    obtain ⟨hnone, hstep⟩ := hstep
    obtain ⟨g', hg', ha⟩ := (h.msgOpen hd (by rw [hstep]; exact hopen x addr rfl)).result hstep
    exact ⟨g', ⟨hnone, hg'⟩, ha⟩
  | packet x data =>
    have hx := hfd x rfl
    simp only [GameGate.handle, Option.ite_none_left_eq_some, ← hnet x hx,
      Option.some_inj] at hstep ⊢
    obtain ⟨hsome, hstep⟩ := hstep
    obtain ⟨g', hg', ha⟩ := (h.dispatchMsg hx data).result hstep
    exact ⟨g', ⟨hsome, hg'⟩, ha⟩
  | complete k r =>
    obtain ⟨t, ht, hstep⟩ := Option.map_eq_some_iff.mp hstep
    have ht' : s'.gate.tasks.get k = some t := by
      rw [h.graft]
      exact ht
    obtain ⟨g', hg', ha⟩ := (h.complete k t r (hbound t.fd)).result hstep
    exact ⟨g', by rw [GameGate.handle, ht', Option.map_some, hg'], ha⟩
  | close x =>
    have hx := hfd x rfl
    simp only [GameGate.handle, Option.ite_none_left_eq_some, ← hnet x hx,
      Option.some_inj] at hstep ⊢
    obtain ⟨hsome, hstep⟩ := hstep
    obtain ⟨g', hg', ha⟩ := (h.msgClose hx).result hstep
    exact ⟨g', ⟨hsome, hg'⟩, ha⟩
  | error x =>
    have hx := hfd x rfl
    simp only [GameGate.handle, Option.ite_none_left_eq_some, ← hnet x hx,
      Option.some_inj] at hstep ⊢
    obtain ⟨hsome, hstep⟩ := hstep
    obtain ⟨g', hg', ha⟩ := (h.msgError hx).result hstep
    exact ⟨g', ⟨hsome, hg'⟩, ha⟩
  | login name secret =>
    obtain ⟨rfl, rfl⟩ := Prod.mk.inj (Option.some.inj hstep)
    exact ⟨_, rfl, (h.blind (f := fun g => (serverLogin g name secret, ()))
      fun _ _ _ _ => rfl).gate⟩
  | logout name =>
    obtain ⟨g', hg', ha⟩ := (h.serverLogout name hconn).result (Option.some.inj hstep)
    exact ⟨g', congrArg some hg', ha⟩

/-! ## States -/

/-- Two states that agree but for the connections outside `P`. -/
structure Beside (P : Fd → Prop) (d : Int) (s s' : State) : Prop where
  gate : Alike P d s.gate s'.gate
  net : ∀ x, P x → s.net.get x = s'.net.get x

theorem foldl_onNet_congr {net net' : Table Fd Sock} {x : Fd} (h : net.get x = net'.get x)
    (acts : List Act) : (acts.foldl Act.onNet net).get x = (acts.foldl Act.onNet net').get x := by
  classical
  induction acts generalizing net net' with
  | nil => exact h
  | cons a acts ih =>
    refine ih ?_
    rw [get_onNet, get_onNet, h]

theorem onNet_congr {net net' : Table Fd Sock} {x : Fd} (h : net.get x = net'.get x)
    (e : Event) : (e.onNet net).get x = (e.onNet net').get x := by
  classical
  rw [get_eventNet, get_eventNet, h]

/-- Actions for one connection do not reach the socket of another. -/
theorem foldl_onNet_other {net : Table Fd Sock} {acts : List Act} {fd x : Fd} (hx : x ≠ fd)
    (h : ∀ a ∈ acts, a.fd = some fd) : (acts.foldl Act.onNet net).get x = net.get x := by
  classical
  induction acts generalizing net with
  | nil => rfl
  | cons a acts ih =>
    obtain ⟨ha, hacts⟩ := List.forall_mem_cons.mp h
    rw [List.foldl_cons, ih hacts, get_onNet, if_neg]
    rintro ⟨rfl | rfl, -⟩
    · exact hx (Option.some.inj ha)
    · exact hx (Option.some.inj ha)

/-- **The same step from both states.** -/
theorem Beside.step {i : Item c} {s' : State} (h : Beside P d i.pre s') (hd : 0 ≤ d)
    (hconn : ∀ x u, i.pre.gate.connection.get x = some u → P x)
    (hfd : ∀ x, i.ev.fd = some x → P x)
    (hopen : ∀ x addr, i.ev = .connect x addr → .start x ∈ i.out) :
    ∃ i' : Item c, i'.pre = s' ∧ i'.ev = i.ev ∧ i'.out = i.out ∧ Beside P d i.post i'.post := by
  obtain ⟨hstep, hnet⟩ := i.inv
  obtain ⟨g', hg', ha⟩ := h.gate.handle hd h.net hconn hfd hopen hstep
  have hok : (machine c).step s' i.ev =
      some (⟨g', i.out.foldl Act.onNet (i.ev.onNet s'.net)⟩, i.out) := by
    change (handle c s' i.ev).map _ = _
    rw [hg']
    rfl
  refine ⟨⟨s', i.ev, _, i.out, hok⟩, rfl, rfl, rfl, ha, fun x hx => ?_⟩
  rw [hnet]
  exact foldl_onNet_congr (onNet_congr (h.net x hx) i.ev) i.out

/-! ## The events of one connection -/

/-- What a step does in front of others. -/
def Item.shown (i : Item c) : Event × List Act := (i.ev, i.out)

/-- The steps of the connection `fd`, up to its close event. -/
def ofConn (fd : Fd) : List (Item c) → List (Item c)
  | [] => []
  | i :: tr =>
    if i.ev = .close fd then [i]
    else if i.ev.fd = some fd then i :: ofConn fd tr
    else ofConn fd tr

/-- The other steps. -/
def eraseConn (fd : Fd) : List (Item c) → List (Item c)
  | [] => []
  | i :: tr =>
    if i.ev = .close fd then tr
    else if i.ev.fd = some fd then eraseConn fd tr
    else i :: eraseConn fd tr

/-- `s` has a connection `fd` that is not authenticated, and `s'` has not. -/
structure Within (fd : Fd) (s s' : State) : Prop where
  beside : Beside (· ≠ fd) 1 s s'
  connection : s.gate.connection.get fd = none
  present : s.net.get fd ≠ none
  absent : s'.net.get fd = none

/-- The connection is gone. `gateserver` may have kept an entry for an earlier one in `s'`. -/
structure Gone (fd : Fd) (s s' : State) : Prop where
  beside : Beside (· ≠ fd) 0 s s'
  gone : s.net.get fd = none
  absent : s'.net.get fd = none

/-- The gate `g'` differs from `g` in the number of clients and the entries of `fd`. -/
structure Touched (fd : Fd) (g g' : Gate) (n : Int) : Prop where
  graft : ∃ t hs, g' = g.graft n t hs
  gsConnection : ∀ x, x ≠ fd → g'.gsConnection.get x = g.gsConnection.get x
  handshake : ∀ x, x ≠ fd → g'.handshake.get x = g.handshake.get x

theorem Touched.refl (fd : Fd) (g : Gate) : Touched fd g g g.clientNumber :=
  ⟨⟨_, _, rfl⟩, fun _ _ => rfl, fun _ _ => rfl⟩

theorem request_unbound {g : Gate} {fd : Fd} (h : g.connection.get fd = none) (data : Bytes) :
    request c g fd data = (g, []) := by
  simp [request, doRequest, h, settle]

/-- **A connection that is not authenticated** only touches its own entries. -/
theorem Item.touched (i : Item c) {fd : Fd} (hc : i.pre.gate.connection.get fd = none)
    (hpresent : i.pre.net.get fd ≠ none) (hev : i.ev.fd = some fd) (hcl : i.ev ≠ .close fd)
    (hna : ∀ u idx, ¬ i.Accepts fd u idx) :
    Touched fd i.pre.gate i.post.gate i.pre.gate.clientNumber ∧ ∀ a ∈ i.out, a.fd = some fd := by
  have hh := i.handled
  generalize he : i.ev = e, hpost : i.post.gate = g', hout : i.out = acts at hh
  rw [he] at hev hcl
  cases hh with
  | connect x addr =>
    obtain rfl := Option.some.inj hev
    exact absurd (i.connect_fresh he) hpresent
  | dropped hgs => exact ⟨.refl _ _, by simp⟩
  | @refused x data addr status hgs hhs hauth =>
    obtain rfl := Option.some.inj hev
    refine ⟨⟨⟨_, _, rfl⟩, fun y hy => Table.get_del_ne hy, fun y hy => Table.get_del_ne hy⟩, ?_⟩
    simp [sendStatus, Act.fd]
  | @accepted x data addr u idx hgs hhs hauth =>
    obtain rfl := Option.some.inj hev
    exact absurd ⟨⟨data, he, hauth⟩, hgs, by simp [hhs]⟩ (hna u idx)
  | @request x data hgs hhs =>
    obtain rfl := Option.some.inj hev
    rw [request_unbound hc]
    exact ⟨.refl _ _, by simp⟩
  | complete => exact absurd hev (by simp [Event.fd])
  | close x =>
    obtain rfl := Option.some.inj hev
    exact absurd rfl hcl
  | error x =>
    obtain rfl := Option.some.inj hev
    simp only [msgError, disconnect_none hc]
    exact ⟨⟨⟨_, _, rfl⟩, fun _ _ => rfl, fun y hy => Table.get_del_ne hy⟩, by simp [Act.fd]⟩
  | login => exact absurd hev (by simp [Event.fd])
  | logout => exact absurd hev (by simp [Event.fd])

/-- Its close event lowers the number of clients. -/
theorem Item.touched_close (i : Item c) {fd : Fd} (hc : i.pre.gate.connection.get fd = none)
    (hev : i.ev = .close fd) :
    Touched fd i.pre.gate i.post.gate (i.pre.gate.clientNumber - 1) ∧ i.out = [] := by
  have hh := i.handled
  rw [hev] at hh
  generalize hpost : i.post.gate = g', hout : i.out = acts at hh
  cases hh
  unfold msgClose
  rw [disconnect_none (by exact hc)]
  refine ⟨⟨⟨_, _, rfl⟩, fun y hy => ?_, fun y hy => Table.get_del_ne hy⟩, rfl⟩
  dsimp only
  split
  · exact Table.get_set_ne hy
  · rfl

theorem Touched.alike {fd : Fd} {g g₁ g' : Gate} {n d d' : Int} (h : Touched fd g g₁ n)
    (ha : Alike (· ≠ fd) d g g') (hn : n = g.clientNumber + d' - d) :
    Alike (· ≠ fd) d' g₁ g' := by
  obtain ⟨t, hs, rfl⟩ := h.graft
  refine ⟨ha.graft, ?_, fun x hx => ?_, fun x hx => ?_⟩
  · have := ha.clientNumber
    change n = _
    omega
  · rw [h.gsConnection x hx, ha.gsConnection x hx]
  · rw [h.handshake x hx, ha.handshake x hx]

theorem Item.net_other (i : Item c) {fd x : Fd} (hev : i.ev.fd = some fd)
    (hacts : ∀ a ∈ i.out, a.fd = some fd) (hx : x ≠ fd) :
    i.post.net.get x = i.pre.net.get x := by
  rw [i.inv.2, foldl_onNet_other hx hacts]
  cases he : i.ev with
  | connect y addr =>
    rw [he] at hev
    obtain rfl := Option.some.inj hev
    exact Table.get_set_ne hx
  | close y =>
    rw [he] at hev
    obtain rfl := Option.some.inj hev
    exact Table.get_del_ne hx
  | packet | complete | error | login | logout => rfl

/-- A step of the connection itself. -/
theorem Within.skip {fd : Fd} {i : Item c} {s' : State} (h : Within fd i.pre s')
    (hev : i.ev.fd = some fd) (hcl : i.ev ≠ .close fd)
    (hna : ∀ u idx, ¬ i.Accepts fd u idx) :
    Within fd i.post s' ∧ ∀ a ∈ i.out, a.fd = some fd := by
  obtain ⟨ht, hacts⟩ := i.touched h.connection h.present hev hcl hna
  refine ⟨⟨⟨ht.alike h.beside.gate (by omega), fun x hx => ?_⟩, ?_, i.net_present h.present hcl,
    h.absent⟩, hacts⟩
  · rw [i.net_other hev hacts hx, h.beside.net x hx]
  · obtain ⟨t, hs, heq⟩ := ht.graft
    rw [heq]
    exact h.connection

/-- Its close event. -/
theorem Within.close {fd : Fd} {i : Item c} {s' : State} (h : Within fd i.pre s')
    (hev : i.ev = .close fd) : Gone fd i.post s' ∧ i.out = [] := by
  obtain ⟨ht, hout⟩ := i.touched_close h.connection hev
  refine ⟨⟨⟨ht.alike h.beside.gate (by omega), fun x hx => ?_⟩, ?_, h.absent⟩, hout⟩
  · rw [i.net_other (by rw [hev]; rfl) (by simp [hout]) hx, h.beside.net x hx]
  · rw [i.net_none]
    exact ⟨by simp [hev], .inl hev⟩

/-- Every connection of the run is accepted: it stays below `maxclient`. -/
def Item.BelowLimit (i : Item c) : Prop := ∀ fd addr, i.ev = .connect fd addr → .start fd ∈ i.out

theorem Item.fd_absent (i : Item c) {fd : Fd} (hev : i.ev.fd = some fd)
    (habsent : i.pre.net.get fd = none) : ∃ addr, i.ev = .connect fd addr := by
  have hstep := i.inv.1
  cases he : i.ev with
  | connect x addr =>
    rw [he] at hev
    obtain rfl := Option.some.inj hev
    exact ⟨addr, rfl⟩
  | packet x data | close x | error x =>
    rw [he] at hev hstep
    obtain rfl := Option.some.inj hev
    rw [handle, if_pos habsent] at hstep
    exact absurd hstep (by simp)
  | complete | login | logout =>
    rw [he] at hev
    exact absurd hev (by simp [Event.fd])

theorem Item.net_absent (i : Item c) {fd : Fd} (hev : i.ev.fd ≠ some fd)
    (h : i.pre.net.get fd = none) : i.post.net.get fd = none := by
  rw [i.net_none]
  refine ⟨?_, .inr h⟩
  rintro ⟨addr, hconnect⟩
  rw [hconnect] at hev
  exact hev rfl

/-- The steps of others do not authenticate it. -/
theorem Item.connection_none (i : Item c) (hw : WellFormed i.pre) {fd : Fd}
    (hev : i.ev.fd ≠ some fd) (h : i.pre.gate.connection.get fd = none) :
    i.post.gate.connection.get fd = none := by
  cases i.kind with
  | quiet hg => exact (congrArg (·.get fd) hg.connection).trans h
  | @accept x u idx ha =>
    obtain ⟨data, hx, -⟩ := ha.packet
    obtain ⟨addr, hpost, -⟩ := ha.post
    have hne : fd ≠ x := by
      rintro rfl
      rw [hx] at hev
      exact hev rfl
    rw [hpost]
    exact (Table.get_set_ne hne).trans h
  | sever _ hg =>
    rw [hg.connection, Table.get_del]
    split
    · rfl
    · exact h
  | login _ hg =>
    rw [hg]
    exact h
  | @logout name _ hg =>
    rw [hg]
    cases serverLogout_loggedOut hw name with
    | absent _ heq =>
      rw [heq]
      exact h
    | away _ _ heq =>
      rw [heq]
      exact h
    | connected _ _ _ heq =>
      rw [heq, Table.get_del]
      split
      · rfl
      · exact h

/-- A step of others, while the connection is there. -/
theorem Within.step {fd : Fd} {i : Item c} {s' : State} (h : Within fd i.pre s')
    (hw : WellFormed i.pre) (hev : i.ev.fd ≠ some fd) (hlimit : i.BelowLimit) :
    ∃ i' : Item c, i'.pre = s' ∧ i'.shown = i.shown ∧ Within fd i.post i'.post := by
  have hconn : ∀ x u, i.pre.gate.connection.get x = some u → x ≠ fd := by
    rintro x u hx rfl
    exact absurd (h.connection.symm.trans hx) (by simp)
  obtain ⟨i', hpre, hev', hout, hb⟩ := h.beside.step (by omega) hconn
    (fun x hx hxf => hev (hxf ▸ hx)) hlimit
  refine ⟨i', hpre, Prod.ext hev' hout, hb, i.connection_none hw hev h.connection,
    i.net_present h.present ?_, i'.net_absent (hev' ▸ hev) (hpre ▸ h.absent)⟩
  intro hclose
  rw [hclose] at hev
  exact hev rfl

/-- A step of others, when it is gone. -/
theorem Gone.step {fd : Fd} {i : Item c} {s' : State} (h : Gone fd i.pre s')
    (hw : WellFormed i.pre) (hev : i.ev.fd ≠ some fd) (hlimit : i.BelowLimit) :
    ∃ i' : Item c, i'.pre = s' ∧ i'.shown = i.shown ∧ Gone fd i.post i'.post := by
  have hconn : ∀ x u, i.pre.gate.connection.get x = some u → x ≠ fd := by
    rintro x u hx rfl
    exact hw.present x u hx h.gone
  obtain ⟨i', hpre, hev', hout, hb⟩ := h.beside.step le_rfl hconn
    (fun x hx hxf => hev (hxf ▸ hx)) hlimit
  exact ⟨i', hpre, Prod.ext hev' hout, hb, i.net_absent hev h.gone,
    i'.net_absent (hev' ▸ hev) (hpre ▸ h.absent)⟩

/-- Its number is used again. -/
theorem Gone.reconnect {fd : Fd} {i : Item c} {s' : State} (h : Gone fd i.pre s') {addr : Bytes}
    (hev : i.ev = .connect fd addr) (hlimit : i.BelowLimit) :
    ∃ i' : Item c, i'.pre = s' ∧ i'.shown = i.shown ∧ Beside (fun _ => True) 0 i.post i'.post := by
  obtain ⟨hstep, hnet⟩ := i.inv
  rw [hev, handle, if_pos h.gone] at hstep
  have hx : msgOpen c i.pre.gate fd addr = (i.post.gate, i.out) := Option.some.inj hstep
  obtain ⟨g', hg', ha⟩ := (h.beside.gate.msgOpen le_rfl
    (by rw [hx]; exact hlimit fd addr hev)).result hx
  have hok : (machine c).step s' i.ev =
      some (⟨g', i.out.foldl Act.onNet (i.ev.onNet s'.net)⟩, i.out) := by
    change (handle c s' i.ev).map _ = _
    rw [hev, handle, if_pos h.absent, hg']
    rfl
  -- both list the connection now
  have hopened : ∀ {g g₁ : Gate} {acts : List Act}, msgOpen c g fd addr = (g₁, acts) →
      .start fd ∈ acts → g₁.gsConnection.get fd = some true ∧ g₁.handshake.get fd = some addr := by
    intro g g₁ acts hopen hstart
    obtain h | h := msgOpen_cases c g fd addr
    · obtain ⟨-, rfl⟩ := Prod.mk.inj (hopen.symm.trans h)
      exact absurd hstart (by simp)
    · obtain ⟨rfl, -⟩ := Prod.mk.inj (hopen.symm.trans h)
      exact ⟨Table.get_set_self _ _ _, Table.get_set_self _ _ _⟩
  have h1 := hopened hx (hlimit fd addr hev)
  have h2 := hopened hg' (hlimit fd addr hev)
  refine ⟨⟨s', i.ev, _, i.out, hok⟩, rfl, rfl, ⟨ha.graft, ha.clientNumber, fun x _ => ?_,
    fun x _ => ?_⟩, fun x _ => ?_⟩
  · by_cases hxf : x = fd
    · rw [hxf, h1.1, h2.1]
    · exact ha.gsConnection x hxf
  · by_cases hxf : x = fd
    · rw [hxf, h1.2, h2.2]
    · exact ha.handshake x hxf
  · rw [hnet]
    refine foldl_onNet_congr (onNet_congr ?_ i.ev) i.out
    by_cases hxf : x = fd
    · rw [hxf, h.gone, h.absent]
    · exact h.beside.net x hxf

/-- After the close event: it is gone, or its number is in use again. -/
def After (fd : Fd) (s s' : State) : Prop := Gone fd s s' ∨ Beside (fun _ => True) 0 s s'

theorem After.step {fd : Fd} {i : Item c} {s' : State} (h : After fd i.pre s')
    (hw : WellFormed i.pre) (hlimit : i.BelowLimit) :
    ∃ i' : Item c, i'.pre = s' ∧ i'.shown = i.shown ∧ After fd i.post i'.post := by
  rcases h with h | h
  · by_cases hev : i.ev.fd = some fd
    · obtain ⟨addr, hconnect⟩ := i.fd_absent hev h.gone
      obtain ⟨i', hpre, hshown, hb⟩ := h.reconnect hconnect hlimit
      exact ⟨i', hpre, hshown, .inr hb⟩
    · obtain ⟨i', hpre, hshown, hg⟩ := h.step hw hev hlimit
      exact ⟨i', hpre, hshown, .inl hg⟩
  · obtain ⟨i', hpre, hev', hout, hb⟩ := h.step le_rfl (fun _ _ _ => trivial)
      (fun _ _ => trivial) hlimit
    exact ⟨i', hpre, Prod.ext hev' hout, .inr hb⟩

theorem After.path {fd : Fd} {s t s' : State} {b : List (Item c)}
    (hpath : (machine c).Path s b t) (hw : WellFormed s) (h : After fd s s')
    (hlimit : ∀ i ∈ b, Item.BelowLimit i) : ∃ tr t', (machine c).Path s' tr t' ∧
      tr.map Item.shown = b.map Item.shown ∧ After fd t t' := by
  induction b generalizing s s' with
  | nil =>
    obtain rfl := Machine.path_nil_iff.mp hpath
    exact ⟨[], s', Machine.Path.nil _, rfl, h⟩
  | cons i b ih =>
    obtain ⟨rfl, hrest⟩ := Machine.path_cons_iff.mp hpath
    obtain ⟨hi, hb⟩ := List.forall_mem_cons.mp hlimit
    obtain ⟨i', rfl, hshown, hafter⟩ := h.step hw hi
    obtain ⟨tr, t', htr, hmap, hend⟩ := ih hrest (Item.wellFormed i hw) hafter hb
    exact ⟨i' :: tr, t', Machine.path_cons_iff.mpr ⟨rfl, htr⟩,
      by rw [List.map_cons, List.map_cons, hshown, hmap], hend⟩

/-- **A path without the steps of the connection.** -/
theorem Within.path {fd : Fd} {s t s' : State} {b : List (Item c)}
    (hpath : (machine c).Path s b t) (hw : WellFormed s) (h : Within fd s s')
    (hlimit : ∀ i ∈ b, Item.BelowLimit i)
    (hna : ∀ i ∈ ofConn fd b, ∀ u idx, ¬ Item.Accepts i fd u idx) :
    ∃ tr t', (machine c).Path s' tr t' ∧
      tr.map Item.shown = (eraseConn fd b).map Item.shown ∧
      (Within fd t t' ∨ After fd t t') ∧ ∀ i ∈ ofConn fd b, ∀ a ∈ i.out, a.fd = some fd := by
  induction b generalizing s s' with
  | nil =>
    obtain rfl := Machine.path_nil_iff.mp hpath
    exact ⟨[], s', Machine.Path.nil _, rfl, .inl h, by simp [ofConn]⟩
  | cons i b ih =>
    obtain ⟨rfl, hrest⟩ := Machine.path_cons_iff.mp hpath
    obtain ⟨hi, hb⟩ := List.forall_mem_cons.mp hlimit
    have hw' := Item.wellFormed i hw
    rw [ofConn] at hna ⊢
    rw [eraseConn]
    by_cases hcl : i.ev = .close fd
    · rw [if_pos hcl, if_pos hcl]
      obtain ⟨hgone, hout⟩ := h.close hcl
      obtain ⟨tr, t', htr, hmap, hend⟩ := After.path hrest hw' (.inl hgone) hb
      refine ⟨tr, t', htr, hmap, .inr hend, fun j hj => ?_⟩
      obtain rfl := List.mem_singleton.mp hj
      simp [hout]
    · rw [if_neg hcl] at hna ⊢
      rw [if_neg hcl]
      by_cases hev : i.ev.fd = some fd
      · rw [if_pos hev] at hna ⊢
        rw [if_pos hev]
        obtain ⟨hnai, hnab⟩ := List.forall_mem_cons.mp hna
        obtain ⟨hwithin, hacts⟩ := h.skip hev hcl hnai
        obtain ⟨tr, t', htr, hmap, hend, hrestacts⟩ := ih hrest hw' hwithin hb hnab
        exact ⟨tr, t', htr, hmap, hend, List.forall_mem_cons.mpr ⟨hacts, hrestacts⟩⟩
      · rw [if_neg hev] at hna ⊢
        rw [if_neg hev]
        obtain ⟨i', rfl, hshown, hwithin⟩ := h.step hw hev hi
        obtain ⟨tr, t', htr, hmap, hend, hrestacts⟩ := ih hrest hw' hwithin hb hna
        exact ⟨i' :: tr, t', Machine.path_cons_iff.mpr ⟨rfl, htr⟩,
          by rw [List.map_cons, List.map_cons, hshown, hmap], hend, hrestacts⟩

/-! ## Connections whose first packet is rejected -/

/-- The packet ends the handshake of `fd` without success: 404, 403, 401 or 400. -/
structure Item.Rejects (i : Item c) (fd : Fd) : Prop where
  packet : ∃ data, i.ev = .packet fd data ∧ ∀ u idx, authCheck i.pre.gate data ≠ .accepted u idx
  connected : i.pre.gate.gsConnection.get fd = some true
  handshake : i.pre.gate.handshake.get fd ≠ none

/-- The first packet of the connection `fd` is rejected. -/
def FirstRejected (fd : Fd) (b : List (Item c)) : Prop :=
  ∃ b₁ p b₂, b = b₁ ++ p :: b₂ ∧ p.Rejects fd ∧
    ∀ i ∈ b₁, i.ev ≠ .close fd ∧ ∀ data, i.ev ≠ .packet fd data

/-- What the others see of a run. -/
def othersSee (fd : Fd) (tr : List (Item c)) : List Act :=
  (tr.flatMap Machine.Item.out).filter fun a => a.fd ≠ some fd

theorem Item.Rejects.handshake_none {i : Item c} {fd : Fd} (h : i.Rejects fd) :
    i.post.gate.handshake.get fd = none := by
  obtain ⟨⟨data, hev, hna⟩, hgs, hhs⟩ := h
  have hh := i.handled
  rw [hev] at hh
  generalize i.post.gate = g', i.out = acts at hh
  cases hh with
  | dropped hgs' => exact absurd hgs hgs'
  | refused => exact Table.get_del_self _ _
  | accepted _ _ hauth => exact absurd hauth (hna _ _)
  | request _ hn => exact absurd hn hhs

/-- Nobody is authenticated after the handshake. -/
theorem not_accepts_after {fd : Fd} {s t : State} {b : List (Item c)}
    (hpath : (machine c).Path s b t) (hw : WellFormed s) (hpresent : s.net.get fd ≠ none)
    (hhs : s.gate.handshake.get fd = none) :
    ∀ i ∈ ofConn fd b, ∀ u idx, ¬ Item.Accepts i fd u idx := by
  induction b generalizing s with
  | nil => simp [ofConn]
  | cons i b ih =>
    obtain ⟨rfl, hrest⟩ := Machine.path_cons_iff.mp hpath
    have hnai : ∀ u idx, ¬ Item.Accepts i fd u idx := fun u idx ha => ha.handshake hhs
    rw [ofConn]
    by_cases hcl : i.ev = .close fd
    · rw [if_pos hcl]
      intro j hj
      obtain rfl := List.mem_singleton.mp hj
      exact hnai
    · have hhs' : i.post.gate.handshake.get fd = none := by
        cases Item.stage i hw fd with
        | kept _ _ hsame => rw [hsame, hhs]
        | opened hopen =>
          obtain ⟨⟨addr, hev⟩, -⟩ := hopen
          exact absurd (Item.connect_fresh i hev) hpresent
        | refused _ _ hnone => exact hnone
        | accepted _ _ hnone => exact hnone
        | closed _ _ _ hsame => rw [hsame, hhs]
        | ended _ _ _ hnone => exact hnone
        | left _ _ _ hnone => exact hnone
      have hb := ih hrest (Item.wellFormed i hw) (Item.net_present i hpresent hcl) hhs'
      rw [if_neg hcl]
      split
      · exact List.forall_mem_cons.mpr ⟨hnai, hb⟩
      · exact hb

theorem FirstRejected.not_accepts {fd : Fd} {s t : State} {b : List (Item c)}
    (hpath : (machine c).Path s b t) (hw : WellFormed s) (hpresent : s.net.get fd ≠ none)
    (h : FirstRejected fd b) : ∀ i ∈ ofConn fd b, ∀ u idx, ¬ Item.Accepts i fd u idx := by
  obtain ⟨b₁, p, b₂, rfl, hp, hb₁⟩ := h
  induction b₁ generalizing s with
  | nil =>
    obtain ⟨rfl, hrest⟩ := Machine.path_cons_iff.mp hpath
    obtain ⟨data, hev, hna⟩ := hp.packet
    have hcl : p.ev ≠ .close fd := by simp [hev]
    have hnap : ∀ u idx, ¬ Item.Accepts p fd u idx := by
      rintro u idx ⟨⟨data', hev', hauth⟩, -, -⟩
      obtain ⟨-, rfl⟩ := Event.packet.inj (hev.symm.trans hev')
      exact hna u idx hauth
    rw [List.nil_append, ofConn, if_neg hcl, if_pos (by rw [hev]; rfl)]
    exact List.forall_mem_cons.mpr ⟨hnap, not_accepts_after hrest (Item.wellFormed p hw)
      (Item.net_present p hpresent hcl) hp.handshake_none⟩
  | cons i b₁ ih =>
    obtain ⟨rfl, hrest⟩ := Machine.path_cons_iff.mp hpath
    obtain ⟨⟨hcl, hpacket⟩, hb₁⟩ := List.forall_mem_cons.mp hb₁
    have hb := ih (Item.wellFormed i hw) (Item.net_present i hpresent hcl) hrest hb₁
    have hnai : ∀ u idx, ¬ Item.Accepts i fd u idx := by
      rintro u idx ⟨⟨data, hev, -⟩, -, -⟩
      exact hpacket data hev
    rw [List.cons_append, ofConn, if_neg hcl]
    split
    · exact List.forall_mem_cons.mpr ⟨hnai, hb⟩
    · exact hb

/-- The connection begins. -/
theorem within_of_connect {i : Item c} {fd : Fd} {addr : Bytes} (hw : WellFormed i.pre)
    (hev : i.ev = .connect fd addr) (hlimit : i.BelowLimit) :
    Within fd i.post i.pre ∧ ∀ a ∈ i.out, a.fd = some fd := by
  have hfresh := i.connect_fresh hev
  have hnone : i.pre.gate.connection.get fd = none := by
    by_contra hne
    obtain ⟨u, hu⟩ := Option.ne_none_iff_exists'.mp hne
    exact hw.present fd u hu hfresh
  have hstart := hlimit fd addr hev
  have hopen : i.post.gate = { i.pre.gate with
      clientNumber := i.pre.gate.clientNumber + 1
      gsConnection := i.pre.gate.gsConnection.set fd true
      handshake := i.pre.gate.handshake.set fd addr } ∧ i.out = [.start fd] := by
    have hh := i.handled
    rw [hev] at hh
    generalize i.post.gate = g', i.out = acts at hh hstart
    cases hh
    obtain h | h := msgOpen_cases c i.pre.gate fd addr
    · rw [h] at hstart
      exact absurd hstart (by simp)
    · rw [h]
      exact ⟨rfl, rfl⟩
  obtain ⟨hpost, hout⟩ := hopen
  have hacts : ∀ a ∈ i.out, a.fd = some fd := by simp [hout, Act.fd]
  have htouched : Touched fd i.pre.gate i.post.gate (i.pre.gate.clientNumber + 1) := by
    rw [hpost]
    exact ⟨⟨_, _, rfl⟩, fun x hx => Table.get_set_ne hx, fun x hx => Table.get_set_ne hx⟩
  have hself : Alike (· ≠ fd) 0 i.pre.gate i.pre.gate :=
    ⟨rfl, by simp, fun _ _ => rfl, fun _ _ => rfl⟩
  refine ⟨⟨⟨htouched.alike hself (by omega), fun x hx => ?_⟩, ?_, ?_, hfresh⟩, hacts⟩
  · exact i.net_other (by rw [hev]; rfl) hacts hx
  · rw [hpost]
    exact hnone
  · rw [ne_eq, i.net_none]
    rintro ⟨hno, -⟩
    exact hno ⟨addr, hev⟩

theorem othersSee_append (fd : Fd) (a b : List (Item c)) :
    othersSee fd (a ++ b) = othersSee fd a ++ othersSee fd b := by
  rw [othersSee, List.flatMap_append, List.filter_append]
  rfl

theorem othersSee_cons (fd : Fd) (i : Item c) (b : List (Item c)) :
    othersSee fd (i :: b) = i.out.filter (fun a => a.fd ≠ some fd) ++ othersSee fd b := by
  rw [othersSee, List.flatMap_cons, List.filter_append]
  rfl

/-- The others do not see a step that is about the connection. -/
theorem othersSee_cons_own {fd : Fd} {i : Item c} (h : ∀ a ∈ i.out, a.fd = some fd)
    (b : List (Item c)) : othersSee fd (i :: b) = othersSee fd b := by
  have hnone : i.out.filter (fun a => a.fd ≠ some fd) = [] := by
    rw [List.filter_eq_nil_iff]
    intro a ha
    simp [h a ha]
  rw [othersSee_cons, hnone, List.nil_append]

theorem othersSee_erase {fd : Fd} {b : List (Item c)}
    (h : ∀ i ∈ ofConn fd b, ∀ a ∈ i.out, a.fd = some fd) :
    othersSee fd (eraseConn fd b) = othersSee fd b := by
  induction b with
  | nil => rfl
  | cons i b ih =>
    rw [ofConn] at h
    rw [eraseConn]
    by_cases hcl : i.ev = .close fd
    · rw [if_pos hcl] at h ⊢
      rw [othersSee_cons_own (h i (List.mem_singleton_self i))]
    · rw [if_neg hcl] at h ⊢
      by_cases hev : i.ev.fd = some fd
      · rw [if_pos hev] at h ⊢
        obtain ⟨hi, hb⟩ := List.forall_mem_cons.mp h
        rw [othersSee_cons_own hi, ih hb]
      · rw [if_neg hev] at h ⊢
        rw [othersSee_cons, othersSee_cons, ih h]

/-- What others see is what the steps show. -/
theorem othersSee_congr {fd : Fd} {a b : List (Item c)}
    (h : a.map Item.shown = b.map Item.shown) : othersSee fd a = othersSee fd b := by
  have hflat : ∀ l : List (Item c),
      l.flatMap Machine.Item.out = (l.map Item.shown).flatMap Prod.snd := by
    intro l
    rw [List.flatMap_map]
    rfl
  rw [othersSee, othersSee, hflat, hflat, h]

/-- Two gates that agree on the users and on the connections other than `fd`. -/
structure SameFor (fd : Fd) (g g' : Gate) : Prop where
  userOnline : g'.userOnline = g.userOnline
  users : g'.users = g.users
  connection : g'.connection = g.connection
  entries : g'.entries = g.entries
  tasks : g'.tasks = g.tasks
  gsConnection : ∀ x, x ≠ fd → g'.gsConnection.get x = g.gsConnection.get x
  handshake : ∀ x, x ≠ fd → g'.handshake.get x = g.handshake.get x

theorem Alike.sameFor {fd : Fd} (h : Alike P d g g') (hP : ∀ x, x ≠ fd → P x) :
    SameFor fd g g' := by
  refine ⟨?_, ?_, h.connection, ?_, ?_, fun x hx => (h.gsConnection x (hP x hx)).symm,
    fun x hx => (h.handshake x (hP x hx)).symm⟩
  all_goals
    rw [h.graft]
    rfl

/-- **Failed handshakes do not interfere**: without the steps of the connection, the other steps do
the same, and the users and the other connections are in the same state. -/
theorem rejected_bystander {tr : List (Item c)} {s : State} (h : (machine c).Run tr s)
    (hlimit : ∀ i ∈ tr, Item.BelowLimit i) {a b : List (Item c)} {j : Item c} {fd : Fd}
    {addr : Bytes} (htr : tr = a ++ j :: b) (hj : j.ev = .connect fd addr)
    (hrej : FirstRejected fd b) :
    ∃ tr' s', (machine c).Run tr' s' ∧
      tr'.map Item.shown = (a ++ eraseConn fd b).map Item.shown ∧
      othersSee fd tr' = othersSee fd tr ∧ SameFor fd s.gate s'.gate := by
  subst htr
  obtain ⟨ha, hb⟩ := h.split
  have hw := Run.wellFormed ha
  obtain ⟨hwithin, hjacts⟩ := within_of_connect hw hj (hlimit j (by simp))
  have hwj := Item.wellFormed j hw
  have hna := hrej.not_accepts hb hwj hwithin.present
  obtain ⟨tr', s', htr', hmap, hend, hacts⟩ := hwithin.path hb hwj
    (fun i hi => hlimit i (by simp [hi])) hna
  have hshown : (a ++ tr').map Item.shown = (a ++ eraseConn fd b).map Item.shown := by
    rw [List.map_append, List.map_append, hmap]
  refine ⟨a ++ tr', s', ha.append htr', hshown, ?_, ?_⟩
  · rw [othersSee_congr hshown, othersSee_append, othersSee_append, othersSee_erase hacts,
      othersSee_cons_own hjacts]
  · rcases hend with hin | hgone | hback
    · exact hin.beside.gate.sameFor fun _ hx => hx
    · exact hgone.beside.gate.sameFor fun _ hx => hx
    · exact hback.gate.sameFor fun _ _ => trivial

/-- Without a socket there are no events but a new connection. -/
theorem fd_absent_path {fd : Fd} {s t : State} {b : List (Item c)}
    (hpath : (machine c).Path s b t) (habsent : s.net.get fd = none)
    (h : ∀ i ∈ b, ∀ addr, i.ev ≠ .connect fd addr) : ∀ i ∈ b, Event.fd i.ev ≠ some fd := by
  induction b generalizing s with
  | nil => simp
  | cons i b ih =>
    obtain ⟨rfl, hrest⟩ := Machine.path_cons_iff.mp hpath
    obtain ⟨hi, hb⟩ := List.forall_mem_cons.mp h
    have hev : i.ev.fd ≠ some fd := by
      intro hev
      obtain ⟨addr, hconnect⟩ := Item.fd_absent i hev habsent
      exact hi addr hconnect
    exact List.forall_mem_cons.mpr ⟨hev, ih hrest (Item.net_absent i hev habsent) hb⟩

/-- If the number is not used again, the steps of the connection are all that are left out. -/
theorem eraseConn_eq_filter {fd : Fd} {s t : State} {b : List (Item c)}
    (hpath : (machine c).Path s b t) (h : ∀ i ∈ b, ∀ addr, i.ev ≠ .connect fd addr) :
    eraseConn fd b = b.filter fun i => i.ev.fd ≠ some fd := by
  induction b generalizing s with
  | nil => rfl
  | cons i b ih =>
    obtain ⟨rfl, hrest⟩ := Machine.path_cons_iff.mp hpath
    obtain ⟨hi, hb⟩ := List.forall_mem_cons.mp h
    rw [eraseConn]
    by_cases hcl : i.ev = .close fd
    · have habsent : i.post.net.get fd = none :=
        (Item.net_none i).mpr ⟨fun ⟨addr, hc⟩ => hi addr hc, .inl hcl⟩
      have hother := fd_absent_path hrest habsent hb
      rw [if_pos hcl, List.filter_cons_of_neg (by simp [hcl, Event.fd])]
      exact (List.filter_eq_self.mpr fun j hj => by simpa using hother j hj).symm
    · rw [if_neg hcl]
      by_cases hev : i.ev.fd = some fd
      · rw [if_pos hev, List.filter_cons_of_neg (by simp [hev]), ih hrest hb]
      · rw [if_neg hev, List.filter_cons_of_pos (by simpa using hev), ih hrest hb]

/-- The first packet of a client that does not know the secret. -/
def forgedHandshake : Bytes :=
  handshakeOf (bytes "dQ==@cw==@MQ==") (bytes "87654321") (bytes "1")

/-- It names an online user. -/
def intruder : List Event :=
  [.login (bytes "dQ==@cw==@MQ==") (bytes "12345678"), .connect 1 (bytes "10.0.0.1:1"),
    .packet 1 forgedHandshake, .close 1]

theorem rejected_bystander_intruder : ∃ (tr : List (Item {})) (s : State) (tr' : List (Item {}))
    (s' : State), (machine {}).Run tr s ∧ tr.map (·.ev) = intruder ∧ (machine {}).Run tr' s' ∧
      tr'.map (·.ev) = intruder.take 1 ∧ othersSee 1 tr' = othersSee 1 tr ∧
      SameFor 1 s.gate s'.gate := by
  have h : ((machine {}).items (machine {}).init intruder).map (fun tr =>
      decide (tr.map (·.ev) = intruder ∧
        (∀ i ∈ tr, i.ev = .connect 1 (bytes "10.0.0.1:1") → .start 1 ∈ i.out) ∧
        ∀ i ∈ tr, i.ev = .packet 1 forgedHandshake →
          authCheck i.pre.gate forgedHandshake = .rejected (bytes "401 Unauthorized") ∧
            i.pre.gate.gsConnection.get 1 = some true ∧ i.pre.gate.handshake.get 1 ≠ none)) =
              some true := by
    decide +kernel
  obtain ⟨tr, hrun, hP⟩ := Machine.exists_run h
  obtain ⟨hev, hstart, hrejected⟩ := of_decide_eq_true hP
  have hlimit : ∀ i ∈ tr, Item.BelowLimit i := by
    intro i hi fd addr hconnect
    have hmem : i.ev ∈ intruder := hev ▸ List.mem_map_of_mem hi
    rw [hconnect] at hmem
    obtain ⟨rfl, rfl⟩ : fd = 1 ∧ addr = bytes "10.0.0.1:1" := by simpa [intruder] using hmem
    exact hstart i hi hconnect
  obtain ⟨l, b, rfl, hl, hb⟩ := List.map_eq_cons_iff.mp hev
  obtain ⟨j, b, rfl, hj, hb⟩ := List.map_eq_cons_iff.mp hb
  obtain ⟨p, b, rfl, hp, hb⟩ := List.map_eq_cons_iff.mp hb
  obtain ⟨k, b, rfl, hk, hb⟩ := List.map_eq_cons_iff.mp hb
  obtain rfl := List.map_eq_nil_iff.mp hb
  obtain ⟨hauth, hgs, hhs⟩ := hrejected p (by simp) hp
  have hfirst : FirstRejected 1 [p, k] := by
    refine ⟨[], p, [k], rfl, ⟨⟨_, hp, fun u idx h => ?_⟩, hgs, hhs⟩, by simp⟩
    exact absurd (hauth.symm.trans h) (by simp)
  obtain ⟨tr', s', hrun', hshown, hothers, hsame⟩ :=
    rejected_bystander hrun hlimit (a := [l]) (b := [p, k]) rfl hj hfirst
  have herase : eraseConn 1 [p, k] = [] := by simp [eraseConn, hp, hk, Event.fd]
  refine ⟨_, _, tr', s', hrun, hev, hrun', ?_, hothers, hsame⟩
  have hevs := congrArg (List.map Prod.fst) hshown
  rw [List.map_map, List.map_map, herase] at hevs
  refine hevs.trans ?_
  simp [Item.shown, hl, intruder]

end LsServer.GameGate
