import LsServer.LoginGate.Auth
import LsServer.Lib.Run
import LsServer.Lib.Table

/-!
# The login server as a machine (LoginGate.lua)

Every connection has a coroutine of `accept`, which first waits for a slave and then for
`login_handler`. The coroutines share the table `user_login`. A connection is numbered when it is
accepted; the number also stands for its socket. `isOpen` until the socket is closed by the peer or
over the buffer limit: a `write` after that raises.

`Item.handled` inverts a step.

Source: LoginGate.lua, `user_login` 114, `accept` 116-149, the function for new sockets in
`launch_master` 168-182.

* `accept` gives the connection to a slave and waits for its answer. Which slave that is does not
  matter: they share nothing, and each runs `auth` for many connections at once.
* `conf.login_handler` is in a `pcall`. Its result is a text or nothing, and for nothing the reply
  is the status with an empty text.
* Every exit of `accept` is an error or a return inside the `pcall` of `launch_master`, and
  `socket.close(fd)` follows (`finish`).
* `Act.close` is that call. The master has not started the socket, its slave has, and `socket.close`
  of a service that has no record of a socket does nothing (socket.lua 283-287). So `Act.close`
  marks the end of `accept`, not that of the connection.
* `hangup` is the end of the connection: by the client, or by the limit of the slave. The coroutine
  notices it only when it writes or reads.

A `nil` account (`uid = none`) raises where the lock is taken, or, with `multilogin`, where it is
given back after the login.

Out of scope: `command_handler`, the choice of a slave, the log, and errors of `skynet.call` to a
slave, which raises if that is dead.
-/

namespace LsServer.LoginGate

open LsServer.Lib LsServer.Lua LsServer.Crypt

abbrev ConnId := Nat

structure Conn where
  phase : Phase
  isOpen : Bool
  deriving DecidableEq

structure Conf where
  multilogin : Bool := false

structure State where
  conns : Table ConnId Conn
  nextConn : ConnId
  userLogin : Table Bytes Bool

/-- How a call of `login_handler` ends. -/
inductive LoginReturn
  | returned (result : Option Bytes)
  | raised
  deriving DecidableEq

/-- What happens to connection `k`. -/
inductive Event
  | accept
  | started (k : ConnId) (random : UInt64)
  | line (k : ConnId) (line : Option Bytes) (random : UInt64)
  | authed (k : ConnId) (r : AuthReturn)
  | resume (k : ConnId)
  | loggedIn (k : ConnId) (r : LoginReturn)
  | hangup (k : ConnId)
  deriving DecidableEq

/-- What is done for connection `k`: `auth` writes a line, `accept` writes a line, a handler is
called, and `socket.close`, with which `accept` ends. -/
inductive Act
  | authWrite (k : ConnId) (text : Bytes)
  | write (k : ConnId) (text : Bytes)
  | authHandler (k : ConnId) (token : Bytes)
  | loginHandler (k : ConnId) (server uid secret : Option Bytes)
  | close (k : ConnId)
  deriving DecidableEq

def status401 : Bytes := bytes "401 Unauthorized\n"

def status403 : Bytes := bytes "403 Forbidden\n"

def status406 : Bytes := bytes "406 Not Acceptable\n"

/-- `"200 "..crypt.base64encode(err).."\n"`. -/
def status200 (err : Bytes) : Bytes := bytes "200 " ++ base64encode err ++ bytes "\n"

/-- `write(service, fd, text)` in `accept`. -/
def writeStatus (k : ConnId) (isOpen : Bool) (text : Bytes) : List Act :=
  if isOpen then [.write k text] else []

/-- The end of `accept`, normal or not. -/
def finish (s : State) (k : ConnId) (acts : List Act) : State × List Act :=
  ({ s with conns := s.conns.del k }, acts ++ [.close k])

/-- The slave goes on with connection `k`. -/
def goOn (s : State) (k : ConnId) (conn : Conn) (r : List Bytes × Except Raised Phase) :
    State × List Act :=
  ({ s with conns := s.conns.set k { conn with phase := settle r.2 } }, r.1.map (.authWrite k))

/-- `accept` after the answer of the slave. -/
def acceptAnswer (c : Conf) (s : State) (k : ConnId) (conn : Conn) (a : Answer) :
    State × List Act :=
  if a.ok ≠ some true then
    -- `nil` stands for a socket error of the slave
    if a.ok ≠ none then finish s k (writeStatus k conn.isOpen status401) else finish s k []
  else
    let login (s : State) : State × List Act :=
      ({ s with conns := s.conns.set k { conn with phase := .loggingIn a.uid } },
        [.loginHandler k a.server a.uid a.secret])
    if c.multilogin then login s
    else
      match a.uid with
      -- `user_login[nil]` reads `nil`, and `user_login[nil] = true` raises
      | none => finish s k []
      | some uid =>
        if s.userLogin.get uid = some true then finish s k (writeStatus k conn.isOpen status406)
        else login { s with userLogin := s.userLogin.set uid true }

/-- `accept` after `login_handler`. -/
def acceptLogin (s : State) (k : ConnId) (conn : Conn) (uid : Option Bytes) (r : LoginReturn) :
    State × List Act :=
  match uid with
  -- `user_login[nil] = nil` raises
  | none => finish s k []
  | some uid =>
    let s := { s with userLogin := s.userLogin.del uid }
    match r with
    | .returned err => finish s k (writeStatus k conn.isOpen (status200 (err.getD [])))
    | .raised => finish s k (writeStatus k conn.isOpen status403)

/-- What happens next to a connection, given its phase, if the event can happen then. -/
def onConn (c : Conf) (s : State) (k : ConnId) (conn : Conn) : Event → Option (State × List Act)
  | .accept => none
  | .started _ random =>
    match conn.phase with
    | .starting =>
      -- `socket.start` of a closed socket raises
      if conn.isOpen then some (goOn s k conn (greet conn.isOpen random))
      else some (goOn s k conn ([], .error .other))
    | _ => none
  | .line _ line random =>
    -- `readline` gives up on a closed socket only
    if line = none ∧ conn.isOpen then none
    else
      match conn.phase with
      | .clientKey challenge => some (goOn s k conn (exchange conn.isOpen challenge random line))
      | .response challenge secret => some (goOn s k conn ([], checkResponse challenge secret line))
      | .token secret =>
        match readToken secret line with
        | .error e => some (goOn s k conn ([], .error e))
        | .ok token =>
          let (s, acts) := goOn s k conn ([], .ok (.authenticating secret))
          some (s, acts ++ [.authHandler k token])
      | _ => none
  | .authed _ r =>
    match conn.phase with
    | .authenticating secret =>
      some (goOn s k conn ([], .ok (.answered (retPack (.ok (authValues secret r))))))
    | _ => none
  | .resume _ =>
    match conn.phase with
    | .answered a => some (acceptAnswer c s k conn a)
    | _ => none
  | .loggedIn _ r =>
    match conn.phase with
    | .loggingIn uid => some (acceptLogin s k conn uid r)
    | _ => none
  | .hangup _ => some ({ s with conns := s.conns.set k { conn with isOpen := false } }, [])

/-- The connection of an event. -/
def Event.conn : Event → Option ConnId
  | .accept => none
  | .started k _ | .line k _ _ | .authed k _ | .resume k | .loggedIn k _ | .hangup k => some k

/-- One event, if it can happen. -/
def step (c : Conf) (s : State) (e : Event) : Option (State × List Act) :=
  match e.conn with
  | none => some ({ s with
      conns := s.conns.set s.nextConn ⟨.starting, true⟩
      nextConn := s.nextConn + 1 }, [])
  | some k => (s.conns.get k).bind fun conn => onConn c s k conn e

/-- **The login server.** -/
def machine (c : Conf) : Machine State Event Act := ⟨⟨.empty, 0, .empty⟩, step c⟩

/-- A step of the login server. -/
abbrev Item (c : Conf) := (machine c).Item

/-! ## Inverting a step -/

/-- `auth` is not at its end. -/
def Phase.Early : Phase → Prop
  | .answered _ | .loggingIn _ => False
  | _ => True

/-- How a part of `auth` for connection `k` leads to the phase `p`: it goes on, it ends at a line
that fails, or with `auth_handler`, or the socket is closed. -/
inductive Slave (k : ConnId) (conn : Conn) : Event → Phase → Prop
  | started {random : UInt64} {p : Phase} (hpre : conn.phase.Early) (hp : p.Early) :
    Slave k conn (.started k random) p
  | line {line : Bytes} {random : UInt64} {p : Phase} (hpre : conn.phase.Early) (hp : p.Early)
    (hf : conn.phase.fails random line = false) : Slave k conn (.line k (some line) random) p
  | fails {line : Bytes} {random : UInt64} (hpre : conn.phase.Early)
    (hf : conn.phase.fails random line = true) :
    Slave k conn (.line k (some line) random) (.answered ⟨some false, none, none, none⟩)
  | authed {secret : Bytes} {r : AuthReturn} (hpre : conn.phase = .authenticating secret) :
    Slave k conn (.authed k r) (.answered (retPack (.ok (authValues secret r))))
  | closed {e : Event} {r : Raised} (hpre : conn.phase.Early) (h : conn.isOpen = false) :
    Slave k conn e (settle (.error r))

/-- What the slave does for connection `k`. -/
def Act.BySlave (k : ConnId) (a : Act) : Prop :=
  (∃ text, a = .authWrite k text) ∨ ∃ token, a = .authHandler k token

/-- What the login server does with an event. -/
inductive Handled (c : Conf) (s : State) : Event → State → List Act → Prop
  | accept : Handled c s .accept
      { s with conns := s.conns.set s.nextConn ⟨.starting, true⟩, nextConn := s.nextConn + 1 } []
  | hangup {k : ConnId} {conn : Conn} (hk : s.conns.get k = some conn) :
    Handled c s (.hangup k) { s with conns := s.conns.set k { conn with isOpen := false } } []
  | slave {k : ConnId} {conn : Conn} {e : Event} {p : Phase} {acts : List Act}
    (hk : s.conns.get k = some conn) (he : e.conn = some k) (hp : Slave k conn e p)
    (hacts : ∀ a ∈ acts, Act.BySlave k a) :
    Handled c s e { s with conns := s.conns.set k { conn with phase := p } } acts
  | answer {k : ConnId} {conn : Conn} {a : Answer} (hk : s.conns.get k = some conn)
    (hp : conn.phase = .answered a) :
    Handled c s (.resume k) (acceptAnswer c s k conn a).1 (acceptAnswer c s k conn a).2
  | login {k : ConnId} {conn : Conn} {uid : Option Bytes} {r : LoginReturn}
    (hk : s.conns.get k = some conn) (hp : conn.phase = .loggingIn uid) :
    Handled c s (.loggedIn k r) (acceptLogin s k conn uid r).1 (acceptLogin s k conn uid r).2

/-- A part of `auth` that only writes. -/
theorem goOn_handled (c : Conf) {s : State} {k : ConnId} {conn : Conn} {e : Event}
    {r : List Bytes × Except Raised Phase} (hk : s.conns.get k = some conn)
    (he : e.conn = some k) (hp : Slave k conn e (settle r.2)) :
    Handled c s e (goOn s k conn r).1 (goOn s k conn r).2 := by
  refine .slave hk he hp fun a ha => ?_
  obtain ⟨text, -, rfl⟩ := List.mem_map.mp ha
  exact Or.inl ⟨text, rfl⟩

theorem slave_clientKey {k : ConnId} {conn : Conn} {challenge : Bytes} {line : Bytes}
    {random : UInt64} (hp : conn.phase = .clientKey challenge) :
    Slave k conn (.line k (some line) random)
      (settle (exchange conn.isOpen challenge random (some line)).2) := by
  cases ho : conn.isOpen with
  | false =>
    obtain ⟨e, he⟩ := exchange_closed challenge random (some line)
    rw [he]
    exact .closed (by rw [hp]; trivial) ho
  | true =>
    rcases exchange_some challenge random line with ⟨hf, h⟩ | ⟨hf, secret, h⟩
    · rw [h]
      exact .fails (by rw [hp]; trivial) (by rw [hp]; exact hf)
    · rw [h]
      exact .line (by rw [hp]; trivial) trivial (by rw [hp]; exact hf)

theorem slave_response {k : ConnId} {conn : Conn} {challenge secret : Bytes} {line : Bytes}
    {random : UInt64} (hp : conn.phase = .response challenge secret) :
    Slave k conn (.line k (some line) random)
      (settle (checkResponse challenge secret (some line))) := by
  rcases checkResponse_some challenge secret random line with ⟨hf, h⟩ | ⟨hf, h⟩
  · rw [h]
    exact .fails (by rw [hp]; trivial) (by rw [hp]; exact hf)
  · rw [h]
    exact .line (by rw [hp]; trivial) trivial (by rw [hp]; exact hf)

theorem onConn_handled {c : Conf} {s : State} {k : ConnId} {conn : Conn} {e : Event}
    {x : State × List Act} (hk : s.conns.get k = some conn) (he : e.conn = some k)
    (h : onConn c s k conn e = some x) : Handled c s e x.1 x.2 := by
  cases e with
  | accept => exact absurd he (by simp [Event.conn])
  | hangup k' =>
    obtain rfl : k' = k := by simpa [Event.conn] using he
    obtain rfl := Option.some.inj h
    exact .hangup hk
  | started k' random =>
    obtain rfl : k' = k := by simpa [Event.conn] using he
    cases hp : conn.phase with
    | starting =>
      simp only [onConn, hp] at h
      by_cases ho : conn.isOpen = true
      · rw [if_pos ho] at h
        obtain rfl := Option.some.inj h
        refine goOn_handled c hk he (.started (by rw [hp]; trivial) ?_)
        rw [ho]
        trivial
      · rw [if_neg ho] at h
        obtain rfl := Option.some.inj h
        exact goOn_handled c hk he (.closed (by rw [hp]; trivial) (by simpa using ho))
    | _ => exact absurd h (by simp [onConn, hp])
  | line k' l random =>
    obtain rfl : k' = k := by simpa [Event.conn] using he
    simp only [onConn] at h
    split at h
    · exact absurd h (by simp)
    rename_i hopen
    cases l with
    | none =>
      have ho : conn.isOpen = false := by simpa using hopen
      cases hp : conn.phase with
      | token secret =>
        simp only [hp, readToken, Option.some.injEq] at h
        subst h
        exact goOn_handled c hk he (.closed (by rw [hp]; trivial) ho)
      | clientKey challenge =>
        simp only [hp, Option.some.injEq] at h
        subst h
        exact goOn_handled c hk he (.closed (by rw [hp]; trivial) ho)
      | response challenge secret =>
        simp only [hp, Option.some.injEq] at h
        subst h
        exact goOn_handled c hk he (.closed (by rw [hp]; trivial) ho)
      | _ => exact absurd h (by simp [hp])
    | some line =>
      cases hp : conn.phase with
      | clientKey challenge =>
        simp only [hp, Option.some.injEq] at h
        subst h
        exact goOn_handled c hk he (slave_clientKey hp)
      | response challenge secret =>
        simp only [hp, Option.some.injEq] at h
        subst h
        exact goOn_handled c hk he (slave_response hp)
      | token secret =>
        rcases readToken_some secret random line with ⟨hf, ht⟩ | ⟨hf, token, ht⟩
        · simp only [hp, ht, Option.some.injEq] at h
          subst h
          exact goOn_handled c hk he (.fails (by rw [hp]; trivial) (by rw [hp]; exact hf))
        · simp only [hp, ht, Option.some.injEq] at h
          subst h
          refine .slave hk he (.line (by rw [hp]; trivial) trivial (by rw [hp]; exact hf)) ?_
          intro a ha
          exact Or.inr ⟨token, by simpa [goOn] using ha⟩
      | _ => exact absurd h (by simp [hp])
  | authed k' r =>
    obtain rfl : k' = k := by simpa [Event.conn] using he
    cases hp : conn.phase with
    | authenticating secret =>
      simp only [onConn, hp, Option.some.injEq] at h
      subst h
      exact goOn_handled c hk he (.authed hp)
    | _ => exact absurd h (by simp [onConn, hp])
  | resume k' =>
    obtain rfl : k' = k := by simpa [Event.conn] using he
    cases hp : conn.phase with
    | answered a =>
      simp only [onConn, hp, Option.some.injEq] at h
      subst h
      exact .answer hk hp
    | _ => exact absurd h (by simp [onConn, hp])
  | loggedIn k' r =>
    obtain rfl : k' = k := by simpa [Event.conn] using he
    cases hp : conn.phase with
    | loggingIn uid =>
      simp only [onConn, hp, Option.some.injEq] at h
      subst h
      exact .login hk hp
    | _ => exact absurd h (by simp [onConn, hp])

variable {c : Conf}

theorem Item.handled (i : Item c) : Handled c i.pre i.ev i.post i.out := by
  have h : step c i.pre i.ev = some (i.post, i.out) := i.ok
  unfold step at h
  cases hc : i.ev.conn with
  | none =>
    rw [hc] at h
    simp only [Option.some.injEq, Prod.mk.injEq] at h
    rw [← h.1, ← h.2]
    cases hev : i.ev with
    | accept => exact .accept
    | _ =>
      rw [hev] at hc
      exact absurd hc (by simp [Event.conn])
  | some k =>
    rw [hc] at h
    obtain ⟨conn, hk, h⟩ := Option.bind_eq_some_iff.mp h
    exact onConn_handled hk hc h

/-- The connection an action is done for. -/
def Act.conn : Act → ConnId
  | .authWrite k _ | .write k _ | .authHandler k _ | .loginHandler k _ _ _ | .close k => k

theorem conn_of_mem_writeStatus {k : ConnId} {isOpen : Bool} {text : Bytes} {a : Act}
    (h : a ∈ writeStatus k isOpen text) : a.conn = k := by
  unfold writeStatus at h
  split at h
  · rw [List.mem_singleton.mp h]
    rfl
  · exact absurd h (by simp)

theorem conn_of_mem_finish {s : State} {k : ConnId} {acts : List Act} {a : Act}
    (hacts : ∀ a ∈ acts, a.conn = k) (h : a ∈ (finish s k acts).2) : a.conn = k := by
  rcases List.mem_append.mp h with h | h
  · exact hacts a h
  · rw [List.mem_singleton.mp h]
    rfl

theorem conn_of_mem_acceptAnswer {s : State} {k : ConnId} {conn : Conn} {answer : Answer}
    {a : Act} (h : a ∈ (acceptAnswer c s k conn answer).2) : a.conn = k := by
  have hstatus : ∀ text, ∀ a ∈ writeStatus k conn.isOpen text, a.conn = k := fun _ _ =>
    conn_of_mem_writeStatus
  unfold acceptAnswer at h
  split at h
  · split at h
    · exact conn_of_mem_finish (hstatus _) h
    · exact conn_of_mem_finish (by simp) h
  · dsimp only at h
    split at h
    · rw [List.mem_singleton.mp h]
      rfl
    · split at h
      · exact conn_of_mem_finish (by simp) h
      · split at h
        · exact conn_of_mem_finish (hstatus _) h
        · rw [List.mem_singleton.mp h]
          rfl

theorem conn_of_mem_acceptLogin {s : State} {k : ConnId} {conn : Conn} {uid : Option Bytes}
    {r : LoginReturn} {a : Act} (h : a ∈ (acceptLogin s k conn uid r).2) : a.conn = k := by
  cases uid with
  | none => exact conn_of_mem_finish (by simp) h
  | some uid =>
    cases r with
    | returned => exact conn_of_mem_finish (fun _ => conn_of_mem_writeStatus) h
    | raised => exact conn_of_mem_finish (fun _ => conn_of_mem_writeStatus) h

/-- A step acts for the connection of its event. -/
theorem Item.out_conn (i : Item c) {a : Act} (ha : a ∈ i.out) : i.ev.conn = some a.conn := by
  have hh := i.handled
  generalize i.ev = e, i.post = s', i.out = acts at hh ha
  cases hh with
  | accept | hangup => exact absurd ha (by simp)
  | slave hk he hp hacts =>
    rw [he]
    obtain ⟨text, rfl⟩ | ⟨token, rfl⟩ := hacts a ha
    · rfl
    · rfl
  | answer => exact congrArg some (conn_of_mem_acceptAnswer ha).symm
  | login => exact congrArg some (conn_of_mem_acceptLogin ha).symm

end LsServer.LoginGate
