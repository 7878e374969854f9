import LsServer.LoginGate.Lock

/-!
# The reply of the login server

What happens to one connection is its `log`: the line that failed the handshake, how `auth_handler`
and `login_handler` ended, whether another login of the account was in flight, the status lines
written and the close. `Complete` lists the six ways a log can end on an open socket.

`Replied` is the documented protocol: one status line, and which. It fails in one of the six cases:
an `auth_handler` that returns nothing makes `ret_pack` answer `true, nil, nil`, which `accept`
takes for an accepted client, until it raises at `user_login[nil] = true`.

Source: the comment LoginGate.lua 26-33, with the codes 200, 401, 403 and 406; `accept` 116-149.

* A log is about one connection, and only what concerns it: `entries` picks that from a step,
  whatever the other connections do.
* `Accounted`: `login_handler` is called only for the node and the account that `auth_handler` has
  returned, whatever becomes of the socket.
* A client that hangs up is not promised anything. `Complete` is for connections that were open to
  the end.
* 406 is the right line exactly if another login of the account was in flight when the slave
  answered (`observed`).

The end of a log is `closed`, the call of `socket.close` with which `accept` ends.

Results:
* `Run.told`: what the log of a connection holds, which is complete when it has finished;
* `replied_iff`: the protocol is kept exactly if `auth_handler` did not return nothing;
* `unanswered`: a client that gets no status line.

Out of scope: a server with `multilogin`, for which 406 does not occur.
-/

namespace LsServer.LoginGate

open LsServer.Lib LsServer.Lua LsServer.Crypt

/-- What can be seen of one connection. -/
inductive Entry
  | badLine
  | auth (r : AuthReturn)
  | inFlight
  | called (server uid : Option Bytes)
  | login (r : LoginReturn)
  | status (text : Bytes)
  | closed
  deriving DecidableEq

/-- The account named by an answer that `accept` has not looked at. -/
def awaited (s : State) (k : ConnId) : Option Bytes :=
  (s.conns.get k).bind fun conn =>
    match conn.phase with
    | .answered a => a.uid
    | _ => none

/-- What an event tells about connection `k`. -/
def observed (s : State) (k : ConnId) : Event → List Entry
  | .line k' (some line) random =>
    if k' = k ∧ (s.conns.get k).map (·.phase.fails random line) = some true then [.badLine] else []
  | .authed k' r => if k' = k then [.auth r] else []
  | .resume k' =>
    match awaited s k with
    | some uid => if k' = k ∧ inFlight s uid = true then [.inFlight] else []
    | none => []
  | .loggedIn k' r => if k' = k then [.login r] else []
  | _ => []

/-- What an action tells about connection `k`. -/
def Act.entry (k : ConnId) : Act → Option Entry
  | .write k' text => if k' = k then some (.status text) else none
  | .loginHandler k' server uid _ => if k' = k then some (.called server uid) else none
  | .close k' => if k' = k then some .closed else none
  | _ => none

variable {c : Conf}

def Item.entries (k : ConnId) (i : Item c) : List Entry :=
  observed i.pre k i.ev ++ i.out.filterMap (Act.entry k)

/-- The log of connection `k`. -/
def log (k : ConnId) (tr : List (Item c)) : List Entry := tr.flatMap (Item.entries k)

@[simp] theorem log_snoc (k : ConnId) (tr : List (Item c)) (i : Item c) :
    log k (tr ++ [i]) = log k tr ++ Item.entries k i := by
  simp [log]

/-- The log of a connection that was finished on an open socket. -/
inductive Complete : List Entry → Prop
  | badLine : Complete [.badLine, .status status401, .closed]
  | raised : Complete [.auth .raises, .status status401, .closed]
  | nothing : Complete [.auth .nothing, .closed]
  | busy (server uid : Bytes) :
    Complete [.auth (.accepts server uid), .inFlight, .status status406, .closed]
  | failed (server uid : Bytes) :
    Complete [.auth (.accepts server uid), .called (some server) (some uid), .login .raised,
      .status status403, .closed]
  | loggedIn (server uid : Bytes) (result : Option Bytes) :
    Complete [.auth (.accepts server uid), .called (some server) (some uid),
      .login (.returned result), .status (status200 (result.getD [])), .closed]

/-! ## The log of a run -/

/-- The log of a connection in this phase, on an open socket. -/
def Phase.Log (log : List Entry) : Phase → Prop
  | .answered a =>
    log = [.badLine] ∧ a = ⟨some false, none, none, none⟩ ∨
      ∃ secret r, log = [.auth r] ∧ a = retPack (.ok (authValues secret r))
  | .loggingIn uid =>
    ∃ server uid', uid = some uid' ∧
      log = [.auth (.accepts server uid'), .called (some server) (some uid')]
  | _ => log = []

/-- What the run so far says about connection `k`, as long as its socket is open. -/
structure Told (k : ConnId) (tr : List (Item c)) (s : State) : Prop where
  live : ∀ conn, s.conns.get k = some conn → conn.isOpen = true ∧ conn.phase.Log (log k tr)
  done : s.conns.get k = none → k < s.nextConn → Complete (log k tr)
  fresh : s.nextConn ≤ k → log k tr = []

theorem Phase.Early.log_iff {p : Phase} (h : p.Early) {l : List Entry} : p.Log l ↔ l = [] := by
  cases p with
  | answered => exact absurd h id
  | loggingIn => exact absurd h id
  | _ => exact Iff.rfl

theorem Act.entry_of_ne {a : Act} {k : ConnId} (h : a.conn ≠ k) : a.entry k = none := by
  cases a <;> simp_all [Act.entry, Act.conn]

theorem observed_of_ne {s : State} {e : Event} {k : ConnId} (h : e.conn ≠ some k) :
    observed s k e = [] := by
  cases e with
  | line k' l random => cases l <;> simp_all [observed, Event.conn]
  | resume k' =>
    have hne : k' ≠ k := by simpa [Event.conn] using h
    cases ha : awaited s k with
    | none => simp [observed, ha]
    | some uid => simp [observed, ha, hne]
  | _ => simp_all [observed, Event.conn]

theorem filterMap_entry_bySlave {k k' : ConnId} {acts : List Act}
    (h : ∀ a ∈ acts, Act.BySlave k' a) : acts.filterMap (Act.entry k) = [] := by
  rw [List.filterMap_eq_nil_iff]
  intro a ha
  obtain ⟨text, rfl⟩ | ⟨token, rfl⟩ := h a ha
  · rfl
  · rfl

/-- A step of another connection leaves nothing in the log. -/
theorem Item.entries_of_ne (i : Item c) {k : ConnId} (hev : i.ev.conn ≠ some k) :
    Item.entries k i = [] := by
  rw [Item.entries, observed_of_ne hev, List.nil_append, List.filterMap_eq_nil_iff]
  exact fun a ha => Act.entry_of_ne fun hk => hev (hk ▸ i.out_conn ha)

/-- A step of another connection. -/
theorem Item.other (hc : c.multilogin = false) (i : Item c) (hl : Locked i.pre) {k : ConnId}
    (hev : i.ev.conn ≠ some k) (hacc : i.ev = .accept → k ≠ i.pre.nextConn) :
    i.post.conns.get k = i.pre.conns.get k ∧ (i.post.nextConn ≤ k ↔ i.pre.nextConn ≤ k) := by
  have hh := i.handled
  generalize i.ev = e, i.post = s', i.out = acts at hh hev hacc
  cases hh with
  | accept =>
    have hk := hacc rfl
    exact ⟨Table.get_set_ne hk, fun h => Nat.le_of_succ_le h,
      fun h => Nat.lt_of_le_of_ne h (Ne.symm hk)⟩
  | @hangup q conn hq =>
    have hne : q ≠ k := by simpa [Event.conn] using hev
    exact ⟨Table.get_set_ne (Ne.symm hne), Iff.rfl⟩
  | @slave q conn e p acts hq he hp hacts =>
    have hne : q ≠ k := by simpa [he] using hev
    exact ⟨Table.get_set_ne (Ne.symm hne), Iff.rfl⟩
  | @answer q conn a hq hp =>
    have hne : q ≠ k := by simpa [Event.conn] using hev
    have ha := acceptAnswer_accepting hc i.pre q conn a
    generalize acceptAnswer c i.pre q conn a = x at ha
    cases ha with
    | refused | broken | anonymous | busy => exact ⟨Table.get_del_ne (Ne.symm hne), Iff.rfl⟩
    | login => exact ⟨Table.get_set_ne (Ne.symm hne), Iff.rfl⟩
  | @login q conn uid r hq hp =>
    have hne : q ≠ k := by simpa [Event.conn] using hev
    cases uid with
    | none => exact absurd hp (hl.named q conn hq)
    | some uid => cases r <;> exact ⟨Table.get_del_ne (Ne.symm hne), Iff.rfl⟩

/-- The step that ends connection `k`. -/
theorem Told.ended {k : ConnId} {tr : List (Item c)} {i : Item c}
    (hdel : i.post.conns.get k = none) (hnext : k < i.post.nextConn)
    (hlog : Complete (log k tr ++ Item.entries k i)) : Told k (tr ++ [i]) i.post where
  live conn hk := absurd (hdel.symm.trans hk) (by simp)
  done _ _ := by rwa [log_snoc]
  fresh hle := absurd hnext (not_lt.mpr hle)

/-- A step that moves connection `k` to another phase. -/
theorem Told.moved {k : ConnId} {tr : List (Item c)} {i : Item c} (conn : Conn)
    (hset : i.post.conns.get k = some conn) (hnext : k < i.post.nextConn)
    (hopen : conn.isOpen = true) (hlog : conn.phase.Log (log k tr ++ Item.entries k i)) :
    Told k (tr ++ [i]) i.post where
  live conn' hk := by
    obtain rfl := Option.some.inj (hset.symm.trans hk)
    rw [log_snoc]
    exact ⟨hopen, hlog⟩
  done hk := absurd (hset.symm.trans hk) (by simp)
  fresh hle := absurd hnext (not_lt.mpr hle)

/-- A part of `auth` for connection `k`. -/
theorem Told.slave {k : ConnId} {tr : List (Item c)} {i : Item c} {conn : Conn} {p : Phase}
    (hl : Locked i.pre) (h : Told k tr i.pre) (hk : i.pre.conns.get k = some conn)
    (hp : Slave k conn i.ev p) (hacts : ∀ a ∈ i.out, Act.BySlave k a)
    (hpost : i.post = { i.pre with conns := i.pre.conns.set k { conn with phase := p } }) :
    Told k (tr ++ [i]) i.post := by
  obtain ⟨hopen, hlog⟩ := h.live conn hk
  refine Told.moved { conn with phase := p } (by rw [hpost, Table.get_set_self])
    (by rw [hpost]; exact hl.fresh k conn hk) hopen ?_
  unfold Item.entries
  rw [filterMap_entry_bySlave hacts, List.append_nil]
  generalize i.ev = e at hp
  cases hp with
  | started hpre hp =>
    rw [hp.log_iff, hpre.log_iff.mp hlog]
    rfl
  | line hpre hp hf =>
    rw [hp.log_iff, hpre.log_iff.mp hlog]
    simp [observed, hk, hf]
  | fails hpre hf =>
    rw [hpre.log_iff.mp hlog]
    exact Or.inl ⟨by simp [observed, hk, hf], rfl⟩
  | @authed secret r hpre =>
    have hnil : log k tr = [] := by
      rw [hpre] at hlog
      exact hlog
    rw [hnil]
    exact Or.inr ⟨secret, r, by simp [observed], rfl⟩
  | closed _ hclosed => exact absurd (hopen.symm.trans hclosed) (by simp)

/-- The statuses that `finish` leaves in the log. -/
theorem filterMap_finish (s : State) (k : ConnId) (text : Bytes) :
    (finish s k (writeStatus k true text)).2.filterMap (Act.entry k) = [.status text, .closed] := by
  simp [finish, writeStatus, Act.entry]

/-- `accept` after the answer for connection `k`. -/
theorem Told.answer {k : ConnId} {tr : List (Item c)} {i : Item c} {conn : Conn} {a : Answer}
    (hl : Locked i.pre) (h : Told k tr i.pre) (hk : i.pre.conns.get k = some conn)
    (hp : conn.phase = .answered a) (hev : i.ev = .resume k)
    (ha : Accepting i.pre k conn a (i.post, i.out)) : Told k (tr ++ [i]) i.post := by
  obtain ⟨hopen, hlog⟩ := h.live conn hk
  have hlt : k < i.pre.nextConn := hl.fresh k conn hk
  have hawait : awaited i.pre k = a.uid := by simp [awaited, hk, hp]
  have hnone : a.uid = none → observed i.pre k i.ev = [] := by
    intro hu
    simp [hev, observed, hawait, hu]
  rw [hp] at hlog
  have hentries : Item.entries k i = observed i.pre k i.ev ++ i.out.filterMap (Act.entry k) := rfl
  generalize hx : (i.post, i.out) = x at ha
  have hpost : i.post = x.1 := congrArg Prod.fst hx
  have hout : i.out = x.2 := congrArg Prod.snd hx
  rw [hout] at hentries
  have hend : ∀ acts, x = finish i.pre k acts → Complete (log k tr ++ Item.entries k i) →
      Told k (tr ++ [i]) i.post := by
    rintro acts rfl hcomplete
    refine Told.ended ?_ (by rw [hpost]; exact hlt) hcomplete
    rw [hpost]
    exact Table.get_del_self _ _
  cases ha with
  | refused hok =>
    refine hend _ rfl ?_
    rw [hentries, hopen, filterMap_finish]
    rcases hlog with ⟨hlog, rfl⟩ | ⟨secret, r, hlog, rfl⟩
    · rw [hnone rfl, hlog]
      exact .badLine
    · cases r with
      | raises =>
        rw [hnone rfl, hlog]
        exact .raised
      | _ => exact absurd hok (by simp [retPack, authValues])
  | broken hok =>
    rcases hlog with ⟨-, rfl⟩ | ⟨secret, r, -, rfl⟩
    · exact absurd hok (by simp)
    · exact absurd hok (by simp [retPack])
  | anonymous hok hu =>
    refine hend _ rfl ?_
    rw [hentries, hnone hu]
    rcases hlog with ⟨-, rfl⟩ | ⟨secret, r, hlog, rfl⟩
    · exact absurd hok (by simp)
    · cases r with
      | nothing =>
        rw [hlog]
        simpa [finish, Act.entry] using Complete.nothing
      | _ => exact absurd hok (by simp_all [retPack, authValues])
  | @busy uid hok hu hlocked =>
    refine hend _ rfl ?_
    have hobs : observed i.pre k i.ev = [.inFlight] := by
      simp [hev, observed, hawait, hu, hl.inFlight.mpr hlocked]
    rw [hentries, hopen, filterMap_finish, hobs]
    rcases hlog with ⟨-, rfl⟩ | ⟨secret, r, hlog, rfl⟩
    · exact absurd hok (by simp)
    · cases r with
      | accepts server uid =>
        rw [hlog]
        exact .busy server uid
      | _ => exact absurd hu (by simp [retPack, authValues])
  | @login uid hok hu hfree =>
    have hobs : observed i.pre k i.ev = [] := by
      simp [hev, observed, hawait, hu, mt hl.inFlight.mp hfree]
    refine Told.moved { conn with phase := .loggingIn (some uid) } ?_ ?_ hopen ?_
    · rw [hpost]
      exact Table.get_set_self _ _ _
    · rw [hpost]
      exact hlt
    rw [hentries, hobs]
    rcases hlog with ⟨-, rfl⟩ | ⟨secret, r, hlog, rfl⟩
    · exact absurd hok (by simp)
    · cases r with
      | accepts server uid' =>
        obtain rfl : uid' = uid := by simpa [retPack, authValues] using hu
        rw [hlog]
        exact ⟨server, uid', rfl, by simp [Act.entry, retPack, authValues]⟩
      | _ => exact absurd hu (by simp [retPack, authValues])

/-- `accept` after `login_handler` for connection `k`. -/
theorem Told.login {k : ConnId} {tr : List (Item c)} {i : Item c} {conn : Conn}
    {uid : Option Bytes} {r : LoginReturn} (hl : Locked i.pre) (h : Told k tr i.pre)
    (hk : i.pre.conns.get k = some conn) (hp : conn.phase = .loggingIn uid)
    (hev : i.ev = .loggedIn k r)
    (hx : (i.post, i.out) = acceptLogin i.pre k conn uid r) : Told k (tr ++ [i]) i.post := by
  obtain ⟨hopen, hlog⟩ := h.live conn hk
  rw [hp] at hlog
  obtain ⟨server, uid', rfl, hlog⟩ := hlog
  have hentries : Item.entries k i = observed i.pre k i.ev ++ i.out.filterMap (Act.entry k) := rfl
  have hobs : observed i.pre k i.ev = [.login r] := by simp [hev, observed]
  have hout : i.out = (acceptLogin i.pre k conn (some uid') r).2 := congrArg Prod.snd hx
  have hpost : i.post = (acceptLogin i.pre k conn (some uid') r).1 := congrArg Prod.fst hx
  rw [hobs, hout] at hentries
  refine Told.ended ?_ ?_ ?_
  · rw [hpost]
    cases r <;> exact Table.get_del_self _ _
  · rw [hpost]
    cases r <;> exact hl.fresh k conn hk
  · rw [hentries, hlog]
    unfold acceptLogin
    rw [hopen]
    cases r with
    | returned result =>
      rw [filterMap_finish]
      exact .loggedIn server uid' result
    | raised =>
      rw [filterMap_finish]
      exact .failed server uid'

/-- **One step** keeps what the run says about a connection. -/
theorem Told.step (hc : c.multilogin = false) {k : ConnId} {tr : List (Item c)} {i : Item c}
    (hl : Locked i.pre) (h : Told k tr i.pre) (hev : i.ev ≠ .hangup k) :
    Told k (tr ++ [i]) i.post := by
  have hother := i.other hc hl (k := k)
  have hh := i.handled
  by_cases hconn : i.ev.conn = some k
  swap
  · by_cases hacc : i.ev = .accept ∧ k = i.pre.nextConn
    · -- connection `k` is accepted
      obtain ⟨hacc, rfl⟩ := hacc
      have hlog : log i.pre.nextConn tr = [] := h.fresh le_rfl
      rw [hacc] at hh
      generalize hpost : i.post = s', hout : i.out = acts at hh
      cases hh with
      | accept =>
        rw [← hpost]
        refine Told.moved ⟨.starting, true⟩ ?_ ?_ rfl ?_
        · rw [hpost]
          exact Table.get_set_self _ _ _
        · rw [hpost]
          exact Nat.lt_succ_self _
        · simp [Item.entries, hacc, hout, hlog, observed, Phase.Log]
      | slave _ he => exact absurd he (by simp [Event.conn])
    · obtain ⟨hget, hnext⟩ := hother hconn fun h1 h2 => hacc ⟨h1, h2⟩
      have he := i.entries_of_ne hconn
      constructor
      · intro conn hk
        rw [log_snoc, he, List.append_nil]
        exact h.live conn (hget ▸ hk)
      · intro hk hlt
        rw [log_snoc, he, List.append_nil]
        exact h.done (hget ▸ hk) (not_le.mp fun hle => absurd (hnext.mpr hle) (not_le.mpr hlt))
      · intro hle
        rw [log_snoc, he, List.append_nil]
        exact h.fresh (hnext.mp hle)
  · generalize he : i.ev = e, hpost : i.post = s', hout : i.out = acts at hh
    rw [he] at hconn
    rw [← hpost]
    cases hh with
    | accept => exact absurd hconn (by simp [Event.conn])
    | @hangup q conn hq =>
      obtain rfl : q = k := by simpa [Event.conn] using hconn
      exact absurd he hev
    | @slave q conn _ p _ hq hqe hp hacts =>
      obtain rfl : q = k := Option.some.inj (hqe.symm.trans hconn)
      exact h.slave hl hq (he ▸ hp) (hout ▸ hacts) hpost
    | @answer q conn a hq hp =>
      obtain rfl : q = k := by simpa [Event.conn] using hconn
      refine h.answer hl hq hp he ?_
      rw [hpost, hout]
      exact acceptAnswer_accepting hc i.pre q conn a
    | @login q conn uid r hq hp =>
      obtain rfl : q = k := by simpa [Event.conn] using hconn
      exact h.login hl hq hp he (by rw [hpost, hout])

/-- **A finished connection has a complete log.** -/
theorem Run.told (hc : c.multilogin = false) {tr : List (Item c)} {s : State}
    (h : (machine c).Run tr s) {k : ConnId} (hopen : ∀ i ∈ tr, i.ev ≠ .hangup k) :
    Told k tr s := by
  refine Machine.Path.history (J := fun tr s => Told k tr s) h ?_ fun a i b htr hJ => ?_
  · constructor
    · simp [machine]
    · exact fun _ hlt => absurd hlt (Nat.not_lt_zero _)
    · simp [log]
  · subst htr
    exact hJ.step hc (Run.locked hc h.split.1) (hopen i (by simp))

/-! ## Only accepted clients log in -/

/-- `login_handler` is called for the node and account that `auth_handler` returned, whatever
becomes of the socket. -/
structure Accounted (k : ConnId) (tr : List (Item c)) (s : State) : Prop where
  answered : ∀ conn a uid, s.conns.get k = some conn → conn.phase = .answered a →
    a.ok = some true → a.uid = some uid →
    ∃ server, a.server = some server ∧ .auth (.accepts server uid) ∈ log k tr
  called : ∀ server uid, .called server uid ∈ log k tr →
    ∃ server' uid', server = some server' ∧ uid = some uid' ∧
      .auth (.accepts server' uid') ∈ log k tr

theorem Accounted.snoc {k : ConnId} {tr : List (Item c)} {i : Item c} (h : Accounted k tr i.pre)
    (hcalled : ∀ server uid, .called server uid ∈ Item.entries k i →
      ∃ server' uid', server = some server' ∧ uid = some uid' ∧
        .auth (.accepts server' uid') ∈ log k tr)
    (hphase : ∀ conn a uid, i.post.conns.get k = some conn → conn.phase = .answered a →
      a.ok = some true → a.uid = some uid →
      (∃ conn', i.pre.conns.get k = some conn' ∧ conn'.phase = .answered a) ∨
        ∃ server, a.server = some server ∧ .auth (.accepts server uid) ∈ Item.entries k i) :
    Accounted k (tr ++ [i]) i.post where
  answered conn a uid hk hp hok hu := by
    rw [log_snoc]
    rcases hphase conn a uid hk hp hok hu with ⟨conn', hk', hp'⟩ | ⟨server, hs, hmem⟩
    · obtain ⟨server, hs, hmem⟩ := h.answered conn' a uid hk' hp' hok hu
      exact ⟨server, hs, List.mem_append_left _ hmem⟩
    · exact ⟨server, hs, List.mem_append_right _ hmem⟩
  called server uid hmem := by
    rw [log_snoc] at hmem ⊢
    have hold : ∃ server' uid', server = some server' ∧ uid = some uid' ∧
        .auth (.accepts server' uid') ∈ log k tr := by
      rcases List.mem_append.mp hmem with hmem | hmem
      · exact h.called server uid hmem
      · exact hcalled server uid hmem
    obtain ⟨server', uid', h1, h2, h3⟩ := hold
    exact ⟨server', uid', h1, h2, List.mem_append_left _ h3⟩

theorem called_not_observed (s : State) (k : ConnId) (e : Event) (server uid : Option Bytes) :
    .called server uid ∉ observed s k e := by
  unfold observed
  split
  · split <;> simp
  · split <;> simp
  · split
    · split <;> simp
    · simp
  · split <;> simp
  · simp

/-- `finish` calls no handler. -/
theorem called_not_finish {s s' : State} {k q : ConnId} {e : Event}
    {server uid : Option Bytes} {acts : List Act}
    (hacts : (∃ isOpen text, acts = (finish s' q (writeStatus q isOpen text)).2) ∨
      acts = (finish s' q []).2) :
    .called server uid ∉ observed s k e ++ acts.filterMap (Act.entry k) := by
  rw [List.mem_append, not_or]
  refine ⟨called_not_observed s k e server uid, ?_⟩
  rw [List.mem_filterMap]
  rintro ⟨a, ha, hentry⟩
  have hcases : (∃ text, a = .write q text) ∨ a = .close q := by
    rcases hacts with ⟨isOpen, text, rfl⟩ | rfl
    · simp only [finish, List.mem_append, List.mem_singleton] at ha
      rcases ha with ha | ha
      · unfold writeStatus at ha
        split at ha
        · exact Or.inl ⟨text, List.mem_singleton.mp ha⟩
        · exact absurd ha (by simp)
      · exact Or.inr ha
    · exact Or.inr (by simpa [finish] using ha)
  rcases hcases with ⟨text', rfl⟩ | rfl
  · exact absurd hentry (by simp [Act.entry])
  · exact absurd hentry (by simp [Act.entry])

theorem Accounted.step (hc : c.multilogin = false) {k : ConnId} {tr : List (Item c)} {i : Item c}
    (hl : Locked i.pre) (h : Accounted k tr i.pre) : Accounted k (tr ++ [i]) i.post := by
  have hother := i.other hc hl (k := k)
  have hh := i.handled
  -- the end of `accept`
  have hend : ∀ {q : ConnId} {s' : State} {acts : List Act}, q = k →
      i.post = (finish s' q acts).1 →
      (∀ server uid, .called server uid ∉ Item.entries k i) → Accounted k (tr ++ [i]) i.post := by
    rintro q s' acts rfl hpost hcalled
    refine h.snoc (fun server uid hmem => absurd hmem (hcalled server uid)) ?_
    intro conn a uid hk
    rw [hpost] at hk
    exact absurd ((Table.get_del_self _ _).symm.trans hk) (by simp)
  by_cases hconn : i.ev.conn = some k
  swap
  · by_cases hacc : i.ev = .accept ∧ k = i.pre.nextConn
    · obtain ⟨hacc, rfl⟩ := hacc
      rw [hacc] at hh
      generalize hpost : i.post = s', hout : i.out = acts at hh
      cases hh with
      | accept =>
        rw [← hpost]
        refine h.snoc (by simp [Item.entries, hacc, hout, observed]) ?_
        intro conn a uid hk hp
        rw [hpost, Table.get_set_self] at hk
        rw [← Option.some.inj hk] at hp
        exact absurd hp (by simp)
      | slave _ he => exact absurd he (by simp [Event.conn])
    · obtain ⟨hget, -⟩ := hother hconn fun h1 h2 => hacc ⟨h1, h2⟩
      have he := i.entries_of_ne hconn
      exact h.snoc (by simp [he]) fun conn a uid hk hp _ _ => Or.inl ⟨conn, hget ▸ hk, hp⟩
  · have hentries : Item.entries k i = observed i.pre k i.ev ++ i.out.filterMap (Act.entry k) := rfl
    generalize he : i.ev = e, hpost : i.post = s', hout : i.out = acts at hh
    rw [he] at hconn
    rw [hout] at hentries
    rw [← hpost]
    cases hh with
    | accept => exact absurd hconn (by simp [Event.conn])
    | @hangup q conn hq =>
      obtain rfl : q = k := by simpa [Event.conn] using hconn
      refine h.snoc (by simp [hentries, he, observed]) fun conn' a uid hk hp _ _ => ?_
      rw [hpost, Table.get_set_self] at hk
      rw [← Option.some.inj hk] at hp
      exact Or.inl ⟨conn, hq, hp⟩
    | @slave q conn _ p _ hq hqe hp hacts =>
      obtain rfl : q = k := Option.some.inj (hqe.symm.trans hconn)
      rw [filterMap_entry_bySlave hacts, List.append_nil] at hentries
      refine h.snoc ?_ ?_
      · intro server uid hmem
        rw [hentries] at hmem
        exact absurd hmem (called_not_observed _ _ _ _ _)
      · intro conn' a uid hk hp' hok hu
        rw [hpost, Table.get_set_self] at hk
        rw [← Option.some.inj hk] at hp'
        obtain rfl : p = .answered a := hp'
        right
        rw [hentries, he]
        generalize hpa : Phase.answered a = p' at hp
        cases hp with
        | started _ hearly => exact absurd hearly (by rw [← hpa]; exact id)
        | line _ hearly => exact absurd hearly (by rw [← hpa]; exact id)
        | fails =>
          obtain rfl := Phase.answered.inj hpa
          exact absurd hok (by simp)
        | @authed secret r =>
          obtain rfl := Phase.answered.inj hpa
          cases r with
          | accepts server uid' =>
            obtain rfl : uid' = uid := by simpa [retPack, authValues] using hu
            exact ⟨server, rfl, by simp [observed]⟩
          | _ => exact absurd hu (by simp [retPack, authValues])
        | @closed _ r =>
          obtain rfl := Phase.answered.inj hpa
          cases r <;> exact absurd hok (by simp [retPack])
    | @answer q conn a hq hp =>
      obtain rfl : q = k := by simpa [Event.conn] using hconn
      have ha := acceptAnswer_accepting hc i.pre q conn a
      generalize hx : acceptAnswer c i.pre q conn a = x at ha
      rw [hx] at hpost hentries
      cases ha with
      | refused =>
        exact hend rfl hpost fun server uid => hentries ▸ called_not_finish (Or.inl ⟨_, _, rfl⟩)
      | broken =>
        exact hend rfl hpost fun server uid =>
          hentries ▸ called_not_finish (Or.inr rfl)
      | anonymous =>
        exact hend rfl hpost fun server uid =>
          hentries ▸ called_not_finish (Or.inr rfl)
      | busy =>
        exact hend rfl hpost fun server uid => hentries ▸ called_not_finish (Or.inl ⟨_, _, rfl⟩)
      | @login uid hok hu =>
        obtain ⟨server, hserver, hmem⟩ := h.answered conn a uid hq hp hok hu
        refine h.snoc ?_ ?_
        · intro server' uid' hmem'
          rw [hentries, List.mem_append] at hmem'
          rcases hmem' with hmem' | hmem'
          · exact absurd hmem' (called_not_observed _ _ _ _ _)
          · obtain ⟨rfl, rfl⟩ : server' = a.server ∧ uid' = some uid := by
              simpa [Act.entry] using hmem'
            exact ⟨server, uid, hserver, rfl, hmem⟩
        · intro conn' a' uid' hk hp'
          rw [hpost, Table.get_set_self] at hk
          rw [← Option.some.inj hk] at hp'
          exact absurd hp' (by simp)
    | @login q conn uid r hq hp =>
      obtain rfl : q = k := by simpa [Event.conn] using hconn
      cases uid with
      | none => exact absurd hp (hl.named q conn hq)
      | some uid =>
        cases r with
        | returned err =>
          exact hend rfl hpost fun server uid => hentries ▸ called_not_finish (Or.inl ⟨_, _, rfl⟩)
        | raised =>
          exact hend rfl hpost fun server uid => hentries ▸ called_not_finish (Or.inl ⟨_, _, rfl⟩)

theorem Run.accounted (hc : c.multilogin = false) {tr : List (Item c)} {s : State}
    (h : (machine c).Run tr s) (k : ConnId) : Accounted k tr s := by
  refine Machine.Run.history (J := fun tr s => Accounted k tr s) ?_ (fun tr i hrun hJ => ?_) h
  · constructor
    · simp [machine]
    · simp [log]
  · exact hJ.step hc (Run.locked hc hrun)

/-! ## The reply protocol -/

/-- The documented replies, for the log of a finished connection: one status line, before the
close, and which one. -/
structure Replied (l : List Entry) : Prop where
  one : ∃ pre text, l = pre ++ [.status text, .closed] ∧ ∀ text', .status text' ∉ pre
  unauthorized : .status status401 ∈ l ↔
    .badLine ∈ l ∨ .auth .raises ∈ l ∨ .auth .nothing ∈ l
  notAcceptable : .status status406 ∈ l ↔ .inFlight ∈ l
  forbidden : .status status403 ∈ l ↔ .login .raised ∈ l
  ok : ∀ err, .status (status200 err) ∈ l ↔
    ∃ result, .login (.returned result) ∈ l ∧ result.getD [] = err

theorem status200_injective {a b : Bytes} (h : status200 a = status200 b) : a = b := by
  unfold status200 at h
  rw [List.append_assoc, List.append_assoc] at h
  exact base64encode_injective (List.append_cancel_right (List.append_cancel_left h))

theorem status_ne_status200 {text : Bytes} (h : text.head? ≠ some 50) (err : Bytes) :
    text ≠ status200 err := by
  rintro rfl
  exact h rfl

/-- **Of the complete logs all but one keep the protocol.** -/
theorem Complete.replied {l : List Entry} (h : Complete l) :
    Replied l ↔ .auth .nothing ∉ l := by
  have h401 : ∀ err, status401 ≠ status200 err := status_ne_status200 (by decide)
  have h403 : ∀ err, status403 ≠ status200 err := status_ne_status200 (by decide)
  have h406 : ∀ err, status406 ≠ status200 err := status_ne_status200 (by decide)
  have h12 : status401 ≠ status403 := by decide
  have h13 : status401 ≠ status406 := by decide
  have h23 : status403 ≠ status406 := by decide
  cases h with
  | badLine =>
    refine iff_of_true ⟨⟨[.badLine], _, rfl, by simp⟩, by simp, ?_, ?_, ?_⟩ (by simp)
    · simp [h13.symm]
    · simp [h12.symm]
    · simp [Ne.symm (h401 _)]
  | raised =>
    refine iff_of_true ⟨⟨[.auth .raises], _, rfl, by simp⟩, by simp, ?_, ?_, ?_⟩ (by simp)
    · simp [h13.symm]
    · simp [h12.symm]
    · simp [Ne.symm (h401 _)]
  | nothing =>
    refine iff_of_false (fun hr => ?_) (by simp)
    exact absurd (hr.unauthorized.mpr (by simp)) (by simp)
  | busy server uid =>
    refine iff_of_true ⟨⟨[.auth (.accepts server uid), .inFlight], _, rfl, by simp⟩, ?_, ?_, ?_, ?_⟩
      (by simp)
    · simp [h13]
    · simp
    · simp [h23]
    · simp [Ne.symm (h406 _)]
  | failed server uid =>
    refine iff_of_true ⟨⟨[.auth (.accepts server uid), .called _ _, .login .raised], _, rfl,
      by simp⟩, ?_, ?_, ?_, ?_⟩ (by simp)
    · simp [h12]
    · simp [h23.symm]
    · simp
    · simp [Ne.symm (h403 _)]
  | loggedIn server uid result =>
    refine iff_of_true ⟨⟨[.auth (.accepts server uid), .called _ _, .login (.returned result)], _,
      rfl, by simp⟩, ?_, ?_, ?_, ?_⟩ (by simp)
    · simp [h401]
    · simp [h406]
    · simp [h403]
    · intro err
      simp only [List.mem_cons, Entry.status.injEq, reduceCtorEq, List.not_mem_nil, or_false,
        false_or, Entry.login.injEq, LoginReturn.returned.injEq, exists_eq_left]
      exact ⟨fun he => (status200_injective he).symm, fun he => by rw [he]⟩

/-- **When the login server replies as documented.** `login_handler` is called for accepted clients
only, and a connection that finished on an open socket got its one status line exactly if
`auth_handler` did not return nothing. -/
theorem replied_iff (hc : c.multilogin = false) {tr : List (Item c)} {s : State}
    (h : (machine c).Run tr s) (k : ConnId) :
    (∀ server uid, .called server uid ∈ log k tr → ∃ server' uid', server = some server' ∧
      uid = some uid' ∧ .auth (.accepts server' uid') ∈ log k tr) ∧
    ((∀ i ∈ tr, i.ev ≠ .hangup k) → k < s.nextConn → s.conns.get k = none →
      (Replied (log k tr) ↔ .auth .nothing ∉ log k tr)) :=
  ⟨(Run.accounted hc h k).called, fun hopen hlt hdone =>
    ((Run.told hc h hopen).done hdone hlt).replied⟩

/-! ## Two clients -/

/-- `auth_handler` returns nothing, as for a node that does not exist. -/
def refusedClient : List Event := dialogue 0 ++ [.authed 0 .nothing, .resume 0]

/-- `auth_handler` raises. -/
def raisedClient : List Event := dialogue 0 ++ [.authed 0 .raises, .resume 0]

theorem refusedClient_run : ∃ (tr : List (Item {})) (s : State), (machine {}).Run tr s ∧
    tr.map (·.ev) = refusedClient ∧ s.nextConn = 1 ∧ s.conns.get 0 = none ∧
      log 0 tr = [.auth .nothing, .closed] := by
  have h : ((machine {}).items (machine {}).init refusedClient).map (fun tr =>
      decide (tr.map (·.ev) = refusedClient ∧ (Machine.last (machine {}).init tr).nextConn = 1 ∧
        (Machine.last (machine {}).init tr).conns.get 0 = none ∧
        log 0 tr = [.auth .nothing, .closed])) = some true := by
    decide +kernel
  obtain ⟨tr, hrun, hP⟩ := Machine.exists_run h
  exact ⟨tr, _, hrun, of_decide_eq_true hP⟩

/-- **A client that `auth_handler` refuses gets no status line.** -/
theorem unanswered : ∃ (tr : List (Item {})) (s : State), (machine {}).Run tr s ∧
    tr.map (·.ev) = refusedClient ∧ s.conns.get 0 = none ∧ (∀ i ∈ tr, i.ev ≠ .hangup 0) ∧
      (∀ text, .status text ∉ log 0 tr) ∧ ¬ Replied (log 0 tr) := by
  obtain ⟨tr, s, hrun, hev, -, hdone, hlog⟩ := refusedClient_run
  refine ⟨tr, s, hrun, hev, hdone, fun i hi hup => ?_, by simp [hlog], fun hr => ?_⟩
  · have hmem : Event.hangup 0 ∈ refusedClient := hev ▸ hup ▸ List.mem_map_of_mem hi
    exact absurd hmem (by decide)
  · rw [hlog] at hr
    exact absurd (hr.unauthorized.mpr (by simp)) (by simp)

theorem replied_iff_raisedClient : ∃ (tr : List (Item {})) (s : State), (machine {}).Run tr s ∧
    tr.map (·.ev) = raisedClient ∧ log 0 tr = [.auth .raises, .status status401, .closed] ∧
      (Replied (log 0 tr) ↔ .auth .nothing ∉ log 0 tr) := by
  have h : ((machine {}).items (machine {}).init raisedClient).map (fun tr =>
      decide (tr.map (·.ev) = raisedClient ∧ (Machine.last (machine {}).init tr).nextConn = 1 ∧
        (Machine.last (machine {}).init tr).conns.get 0 = none ∧
        log 0 tr = [.auth .raises, .status status401, .closed])) = some true := by
    decide +kernel
  obtain ⟨tr, hrun, hP⟩ := Machine.exists_run h
  obtain ⟨hev, hnext, hdone, hlog⟩ := of_decide_eq_true hP
  refine ⟨tr, _, hrun, hev, hlog, (replied_iff rfl hrun 0).2 (fun i hi hup => ?_)
    (by rw [hnext]; decide) hdone⟩
  have hmem : Event.hangup 0 ∈ raisedClient := hev ▸ hup ▸ List.mem_map_of_mem hi
  exact absurd hmem (by decide)

end LsServer.LoginGate
