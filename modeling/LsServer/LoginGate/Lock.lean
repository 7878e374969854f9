import LsServer.LoginGate.Accept

/-!
# The lock of an account

`user_login` holds exactly the accounts with a `login_handler` in flight, and each of them has one
(`Locked`, `Run.locked`). The results are for a server that does not set `multilogin`, as `Logind`.

`Accepting` lists the ways `accept` can go on after the answer of the slave.

* `Locked.locked` says both directions: an account in `user_login` has a connection that waits for
  its `login_handler`, and the other way round.
* `Locked.unique` says that this is one connection. It is what keeps the release right:
  `user_login[uid] = nil` deletes the entry without asking whose it is.
* A connection whose client hangs up keeps its lock until `login_handler` has ended, since its
  coroutine waits for that.

An invariant alone would allow a server that takes and releases the lock in one step.
`Item.LockStep` is what it leaves out: a `login_handler` is called only where the lock was free,
only its end releases it, and each end does, whether it returns or raises, and whether the reply can
be written or not.

Results:
* `Item.lockStep`: only a free lock is taken, and only its holder gives it back, on every exit;
* `userLogin_lock`: in every run `user_login[uid]` is set exactly while one connection waits for
  the `login_handler` of `uid`.
-/

namespace LsServer.LoginGate

open LsServer.Lib LsServer.Lua LsServer.Crypt

variable {c : Conf}

/-- A `login_handler` for `uid` is in flight. -/
def inFlight (s : State) (uid : Bytes) : Bool :=
  s.conns.entries.any fun e => e.2.phase = .loggingIn (some uid)

theorem inFlight_iff {s : State} {uid : Bytes} : inFlight s uid = true ↔
    ∃ k conn, s.conns.get k = some conn ∧ conn.phase = .loggingIn (some uid) := by
  unfold inFlight
  rw [List.any_eq_true]
  constructor
  · rintro ⟨⟨k, conn⟩, he, hp⟩
    exact ⟨k, conn, Table.mem_entries.mp he, by simpa using hp⟩
  · rintro ⟨k, conn, hk, hp⟩
    exact ⟨(k, conn), Table.mem_entries.mpr hk, by simpa using hp⟩

/-- Connection `k` waits for a `login_handler` for `uid`. -/
def LoggingIn (s : State) (k : ConnId) (uid : Bytes) : Prop :=
  ∃ conn, s.conns.get k = some conn ∧ conn.phase = .loggingIn (some uid)

/-- `user_login` holds the accounts with a `login_handler` in flight, which is one for each. -/
structure Locked (s : State) : Prop where
  fresh : ∀ k conn, s.conns.get k = some conn → k < s.nextConn
  named : ∀ k conn, s.conns.get k = some conn → conn.phase ≠ .loggingIn none
  locked : ∀ uid, s.userLogin.get uid = some true ↔ ∃ k, LoggingIn s k uid
  unique : ∀ k k' uid, LoggingIn s k uid → LoggingIn s k' uid → k = k'

/-- A step that moves connection `k`, which is in no login before and after it, keeps the lock. -/
theorem Locked.of_other {s s' : State} (h : Locked s) {k : ConnId}
    (hother : ∀ q, q ≠ k → s'.conns.get q = s.conns.get q)
    (hnext : s.nextConn ≤ s'.nextConn) (hk : k < s'.nextConn)
    (hpre : ∀ uid, ¬ LoggingIn s k uid)
    (hpost : ∀ conn, s'.conns.get k = some conn → ∀ uid, conn.phase ≠ .loggingIn uid)
    (huser : s'.userLogin = s.userLogin) : Locked s' := by
  have hsame : ∀ q uid, LoggingIn s' q uid ↔ LoggingIn s q uid := by
    intro q uid
    by_cases hq : q = k
    · subst hq
      exact iff_of_false (fun ⟨conn, hc, hp⟩ => hpost conn hc _ hp) (hpre uid)
    · unfold LoggingIn
      rw [hother q hq]
  constructor
  · intro q conn hq
    by_cases hqk : q = k
    · exact hqk ▸ hk
    · exact lt_of_lt_of_le (h.fresh q conn (hother q hqk ▸ hq)) hnext
  · intro q conn hq
    by_cases hqk : q = k
    · subst hqk
      exact hpost conn hq none
    · exact h.named q conn (hother q hqk ▸ hq)
  · intro uid
    rw [huser, h.locked]
    exact exists_congr fun q => (hsame q uid).symm
  · intro q q' uid hq hq'
    exact h.unique q q' uid ((hsame q uid).mp hq) ((hsame q' uid).mp hq')

theorem not_loggingIn_of_phase {s : State} {k : ConnId} {conn : Conn}
    (hk : s.conns.get k = some conn) (hp : ∀ uid, conn.phase ≠ .loggingIn uid) (uid : Bytes) :
    ¬ LoggingIn s k uid := by
  rintro ⟨conn', hk', hp'⟩
  obtain rfl := Option.some.inj (hk.symm.trans hk')
  exact hp _ hp'

theorem Locked.ended {s : State} (h : Locked s) {k : ConnId} {conn : Conn}
    (hk : s.conns.get k = some conn) (hp : ∀ uid, conn.phase ≠ .loggingIn uid) (acts : List Act) :
    Locked (finish s k acts).1 :=
  h.of_other (k := k) (fun q hq => Table.get_del_ne hq) le_rfl (h.fresh k conn hk)
    (not_loggingIn_of_phase hk hp) (by simp [finish]) rfl

/-- The socket of a connection closes; its phase stays. -/
theorem Locked.hangup {s : State} (h : Locked s) {k : ConnId} {conn : Conn}
    (hk : s.conns.get k = some conn) :
    Locked { s with conns := s.conns.set k { conn with isOpen := false } } := by
  have hsame : ∀ q uid, LoggingIn
      { s with conns := s.conns.set k { conn with isOpen := false } } q uid ↔
        LoggingIn s q uid := by
    intro q uid
    unfold LoggingIn
    by_cases hq : q = k
    · subst hq
      simp [hk]
    · simp [Table.get_set_ne hq]
  constructor
  · intro q conn' hq
    by_cases hqk : q = k
    · exact hqk ▸ h.fresh k conn hk
    · exact h.fresh q conn' (by rwa [Table.get_set_ne hqk] at hq)
  · intro q conn' hq
    by_cases hqk : q = k
    · subst hqk
      rw [Table.get_set_self] at hq
      rw [← Option.some.inj hq]
      exact h.named q conn hk
    · exact h.named q conn' (by rwa [Table.get_set_ne hqk] at hq)
  · exact fun uid => (h.locked uid).trans (exists_congr fun q => (hsame q uid).symm)
  · exact fun q q' uid hq hq' => h.unique q q' uid ((hsame q uid).mp hq) ((hsame q' uid).mp hq')

/-- **The lock is taken** where nobody has it. -/
theorem Locked.lock {s : State} (h : Locked s) {k : ConnId} {conn : Conn}
    (hk : s.conns.get k = some conn) (hnot : ∀ uid, conn.phase ≠ .loggingIn uid) {uid : Bytes}
    (hl : s.userLogin.get uid ≠ some true) : Locked { s with
      conns := s.conns.set k { conn with phase := .loggingIn (some uid) }
      userLogin := s.userLogin.set uid true } := by
  have hfree : ∀ q, ¬ LoggingIn s q uid := fun q hq => hl ((h.locked uid).mpr ⟨q, hq⟩)
  have hsame : ∀ q v, LoggingIn
      { s with
        conns := s.conns.set k { conn with phase := .loggingIn (some uid) }
        userLogin := s.userLogin.set uid true } q v ↔
      LoggingIn s q v ∨ q = k ∧ v = uid := by
    intro q v
    unfold LoggingIn
    by_cases hq : q = k
    · subst hq
      simp only [Table.get_set_self, Option.some.injEq, exists_eq_left', Phase.loggingIn.injEq,
        true_and]
      constructor
      · exact fun hv => Or.inr hv.symm
      · rintro (⟨conn', hk', hp'⟩ | rfl)
        · exact absurd ⟨conn', hk', hp'⟩ (not_loggingIn_of_phase hk hnot v)
        · rfl
    · simp [Table.get_set_ne hq, hq]
  constructor
  · intro q conn' hq
    by_cases hqk : q = k
    · exact hqk ▸ h.fresh k conn hk
    · exact h.fresh q conn' (by rwa [Table.get_set_ne hqk] at hq)
  · intro q conn' hq
    by_cases hqk : q = k
    · subst hqk
      rw [Table.get_set_self] at hq
      rw [← Option.some.inj hq]
      simp
    · exact h.named q conn' (by rwa [Table.get_set_ne hqk] at hq)
  · intro v
    by_cases hv : v = uid
    · subst hv
      simp [hsame]
    · simp only [Table.get_set_ne hv, hsame, hv, and_false, or_false]
      exact h.locked v
  · intro q q' v hq hq'
    rcases (hsame q v).mp hq with h1 | ⟨h1, hv⟩
    · rcases (hsame q' v).mp hq' with h2 | ⟨-, hv⟩
      · exact h.unique q q' v h1 h2
      · exact absurd (hv ▸ h1) (hfree q)
    · rcases (hsame q' v).mp hq' with h2 | ⟨h2, -⟩
      · exact absurd (hv ▸ h2) (hfree q')
      · exact h1.trans h2.symm

/-- **The lock is released** by the connection that has it. -/
theorem Locked.unlock {s : State} (h : Locked s) {k : ConnId} {conn : Conn} {uid : Bytes}
    (hk : s.conns.get k = some conn) (hp : conn.phase = .loggingIn (some uid)) (acts : List Act) :
    Locked (finish { s with userLogin := s.userLogin.del uid } k acts).1 := by
  have hkin : LoggingIn s k uid := ⟨conn, hk, hp⟩
  have hsame : ∀ q v, LoggingIn (finish { s with userLogin := s.userLogin.del uid } k acts).1 q v ↔
      LoggingIn s q v ∧ q ≠ k := by
    intro q v
    unfold LoggingIn finish
    by_cases hq : q = k
    · subst hq
      simp
    · simp [Table.get_del_ne hq, hq]
  constructor
  · exact fun q conn' hq => h.fresh q conn' (Table.get_of_get_del hq).2
  · exact fun q conn' hq => h.named q conn' (Table.get_of_get_del hq).2
  · intro v
    change (s.userLogin.del uid).get v = some true ↔ _
    by_cases hv : v = uid
    · subst hv
      simp only [Table.get_del_self, reduceCtorEq, false_iff, not_exists]
      exact fun q hq => ((hsame q v).mp hq).2 (h.unique q k v ((hsame q v).mp hq).1 hkin)
    · rw [Table.get_del_ne hv, h.locked]
      refine exists_congr fun q => ⟨fun hq => (hsame q v).mpr ⟨hq, ?_⟩,
        fun hq => ((hsame q v).mp hq).1⟩
      rintro rfl
      obtain ⟨conn', hk', hp'⟩ := hq
      obtain rfl := Option.some.inj (hk.symm.trans hk')
      rw [hp] at hp'
      exact hv (Option.some.inj (Phase.loggingIn.inj hp')).symm
  · exact fun q q' v hq hq' => h.unique q q' v ((hsame q v).mp hq).1 ((hsame q' v).mp hq').1

/-- How `accept` goes on after an answer. -/
inductive Accepting (s : State) (k : ConnId) (conn : Conn) : Answer → State × List Act → Prop
  | refused {a : Answer} (h : a.ok = some false) :
    Accepting s k conn a (finish s k (writeStatus k conn.isOpen status401))
  | broken {a : Answer} (h : a.ok = none) : Accepting s k conn a (finish s k [])
  | anonymous {a : Answer} (h : a.ok = some true) (hu : a.uid = none) :
    Accepting s k conn a (finish s k [])
  | busy {a : Answer} {uid : Bytes} (h : a.ok = some true) (hu : a.uid = some uid)
    (hl : s.userLogin.get uid = some true) :
    Accepting s k conn a (finish s k (writeStatus k conn.isOpen status406))
  | login {a : Answer} {uid : Bytes} (h : a.ok = some true) (hu : a.uid = some uid)
    (hl : s.userLogin.get uid ≠ some true) :
    Accepting s k conn a
      ({ s with
          conns := s.conns.set k { conn with phase := .loggingIn (some uid) }
          userLogin := s.userLogin.set uid true },
        [.loginHandler k a.server (some uid) a.secret])

theorem acceptAnswer_accepting (hc : c.multilogin = false) (s : State) (k : ConnId) (conn : Conn)
    (a : Answer) : Accepting s k conn a (acceptAnswer c s k conn a) := by
  unfold acceptAnswer
  match hok : a.ok with
  | none => simpa using Accepting.broken hok
  | some false => simpa using Accepting.refused hok
  | some true =>
    simp only [hc, ne_eq, not_true_eq_false, if_false, Bool.false_eq_true]
    cases hu : a.uid with
    | none => exact .anonymous hok hu
    | some uid =>
      by_cases hl : s.userLogin.get uid = some true
      · simp only [hl, if_true]
        exact .busy hok hu hl
      · simp only [hl, if_false]
        exact .login hok hu hl

theorem Item.locked (hc : c.multilogin = false) (i : Item c) (h : Locked i.pre) :
    Locked i.post := by
  have hh := i.handled
  generalize i.ev = e, i.post = s', i.out = acts at hh
  cases hh with
  | accept =>
    refine h.of_other (k := i.pre.nextConn) (fun q hq => Table.get_set_ne hq) (Nat.le_succ _)
      (Nat.lt_succ_self _) ?_ ?_ rfl
    · rintro uid ⟨conn, hk, -⟩
      exact absurd (h.fresh _ conn hk) (Nat.lt_irrefl _)
    · intro conn hk uid
      rw [Table.get_set_self] at hk
      rw [← Option.some.inj hk]
      simp
  | hangup hk => exact h.hangup hk
  | @slave k conn e p acts hk he hp hacts =>
    have hphase : (∀ uid, conn.phase ≠ .loggingIn uid) ∧ ∀ uid, p ≠ .loggingIn uid := by
      have hearly : ∀ q : Phase, q.Early → ∀ uid, q ≠ .loggingIn uid := by
        rintro q hq uid rfl
        exact hq
      cases hp with
      | started hpre hp => exact ⟨hearly _ hpre, hearly _ hp⟩
      | line hpre hp => exact ⟨hearly _ hpre, hearly _ hp⟩
      | fails hpre => exact ⟨hearly _ hpre, by simp⟩
      | authed hpre => exact ⟨by simp [hpre], by simp⟩
      | closed hpre => exact ⟨hearly _ hpre, by simp [settle]⟩
    refine h.of_other (k := k) (fun q hq => Table.get_set_ne hq) le_rfl (h.fresh k conn hk)
      (not_loggingIn_of_phase hk hphase.1) ?_ rfl
    intro conn' hk' uid
    rw [Table.get_set_self] at hk'
    rw [← Option.some.inj hk']
    exact hphase.2 uid
  | @answer k conn a hk hp =>
    have hnot : ∀ uid, conn.phase ≠ .loggingIn uid := by simp [hp]
    have ha := acceptAnswer_accepting hc i.pre k conn a
    generalize acceptAnswer c i.pre k conn a = x at ha
    cases ha with
    | refused => exact h.ended hk hnot _
    | broken => exact h.ended hk hnot _
    | anonymous => exact h.ended hk hnot _
    | busy => exact h.ended hk hnot _
    | login _ _ hl => exact h.lock hk hnot hl
  | @login k conn uid r hk hp =>
    cases uid with
    | none => exact absurd hp (h.named k conn hk)
    | some uid => cases r <;> exact h.unlock hk hp _

theorem Run.locked (hc : c.multilogin = false) {tr : List (Item c)} {s : State}
    (h : (machine c).Run tr s) : Locked s := by
  refine Machine.Run.invariant ?_ (fun i hi => Item.locked hc i hi) h
  constructor
  · simp [machine]
  · simp [machine]
  · simp [machine, LoggingIn]
  · rintro k k' uid ⟨conn, hk, -⟩
    exact absurd hk (by simp [machine])

/-- The accounts with a login in flight, in every state of every run. -/
theorem Locked.inFlight {s : State} (h : Locked s) {uid : Bytes} :
    LoginGate.inFlight s uid = true ↔ s.userLogin.get uid = some true := by
  rw [h.locked, inFlight_iff]
  exact Iff.rfl

/-! ## Taking and giving back the lock -/

/-- What a step does to the lock of `uid`: `login_handler` is called with a free lock, which is
taken; the holder alone gives it back; and its connection gives it back however `login_handler`
ends. -/
structure Item.LockStep (i : Item c) (uid : Bytes) : Prop where
  acquire : ∀ k server secret, .loginHandler k server (some uid) secret ∈ i.out →
    i.pre.userLogin.get uid ≠ some true ∧ i.post.userLogin.get uid = some true ∧
      LoggingIn i.post k uid
  release : i.pre.userLogin.get uid = some true → i.post.userLogin.get uid ≠ some true →
    ∃ k r, i.ev = .loggedIn k r ∧ LoggingIn i.pre k uid
  ends : ∀ k r, i.ev = .loggedIn k r → LoggingIn i.pre k uid →
    i.post.userLogin.get uid ≠ some true ∧ i.post.conns.get k = none

/-- A step that calls no `login_handler`, is not the end of one and leaves `user_login` alone. -/
theorem Item.LockStep.of_quiet {i : Item c} {uid : Bytes}
    (hout : ∀ k server secret, .loginHandler k server (some uid) secret ∉ i.out)
    (huser : i.post.userLogin = i.pre.userLogin)
    (hev : ∀ k r, i.ev = .loggedIn k r → ¬ LoggingIn i.pre k uid) : i.LockStep uid where
  acquire k server secret h := absurd h (hout k server secret)
  release hpre hpost := absurd (huser ▸ hpre) hpost
  ends k r h hk := absurd hk (hev k r h)

/-- The actions of an `accept` that ends without calling `login_handler`. -/
theorem loginHandler_not_mem_finish {s : State} {k q : ConnId} {b : Bool} {text : Bytes}
    {server uid secret : Option Bytes} :
    .loginHandler q server uid secret ∉ (finish s k (writeStatus k b text)).2 := by
  unfold finish writeStatus
  cases b <;> simp

theorem Item.lockStep (hc : c.multilogin = false) (i : Item c) (h : Locked i.pre) (uid : Bytes) :
    i.LockStep uid := by
  have hh := i.handled
  generalize hev : i.ev = e, hpost : i.post = s', hout : i.out = acts at hh
  cases hh with
  | accept => exact .of_quiet (by simp [hout]) (by rw [hpost]) (by simp [hev])
  | hangup => exact .of_quiet (by simp [hout]) (by rw [hpost]) (by simp [hev])
  | @slave k conn e p acts hk he hp hacts =>
    refine .of_quiet (fun q server secret hq => ?_) (by rw [hpost]) fun q r hr => ?_
    · rw [hout] at hq
      rcases hacts _ hq with ⟨text, hx⟩ | ⟨token, hx⟩ <;> exact absurd hx (by simp)
    · rw [hev] at hr
      subst hr
      obtain rfl : q = k := by simpa [Event.conn] using he
      cases hp with
      | closed hpre =>
        refine not_loggingIn_of_phase hk (fun v hv => ?_) uid
        rw [hv] at hpre
        exact hpre
  | @answer k conn a hk hp =>
    have ha := acceptAnswer_accepting hc i.pre k conn a
    generalize acceptAnswer c i.pre k conn a = x at ha hpost hout
    have hquiet : ∀ k' text b, i.post.userLogin = i.pre.userLogin →
        i.out = (finish i.pre k' (writeStatus k' b text)).2 → i.LockStep uid :=
      fun k' text b huser ho => .of_quiet
        (fun q server secret hq => loginHandler_not_mem_finish (ho ▸ hq)) huser (by simp [hev])
    cases ha with
    | refused => exact hquiet k status401 conn.isOpen (by rw [hpost]; rfl) hout
    | busy => exact hquiet k status406 conn.isOpen (by rw [hpost]; rfl) hout
    | broken => exact hquiet k [] false (by rw [hpost]; rfl) hout
    | anonymous => exact hquiet k [] false (by rw [hpost]; rfl) hout
    | @login v hok hv hl =>
      constructor
      · intro q server secret hq
        rw [hout] at hq
        obtain ⟨rfl, -, rfl, -⟩ : q = k ∧ server = a.server ∧ uid = v ∧ secret = a.secret := by
          simpa using hq
        rw [hpost]
        exact ⟨hl, Table.get_set_self _ _ _, _, Table.get_set_self _ _ _, rfl⟩
      · intro hpre hfree
        rw [hpost] at hfree
        by_cases huv : uid = v
        · exact absurd (huv ▸ Table.get_set_self _ _ _) hfree
        · exact absurd ((Table.get_set_ne huv).trans hpre) hfree
      · exact fun q r hq => absurd (hev.symm.trans hq) (by simp)
  | @login k conn v r hk hp =>
    cases v with
    | none => exact absurd hp (h.named k conn hk)
    | some v =>
      have hends : ∃ text, acceptLogin i.pre k conn (some v) r =
          finish { i.pre with userLogin := i.pre.userLogin.del v } k
            (writeStatus k conn.isOpen text) := by
        cases r with
        | returned err => exact ⟨_, rfl⟩
        | raised => exact ⟨_, rfl⟩
      obtain ⟨text, hends⟩ := hends
      rw [hends] at hpost hout
      constructor
      · intro q server secret hq
        rw [hout] at hq
        exact absurd hq loginHandler_not_mem_finish
      · intro hpre hfree
        rw [hpost] at hfree
        by_cases huv : uid = v
        · exact ⟨k, r, hev, conn, hk, huv ▸ hp⟩
        · exact absurd ((Table.get_del_ne huv).trans hpre) hfree
      · intro q r' hq hin
        obtain ⟨rfl, rfl⟩ : k = q ∧ r = r' := by simpa using hev.symm.trans hq
        obtain ⟨conn', hk', hp'⟩ := hin
        obtain rfl := Option.some.inj (hk.symm.trans hk')
        obtain rfl : v = uid := by simpa using hp.symm.trans hp'
        rw [hpost]
        simp [finish]

/-- **The lock of an account**: in every run `user_login[uid]` is true exactly if one connection,
and only one, is inside `login_handler` for `uid`; no step calls `login_handler` for a locked
account, releases the lock of another connection, or ends a `login_handler` and keeps the lock. -/
theorem userLogin_lock (hc : c.multilogin = false) {tr : List (Item c)} {s : State}
    (h : (machine c).Run tr s) :
    (∀ uid, s.userLogin.get uid = some true ↔ ∃! k, LoggingIn s k uid) ∧
      ∀ i ∈ tr, ∀ uid, Item.LockStep i uid := by
  constructor
  · intro uid
    have hl := Run.locked hc h
    rw [hl.locked]
    constructor
    · rintro ⟨k, hk⟩
      exact ⟨k, hk, fun k' hk' => hl.unique k' k uid hk' hk⟩
    · rintro ⟨k, hk, -⟩
      exact ⟨k, hk⟩
  · intro i hi uid
    obtain ⟨a, b, rfl⟩ := List.append_of_mem hi
    exact i.lockStep hc (Run.locked hc (Machine.Path.split h).1) uid

/-- A client that passes the handshake. Its key is `5`, the keys and the challenge of the server
are `1`, and its token is that of the account `account` without a node. -/
def dialogue (k : ConnId) : List Event :=
  [.accept, .started k 1, .line k (some (bytes "BQAAAAAAAAA=")) 1,
    .line k (some (bytes "t+KQEj/MZ28=")) 0, .line k (some (bytes "D3va7RKOSKtLNIshoUXlug==")) 0]

/-- Two clients with one account, the second while `login_handler` runs for the first. -/
def sameAccount : List Event :=
  dialogue 0 ++ [.authed 0 (.accepts (bytes "game1") (bytes "account")), .resume 0] ++
    dialogue 1 ++ [.authed 1 (.accepts (bytes "game1") (bytes "account")), .resume 1]

theorem userLogin_lock_sameAccount : ∃ (tr : List (Item {})) (s : State),
    (machine {}).Run tr s ∧ tr.map (·.ev) = sameAccount ∧
      (∃ i ∈ tr, .write 1 status406 ∈ i.out) ∧ (∃! k, LoggingIn s k (bytes "account")) ∧
        ∀ i ∈ tr, Item.LockStep i (bytes "account") := by
  have h : ((machine {}).items (machine {}).init sameAccount).map (fun tr =>
      decide (tr.map (·.ev) = sameAccount ∧ (∃ i ∈ tr, .write 1 status406 ∈ i.out) ∧
        (Machine.last (machine {}).init tr).userLogin.get (bytes "account") = some true)) =
      some true := by
    decide +kernel
  obtain ⟨tr, hrun, hP⟩ := Machine.exists_run h
  obtain ⟨hev, hbusy, hlock⟩ := of_decide_eq_true hP
  have hl := userLogin_lock rfl hrun
  exact ⟨tr, _, hrun, hev, hbusy, (hl.1 _).mp hlock, fun i hi => hl.2 i hi _⟩

end LsServer.LoginGate
