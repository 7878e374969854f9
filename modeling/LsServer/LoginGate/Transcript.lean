import LsServer.LoginGate.Reply

/-!
# The conversation with a client

The `transcript` of a connection has what was written to its client and read from it, and the calls
of `auth_handler` and `login_handler` in between. Other than the log it has the texts, and it does
not end where the client hangs up.

A transcript grows through the phases of the handshake: `Exchanged`, `Proved`, `Handed`. In the end
it is `Concluded`: the client was refused, or there is one way it can have gone.

The log of `Reply` says which status line there was. What the lines say is needed where two programs
are put together: the client reads them, and computes its own secret from them.

* `Exchanged`: the client has sent a key, the server has written its own, and the secret is made of
  both.
* `Proved`: the client has also sent the right hmac of the challenge.
* `Handed`: it has sent a token, and `auth_handler` was called with the decrypted text.
* `Called`: `login_handler` was called with the node and the account that `auth_handler` returned,
  and with this secret.
* `OnlyKeys`: nothing but the challenge and the key of the server has been written, so the client
  cannot have read a status.

Results:
* `Transcribed.step`: one step of the login server adds to the transcript what the phase says;
* `Run.transcribed`: the transcript of every connection in every run;
* `Run.concluded`: the client has been refused, or told what `login_handler` returned, or has been
  told nothing but keys.

Out of scope: which random numbers are used. Two connections may have the same challenge.
-/

namespace LsServer.LoginGate

open LsServer.Lib LsServer.Lua LsServer.Crypt

/-- What is said on a connection, or about it. -/
inductive Spoken
  | said (text : Bytes)
  | heard (line : Bytes)
  | handed (token : Bytes)
  | authed (r : AuthReturn)
  | called (server uid secret : Option Bytes)
  | login (r : LoginReturn)
  deriving DecidableEq

/-- What an event says about connection `k`. -/
def Event.spoken (k : ConnId) : Event → List Spoken
  | .line k' l _ => if k' = k then l.toList.map .heard else []
  | .authed k' r => if k' = k then [.authed r] else []
  | .loggedIn k' r => if k' = k then [.login r] else []
  | _ => []

/-- What an action says about connection `k`. -/
def Act.spoken (k : ConnId) : Act → Option Spoken
  | .authWrite k' text | .write k' text => if k' = k then some (.said text) else none
  | .authHandler k' token => if k' = k then some (.handed token) else none
  | .loginHandler k' server uid secret =>
    if k' = k then some (.called server uid secret) else none
  | .close _ => none

variable {c : Conf}

def Item.spoken (k : ConnId) (i : Item c) : List Spoken :=
  i.ev.spoken k ++ i.out.filterMap (Act.spoken k)

/-- The transcript of connection `k`. -/
def transcript (k : ConnId) (tr : List (Item c)) : List Spoken := tr.flatMap (Item.spoken k)

@[simp] theorem transcript_snoc (k : ConnId) (tr : List (Item c)) (i : Item c) :
    transcript k (tr ++ [i]) = transcript k tr ++ Item.spoken k i := by
  simp [transcript]

def Spoken.text : Spoken → Option Bytes
  | .said text => some text
  | _ => none

def Spoken.line : Spoken → Option Bytes
  | .heard line => some line
  | _ => none

/-- What the client was told. -/
def said (T : List Spoken) : List Bytes := T.filterMap Spoken.text

/-- What the client has answered. -/
def heard (T : List Spoken) : List Bytes := T.filterMap Spoken.line

@[simp] theorem said_append (T T' : List Spoken) : said (T ++ T') = said T ++ said T' :=
  List.filterMap_append

@[simp] theorem heard_append (T T' : List Spoken) : heard (T ++ T') = heard T ++ heard T' :=
  List.filterMap_append

/-! ## Phases of a conversation -/

/-- A line of the handshake. -/
def keyLine (key : Bytes) : Bytes := base64encode key ++ bytes "\n"

/-- The keys have been exchanged. -/
inductive Exchanged : Bytes → Bytes → List Spoken → Prop
  | intro {random random' : UInt64} {line clientkey key secret : Bytes}
    (hline : base64decode line = some clientkey)
    (hkey : dhexchange (randomkey random') = some key)
    (hsecret : dhsecret clientkey (randomkey random') = some secret) :
    Exchanged (randomkey random) secret
      [.said (keyLine (randomkey random)), .heard line, .said (keyLine key)]

/-- The client has shown that it has the secret. -/
inductive Proved : Bytes → List Spoken → Prop
  | intro {challenge secret hmac line : Bytes} {T : List Spoken} (h : Exchanged challenge secret T)
    (hhmac : hmac64 challenge secret = some hmac) (hline : base64decode line = some hmac) :
    Proved secret (T ++ [.heard line])

/-- The token has been handed to `auth_handler`. -/
inductive Handed : Bytes → List Spoken → Prop
  | intro {secret token line : Bytes} {T : List Spoken} (h : Proved secret T)
    (hline : (base64decode line).bind (desdecode secret) = some token) :
    Handed secret (T ++ [.heard line, .handed token])

/-- `login_handler` has been called for an accepted client. -/
inductive Called (server uid secret : Bytes) : List Spoken → Prop
  | intro {T : List Spoken} (h : Handed secret T) :
    Called server uid secret (T ++ [.authed (.accepts server uid),
      .called (some server) (some uid) (some secret)])

/-- The client has been told keys at most. -/
def OnlyKeys (T : List Spoken) : Prop :=
  ∃ keys : List Bytes, keys.length ≤ 2 ∧ said T = keys.map keyLine

/-- The transcript in a phase. -/
def Phase.Transcript (T : List Spoken) : Phase → Prop
  | .starting => T = []
  | .clientKey challenge =>
    ∃ random, challenge = randomkey random ∧ T = [.said (keyLine (randomkey random))]
  | .response challenge secret => Exchanged challenge secret T
  | .token secret => Proved secret T
  | .authenticating secret => Handed secret T
  | .answered a => OnlyKeys T ∧ (a.ok = some true →
      ∃ T' secret r, Handed secret T' ∧ T = T' ++ [.authed r] ∧
        a = retPack (.ok (authValues secret r)))
  | .loggingIn uid => ∃ server uid' secret, uid = some uid' ∧ Called server uid' secret T

/-- The transcript in the end: the client has been refused, or got the result of
`login_handler`. -/
inductive Concluded : List Spoken → Prop
  | refused {T : List Spoken} {keys status : List Bytes} (hkeys : keys.length ≤ 2)
    (hstatus : status ∈ [[], [status401], [status403], [status406]])
    (h : said T = keys.map keyLine ++ status) : Concluded T
  | answered {server uid secret : Bytes} {result : Option Bytes} {T : List Spoken}
    (h : Called server uid secret T) :
    Concluded (T ++ [.login (.returned result), .said (status200 (result.getD []))])

theorem OnlyKeys.append {T T' : List Spoken} (h : OnlyKeys T) (hT' : said T' = []) :
    OnlyKeys (T ++ T') := by
  obtain ⟨keys, hkeys, hT⟩ := h
  exact ⟨keys, hkeys, by rw [said_append, hT, hT', List.append_nil]⟩

theorem Exchanged.onlyKeys {challenge secret : Bytes} {T : List Spoken}
    (h : Exchanged challenge secret T) : OnlyKeys T := by
  cases h
  exact ⟨[_, _], le_rfl, rfl⟩

theorem Proved.onlyKeys {secret : Bytes} {T : List Spoken} (h : Proved secret T) :
    OnlyKeys T := by
  cases h with
  | intro h => exact h.onlyKeys.append rfl

theorem Handed.onlyKeys {secret : Bytes} {T : List Spoken} (h : Handed secret T) :
    OnlyKeys T := by
  cases h with
  | intro h => exact h.onlyKeys.append rfl

theorem Called.onlyKeys {server uid secret : Bytes} {T : List Spoken}
    (h : Called server uid secret T) : OnlyKeys T := by
  cases h with
  | intro h => exact h.onlyKeys.append rfl

/-- `auth` raises. -/
theorem Phase.Transcript.failed {T : List Spoken} (h : OnlyKeys T) (e : Raised) :
    (settle (.error e)).Transcript T := by
  cases e <;> exact ⟨h, fun hok => absurd hok (by simp [retPack])⟩

/-- A refused client gets a status, or nothing. -/
theorem OnlyKeys.refused {T T' : List Spoken} (h : OnlyKeys T)
    (hT' : said T' ∈ [[], [status401], [status403], [status406]]) : Concluded (T ++ T') := by
  obtain ⟨keys, hkeys, hT⟩ := h
  exact .refused hkeys hT' (by rw [said_append, hT])

/-! ## The parts of `auth` -/

theorem said_heard (line : Option Bytes) : said (line.toList.map .heard) = [] := by
  cases line <;> rfl

theorem greet_transcript (isOpen : Bool) (random : UInt64) :
    (settle (greet isOpen random).2).Transcript ((greet isOpen random).1.map .said) := by
  unfold greet write
  cases isOpen with
  | true => exact ⟨random, rfl, rfl⟩
  | false => exact .failed ⟨[], Nat.zero_le _, rfl⟩ _

theorem exchange_transcript (isOpen : Bool) (random random' : UInt64) (line : Option Bytes) :
    (settle (exchange isOpen (randomkey random) random' line).2).Transcript
      (.said (keyLine (randomkey random)) :: line.toList.map .heard ++
        (exchange isOpen (randomkey random) random' line).1.map .said) := by
  have hone : ∀ line, OnlyKeys [.said (keyLine (randomkey random)), .heard line] := fun line =>
    ⟨[randomkey random], Nat.le_succ _, rfl⟩
  cases line with
  | none => exact .failed ⟨[randomkey random], Nat.le_succ _, rfl⟩ _
  | some line =>
    unfold exchange
    dsimp only
    split
    · exact .failed (hone line) _
    rename_i clientkey hline
    split
    · exact .failed (hone line) _
    split
    · exact .failed (hone line) _
    rename_i key hkey
    cases isOpen with
    | false => exact .failed (hone line) _
    | true =>
      simp only [write, if_true]
      split
      · exact .failed ⟨[randomkey random, key], le_rfl, rfl⟩ _
      · rename_i secret hsecret
        exact .intro hline hkey hsecret

theorem checkResponse_transcript {challenge secret : Bytes} {T : List Spoken}
    (h : Exchanged challenge secret T) (line : Option Bytes) :
    (settle (checkResponse challenge secret line)).Transcript (T ++ line.toList.map .heard) := by
  have hfail : ∀ e, (settle (.error e)).Transcript (T ++ line.toList.map .heard) :=
    fun e => .failed (h.onlyKeys.append (said_heard line)) e
  unfold checkResponse
  split
  · exact hfail _
  · split
    · rename_i hmac response hhmac hline
      split
      · exact hfail _
      · rename_i heq
        obtain rfl := not_not.mp heq
        exact .intro h hhmac hline
    · exact hfail _

/-- The third line: it fails, or its token is handed over. -/
theorem readToken_transcript {secret : Bytes} {T : List Spoken} (h : Proved secret T)
    (line : Option Bytes) :
    match readToken secret line with
    | .error e => (settle (.error e)).Transcript (T ++ line.toList.map .heard)
    | .ok token => Handed secret (T ++ line.toList.map .heard ++ [.handed token]) := by
  have hkeys : OnlyKeys (T ++ line.toList.map .heard) := h.onlyKeys.append (said_heard line)
  cases line with
  | none => exact .failed hkeys _
  | some line =>
    cases hline : (base64decode line).bind (desdecode secret) with
    | none =>
      simp only [readToken, hline]
      exact .failed hkeys _
    | some token =>
      simp only [readToken, hline]
      rw [List.append_assoc]
      exact .intro h hline

/-! ## Steps -/

/-- What the run so far says about connection `k`. -/
structure Transcribed (k : ConnId) (tr : List (Item c)) (s : State) : Prop where
  live : ∀ conn, s.conns.get k = some conn → conn.phase.Transcript (transcript k tr)
  done : s.conns.get k = none → Concluded (transcript k tr)
  fresh : s.nextConn ≤ k → transcript k tr = []

theorem Act.spoken_of_ne {a : Act} {k : ConnId} (h : a.conn ≠ k) : a.spoken k = none := by
  cases a <;> simp_all [Act.spoken, Act.conn]

theorem Event.spoken_of_ne {e : Event} {k : ConnId} (h : e.conn ≠ some k) : e.spoken k = [] := by
  cases e <;> simp_all [Event.spoken, Event.conn]

theorem Item.spoken_of_ne (i : Item c) {k : ConnId} (h : i.ev.conn ≠ some k) :
    Item.spoken k i = [] := by
  rw [Item.spoken, Event.spoken_of_ne h, List.nil_append, List.filterMap_eq_nil_iff]
  exact fun a ha => Act.spoken_of_ne fun hk => h (hk ▸ i.out_conn ha)

/-- A connection hears of the end of `login_handler` when that happens. -/
theorem Item.ev_of_login {i : Item c} {k : ConnId} {r : LoginReturn}
    (h : .login r ∈ Item.spoken k i) : i.ev = .loggedIn k r := by
  rcases List.mem_append.mp h with h | h
  · generalize i.ev = e at h
    cases e with
    | loggedIn k' r' =>
      obtain ⟨rfl, rfl⟩ : k' = k ∧ r = r' := by simpa [Event.spoken] using h
      rfl
    | _ => exact absurd h (by simp [Event.spoken])
  · obtain ⟨a, -, ha⟩ := List.mem_filterMap.mp h
    cases a <;> simp [Act.spoken] at ha

/-- The connection is finished. -/
theorem Transcribed.ended {k : ConnId} {tr : List (Item c)} {i : Item c}
    (hdel : i.post.conns.get k = none) (hnext : k < i.post.nextConn)
    (h : Concluded (transcript k tr ++ Item.spoken k i)) : Transcribed k (tr ++ [i]) i.post where
  live conn hk := absurd (hdel.symm.trans hk) (by simp)
  done _ := by rwa [transcript_snoc]
  fresh hle := absurd hnext (not_lt.mpr hle)

/-- The connection is in another phase. -/
theorem Transcribed.moved {k : ConnId} {tr : List (Item c)} {i : Item c} (conn : Conn)
    (hset : i.post.conns.get k = some conn) (hnext : k < i.post.nextConn)
    (h : conn.phase.Transcript (transcript k tr ++ Item.spoken k i)) :
    Transcribed k (tr ++ [i]) i.post where
  live conn' hk := by
    obtain rfl := Option.some.inj (hset.symm.trans hk)
    rwa [transcript_snoc]
  done hk := absurd (hset.symm.trans hk) (by simp)
  fresh hle := absurd hnext (not_lt.mpr hle)

/-- A part of `auth` that only writes. -/
theorem Transcribed.goOn {k : ConnId} {tr : List (Item c)} {i : Item c} {conn : Conn}
    {r : List Bytes × Except Raised Phase} (hnext : k < i.pre.nextConn)
    (hx : (i.post, i.out) = goOn i.pre k conn r)
    (h : (settle r.2).Transcript (transcript k tr ++ (i.ev.spoken k ++ r.1.map .said))) :
    Transcribed k (tr ++ [i]) i.post := by
  obtain ⟨hpost, hout⟩ := Prod.mk.inj hx
  have hsaid : (r.1.map (Act.authWrite k)).filterMap (Act.spoken k) = r.1.map .said := by
    rw [List.filterMap_map]
    have hfun : Act.spoken k ∘ Act.authWrite k = some ∘ Spoken.said := by
      funext text
      simp [Act.spoken]
    rw [hfun, List.filterMap_eq_map]
  refine .moved { conn with phase := settle r.2 } ?_ ?_ ?_
  · rw [hpost]
    exact Table.get_set_self _ _ _
  · rw [hpost]
    exact hnext
  · rwa [Item.spoken, hout, hsaid]

/-- What `finish` writes. -/
theorem filterMap_spoken_finish (s : State) (k : ConnId) (isOpen : Bool) (text : Bytes) :
    (finish s k (writeStatus k isOpen text)).2.filterMap (Act.spoken k) =
      if isOpen then [.said text] else [] := by
  cases isOpen <;> simp [finish, writeStatus, Act.spoken]

/-- A part of `auth` for connection `k`. -/
theorem Transcribed.auth {k : ConnId} {tr : List (Item c)} {i : Item c} {conn : Conn}
    (hl : Locked i.pre) (h : Transcribed k tr i.pre) (hk : i.pre.conns.get k = some conn)
    (hconn : i.ev.conn = some k)
    (hev : ∀ r, i.ev ≠ .loggedIn k r) (hresume : i.ev ≠ .resume k) (hhangup : i.ev ≠ .hangup k)
    (hx : onConn c i.pre k conn i.ev = some (i.post, i.out)) :
    Transcribed k (tr ++ [i]) i.post := by
  have hnext := hl.fresh k conn hk
  have hT := h.live conn hk
  cases he : i.ev with
  | accept => exact absurd (he ▸ hconn) (by simp [Event.conn])
  | resume k' =>
    obtain rfl : k' = k := by simpa [he, Event.conn] using hconn
    exact absurd he hresume
  | loggedIn k' r =>
    obtain rfl : k' = k := by simpa [he, Event.conn] using hconn
    exact absurd he (hev r)
  | hangup k' =>
    obtain rfl : k' = k := by simpa [he, Event.conn] using hconn
    exact absurd he hhangup
  | started k' random =>
    obtain rfl : k' = k := by simpa [he, Event.conn] using hconn
    cases hp : conn.phase with
    | starting =>
      rw [hp] at hT
      simp only [he, onConn, hp] at hx
      split at hx
      · refine .goOn hnext (Option.some.inj hx).symm ?_
        rw [hT, he]
        exact greet_transcript conn.isOpen random
      · refine .goOn hnext (Option.some.inj hx).symm ?_
        rw [hT, he]
        exact .failed ⟨[], Nat.zero_le _, rfl⟩ _
    | _ => exact absurd hx (by simp [he, onConn, hp])
  | line k' line random =>
    obtain rfl : k' = k := by simpa [he, Event.conn] using hconn
    have hheard : i.ev.spoken k' = line.toList.map .heard := by simp [he, Event.spoken]
    simp only [he, onConn] at hx
    split at hx
    · exact absurd hx (by simp)
    cases hp : conn.phase with
    | clientKey challenge =>
      rw [hp] at hT hx
      obtain ⟨random', rfl, hT⟩ := hT
      refine .goOn hnext (Option.some.inj hx).symm ?_
      rw [hT, hheard]
      exact exchange_transcript conn.isOpen random' random line
    | response challenge secret =>
      rw [hp] at hT hx
      refine .goOn hnext (Option.some.inj hx).symm ?_
      rw [hheard, List.map_nil, List.append_nil]
      exact checkResponse_transcript hT line
    | token secret =>
      rw [hp] at hT
      have hread := readToken_transcript hT line
      simp only [hp] at hx
      split at hx
      · rename_i e hr
        rw [hr] at hread
        refine .goOn hnext (Option.some.inj hx).symm ?_
        rw [hheard, List.map_nil, List.append_nil]
        exact hread
      · rename_i token hr
        rw [hr] at hread
        obtain ⟨hpost, hout⟩ := Prod.mk.inj (Option.some.inj hx)
        refine .moved { conn with phase := .authenticating secret } ?_ ?_ ?_
        · rw [← hpost]
          exact Table.get_set_self _ _ _
        · rw [← hpost]
          exact hnext
        · have hhanded : i.out.filterMap (Act.spoken k') = [.handed token] := by
            simp [← hout, LoginGate.goOn, Act.spoken]
          rw [Item.spoken, hheard, hhanded, ← List.append_assoc]
          exact hread
    | _ => exact absurd hx (by simp [hp])
  | authed k' r =>
    obtain rfl : k' = k := by simpa [he, Event.conn] using hconn
    cases hp : conn.phase with
    | authenticating secret =>
      rw [hp] at hT
      simp only [he, onConn, hp] at hx
      refine .goOn hnext (Option.some.inj hx).symm ?_
      rw [he, Event.spoken, if_pos rfl, List.map_nil, List.append_nil]
      exact ⟨(Handed.onlyKeys hT).append rfl, fun _ => ⟨_, secret, r, hT, rfl, rfl⟩⟩
    | _ => exact absurd hx (by simp [he, onConn, hp])

/-- `accept` after the answer for connection `k`. -/
theorem Transcribed.answer {k : ConnId} {tr : List (Item c)} {i : Item c} {conn : Conn}
    {a : Answer} (hl : Locked i.pre) (h : Transcribed k tr i.pre)
    (hk : i.pre.conns.get k = some conn) (hp : conn.phase = .answered a) (hev : i.ev = .resume k)
    (ha : Accepting i.pre k conn a (i.post, i.out)) : Transcribed k (tr ++ [i]) i.post := by
  have hlt := hl.fresh k conn hk
  have hT := h.live conn hk
  rw [hp] at hT
  obtain ⟨hkeys, hok⟩ := hT
  have hspoken : Item.spoken k i = i.out.filterMap (Act.spoken k) := by
    rw [Item.spoken, hev]
    rfl
  generalize hx : (i.post, i.out) = x at ha
  have hpost : i.post = x.1 := congrArg Prod.fst hx
  have hout : i.out = x.2 := congrArg Prod.snd hx
  rw [hout] at hspoken
  have hend : ∀ acts, x = finish i.pre k acts →
      said (Item.spoken k i) ∈ [[], [status401], [status403], [status406]] →
      Transcribed k (tr ++ [i]) i.post := by
    rintro acts rfl hsaid
    refine .ended ?_ (by rw [hpost]; exact hlt) (hkeys.refused hsaid)
    rw [hpost]
    exact Table.get_del_self _ _
  have hstatus : ∀ text, [text] ∈ [[], [status401], [status403], [status406]] →
      x = finish i.pre k (writeStatus k conn.isOpen text) →
      Transcribed k (tr ++ [i]) i.post := by
    rintro text hmem rfl
    refine hend _ rfl ?_
    rw [hspoken, filterMap_spoken_finish]
    cases conn.isOpen with
    | true => exact hmem
    | false => exact List.mem_cons_self
  cases ha with
  | refused => exact hstatus _ (by simp) rfl
  | busy => exact hstatus _ (by simp) rfl
  | broken | anonymous =>
    refine hend _ rfl ?_
    rw [hspoken]
    exact List.mem_cons_self
  | @login uid htrue hu =>
    obtain ⟨T', secret, r, hT', heq, rfl⟩ := hok htrue
    cases r with
    | accepts server uid' =>
      obtain rfl : uid' = uid := by simpa [retPack, authValues] using hu
      refine .moved { conn with phase := .loggingIn (some uid') } ?_ ?_ ?_
      · rw [hpost]
        exact Table.get_set_self _ _ _
      · rw [hpost]
        exact hlt
      · refine ⟨server, uid', secret, rfl, ?_⟩
        rw [hspoken, heq, List.append_assoc]
        simpa [Act.spoken, retPack, authValues] using Called.intro hT'
    | _ => exact absurd hu (by simp [retPack, authValues])

/-- `accept` after `login_handler` for connection `k`. -/
theorem Transcribed.login {k : ConnId} {tr : List (Item c)} {i : Item c} {conn : Conn}
    {uid : Option Bytes} {r : LoginReturn} (hl : Locked i.pre) (h : Transcribed k tr i.pre)
    (hk : i.pre.conns.get k = some conn) (hp : conn.phase = .loggingIn uid)
    (hev : i.ev = .loggedIn k r) (hx : (i.post, i.out) = acceptLogin i.pre k conn uid r) :
    Transcribed k (tr ++ [i]) i.post := by
  have hT := h.live conn hk
  rw [hp] at hT
  obtain ⟨server, uid, secret, rfl, hT⟩ := hT
  have hout : i.out = (acceptLogin i.pre k conn (some uid) r).2 := congrArg Prod.snd hx
  have hpost : i.post = (acceptLogin i.pre k conn (some uid) r).1 := congrArg Prod.fst hx
  have hspoken : Item.spoken k i =
      .login r :: (acceptLogin i.pre k conn (some uid) r).2.filterMap (Act.spoken k) := by
    rw [Item.spoken, hev, hout, Event.spoken, if_pos rfl, List.singleton_append]
  refine .ended ?_ ?_ ?_
  · rw [hpost]
    cases r <;> exact Table.get_del_self _ _
  · rw [hpost]
    cases r <;> exact hl.fresh k conn hk
  rw [hspoken]
  cases r with
  | returned result =>
    rw [acceptLogin, filterMap_spoken_finish]
    cases conn.isOpen with
    | true => exact .answered hT
    | false => exact hT.onlyKeys.refused List.mem_cons_self
  | raised =>
    rw [acceptLogin, filterMap_spoken_finish]
    refine hT.onlyKeys.refused ?_
    have hstatus : [status403] ∈ [[], [status401], [status403], [status406]] := by simp
    cases conn.isOpen with
    | true => exact hstatus
    | false => exact List.mem_cons_self

/-- **One step** adds to the transcript what the phase says. -/
theorem Transcribed.step (hc : c.multilogin = false) {k : ConnId} {tr : List (Item c)} {i : Item c}
    (hl : Locked i.pre) (h : Transcribed k tr i.pre) : Transcribed k (tr ++ [i]) i.post := by
  have hstep : LoginGate.step c i.pre i.ev = some (i.post, i.out) := i.ok
  by_cases hconn : i.ev.conn = some k
  · rw [LoginGate.step, hconn] at hstep
    obtain ⟨conn, hk, hx⟩ := Option.bind_eq_some_iff.mp hstep
    by_cases hhangup : i.ev = .hangup k
    · rw [hhangup] at hx
      obtain ⟨hpost, hout⟩ := Prod.mk.inj (Option.some.inj hx)
      refine .moved { conn with isOpen := false } ?_ ?_ ?_
      · rw [← hpost]
        exact Table.get_set_self _ _ _
      · rw [← hpost]
        exact hl.fresh k conn hk
      · rw [Item.spoken, hhangup, ← hout]
        simpa [Event.spoken] using h.live conn hk
    by_cases hresume : i.ev = .resume k
    · rw [hresume] at hx
      cases hp : conn.phase with
      | answered a =>
        simp only [onConn, hp, Option.some.injEq] at hx
        exact h.answer hl hk hp hresume (hx ▸ acceptAnswer_accepting hc i.pre k conn a)
      | _ => exact absurd hx (by simp [onConn, hp])
    by_cases hlogin : ∃ r, i.ev = .loggedIn k r
    · obtain ⟨r, hlogin⟩ := hlogin
      rw [hlogin] at hx
      cases hp : conn.phase with
      | loggingIn uid =>
        simp only [onConn, hp, Option.some.injEq] at hx
        exact h.login hl hk hp hlogin hx.symm
      | _ => exact absurd hx (by simp [onConn, hp])
    exact h.auth hl hk hconn (not_exists.mp hlogin) hresume hhangup hx
  · by_cases hacc : i.ev = .accept ∧ k = i.pre.nextConn
    · -- connection `k` is accepted
      obtain ⟨hacc, rfl⟩ := hacc
      rw [LoginGate.step, hacc] at hstep
      obtain ⟨hpost, hout⟩ := Prod.mk.inj (Option.some.inj hstep)
      refine .moved ⟨.starting, true⟩ ?_ ?_ ?_
      · rw [← hpost]
        exact Table.get_set_self _ _ _
      · rw [← hpost]
        exact Nat.lt_succ_self _
      · rw [h.fresh le_rfl, Item.spoken, hacc, ← hout]
        rfl
    · obtain ⟨hget, hnext⟩ := i.other hc hl hconn fun h1 h2 => hacc ⟨h1, h2⟩
      have hnil := i.spoken_of_ne hconn
      constructor
      · intro conn hk
        rw [transcript_snoc, hnil, List.append_nil]
        exact h.live conn (hget ▸ hk)
      · intro hk
        rw [transcript_snoc, hnil, List.append_nil]
        exact h.done (hget ▸ hk)
      · intro hle
        rw [transcript_snoc, hnil, List.append_nil]
        exact h.fresh (hnext.mp hle)

/-- **Every transcript of every run.** -/
theorem Run.transcribed (hc : c.multilogin = false) {tr : List (Item c)} {s : State}
    (h : (machine c).Run tr s) (k : ConnId) : Transcribed k tr s := by
  refine Machine.Run.history (J := fun tr s => Transcribed k tr s) ?_ (fun tr i hrun hJ => ?_) h
  · have hnil : Concluded ([] ++ []) :=
      OnlyKeys.refused ⟨[], Nat.zero_le _, rfl⟩ List.mem_cons_self
    constructor
    · simp [machine]
    · exact fun _ => hnil
    · simp [transcript]
  · exact hJ.step hc (Run.locked hc hrun)

/-- As long as the connection is live the client has been told keys at most. -/
theorem Phase.Transcript.onlyKeys {T : List Spoken} {p : Phase} (h : p.Transcript T) :
    OnlyKeys T := by
  cases p with
  | starting =>
    obtain rfl : T = [] := h
    exact ⟨[], Nat.zero_le _, rfl⟩
  | clientKey challenge =>
    obtain ⟨random, -, rfl⟩ := h
    exact ⟨[randomkey random], Nat.le_succ _, rfl⟩
  | response challenge secret => exact Exchanged.onlyKeys h
  | token secret => exact Proved.onlyKeys h
  | authenticating secret => exact Handed.onlyKeys h
  | answered a => exact h.1
  | loggingIn uid =>
    obtain ⟨server, uid', secret, -, h⟩ := h
    exact h.onlyKeys

/-- **What a client has been told**, at any time. -/
theorem Run.concluded (hc : c.multilogin = false) {tr : List (Item c)} {s : State}
    (h : (machine c).Run tr s) (k : ConnId) : Concluded (transcript k tr) := by
  have hT := Run.transcribed hc h k
  cases hk : s.conns.get k with
  | none => exact hT.done hk
  | some conn =>
    have hrefused : Concluded (transcript k tr ++ []) :=
      (hT.live conn hk).onlyKeys.refused List.mem_cons_self
    rwa [List.append_nil] at hrefused

end LsServer.LoginGate
