import LsServer.GameGate.Served

/-!
# The tables of the gate are consistent

`WellFormed` relates `connection`, `handshake`, `user_online` and the sockets. `Item.wellFormed`
is its step lemma, `Run.wellFormed` says it holds in every state of every run.

`Item.Accepts` names the steps that bind a user to a connection, and `Item.kind` says what the
other steps do to the tables.

* `WellFormed`: the sockets in `handshake` and `connection` exist, and none is in both; a user in
  `user_online` has the name under which it stands there, so no two names share a record;
  `connection` leads from `u.fd` back to `u`.
* It does not say that `connection[fd] = u` makes `u.fd = fd`: after a takeover the old connection
  still leads to its user.
* `Item.Kind`: a step is quiet for the tables, accepts a handshake, severs a connection, logs a user
  in, or logs one out.

Every later result about runs starts with `Run.wellFormed`. A step that serves a request is quiet
here, which `Served` says.
-/

namespace LsServer.GameGate

open LsServer.Lib LsServer.Lua

/-- A connected client has a socket and no pending handshake; an online user has its own name, and
its `fd`, if it has one, is connected to it. -/
structure WellFormed (s : State) : Prop where
  present : ∀ fd u, s.gate.connection.get fd = some u → s.net.get fd ≠ none
  pending : ∀ fd addr, s.gate.handshake.get fd = some addr → s.net.get fd ≠ none
  apart : ∀ fd u, s.gate.connection.get fd = some u → s.gate.handshake.get fd = none
  bound : ∀ fd u, s.gate.connection.get fd = some u → u < s.gate.users.next
  online : ∀ name u, s.gate.userOnline.get name = some u →
    u < s.gate.users.next ∧ (s.gate.users.cell u).username = name
  current : ∀ name u fd, s.gate.userOnline.get name = some u →
    (s.gate.users.cell u).fd = some fd → s.gate.connection.get fd = some u

variable {c : Conf}

/-- A socket survives every event but its close event. -/
theorem Item.net_present (i : Item c) {fd : Fd} (h : i.pre.net.get fd ≠ none)
    (hev : i.ev ≠ .close fd) : i.post.net.get fd ≠ none := by
  rw [ne_eq, i.net_none]
  rintro ⟨-, hc | hn⟩
  · exact hev hc
  · exact h hn

/-- The packet accepted as a handshake by `i` binds user `u` to connection `fd` with index
`idx`. -/
structure Item.Accepts (i : Item c) (fd : Fd) (u : UserId) (idx : Number) : Prop where
  packet : ∃ data, i.ev = .packet fd data ∧ authCheck i.pre.gate data = .accepted u idx
  connected : i.pre.gate.gsConnection.get fd = some true
  handshake : i.pre.gate.handshake.get fd ≠ none

/-- What an accepted handshake does. -/
theorem Item.Accepts.post {i : Item c} {fd : Fd} {u : UserId} {idx : Number}
    (h : i.Accepts fd u idx) : ∃ addr,
      i.post.gate = { (bind i.pre.gate fd addr u idx).1 with
        handshake := i.pre.gate.handshake.del fd } ∧
      i.out = (bind i.pre.gate fd addr u idx).2 ++ [sendStatus fd (bytes "200 OK")] := by
  obtain ⟨⟨data, hev, hauth⟩, hgs, hhs⟩ := h
  have hh := i.handled
  rw [hev] at hh
  generalize i.post.gate = g', i.out = acts at hh ⊢
  cases hh with
  | dropped h => exact absurd hgs h
  | refused status _ _ hna => exact absurd hauth (hna u idx)
  | accepted _ hhs' hauth' =>
    obtain ⟨rfl, rfl⟩ : _ ∧ _ := by simpa using hauth.symm.trans hauth'
    exact ⟨_, rfl, rfl⟩
  | request _ hn => exact absurd hn hhs

theorem Item.Accepts.inj {i : Item c} {fd fd' : Fd} {u u' : UserId} {idx idx' : Number}
    (h : i.Accepts fd u idx) (h' : i.Accepts fd' u' idx') : fd = fd' ∧ u = u' ∧ idx = idx' := by
  obtain ⟨⟨d, hev, ha⟩, -, -⟩ := h
  obtain ⟨⟨d', hev', ha'⟩, -, -⟩ := h'
  rw [hev] at hev'
  obtain ⟨rfl, rfl⟩ := by simpa using hev'
  rw [ha] at ha'
  obtain ⟨rfl, rfl⟩ := by simpa using ha'
  exact ⟨rfl, rfl, rfl⟩

/-- What `handler.disconnect` does to the tables. -/
structure Severed (g g' : Gate) (fd : Fd) : Prop where
  userOnline : g'.userOnline = g.userOnline
  handshake : g'.handshake = g.handshake.del fd
  connection : g'.connection = g.connection.del fd
  users : g'.users.next = g.users.next
  cell : ∀ u, g'.users.cell u =
    if g.connection.get fd = some u then { g.users.cell u with fd := none } else g.users.cell u

theorem disconnect_severed (g : Gate) (fd : Fd) : Severed g (disconnect g fd).1 fd := by
  cases h : g.connection.get fd with
  | none =>
    rw [disconnect_none h]
    exact ⟨rfl, rfl, (Table.del_of_get_none h).symm, rfl, fun u => by simp [h]⟩
  | some v =>
    rw [disconnect_some h]
    refine ⟨rfl, rfl, rfl, rfl, fun u => ?_⟩
    simp only [Heap.cell_set, h, Option.some.injEq]
    by_cases hu : u = v
    · simp [hu]
    · simp [hu, Ne.symm hu]

/-- A step, seen from the tables that say who is connected: most steps are `quiet`. -/
inductive Item.Kind (i : Item c) : Prop
  | quiet
    (hg : Served i.pre.gate { i.post.gate with handshake := i.pre.gate.handshake })
    (hhs : ∀ x addr, i.post.gate.handshake.get x = some addr →
      i.pre.gate.handshake.get x = some addr ∨ i.ev = .connect x addr)
    (hna : ∀ fd u idx, ¬ i.Accepts fd u idx) (hcl : ∀ fd, i.ev ≠ .close fd ∧ i.ev ≠ .error fd)
  | accept {fd : Fd} {u : UserId} {idx : Number} (h : i.Accepts fd u idx)
  | sever {fd : Fd} (hev : i.ev = .close fd ∨ i.ev = .error fd)
    (hg : Severed i.pre.gate i.post.gate fd)
  | login {username secret : Bytes} (hev : i.ev = .login username secret)
    (hg : i.post.gate = serverLogin i.pre.gate username secret)
  | logout {username : Bytes} (hev : i.ev = .logout username)
    (hg : i.post.gate = (serverLogout i.pre.gate username).1)
    (hout : i.out = (serverLogout i.pre.gate username).2)

theorem Item.kind (i : Item c) : i.Kind := by
  have hh := i.handled
  have hna : (∀ fd data, i.ev ≠ .packet fd data) → ∀ fd u idx, ¬ i.Accepts fd u idx := by
    intro hev fd u idx h
    obtain ⟨data, hp, -⟩ := h.packet
    exact hev fd data hp
  generalize hev : i.ev = e, hpost : i.post.gate = g', hout : i.out = acts at hh
  cases hh with
  | connect fd addr =>
    refine .quiet ?_ ?_ (hna fun _ _ => by simp [hev]) (by simp [hev])
    · obtain h | h := msgOpen_cases c i.pre.gate fd addr
      · rw [hpost, h]
        exact ⟨rfl, rfl, rfl, rfl, fun _ => rfl⟩
      · rw [hpost, h]
        exact ⟨rfl, rfl, rfl, rfl, fun _ => rfl⟩
    · intro x a hx
      obtain h | h := msgOpen_cases c i.pre.gate fd addr
      · rw [hpost, h] at hx
        exact Or.inl hx
      · rw [hpost, h, Table.get_set] at hx
        split at hx
        · rename_i hxf
          right
          rw [hev, hxf, Option.some.inj hx]
        · exact Or.inl hx
  | dropped hgs =>
    refine .quiet ?_ ?_ ?_ (by simp [hev])
    · rw [hpost]
      exact ⟨rfl, rfl, rfl, rfl, fun _ => rfl⟩
    · intro x a hx
      rw [hpost] at hx
      exact Or.inl hx
    · intro fd u idx h
      obtain ⟨data, hp, -⟩ := h.packet
      obtain ⟨rfl, rfl⟩ := by simpa using hev.symm.trans hp
      exact hgs h.connected
  | refused status hgs hhs hauth =>
    refine .quiet ?_ ?_ ?_ (by simp [hev])
    · rw [hpost]
      exact ⟨rfl, rfl, rfl, rfl, fun _ => rfl⟩
    · intro x a hx
      rw [hpost] at hx
      exact Or.inl (Table.get_of_get_del hx).2
    · intro fd u idx h
      obtain ⟨data, hp, ha⟩ := h.packet
      obtain ⟨rfl, rfl⟩ := by simpa using hev.symm.trans hp
      exact hauth u idx ha
  | accepted hgs hhs hauth =>
    exact .accept ⟨⟨_, hev, hauth⟩, hgs, by simp [hhs]⟩
  | @request fd data hgs hhs =>
    have hs := request_served c i.pre.gate fd data
    refine .quiet ?_ ?_ ?_ (by simp [hev])
    · rw [hpost]
      exact ⟨hs.userOnline, rfl, hs.connection, hs.users, hs.identity⟩
    · intro x a hx
      rw [hpost, hs.handshake] at hx
      exact Or.inl hx
    · intro x u idx h
      obtain ⟨d, hp, -⟩ := h.packet
      obtain ⟨rfl, rfl⟩ := by simpa using hev.symm.trans hp
      exact h.handshake hhs
  | @complete k t r ht =>
    have hs := complete_served c i.pre.gate k t r
    refine .quiet ?_ ?_ (hna fun _ _ => by simp [hev]) (by simp [hev])
    · rw [hpost]
      exact ⟨hs.userOnline, rfl, hs.connection, hs.users, hs.identity⟩
    · intro x a hx
      rw [hpost, hs.handshake] at hx
      exact Or.inl hx
  | close fd =>
    have h := disconnect_severed { i.pre.gate with
      clientNumber := i.pre.gate.clientNumber - 1
      gsConnection := if i.pre.gate.gsConnection.get fd = some true then
        i.pre.gate.gsConnection.set fd false else i.pre.gate.gsConnection } fd
    refine .sever (Or.inl hev) ?_
    rw [hpost]
    exact ⟨h.userOnline, h.handshake, h.connection, h.users, h.cell⟩
  | error fd =>
    have h := disconnect_severed i.pre.gate fd
    refine .sever (Or.inr hev) ?_
    rw [hpost]
    exact ⟨h.userOnline, h.handshake, h.connection, h.users, h.cell⟩
  | login username secret => exact .login hev hpost
  | logout username => exact .logout hev hpost hout

/-! ## The invariant -/

theorem wellFormed_init : WellFormed (machine c).init := by
  constructor <;> simp [machine, Gate.init]

variable {i : Item c}

/-- The name of an online user finds it. -/
theorem WellFormed.name_inj {s : State} (hw : WellFormed s) {name name' : Bytes} {u : UserId}
    (h : s.gate.userOnline.get name = some u) (h' : s.gate.userOnline.get name' = some u) :
    name = name' :=
  (hw.online name u h).2.symm.trans (hw.online name' u h').2

theorem Item.wellFormed_quiet (hw : WellFormed i.pre)
    (hg : Served i.pre.gate { i.post.gate with handshake := i.pre.gate.handshake })
    (hhs : ∀ x addr, i.post.gate.handshake.get x = some addr →
      i.pre.gate.handshake.get x = some addr ∨ i.ev = .connect x addr)
    (hev : ∀ fd, i.ev ≠ .close fd) : WellFormed i.post := by
  have hon : i.post.gate.userOnline = i.pre.gate.userOnline := hg.userOnline
  have hc : i.post.gate.connection = i.pre.gate.connection := hg.connection
  have hn : i.post.gate.users.next = i.pre.gate.users.next := hg.users
  have hname : ∀ u, (i.post.gate.users.cell u).username = (i.pre.gate.users.cell u).username :=
    hg.username
  have hfd : ∀ u, (i.post.gate.users.cell u).fd = (i.pre.gate.users.cell u).fd := hg.fd
  constructor
  · intro fd u h
    rw [hc] at h
    exact i.net_present (hw.present fd u h) (hev fd)
  · intro fd addr h
    obtain h | h := hhs fd addr h
    · exact i.net_present (hw.pending fd addr h) (hev fd)
    · rw [ne_eq, i.net_none]
      exact fun hx => hx.1 ⟨addr, h⟩
  · intro fd u h
    rw [hc] at h
    by_contra hne
    obtain ⟨addr, ha⟩ := Option.ne_none_iff_exists'.mp hne
    obtain ha | ha := hhs fd addr ha
    · rw [hw.apart fd u h] at ha
      exact absurd ha (by simp)
    · exact hw.present fd u h (i.connect_fresh ha)
  · intro fd u h
    rw [hc] at h
    rw [hn]
    exact hw.bound fd u h
  · intro name u h
    rw [hon] at h
    rw [hn, hname]
    exact hw.online name u h
  · intro name u fd h hu
    rw [hon] at h
    rw [hfd] at hu
    rw [hc]
    exact hw.current name u fd h hu

theorem Item.wellFormed_accept (hw : WellFormed i.pre) {fd : Fd} {u : UserId} {idx : Number}
    (h : i.Accepts fd u idx) : WellFormed i.post := by
  obtain ⟨addr, hpost, -⟩ := h.post
  obtain ⟨⟨data, hev, hauth⟩, -, hhs⟩ := h
  obtain ⟨_, _, _, name, _, _, _, hname, _⟩ := authCheck_accepted hauth
  have hcl : ∀ x, i.ev ≠ .close x := fun x => by simp [hev]
  have hnet : i.pre.net.get fd ≠ none := i.packet_present hev
  rw [show i.post = ⟨i.post.gate, i.post.net⟩ from rfl, hpost]
  constructor
  · intro x v hx
    simp only [bind, Table.get_set] at hx
    split at hx
    · rename_i hxf
      rw [hxf]
      exact i.net_present hnet (hcl fd)
    · exact i.net_present (hw.present x v hx) (hcl x)
  · intro x a hx
    exact i.net_present (hw.pending x a (Table.get_of_get_del hx).2) (hcl x)
  · intro x v hx
    simp only [bind, Table.get_set] at hx
    simp only [Table.get_del]
    split at hx
    · rename_i hxf
      exact if_pos hxf
    · rename_i hxf
      rw [if_neg hxf]
      exact hw.apart x v hx
  · intro x v hx
    simp only [bind, Table.get_set] at hx
    split at hx
    · rw [← Option.some.inj hx]
      exact (hw.online name u hname).1
    · exact hw.bound x v hx
  · intro n v hv
    refine ⟨(hw.online n v hv).1, ?_⟩
    simp only [bind, Heap.cell_set]
    split
    · rename_i hvu
      rw [← hvu]
      exact (hw.online n v hv).2
    · exact (hw.online n v hv).2
  · intro n v x hv hx
    simp only [bind, Heap.cell_set] at hx
    simp only [bind, Table.get_set]
    split at hx
    · rename_i hvu
      rw [if_pos (Option.some.inj hx).symm, hvu]
    · have hcx := hw.current n v x hv hx
      have hxf : x ≠ fd := by
        rintro rfl
        exact hhs (hw.apart x v hcx)
      rw [if_neg hxf]
      exact hcx

theorem Item.wellFormed_sever (hw : WellFormed i.pre) {fd : Fd}
    (hev : i.ev = .close fd ∨ i.ev = .error fd) (hg : Severed i.pre.gate i.post.gate fd) :
    WellFormed i.post := by
  have hcl : ∀ x, x ≠ fd → i.ev ≠ .close x := by
    intro x hx
    rcases hev with h | h
    · rw [h]
      simpa using Ne.symm hx
    · rw [h]
      simp
  have hname : ∀ u, (i.post.gate.users.cell u).username = (i.pre.gate.users.cell u).username := by
    intro u
    rw [hg.cell u]
    split <;> rfl
  constructor
  · intro x v hx
    rw [hg.connection] at hx
    obtain ⟨hne, hx⟩ := Table.get_of_get_del hx
    exact i.net_present (hw.present x v hx) (hcl x hne)
  · intro x a hx
    rw [hg.handshake] at hx
    obtain ⟨hne, hx⟩ := Table.get_of_get_del hx
    exact i.net_present (hw.pending x a hx) (hcl x hne)
  · intro x v hx
    rw [hg.connection] at hx
    obtain ⟨hne, hx⟩ := Table.get_of_get_del hx
    rw [hg.handshake, Table.get_del_ne hne]
    exact hw.apart x v hx
  · intro x v hx
    rw [hg.connection] at hx
    rw [hg.users]
    exact hw.bound x v (Table.get_of_get_del hx).2
  · intro n v hv
    rw [hg.userOnline] at hv
    rw [hg.users, hname]
    exact hw.online n v hv
  · intro n v x hv hx
    rw [hg.userOnline] at hv
    rw [hg.cell v] at hx
    rw [hg.connection]
    split at hx
    · exact absurd hx (by simp)
    · rename_i hne
      have hcx := hw.current n v x hv hx
      have hxf : x ≠ fd := by
        rintro rfl
        exact hne hcx
      rw [Table.get_del_ne hxf]
      exact hcx

theorem Item.wellFormed_login (hw : WellFormed i.pre) {name secret : Bytes}
    (hev : i.ev = .login name secret) (hg : i.post.gate = serverLogin i.pre.gate name secret) :
    WellFormed i.post := by
  have hcl : ∀ x, i.ev ≠ .close x := fun x => by simp [hev]
  rw [show i.post = ⟨i.post.gate, i.post.net⟩ from rfl, hg]
  constructor
  · intro x v hx
    exact i.net_present (hw.present x v hx) (hcl x)
  · intro x a hx
    exact i.net_present (hw.pending x a hx) (hcl x)
  · exact hw.apart
  · intro x v hx
    exact Nat.lt_succ_of_lt (hw.bound x v hx)
  · intro n v hv
    simp only [serverLogin, Table.get_set] at hv
    split at hv
    · rename_i hn
      obtain rfl := Option.some.inj hv
      exact ⟨Nat.lt_succ_self _, by simp [serverLogin, hn]⟩
    · obtain ⟨hlt, hname⟩ := hw.online n v hv
      refine ⟨Nat.lt_succ_of_lt hlt, ?_⟩
      simp only [serverLogin, Heap.cell_alloc_ne (Nat.ne_of_lt hlt)]
      exact hname
  · intro n v x hv hx
    simp only [serverLogin, Table.get_set] at hv
    split at hv
    · obtain rfl := Option.some.inj hv
      simp [serverLogin] at hx
    · have hlt := (hw.online n v hv).1
      simp only [serverLogin, Heap.cell_alloc_ne (Nat.ne_of_lt hlt)] at hx
      exact hw.current n v x hv hx

/-- What `server.logout` does to the tables: the name is gone, and so is the connection of its
user. -/
inductive LoggedOut (g g' : Gate) (name : Bytes) (acts : List Act) : Prop
  | absent (h : g.userOnline.get name = none) (hg : g' = g) (hacts : acts = [])
  | away {u : UserId} (h : g.userOnline.get name = some u) (hfd : (g.users.cell u).fd = none)
    (hg : g' = { g with userOnline := g.userOnline.del name }) (hacts : acts = [])
  | connected {u : UserId} {fd : Fd} (h : g.userOnline.get name = some u)
    (hfd : (g.users.cell u).fd = some fd) (hc : g.connection.get fd = some u)
    (hg : g' = { g with
      userOnline := g.userOnline.del name
      connection := g.connection.del fd
      gsConnection := g.gsConnection.del fd })
    (hacts : acts = if (g.gsConnection.get fd).isSome then [.close fd] else [])

theorem serverLogout_loggedOut {s : State} (hw : WellFormed s) (name : Bytes) :
    LoggedOut s.gate (serverLogout s.gate name).1 name (serverLogout s.gate name).2 := by
  cases h : s.gate.userOnline.get name with
  | none => exact .absent h (by simp [serverLogout, h]) (by simp [serverLogout, h])
  | some u =>
    cases hfd : (s.gate.users.cell u).fd with
    | none =>
      rw [serverLogout_none h hfd]
      exact .away h hfd rfl rfl
    | some fd =>
      have hc := hw.current name u fd h hfd
      rw [serverLogout_some h hfd hc]
      exact .connected h hfd hc rfl rfl

theorem Item.wellFormed_logout (hw : WellFormed i.pre) {name : Bytes}
    (hev : i.ev = .logout name) (hg : i.post.gate = (serverLogout i.pre.gate name).1) :
    WellFormed i.post := by
  have hcl : ∀ x, i.ev ≠ .close x := fun x => by simp [hev]
  have hpresent : ∀ x v, i.pre.gate.connection.get x = some v → i.post.net.get x ≠ none :=
    fun x v h => i.net_present (hw.present x v h) (hcl x)
  have hpending : ∀ x a, i.pre.gate.handshake.get x = some a → i.post.net.get x ≠ none :=
    fun x a h => i.net_present (hw.pending x a h) (hcl x)
  have hl := serverLogout_loggedOut hw name
  rw [← hg] at hl
  rw [show i.post = ⟨i.post.gate, i.post.net⟩ from rfl]
  cases hl with
  | absent _ hg' =>
    rw [hg']
    exact ⟨hpresent, hpending, hw.apart, hw.bound, hw.online, hw.current⟩
  | away _ _ hg' =>
    rw [hg']
    exact ⟨hpresent, hpending, hw.apart, hw.bound,
      fun n v hv => hw.online n v (Table.get_of_get_del hv).2,
      fun n v x hv => hw.current n v x (Table.get_of_get_del hv).2⟩
  | @connected u fd hu hfd hc hg' =>
    rw [hg']
    refine ⟨fun x v hx => hpresent x v (Table.get_of_get_del hx).2, hpending,
      fun x v hx => hw.apart x v (Table.get_of_get_del hx).2,
      fun x v hx => hw.bound x v (Table.get_of_get_del hx).2,
      fun n v hv => hw.online n v (Table.get_of_get_del hv).2, ?_⟩
    intro n v x hv hx
    obtain ⟨hn, hv'⟩ := Table.get_of_get_del hv
    have hcx := hw.current n v x hv' hx
    -- two online users do not share a connection, and one user has one name
    have hxf : x ≠ fd := by
      rintro rfl
      rw [hc] at hcx
      obtain rfl := Option.some.inj hcx
      exact hn (hw.name_inj hv' hu)
    simp only [Table.get_del_ne hxf]
    exact hcx

/-- **Every step keeps the tables consistent.** -/
theorem Item.wellFormed (i : Item c) (hw : WellFormed i.pre) : WellFormed i.post := by
  cases i.kind with
  | quiet hg hhs _ hcl => exact i.wellFormed_quiet hw hg hhs fun fd => (hcl fd).1
  | accept h => exact i.wellFormed_accept hw h
  | sever hev hg => exact i.wellFormed_sever hw hev hg
  | login hev hg => exact i.wellFormed_login hw hev hg
  | logout hev hg _ => exact i.wellFormed_logout hw hev hg

theorem Run.wellFormed {tr : List (Item c)} {s : State} (h : (machine c).Run tr s) :
    WellFormed s :=
  Machine.Run.invariant wellFormed_init Item.wellFormed h

end LsServer.GameGate
