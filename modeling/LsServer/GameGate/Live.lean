import LsServer.GameGate.Invariant

/-!
# One live connection per user

A connection of a user is live while the gate has neither cut its socket nor handled its close
event. `OneLive` says that the user record names every live connection of its user, so there is at
most one. It is not an invariant: `handler.disconnect` clears `u.fd` also when the connection that
goes away is an old one of `u` and `u.fd` names a newer one (`Item.Forgets`), and then neither
`do_auth` nor `server.logout` finds the newer one again.

Source: GameGate.lua 134-148 for `handler.disconnect`, 173 for the takeover, 107-116 for
`server.logout`.

* `Live s fd u`: `connection[fd]` is `u`, and the socket is open. A connection that was shut down is
  not live, even if packets of it come until its close event.
* `Item.CutsOld` is what the takeover and the logout owe: no connection of the user stays but the
  new one.
* `Item.Forgets` is the condition: a close or error event of a connection of `u` while `u.fd` names
  another one that is open. It is a condition on the state and the event, and not on what the step
  does.

In `reconnect` a user authenticates on a second connection, then the close event of the first comes.
It clears `u.fd`, and a third connection does not cut the second.

Results:
* `oneLive_iff`: a run keeps `OneLive`, and the takeover and `server.logout` cut the live
  connection, exactly if no step forgets one;
* `two_live`: a run with two live connections of one user.
-/

namespace LsServer.GameGate

open LsServer.Lib LsServer.Lua LsServer.Crypt

/-- `fd` is an authenticated connection of `u` that the gate has not cut and whose close event it
has not handled. -/
def Live (s : State) (fd : Fd) (u : UserId) : Prop :=
  s.gate.connection.get fd = some u ∧ s.net.get fd = some .open

/-- Every live connection is the one its user record names. -/
def OneLive (s : State) : Prop := ∀ u fd, Live s fd u → (s.gate.users.cell u).fd = some fd

theorem OneLive.unique {s : State} (h : OneLive s) {u : UserId} {fd fd' : Fd}
    (hfd : Live s fd u) (hfd' : Live s fd' u) : fd = fd' :=
  Option.some.inj ((h u fd hfd).symm.trans (h u fd' hfd'))

variable {c : Conf}

/-- The step handles a close or error event of a connection whose user has a newer live one. -/
def Item.Forgets (i : Item c) : Prop :=
  ∃ fd fd' u, (i.ev = .close fd ∨ i.ev = .error fd) ∧ i.pre.gate.connection.get fd = some u ∧
    (i.pre.gate.users.cell u).fd = some fd' ∧ fd' ≠ fd ∧ Live i.pre fd' u

/-- A takeover and a `server.logout` leave no old live connection. -/
structure Item.CutsOld (i : Item c) : Prop where
  takeover : ∀ fd u idx, i.Accepts fd u idx → ∀ fd', fd' ≠ fd → ¬ Live i.post fd' u
  logout : ∀ name u, i.ev = .logout name → i.pre.gate.userOnline.get name = some u →
    ∀ fd, i.pre.gate.connection.get fd = some u → i.post.net.get fd ≠ some .open

/-! ## gateserver lists every open socket -/

/-- A socket that `gateserver` has dropped is cut. -/
def Listed (s : State) : Prop :=
  ∀ fd, s.net.get fd = some .open → s.gate.gsConnection.get fd = some true

theorem doRequest_gsConnection (c : Conf) (g : Gate) (fd : Fd) (data : Bytes) :
    (doRequest c g fd data).1.gsConnection = g.gsConnection := by
  have h := doRequest_requested c g fd data
  generalize (doRequest c g fd data).1 = g', (doRequest c g fd data).2.1 = acts,
    (doRequest c g fd data).2.2 = ok at h
  cases h with
  | again => exact (finish_finished _ _ _ _).gsConnection
  | _ => rfl

theorem resume_gsConnection (c : Conf) (g : Gate) (t : Task) (r : HandlerResult) :
    (resume c g t r).1.gsConnection = g.gsConnection := by
  unfold resume
  split
  · rfl
  · exact (finish_finished _ _ _ _).gsConnection

theorem disconnect_cuts {g : Gate} {fd x : Fd} {a : Act} (ha : a ∈ (disconnect g fd).2)
    (hcut : a.Cuts x) : x = fd := by
  obtain ⟨_, rfl⟩ | rfl := mem_disconnect ha
  · rcases hcut with h | h <;> exact absurd h (by simp)
  · rcases hcut with h | h
    · exact absurd h (by simp)
    · exact (Act.close.inj h).symm

/-- What a step does to the entry of `fd` in the table of `gateserver`: it keeps it, the entry is
new, or it is lost with the socket. -/
theorem Item.gsConnection_cases (i : Item c) (hw : WellFormed i.pre) (fd : Fd) :
    i.post.gate.gsConnection.get fd = i.pre.gate.gsConnection.get fd ∧
        (∀ addr, i.ev ≠ .connect fd addr) ∨
      (∃ addr, i.ev = .connect fd addr) ∧
        (i.post.gate.gsConnection.get fd = some true ∨ ∃ a ∈ i.out, a.Cuts fd) ∨
      i.post.gate.gsConnection.get fd ≠ some true ∧
        (i.ev = .close fd ∨ ∃ a ∈ i.out, a.Cuts fd) := by
  -- a deletion with the matching `socketdriver.close`
  have hdel : ∀ (t : Table Fd Bool) (x : Fd),
      (t.del x).get fd = t.get fd ∨ (t.del x).get fd ≠ some true ∧ fd = x ∧ (t.get x).isSome := by
    intro t x
    by_cases hx : fd = x
    · subst hx
      cases h : t.get fd with
      | none => simp
      | some b => exact Or.inr ⟨by simp, rfl, rfl⟩
    · exact Or.inl (Table.get_del_ne hx)
  have hh := i.handled
  generalize he : i.ev = e, i.post.gate = g', i.out = acts at hh
  cases hh with
  | connect x addr =>
    by_cases hx : fd = x
    · subst hx
      refine Or.inr (Or.inl ⟨⟨addr, rfl⟩, ?_⟩)
      obtain h | h := msgOpen_cases c i.pre.gate fd addr
      · rw [h]
        exact Or.inr ⟨.shutdown fd, by simp, Or.inl rfl⟩
      · rw [h]
        exact Or.inl (Table.get_set_self _ _ _)
    · refine Or.inl ⟨?_, by simp [Ne.symm hx]⟩
      obtain h | h := msgOpen_cases c i.pre.gate x addr
      · rw [h]
      · rw [h]
        exact Table.get_set_ne hx
  | dropped => exact Or.inl ⟨rfl, by simp⟩
  | @refused x =>
    obtain h | ⟨h, rfl, -⟩ := hdel i.pre.gate.gsConnection x
    · exact Or.inl ⟨h, by simp⟩
    · exact Or.inr (Or.inr ⟨h, Or.inr ⟨.close fd, by simp, Or.inr rfl⟩⟩)
  | accepted => exact Or.inl ⟨rfl, by simp⟩
  | @request x data =>
    unfold request
    obtain hs | ⟨-, -, hs⟩ := settle_eq x (doRequest c i.pre.gate x data)
    · rw [hs, doRequest_gsConnection]
      exact Or.inl ⟨rfl, by simp⟩
    · rw [hs, doRequest_gsConnection]
      obtain h | ⟨h, rfl, hsome⟩ := hdel i.pre.gate.gsConnection x
      · exact Or.inl ⟨h, by simp⟩
      · exact Or.inr (Or.inr ⟨h, Or.inr ⟨.close fd, by simp [hsome], Or.inr rfl⟩⟩)
  | @complete k t r =>
    unfold complete
    obtain hs | ⟨-, -, hs⟩ :=
      settle_eq t.fd (resume c { i.pre.gate with tasks := i.pre.gate.tasks.del k } t r)
    · rw [hs, resume_gsConnection]
      exact Or.inl ⟨rfl, by simp⟩
    · rw [hs, resume_gsConnection]
      obtain h | ⟨h, hfd, hsome⟩ := hdel i.pre.gate.gsConnection t.fd
      · exact Or.inl ⟨h, by simp⟩
      · exact Or.inr (Or.inr ⟨h, Or.inr ⟨.close fd, by simp [hsome, hfd], Or.inr rfl⟩⟩)
  | close x =>
    by_cases hx : fd = x
    · subst hx
      refine Or.inr (Or.inr ⟨?_, Or.inl rfl⟩)
      simp only [msgClose, disconnect_gsConnection]
      split
      · simp
      · split
        · simp
        · assumption
    · refine Or.inl ⟨?_, by simp⟩
      have hset : (if i.pre.gate.gsConnection.get x = some true then
          i.pre.gate.gsConnection.set x false else i.pre.gate.gsConnection).get fd =
            i.pre.gate.gsConnection.get fd := by
        split
        · exact Table.get_set_ne hx
        · rfl
      simp only [msgClose, disconnect_gsConnection]
      split
      · rw [Table.get_del_ne hx, hset]
      · exact hset
  | error x =>
    simp only [msgError, disconnect_gsConnection]
    by_cases hc : (i.pre.gate.connection.get x).isSome
    · rw [if_pos hc]
      obtain h | ⟨h, rfl, -⟩ := hdel i.pre.gate.gsConnection x
      · exact Or.inl ⟨h, by simp⟩
      · exact Or.inr (Or.inr ⟨h, Or.inr ⟨.shutdown fd, by simp, Or.inl rfl⟩⟩)
    · rw [if_neg hc]
      exact Or.inl ⟨rfl, by simp⟩
  | login => exact Or.inl ⟨rfl, by simp⟩
  | logout name =>
    cases serverLogout_loggedOut hw name with
    | absent _ hg _ =>
      rw [hg]
      exact Or.inl ⟨rfl, by simp⟩
    | away _ _ hg _ =>
      rw [hg]
      exact Or.inl ⟨rfl, by simp⟩
    | @connected u x _ _ _ hg hacts =>
      rw [hg, hacts]
      obtain h | ⟨h, rfl, hsome⟩ := hdel i.pre.gate.gsConnection x
      · exact Or.inl ⟨h, by simp⟩
      · exact Or.inr (Or.inr ⟨h, Or.inr ⟨.close fd, by simp [hsome], Or.inr rfl⟩⟩)

/-- `gateserver` lists a connection from its connect event on. -/
theorem Item.gsConnection_true (i : Item c) (hw : WellFormed i.pre) {fd : Fd}
    (h : i.post.gate.gsConnection.get fd = some true) :
    i.pre.gate.gsConnection.get fd = some true ∨ ∃ addr, i.ev = .connect fd addr := by
  rcases i.gsConnection_cases hw fd with ⟨hs, -⟩ | ⟨hev, -⟩ | ⟨hn, -⟩
  · exact Or.inl (hs ▸ h)
  · exact Or.inr hev
  · exact absurd h hn

theorem Item.listed (i : Item c) (hw : WellFormed i.pre) (hl : Listed i.pre) :
    Listed i.post := by
  intro fd hopen
  obtain ⟨hev, hcut⟩ := i.net_open.mp hopen
  rcases i.gsConnection_cases hw fd with ⟨hs, hne⟩ | ⟨-, h | ⟨a, ha, hc⟩⟩ | ⟨-, hcl | ⟨a, ha, hc⟩⟩
  · rw [hs]
    exact hl fd (hev.resolve_left fun ⟨addr, h⟩ => hne addr h).2
  · exact h
  · exact absurd hc (hcut a ha)
  · rcases hev with ⟨addr, ha⟩ | ha
    · exact absurd (hcl.symm.trans ha) (by simp)
    · exact absurd hcl ha.1
  · exact absurd hc (hcut a ha)

theorem Run.listed {tr : List (Item c)} {s : State} (h : (machine c).Run tr s) : Listed s := by
  have : WellFormed s ∧ Listed s := by
    refine Machine.Run.invariant (I := fun s => WellFormed s ∧ Listed s)
      ⟨wellFormed_init, fun fd h => ?_⟩ (fun i hi => ?_) h
    · exact absurd h (by simp [machine])
    · exact ⟨Item.wellFormed i hi.1, Item.listed i hi.1 hi.2⟩
  exact this.2

/-! ## One step -/

/-- A connection live after a step that did not bind it was live before. -/
theorem Item.live_pre (i : Item c) (hw : WellFormed i.pre) {fd : Fd} {u : UserId}
    (hc : i.pre.gate.connection.get fd = some u) (ho : i.post.net.get fd = some .open) :
    Live i.pre fd u := by
  obtain ⟨⟨addr, hev⟩ | ⟨-, hpre⟩, -⟩ := i.net_open.mp ho
  · exact absurd (i.connect_fresh hev) (hw.present fd u hc)
  · exact ⟨hc, hpre⟩

/-- The takeover shuts the connection `u.fd` down. -/
theorem Item.Accepts.shuts {i : Item c} {fd : Fd} {u : UserId} {idx : Number}
    (h : i.Accepts fd u idx) {fd' : Fd} (hfd : (i.pre.gate.users.cell u).fd = some fd') :
    i.post.net.get fd' ≠ some .open := by
  obtain ⟨addr, -, hout⟩ := h.post
  intro ho
  refine (i.net_open.mp ho).2 (.shutdown fd') ?_ (Or.inl rfl)
  rw [hout]
  simp [bind, hfd]

/-- **A step that forgets nothing keeps `OneLive`.** -/
theorem Item.oneLive (i : Item c) (hw : WellFormed i.pre) (hone : OneLive i.pre)
    (hf : ¬ i.Forgets) : OneLive i.post := by
  intro u fd ⟨hc, ho⟩
  cases i.kind with
  | quiet hg =>
    have hc' : i.post.gate.connection = i.pre.gate.connection := hg.connection
    rw [hc'] at hc
    have hfd : (i.post.gate.users.cell u).fd = (i.pre.gate.users.cell u).fd := hg.fd u
    rw [hfd]
    exact hone u fd (i.live_pre hw hc ho)
  | @accept x v idx h =>
    obtain ⟨addr, hpost, -⟩ := h.post
    rw [hpost] at hc ⊢
    simp only [bind, Table.get_set] at hc
    simp only [bind, Heap.cell_set]
    split at hc
    · rename_i hx
      rw [if_pos (Option.some.inj hc).symm, hx]
    · have hfd := hone u fd (i.live_pre hw hc ho)
      split
      · rename_i huv
        rw [huv] at hfd
        exact absurd ho (h.shuts hfd)
      · exact hfd
  | @sever x hev hg =>
    rw [hg.connection] at hc
    obtain ⟨hx, hc⟩ := Table.get_of_get_del hc
    have hlive := i.live_pre hw hc ho
    rw [hg.cell u]
    split
    · rename_i hcx
      exact absurd ⟨x, fd, u, hev, hcx, hone u fd hlive, hx, hlive⟩ hf
    · exact hone u fd hlive
  | login hev hg =>
    rw [hg] at hc ⊢
    have hlive := i.live_pre hw hc ho
    simp only [serverLogin, Heap.cell_alloc_ne (Nat.ne_of_lt (hw.bound fd u hc))]
    exact hone u fd hlive
  | @logout name hev hg _ =>
    have hl := serverLogout_loggedOut hw name
    rw [← hg] at hl
    cases hl with
    | absent _ hg' _ =>
      rw [hg'] at hc ⊢
      exact hone u fd (i.live_pre hw hc ho)
    | away _ _ hg' _ =>
      rw [hg'] at hc ⊢
      exact hone u fd (i.live_pre hw hc ho)
    | connected _ _ _ hg' _ =>
      rw [hg'] at hc ⊢
      exact hone u fd (i.live_pre hw (Table.get_of_get_del hc).2 ho)

/-- A step that forgets a live connection breaks `OneLive`. -/
theorem Item.Forgets.not_oneLive {i : Item c} (h : i.Forgets) : ¬ OneLive i.post := by
  obtain ⟨fd, fd', u, hev, hc, hfd, hne, hlive⟩ := h
  have hcl : i.ev ≠ .close fd' := by
    rcases hev with h | h
    · simp [h, Ne.symm hne]
    · simp [h]
  have hcuts : ∀ a ∈ i.out, ¬ a.Cuts fd' := by
    intro a ha hcut
    have hh := i.handled
    generalize he : i.ev = e, i.post.gate = g', i.out = acts at hh ha
    rw [he] at hev
    cases hh with
    | close x =>
      obtain h | h := hev
      · rw [Event.close.inj h] at ha
        exact hne (disconnect_cuts ha hcut)
      · exact absurd h (by simp)
    | error x =>
      obtain h | h := hev
      · exact absurd h (by simp)
      · rw [Event.error.inj h] at ha
        rcases List.mem_cons.mp ha with rfl | ha
        · rcases hcut with h' | h'
          · exact hne (Act.shutdown.inj h').symm
          · exact absurd h' (by simp)
        · exact hne (disconnect_cuts ha hcut)
    | _ => rcases hev with h | h <;> exact absurd h (by simp)
  have hpost : Live i.post fd' u ∧ (i.post.gate.users.cell u).fd = none := by
    refine ⟨⟨?_, i.net_open.mpr ⟨Or.inr ⟨hcl, hlive.2⟩, hcuts⟩⟩, ?_⟩
    all_goals
      cases i.kind with
      | quiet _ _ _ hq => exact absurd hev (by simpa using hq fd)
      | accept h' =>
        obtain ⟨data, hp, -⟩ := h'.packet
        rw [hp] at hev
        exact absurd hev (by simp)
      | @sever x hev' hg =>
        obtain rfl : x = fd := by
          rcases hev with h | h <;> rw [h] at hev' <;> simpa [eq_comm] using hev'
        first
        | rw [hg.connection, Table.get_del_ne hne]
          exact hlive.1
        | rw [hg.cell u, if_pos hc]
      | login hev' => rw [hev'] at hev; exact absurd hev (by simp)
      | logout hev' => rw [hev'] at hev; exact absurd hev (by simp)
  intro hone
  have := hone u fd' hpost.1
  rw [hpost.2] at this
  exact absurd this (by simp)

/-- In a state with one live connection, the takeover and `server.logout` cut it. -/
theorem Item.cutsOld (i : Item c) (hw : WellFormed i.pre) (hl : Listed i.pre)
    (hone : OneLive i.pre) (hone' : OneLive i.post) : i.CutsOld := by
  constructor
  · intro fd u idx h fd' hne hlive
    have hfd := hone' u fd' hlive
    obtain ⟨addr, hpost, -⟩ := h.post
    rw [hpost] at hfd
    simp only [bind, Heap.cell_set_self] at hfd
    exact hne (Option.some.inj hfd).symm
  · intro name u hev hu fd hc ho
    have hlive := i.live_pre hw hc ho
    have hfd := hone u fd hlive
    have hh := i.handled
    rw [hev] at hh
    have hout : i.out = (serverLogout i.pre.gate name).2 := by
      generalize i.post.gate = g', i.out = acts at hh ⊢
      cases hh with
      | logout => rfl
    have hg := serverLogout_some hu hfd hc
    refine (i.net_open.mp ho).2 (.close fd) ?_ (Or.inr rfl)
    rw [hout, hg]
    simp [hl fd hlive.2]

/-! ## Runs -/

theorem oneLive_init : OneLive (machine c).init := fun u fd h => by
  simp [Live, machine] at h

/-- **Exactly the runs that forget no connection keep one live connection per user**, and in them
every takeover and every `server.logout` cuts the live connection. -/
theorem oneLive_iff {tr : List (Item c)} {s : State} (h : (machine c).Run tr s) :
    (∀ i ∈ tr, OneLive i.post ∧
        (∀ u fd fd', Live i.post fd u → Live i.post fd' u → fd = fd') ∧ Item.CutsOld i) ↔
      ∀ i ∈ tr, ¬ Item.Forgets i := by
  constructor
  · intro hall i hi hf
    exact hf.not_oneLive (hall i hi).1
  · intro hf i hi
    obtain ⟨a, b, rfl⟩ := List.append_of_mem hi
    have hone : OneLive i.pre := by
      have hpath := h.split.1
      have : WellFormed i.pre ∧ OneLive i.pre := by
        refine hpath.keeps (I := fun s => WellFormed s ∧ OneLive s)
          ⟨wellFormed_init, oneLive_init⟩ fun j hj hI => ?_
        exact ⟨Item.wellFormed j hI.1, Item.oneLive j hI.1 hI.2 (hf j (by simp [hj]))⟩
      exact this.2
    have hw : WellFormed i.pre := Run.wellFormed h.split.1
    have hone' := Item.oneLive i hw hone (hf i hi)
    exact ⟨hone', fun u fd fd' => hone'.unique,
      Item.cutsOld i hw (Run.listed h.split.1) hone hone'⟩

/-! ## Concrete runs -/

/-- The first packet of a client that knows the name and the secret. -/
def handshakeOf (name secret index : Bytes) : Bytes :=
  base64encode name ++ bytes ":" ++ index ++ bytes ":" ++
    base64encode ((hmac64 (hashkey index) secret).getD [])

/-- A user who connects twice. -/
def reconnect : List Event :=
  let name := bytes "dQ==@cw==@MQ=="
  let secret := bytes "12345678"
  [.login name secret,
   .connect 1 (bytes "10.0.0.1:1"), .packet 1 (handshakeOf name secret (bytes "1")),
   .connect 2 (bytes "10.0.0.1:2"), .packet 2 (handshakeOf name secret (bytes "2"))]

theorem reconnect_oneLive : ∃ tr s, (machine {}).Run tr s ∧ tr.map (·.ev) = reconnect ∧
    Live s 2 0 ∧ ∀ i ∈ tr, OneLive i.post ∧
      (∀ u fd fd', Live i.post fd u → Live i.post fd' u → fd = fd') ∧ Item.CutsOld i := by
  have h : ((machine {}).items (machine {}).init reconnect).map (fun tr =>
      let s := Machine.last (machine {}).init tr
      decide (tr.map (·.ev) = reconnect ∧
        s.gate.connection.get 2 = some 0 ∧ s.net.get 2 = some .open)) = some true := by
    decide +kernel
  obtain ⟨tr, hrun, hP⟩ := Machine.exists_run h
  obtain ⟨hev, hlive⟩ := of_decide_eq_true hP
  refine ⟨tr, _, hrun, hev, hlive, (oneLive_iff hrun).mpr ?_⟩
  rintro i hi ⟨fd, -, -, hfd, -⟩
  have hmem : i.ev ∈ reconnect := hev ▸ List.mem_map_of_mem hi
  rcases hfd with h | h <;> (rw [h] at hmem; simp [reconnect] at hmem)

/-- Two connections of one user, the late close event of the first, then a third connection. -/
def lateClose : List Event :=
  let name := bytes "dQ==@cw==@MQ=="
  let secret := bytes "12345678"
  [.login name secret,
   .connect 1 (bytes "10.0.0.1:1"), .packet 1 (handshakeOf name secret (bytes "1")),
   .connect 2 (bytes "10.0.0.1:2"), .packet 2 (handshakeOf name secret (bytes "2")),
   .close 1,
   .connect 3 (bytes "10.0.0.1:3"), .packet 3 (handshakeOf name secret (bytes "3"))]

/-- **Two live connections of one user.** -/
theorem two_live : ∃ tr s, (machine {}).Run tr s ∧ tr.map (·.ev) = lateClose ∧
    Live s 2 0 ∧ Live s 3 0 ∧ ¬ OneLive s := by
  have h : ((machine {}).items (machine {}).init lateClose).map (fun tr =>
      let s := Machine.last (machine {}).init tr
      decide (tr.map (·.ev) = lateClose ∧
        (s.gate.connection.get 2 = some 0 ∧ s.net.get 2 = some .open) ∧
        (s.gate.connection.get 3 = some 0 ∧ s.net.get 3 = some .open))) = some true := by
    decide +kernel
  obtain ⟨tr, hrun, hP⟩ := Machine.exists_run h
  obtain ⟨hev, h2, h3⟩ := of_decide_eq_true hP
  exact ⟨tr, _, hrun, hev, h2, h3, fun hone => absurd (hone.unique h2 h3) (by decide)⟩

end LsServer.GameGate
