import LsServer.GameGate.Live

/-!
# Packets of a superseded connection

`do_auth` shuts the old connection of the user down, but `connection[fd1]` names the user until
the close event of `fd1`, and nothing in `do_request` compares `fd1` with `u.fd`. So a packet of
`fd1` that is handled in between is served as if it came from the new connection.

Source: GameGate.lua 153-179 for the takeover, 227-282 for `do_request`; snax/gateserver.lua 66-72
for packets that are dropped.

* `Item.Supersedes`: the step accepts a handshake of `u` on `fd2`, and `fd1` was a connection of `u`
  before.
* `Item.Fenced`: no handler is invoked for `u`, and its cache, index and version are as before.
* The condition is on the state before the packet: `gateserver` has `fd₁` as connected or not,
  `connection` has it or not, and the length of the packet.

`socketdriver.shutdown` stops reading after what has been received; what was received before lies in
the queue of the service, and that is where these packets come from.

Results:
* `fenced_iff`: a packet of a superseded connection is without effect exactly if `gateserver`
  drops it, the connection has been forgotten, or the packet is too short;
* `stale_packet_served`: a run in which the handler is invoked for a packet of the old connection.
-/

namespace LsServer.GameGate

open LsServer.Lib LsServer.Lua LsServer.Crypt

/-- The responses cached for `u`, by session. -/
def cacheOf (g : Gate) (u : UserId) (session : Nat) : Option Entry :=
  ((g.users.cell u).response.get session).map g.entries.cell

variable {c : Conf}

/-- The step binds `u` to `fd2`, and `fd1` was a connection of `u` before. -/
structure Item.Supersedes (a : Item c) (fd1 fd2 : Fd) (u : UserId) (idx : Number) : Prop where
  accepts : a.Accepts fd2 u idx
  ne : fd1 ≠ fd2
  old : a.pre.gate.connection.get fd1 = some u ∨ (a.pre.gate.users.cell u).fd = some fd1

/-- The step neither runs `request_handler` for `u` nor changes its cache, index or version. -/
structure Item.Fenced (i : Item c) (u : UserId) : Prop where
  invoke : ∀ k m, .invoke k (i.pre.gate.users.cell u).username m ∉ i.out
  cache : cacheOf i.post.gate u = cacheOf i.pre.gate u
  index : (i.post.gate.users.cell u).index = (i.pre.gate.users.cell u).index
  version : (i.post.gate.users.cell u).version = (i.pre.gate.users.cell u).version

/-- A connection that is past its handshake and was last bound to `u`. -/
def Past (fd : Fd) (u : UserId) (s : State) : Prop :=
  s.gate.handshake.get fd = none ∧
    (s.gate.connection.get fd = some u ∨ s.gate.connection.get fd = none)

theorem Item.past (i : Item c) (hw : WellFormed i.pre) {fd : Fd} {u : UserId}
    (hp : Past fd u i.pre) (hne : ∀ addr, i.ev ≠ .connect fd addr) : Past fd u i.post := by
  obtain ⟨hhs, hc⟩ := hp
  cases i.kind with
  | quiet hg hhs' =>
    have hc' : i.post.gate.connection = i.pre.gate.connection := hg.connection
    refine ⟨?_, by rw [hc']; exact hc⟩
    by_contra hn
    obtain ⟨addr, ha⟩ := Option.ne_none_iff_exists'.mp hn
    obtain h | h := hhs' fd addr ha
    · rw [hhs] at h
      exact absurd h (by simp)
    · exact hne addr h
  | @accept x v idx h =>
    obtain ⟨addr, hpost, -⟩ := h.post
    have hx : fd ≠ x := by
      rintro rfl
      exact h.handshake hhs
    rw [Past, hpost]
    simp only [bind, Table.get_del_ne hx, Table.get_set_ne hx]
    exact ⟨hhs, hc⟩
  | @sever x _ hg =>
    rw [Past, hg.handshake, hg.connection]
    by_cases hx : fd = x
    · rw [hx]
      simp
    · rw [Table.get_del_ne hx, Table.get_del_ne hx]
      exact ⟨hhs, hc⟩
  | login _ hg =>
    rw [Past, hg]
    exact ⟨hhs, hc⟩
  | @logout name _ hg _ =>
    have hl := serverLogout_loggedOut hw name
    rw [← hg] at hl
    cases hl with
    | absent _ hg' =>
      rw [Past, hg']
      exact ⟨hhs, hc⟩
    | away _ _ hg' =>
      rw [Past, hg']
      exact ⟨hhs, hc⟩
    | @connected v x _ _ _ hg' =>
      rw [Past, hg']
      refine ⟨hhs, ?_⟩
      by_cases hx : fd = x
      · rw [hx]
        simp
      · simp only [Table.get_del_ne hx]
        exact hc

theorem Item.Supersedes.connected {a : Item c} (hw : WellFormed a.pre) {fd1 fd2 : Fd}
    {u : UserId} {idx : Number} (h : a.Supersedes fd1 fd2 u idx) :
    a.pre.gate.connection.get fd1 = some u := by
  rcases h.old with hc | hfd
  · exact hc
  · obtain ⟨data, -, hauth⟩ := h.accepts.packet
    obtain ⟨_, _, _, name, _, _, _, hu, _⟩ := authCheck_accepted hauth
    exact hw.current name u fd1 hu hfd

theorem Item.Supersedes.past {a : Item c} (hw : WellFormed a.pre) {fd1 fd2 : Fd} {u : UserId}
    {idx : Number} (h : a.Supersedes fd1 fd2 u idx) : Past fd1 u a.post := by
  have hc := h.connected hw
  obtain ⟨addr, hpost, -⟩ := h.accepts.post
  rw [Past, hpost]
  simp only [bind, Table.get_del_ne h.ne, Table.get_set_ne h.ne]
  exact ⟨hw.apart fd1 u hc, Or.inl hc⟩

/-- A packet that reaches `do_request`. -/
theorem Item.request_post (i : Item c) {fd : Fd} {data : Bytes} (hev : i.ev = .packet fd data)
    (hgs : i.pre.gate.gsConnection.get fd = some true)
    (hhs : i.pre.gate.handshake.get fd = none) :
    i.post.gate = (request c i.pre.gate fd data).1 ∧
      i.out = (request c i.pre.gate fd data).2 := by
  have hh := i.handled
  rw [hev] at hh
  generalize i.post.gate = g', i.out = acts at hh
  cases hh with
  | dropped h => exact absurd hgs h
  | refused _ _ h => simp [hhs] at h
  | accepted _ h => simp [hhs] at h
  | request => exact ⟨rfl, rfl⟩

/-- A request that is served leaves a trace in its user. -/
theorem Item.fenced_request (i : Item c) {fd : Fd} {u : UserId} {data : Bytes}
    (hev : i.ev = .packet fd data) (hp : Past fd u i.pre)
    (hgs : i.pre.gate.gsConnection.get fd = some true) :
    i.Fenced u ↔ i.pre.gate.connection.get fd ≠ some u ∨ data.length < 4 := by
  obtain ⟨hpost, hout⟩ := i.request_post hev hgs hp.1
  have hreq := doRequest_requested c i.pre.gate fd data
  have hinv : ∀ k n m, Act.invoke k n m ∈ i.out ↔
      Act.invoke k n m ∈ (doRequest c i.pre.gate fd data).2.1 := fun k n m => by
    rw [hout]
    exact mem_settle (by simp)
  have husers : i.post.gate.users = (doRequest c i.pre.gate fd data).1.users := by
    rw [hpost]
    exact settle_users fd _
  have hentries : i.post.gate.entries = (doRequest c i.pre.gate fd data).1.entries := by
    rw [hpost]
    exact settle_entries fd _
  generalize (doRequest c i.pre.gate fd data).1 = g', (doRequest c i.pre.gate fd data).2.1 = acts,
    (doRequest c i.pre.gate fd data).2.2 = ok at hreq hinv husers hentries
  have huser : ∀ {v}, i.pre.gate.connection.get fd = some v → v = u := fun hv => by
    rcases hp.2 with h | h <;> simp_all
  -- the packet has no effect
  have quiet : i.post.gate.users = i.pre.gate.users → i.post.gate.entries = i.pre.gate.entries →
      (∀ k n m, Act.invoke k n m ∉ i.out) → i.Fenced u := fun h1 h2 h3 =>
    ⟨fun k m => h3 k _ m, by unfold cacheOf; rw [h1, h2], by rw [h1], by rw [h1]⟩
  cases hreq with
  | invalid hc => exact iff_of_true (quiet husers hentries (by simp [hinv])) (by simp [hc])
  | short hc hlen => exact iff_of_true (quiet husers hentries (by simp [hinv])) (Or.inr hlen)
  | @fresh v hc hlen hs =>
    obtain rfl := huser hc
    refine iff_of_false (fun hf => ?_) (by simp [hc, hlen])
    exact hf.invoke i.pre.gate.nextTask (contentOf data)
      ((hinv _ _ _).mpr (by simp [invokeHandler]))
  | @conflict v j hc hlen hs hv hr =>
    obtain rfl := huser hc
    refine iff_of_false (fun hf => ?_) (by simp [hc, hlen])
    have := congrFun hf.cache (sessionOf data)
    simp [cacheOf, husers, hentries, dropEntry, hs] at this
  | @reuse v j hc hlen hs hv hr =>
    obtain rfl := huser hc
    refine iff_of_false (fun hf => ?_) (by simp [hc, hlen])
    exact hf.invoke i.pre.gate.nextTask (contentOf data)
      ((hinv _ _ _).mpr (by simp [invokeHandler, dropEntry]))
  | @pending v j hc hlen hs hv hr =>
    obtain rfl := huser hc
    refine iff_of_false (fun hf => ?_) (by simp [hc, hlen])
    have := congrFun hf.cache (sessionOf data)
    simp only [cacheOf, husers, hentries, redirect, hs, Option.map_some, Heap.cell_set_self,
      Option.some.injEq] at this
    exact hv (by rw [← this])
  | @again v j hc hlen hs hv hr =>
    obtain rfl := huser hc
    refine iff_of_false (fun hf => ?_) (by simp [hc, hlen])
    have hfin := finish_finished c (redirect i.pre.gate fd v j) v j
    have hcache := congrFun hf.cache (sessionOf data)
    simp only [cacheOf, husers, hentries, hs, Option.map_some, Option.map_eq_some_iff] at hcache
    obtain ⟨j', hj', hcell⟩ := hcache
    have hj : j' = j := by
      have := hfin.shrinks _ _ hj'
      simp only [redirect, hs, Option.some.injEq] at this
      exact this.symm
    subst hj
    refine hv ?_
    rw [← hcell, hfin.version]
    simp [redirect]

/-- **Which packets of a superseded connection are without effect.** -/
theorem fenced_iff {pre mid post : List (Item c)} {a i : Item c} {s : State}
    (h : (machine c).Run (pre ++ a :: (mid ++ i :: post)) s) {fd1 fd2 : Fd} {u : UserId}
    {idx : Number} (ha : a.Supersedes fd1 fd2 u idx)
    (hmid : ∀ j ∈ mid, ∀ addr, j.ev ≠ .connect fd1 addr) {data : Bytes}
    (hev : i.ev = .packet fd1 data) :
    i.Fenced u ↔ i.pre.gate.gsConnection.get fd1 ≠ some true ∨
      i.pre.gate.connection.get fd1 ≠ some u ∨ data.length < 4 := by
  have hw : WellFormed a.pre := Run.wellFormed h.split.1
  have hpast : Past fd1 u i.pre := by
    have hI : WellFormed i.pre ∧ Past fd1 u i.pre := by
      refine h.split.2.split.1.keeps (I := fun s => WellFormed s ∧ Past fd1 u s)
        ⟨a.wellFormed hw, ha.past hw⟩ fun j hj hI => ?_
      exact ⟨Item.wellFormed j hI.1, Item.past j hI.1 hI.2 (hmid j hj)⟩
    exact hI.2
  by_cases hgs : i.pre.gate.gsConnection.get fd1 = some true
  · rw [i.fenced_request hev hpast hgs]
    simp [hgs]
  · refine iff_of_true ?_ (Or.inl hgs)
    have hh := i.handled
    rw [hev] at hh
    generalize hpost : i.post.gate = g', hout : i.out = acts at hh
    cases hh with
    | dropped =>
      constructor
      · simp [hout]
      · rw [hpost]
      · rw [hpost]
      · rw [hpost]
    | _ => contradiction

/-! ## A run in which a stale packet is served -/

/-- A request of the old connection that is handled after the takeover. -/
def stalePacket : List Event := reconnect ++ [.packet 1 (bytes "move" ++ packBE 4 7)]

/-- The handshake of the second connection in `reconnect`. -/
def takeover : Bytes := handshakeOf (bytes "dQ==@cw==@MQ==") (bytes "12345678") (bytes "2")

/-- The last two steps of `stalePacket`. -/
def stalePacketItems (tr : List (Item {})) : Bool :=
  match tr with
  | [_, _, _, _, a, i] =>
    decide ((a.ev = .packet 2 takeover ∧ authCheck a.pre.gate takeover = .accepted 0 (ofInt 2) ∧
        a.pre.gate.gsConnection.get 2 = some true ∧ a.pre.gate.handshake.get 2 ≠ none ∧
        a.pre.gate.connection.get 1 = some 0) ∧
      i.ev = .packet 1 (bytes "move" ++ packBE 4 7) ∧
      i.pre.gate.gsConnection.get 1 = some true ∧ i.pre.gate.connection.get 1 = some 0 ∧
      i.out = [.invoke 0 (i.pre.gate.users.cell 0).username (bytes "move")])
  | _ => false

/-- The last two steps of `stalePacket`: the takeover and the request. -/
theorem stalePacket_run : ∃ (pre : List (Item {})) (a i : Item {}),
    (machine {}).Run (pre ++ a :: ([] ++ i :: [])) i.post ∧ a.Supersedes 1 2 0 (ofInt 2) ∧
      i.ev = .packet 1 (bytes "move" ++ packBE 4 7) ∧
      i.pre.gate.gsConnection.get 1 = some true ∧ i.pre.gate.connection.get 1 = some 0 ∧
      .invoke 0 (i.pre.gate.users.cell 0).username (bytes "move") ∈ i.out := by
  have h : ((machine {}).items (machine {}).init stalePacket).map stalePacketItems =
      some true := by
    decide +kernel
  obtain ⟨tr, hrun, hP⟩ := Machine.exists_run h
  unfold stalePacketItems at hP
  split at hP
  · rename_i i1 i2 i3 i4 a i
    obtain ⟨⟨hev, hauth, hgs, hhs, hc⟩, hi, hgsi, hci, hout⟩ := of_decide_eq_true hP
    exact ⟨[i1, i2, i3, i4], a, i, hrun,
      ⟨⟨⟨takeover, hev, hauth⟩, hgs, hhs⟩, by decide, Or.inl hc⟩, hi, hgsi, hci,
      by rw [hout]; exact List.mem_singleton_self _⟩
  · exact absurd hP (by simp)

/-- **The handler is invoked for a packet of the superseded connection.** -/
theorem stale_packet_served : ∃ (pre : List (Item {})) (a i : Item {}),
    (machine {}).Run (pre ++ a :: ([] ++ i :: [])) i.post ∧ a.Supersedes 1 2 0 (ofInt 2) ∧
      i.ev = .packet 1 (bytes "move" ++ packBE 4 7) ∧ ¬ i.Fenced 0 := by
  obtain ⟨pre, a, i, hrun, ha, hev, -, -, hinv⟩ := stalePacket_run
  exact ⟨pre, a, i, hrun, ha, hev, fun hf => hf.invoke 0 (bytes "move") hinv⟩

theorem fenced_iff_stalePacket : ∃ i : Item {}, i.ev = .packet 1 (bytes "move" ++ packBE 4 7) ∧
    (i.Fenced 0 ↔ i.pre.gate.gsConnection.get 1 ≠ some true ∨
      i.pre.gate.connection.get 1 ≠ some 0 ∨ (bytes "move" ++ packBE 4 7).length < 4) ∧
    i.pre.gate.gsConnection.get 1 = some true ∧ i.pre.gate.connection.get 1 = some 0 := by
  obtain ⟨pre, a, i, hrun, ha, hev, hgs, hc, -⟩ := stalePacket_run
  exact ⟨i, hev, fenced_iff hrun ha (by simp) hev, hgs, hc⟩

end LsServer.GameGate
