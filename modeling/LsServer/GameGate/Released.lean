import LsServer.GameGate.Live

/-!
# Closed connections are released

A connection that `handler.connect` has accepted is in the table of `gateserver` until
`closeclient` is called for it; only then does its descriptor go. `handler.disconnect` calls it in
the branch with an entry in `connection`. A connection whose first packet has not been handled
has none, and stays: after its close event the table says `false` for it, and no other event will
come.

Source: snax/gateserver.lua `closeclient` 25-31, `MSG.close` 105-117; GameGate.lua
`handler.disconnect` 134-150.

* `Item.Opens` is a connect event that was accepted. `Item.Closes` is the close or error event.
* `Staged`: a connection in the table of `gateserver` is in its handshake (an entry in `handshake`)
  or behind it (one in `connection`).
* `Cleared`: no table has an entry of the connection. `ReleasesAll` asks in addition that
  `closeclient` has closed the descriptor.
* `Item.AfterHandshake` is the condition, on the state before a close or error event.

The entry `false` of a leaked connection stays forever, with its descriptor; `clientNumber` is
counted down all the same, so `maxclient` does not bound the number of descriptors.

Results:
* `Item.stage`: what a step does to the three entries of a connection;
* `released_iff`: every close and error event of a run releases its connection exactly if none of
  them meets a connection in its handshake;
* `leaked_connection`: a client that connects and goes away.
-/

namespace LsServer.GameGate

open LsServer.Lib LsServer.Lua

variable {c : Conf}

/-- The step handles the close or error event of `fd`. -/
def Item.Loses (i : Item c) (fd : Fd) : Prop := i.ev = .close fd ∨ i.ev = .error fd

/-- The step accepts a new connection. -/
def Item.Opens (i : Item c) (fd : Fd) : Prop :=
  (∃ addr, i.ev = .connect fd addr) ∧ .start fd ∈ i.out

/-- `closeclient(fd)` is called in the step, if `gateserver` has an entry for `fd`. -/
def Item.Closes (i : Item c) (fd : Fd) : Prop :=
  i.post.gate.gsConnection.get fd = none ∧
    (i.pre.gate.gsConnection.get fd ≠ none → .close fd ∈ i.out)

/-- What a step does to the entries of `fd`. -/
inductive Item.Stage (i : Item c) (fd : Fd) : Prop
  | kept (hev : ¬ i.Loses fd)
    (hgs : i.post.gate.gsConnection.get fd = i.pre.gate.gsConnection.get fd)
    (hhs : i.post.gate.handshake.get fd = i.pre.gate.handshake.get fd)
    (hc : i.post.gate.connection.get fd = i.pre.gate.connection.get fd)
  | opened (hev : i.Opens fd) (hgs : i.post.gate.gsConnection.get fd = some true)
    (hhs : i.post.gate.handshake.get fd ≠ none)
  | refused (hev : ¬ i.Loses fd) (hcl : i.Closes fd) (hhs : i.post.gate.handshake.get fd = none)
  | accepted (hev : ¬ i.Loses fd)
    (hgs : i.post.gate.gsConnection.get fd = i.pre.gate.gsConnection.get fd)
    (hhs : i.post.gate.handshake.get fd = none) (hc : i.post.gate.connection.get fd ≠ none)
  | closed (hev : ¬ i.Loses fd) (hc : i.pre.gate.connection.get fd ≠ none) (hcl : i.Closes fd)
    (hhs : i.post.gate.handshake.get fd = i.pre.gate.handshake.get fd)
  | ended (hev : i.Loses fd) (hc : i.pre.gate.connection.get fd ≠ none) (hcl : i.Closes fd)
    (hhs : i.post.gate.handshake.get fd = none) (hc' : i.post.gate.connection.get fd = none)
  | left (hev : i.Loses fd) (hc : i.pre.gate.connection.get fd = none)
    (hgs : i.post.gate.gsConnection.get fd = none ↔ i.pre.gate.gsConnection.get fd = none)
    (hhs : i.post.gate.handshake.get fd = none) (hc' : i.post.gate.connection.get fd = none)

/-- A request ends. -/
theorem Item.stage_settle (i : Item c) (fd : Fd) {x : Fd} {y : Gate × List Act × Bool}
    (hev : ¬ i.Loses fd) (hs : Served i.pre.gate y.1)
    (hgs : y.1.gsConnection = i.pre.gate.gsConnection)
    (hpost : i.post.gate = (settle x y).1) (hout : i.out = (settle x y).2) : i.Stage fd := by
  obtain h | ⟨-, hc, h⟩ := settle_eq x y
  · rw [h] at hpost
    exact .kept hev (by rw [hpost, hgs]) (by rw [hpost, hs.handshake])
      (by rw [hpost, hs.connection])
  · rw [h, hgs] at hpost hout
    rw [hs.connection] at hc
    by_cases hx : fd = x
    · subst hx
      refine .closed hev (Option.isSome_iff_ne_none.mp hc) ⟨by simp [hpost], fun hne => ?_⟩
        (by rw [hpost, hs.handshake])
      rw [hout, if_pos (Option.isSome_iff_ne_none.mpr hne)]
      simp
    · exact .kept hev (by simp [hpost, Table.get_del_ne hx]) (by rw [hpost, hs.handshake])
        (by rw [hpost, hs.connection])

/-- `handler.disconnect`, after `MSG.close` has marked the connection or not. -/
theorem Item.stage_disconnect (i : Item c) (fd : Fd) {x : Fd} {g : Gate}
    (hev : ∀ y, i.Loses y ↔ y = x) (hhs : g.handshake = i.pre.gate.handshake)
    (hc : g.connection = i.pre.gate.connection)
    (hgs : ∀ y, y ≠ x → g.gsConnection.get y = i.pre.gate.gsConnection.get y)
    (hgsx : g.gsConnection.get x = none ↔ i.pre.gate.gsConnection.get x = none)
    (hpost : i.post.gate = (disconnect g x).1) (hout : ∀ a ∈ (disconnect g x).2, a ∈ i.out) :
    i.Stage fd := by
  have hconn := (disconnect_severed g x).connection
  have hshake := (disconnect_severed g x).handshake
  have hgs' := disconnect_gsConnection g x
  rw [← hpost] at hconn hshake hgs'
  by_cases hx : fd = x
  · subst hx
    have hc' : i.post.gate.connection.get fd = none := by rw [hconn, Table.get_del_self]
    have hhs' : i.post.gate.handshake.get fd = none := by rw [hshake, Table.get_del_self]
    cases hu : i.pre.gate.connection.get fd with
    | none =>
      rw [hc, hu, if_neg (by simp)] at hgs'
      exact .left ((hev fd).mpr rfl) hu (by rw [hgs', hgsx]) hhs' hc'
    | some u =>
      have hcu : g.connection.get fd = some u := hc ▸ hu
      rw [hcu, if_pos (by simp)] at hgs'
      refine .ended ((hev fd).mpr rfl) (by simp [hu]) ⟨by simp [hgs'], fun hne => ?_⟩ hhs' hc'
      refine hout _ ?_
      rw [disconnect_some hcu, if_pos (Option.isSome_iff_ne_none.mpr (mt hgsx.mp hne))]
      simp
  · refine .kept (mt (hev fd).mp hx) ?_ (by rw [hshake, Table.get_del_ne hx, hhs])
      (by rw [hconn, Table.get_del_ne hx, hc])
    rw [hgs']
    split
    · rw [Table.get_del_ne hx, hgs fd hx]
    · exact hgs fd hx

theorem Item.stage (i : Item c) (hw : WellFormed i.pre) (fd : Fd) : i.Stage fd := by
  have hh := i.handled
  generalize he : i.ev = e, hpost : i.post.gate = g', hout : i.out = acts at hh
  cases hh with
  | connect x addr =>
    have hev : ¬ i.Loses fd := by simp [Item.Loses, he]
    obtain h | h := msgOpen_cases c i.pre.gate x addr
    · rw [h] at hpost hout
      exact .kept hev (by rw [hpost]) (by rw [hpost]) (by rw [hpost])
    · rw [h] at hpost hout
      by_cases hx : fd = x
      · subst hx
        exact .opened ⟨⟨addr, he⟩, by simp [hout]⟩ (by simp [hpost]) (by simp [hpost])
      · exact .kept hev (by simp [hpost, Table.get_set_ne hx])
          (by simp [hpost, Table.get_set_ne hx]) (by rw [hpost])
  | dropped =>
    exact .kept (by simp [Item.Loses, he]) (by rw [hpost]) (by rw [hpost]) (by rw [hpost])
  | @refused x data addr status hgs hhs hauth =>
    have hev : ¬ i.Loses fd := by simp [Item.Loses, he]
    by_cases hx : fd = x
    · subst hx
      exact .refused hev ⟨by simp [hpost], fun _ => by simp [hout]⟩ (by simp [hpost])
    · exact .kept hev (by simp [hpost, Table.get_del_ne hx]) (by simp [hpost, Table.get_del_ne hx])
        (by rw [hpost])
  | @accepted x data addr u idx hgs hhs hauth =>
    have hev : ¬ i.Loses fd := by simp [Item.Loses, he]
    by_cases hx : fd = x
    · subst hx
      exact .accepted hev (by simp [hpost, bind]) (by simp [hpost]) (by simp [hpost, bind])
    · exact .kept hev (by simp [hpost, bind]) (by simp [hpost, Table.get_del_ne hx])
        (by simp [hpost, bind, Table.get_set_ne hx])
  | @request x data hgs hhs =>
    exact i.stage_settle fd (by simp [Item.Loses, he]) (doRequest_requested c _ x data).served
      (doRequest_gsConnection c _ x data) hpost hout
  | @complete k t r ht =>
    have hs := resume_served c { i.pre.gate with tasks := i.pre.gate.tasks.del k } t r
    exact i.stage_settle fd (by simp [Item.Loses, he])
      ⟨hs.userOnline, hs.handshake, hs.connection, hs.users, hs.identity⟩
      (resume_gsConnection c _ t r) hpost hout
  | close x =>
    refine i.stage_disconnect fd (g := { i.pre.gate with
      clientNumber := i.pre.gate.clientNumber - 1
      gsConnection := if i.pre.gate.gsConnection.get x = some true then
        i.pre.gate.gsConnection.set x false else i.pre.gate.gsConnection })
      (fun y => by simp [Item.Loses, he, eq_comm]) rfl rfl (fun y hy => ?_) ?_ hpost
      (fun a ha => hout ▸ ha)
    · dsimp only
      split
      · exact Table.get_set_ne hy
      · rfl
    · dsimp only
      split
      · rename_i h
        simp [h]
      · rfl
  | error x =>
    exact i.stage_disconnect fd (fun y => by simp [Item.Loses, he, eq_comm]) rfl rfl
      (fun _ _ => rfl) Iff.rfl hpost (fun a ha => hout ▸ List.mem_cons_of_mem _ ha)
  | login username secret =>
    exact .kept (by simp [Item.Loses, he]) (by rw [hpost]; rfl) (by rw [hpost]; rfl)
      (by rw [hpost]; rfl)
  | logout username =>
    have hev : ¬ i.Loses fd := by simp [Item.Loses, he]
    have hl := serverLogout_loggedOut hw username
    rw [← hpost, ← hout] at hl
    cases hl with
    | absent _ hg => exact .kept hev (by rw [hg]) (by rw [hg]) (by rw [hg])
    | away _ _ hg => exact .kept hev (by rw [hg]) (by rw [hg]) (by rw [hg])
    | @connected u x hu hfd hc hg hacts =>
      by_cases hx : fd = x
      · subst hx
        refine .closed hev (by simp [hc]) ⟨by simp [hg], fun hne => ?_⟩ (by rw [hg])
        rw [hacts, if_pos (Option.isSome_iff_ne_none.mpr hne)]
        simp
      · exact .kept hev (by simp [hg, Table.get_del_ne hx]) (by rw [hg])
          (by simp [hg, Table.get_del_ne hx])

theorem Item.Opens.listed {i : Item c} {fd : Fd} (h : i.Opens fd) :
    i.post.gate.gsConnection.get fd = some true := by
  obtain ⟨⟨addr, hev⟩, hout⟩ := h
  have hh := i.handled
  rw [hev] at hh
  generalize i.post.gate = g', i.out = acts at hh hout
  cases hh
  obtain h | h := msgOpen_cases c i.pre.gate fd addr
  · rw [h] at hout
    exact absurd hout (by simp)
  · rw [h]
    exact Table.get_set_self _ _ _

/-! ## Where a connection is -/

/-- A connection in its handshake is in the table of `gateserver`. -/
def Handshaking (s : State) : Prop :=
  ∀ fd, s.gate.handshake.get fd ≠ none → s.gate.gsConnection.get fd ≠ none

/-- A connection in the table of `gateserver` is in its handshake or authenticated. -/
def Staged (s : State) : Prop :=
  ∀ fd, s.gate.gsConnection.get fd ≠ none →
    s.gate.handshake.get fd ≠ none ∨ s.gate.connection.get fd ≠ none

/-- The step ends no connection in its handshake. -/
def Item.AfterHandshake (i : Item c) : Prop :=
  ∀ fd, i.Loses fd → i.pre.gate.handshake.get fd = none

theorem Item.handshaking (i : Item c) (hw : WellFormed i.pre) (h : Handshaking i.pre) :
    Handshaking i.post := by
  intro fd hpost
  cases i.stage hw fd with
  | kept _ hgs hhs =>
    rw [hhs] at hpost
    rw [hgs]
    exact h fd hpost
  | opened _ hgs => simp [hgs]
  | refused _ _ hhs => exact absurd hhs hpost
  | accepted _ _ hhs => exact absurd hhs hpost
  | closed _ hc _ hhs =>
    obtain ⟨u, hu⟩ := Option.ne_none_iff_exists'.mp hc
    exact absurd (hhs.trans (hw.apart fd u hu)) hpost
  | ended _ _ _ hhs => exact absurd hhs hpost
  | left _ _ _ hhs => exact absurd hhs hpost

theorem Item.staged (i : Item c) (hw : WellFormed i.pre) (h : Staged i.pre)
    (hafter : i.AfterHandshake) : Staged i.post := by
  intro fd hpost
  cases i.stage hw fd with
  | kept _ hgs hhs hc =>
    rw [hgs] at hpost
    rw [hhs, hc]
    exact h fd hpost
  | opened _ _ hhs => exact .inl hhs
  | refused _ hcl => exact absurd hcl.1 hpost
  | accepted _ _ _ hc => exact .inr hc
  | closed _ _ hcl => exact absurd hcl.1 hpost
  | ended _ _ hcl => exact absurd hcl.1 hpost
  | left hev hc hgs =>
    rcases h fd (mt hgs.mpr hpost) with hhs | hc'
    · exact absurd (hafter fd hev) hhs
    · exact absurd hc hc'

/-- **Only `closeclient` removes a connection.** -/
theorem Item.closes (i : Item c) (hw : WellFormed i.pre) {fd : Fd}
    (hpre : i.pre.gate.gsConnection.get fd ≠ none)
    (hpost : i.post.gate.gsConnection.get fd = none) : .close fd ∈ i.out := by
  cases i.stage hw fd with
  | kept _ hgs => exact absurd (hgs.symm.trans hpost) hpre
  | opened _ hgs => exact absurd (hgs.symm.trans hpost) (by simp)
  | refused _ hcl => exact hcl.2 hpre
  | accepted _ hgs => exact absurd (hgs.symm.trans hpost) hpre
  | closed _ _ hcl => exact hcl.2 hpre
  | ended _ _ hcl => exact hcl.2 hpre
  | left _ _ hgs => exact absurd (hgs.mp hpost) hpre

theorem Path.closes {s t : State} {tr : List (Item c)} (h : (machine c).Path s tr t)
    (hw : WellFormed s) {fd : Fd} (hs : s.gate.gsConnection.get fd ≠ none)
    (ht : t.gate.gsConnection.get fd = none) : ∃ i ∈ tr, .close fd ∈ i.out := by
  by_contra hno
  have hkept : WellFormed t ∧ t.gate.gsConnection.get fd ≠ none := by
    refine h.keeps (I := fun s => WellFormed s ∧ s.gate.gsConnection.get fd ≠ none) ⟨hw, hs⟩
      fun i hi hI => ⟨Item.wellFormed i hI.1, fun hpost => ?_⟩
    exact hno ⟨i, hi, Item.closes i hI.1 hI.2 hpost⟩
  exact hkept.2 ht

/-- A connection in its handshake was accepted, and its close event is still to come. -/
theorem Run.opened {tr : List (Item c)} {s : State} (h : (machine c).Run tr s) {fd : Fd}
    (hs : s.gate.handshake.get fd ≠ none) :
    ∃ a j b, tr = a ++ j :: b ∧ j.Opens fd ∧ ∀ k ∈ b, k.ev ≠ .close fd := by
  refine Machine.Run.history (J := fun tr s => s.gate.handshake.get fd ≠ none →
    ∃ a j b, tr = a ++ j :: b ∧ Item.Opens j fd ∧ ∀ k ∈ b, k.ev ≠ .close fd)
    (fun h0 => absurd rfl h0) (fun tr i hrun hJ hpost => ?_) h hs
  have hold : ¬ Item.Loses i fd → i.pre.gate.handshake.get fd ≠ none →
      ∃ a j b, tr ++ [i] = a ++ j :: b ∧ Item.Opens j fd ∧ ∀ k ∈ b, k.ev ≠ .close fd := by
    intro hev hpre
    obtain ⟨a, j, b, rfl, hj, hb⟩ := hJ hpre
    refine ⟨a, j, b ++ [i], by simp, hj, fun k hk => ?_⟩
    rcases List.mem_append.mp hk with hk | hk
    · exact hb k hk
    · obtain rfl := List.mem_singleton.mp hk
      exact fun hclose => hev (.inl hclose)
  cases Item.stage i (Run.wellFormed hrun) fd with
  | kept hev _ hhs => exact hold hev (hhs ▸ hpost)
  | opened hev => exact ⟨tr, i, [], rfl, hev, by simp⟩
  | refused _ _ hhs => exact absurd hhs hpost
  | accepted _ _ hhs => exact absurd hhs hpost
  | closed hev _ _ hhs => exact hold hev (hhs ▸ hpost)
  | ended _ _ _ hhs => exact absurd hhs hpost
  | left _ _ _ hhs => exact absurd hhs hpost

/-! ## The end of a connection -/

/-- No table has an entry for `fd`. -/
structure Cleared (g : Gate) (fd : Fd) : Prop where
  handshake : g.handshake.get fd = none
  connection : g.connection.get fd = none
  gsConnection : g.gsConnection.get fd = none

/-- After each close or error event of a connection that was accepted, `closeclient` has been
called for it, and no table has an entry for it. -/
def ReleasesAll (tr : List (Item c)) : Prop :=
  ∀ a j b i d fd, tr = a ++ j :: (b ++ i :: d) → j.Opens fd → (∀ k ∈ b, k.ev ≠ .close fd) →
    i.Loses fd → Cleared i.post.gate fd ∧ ∃ k ∈ b ++ [i], .close fd ∈ k.out

/-- The end of a connection in its handshake does not release it. -/
theorem Item.not_released (i : Item c) (hw : WellFormed i.pre) (h : Handshaking i.pre) {fd : Fd}
    (hev : i.Loses fd) (hhs : i.pre.gate.handshake.get fd ≠ none) :
    ¬ Cleared i.post.gate fd := by
  intro hrel
  cases i.stage hw fd with
  | kept hev' => exact hev' hev
  | opened hev' =>
    obtain ⟨⟨addr, hopen⟩, -⟩ := hev'
    rcases hev with hev | hev <;> exact absurd (hopen.symm.trans hev) (by simp)
  | refused hev' => exact hev' hev
  | accepted hev' => exact hev' hev
  | closed hev' => exact hev' hev
  | ended _ hc =>
    obtain ⟨u, hu⟩ := Option.ne_none_iff_exists'.mp hc
    exact hhs (hw.apart fd u hu)
  | left _ _ hgs => exact h fd hhs (hgs.mp hrel.gsConnection)

/-- The end of another connection does. -/
theorem Item.released (i : Item c) (hw : WellFormed i.pre) (h : Staged i.pre) {fd : Fd}
    (hev : i.Loses fd) (hhs : i.pre.gate.handshake.get fd = none) : Cleared i.post.gate fd := by
  cases i.stage hw fd with
  | kept hev' => exact absurd hev hev'
  | opened hev' =>
    obtain ⟨⟨addr, hopen⟩, -⟩ := hev'
    rcases hev with hev | hev <;> exact absurd (hopen.symm.trans hev) (by simp)
  | refused hev' => exact absurd hev hev'
  | accepted hev' => exact absurd hev hev'
  | closed hev' => exact absurd hev hev'
  | ended _ _ hcl hhs' hc' => exact ⟨hhs', hc', hcl.1⟩
  | left _ hc hgs hhs' hc' =>
    refine ⟨hhs', hc', hgs.mpr (by_contra fun hne => ?_)⟩
    rcases h fd hne with hhs₁ | hc₁
    · exact hhs₁ hhs
    · exact hc₁ hc

theorem Run.handshaking {tr : List (Item c)} {s : State} (h : (machine c).Run tr s) :
    Handshaking s := by
  have : WellFormed s ∧ Handshaking s := by
    refine Machine.Run.invariant (I := fun s => WellFormed s ∧ Handshaking s)
      ⟨wellFormed_init, fun _ h0 => absurd rfl h0⟩ (fun i hI => ?_) h
    exact ⟨Item.wellFormed i hI.1, Item.handshaking i hI.1 hI.2⟩
  exact this.2

theorem Run.staged {tr : List (Item c)} {s : State} (h : (machine c).Run tr s)
    (hafter : ∀ i ∈ tr, Item.AfterHandshake i) : Staged s := by
  have : WellFormed s ∧ Staged s := by
    refine Machine.Path.keeps (I := fun s => WellFormed s ∧ Staged s) h
      ⟨wellFormed_init, fun _ h0 => absurd rfl h0⟩ fun i hi hI => ?_
    exact ⟨Item.wellFormed i hI.1, Item.staged i hI.1 hI.2 (hafter i hi)⟩
  exact this.2

/-- **When every connection is released.** -/
theorem released_iff {tr : List (Item c)} {s : State} (h : (machine c).Run tr s) :
    ReleasesAll tr ↔ ∀ i ∈ tr, Item.AfterHandshake i := by
  constructor
  · intro hall i hi fd hev
    by_contra hhs
    obtain ⟨a, d, rfl⟩ := List.append_of_mem hi
    have hrun := h.split.1
    obtain ⟨a, j, b, rfl, hj, hb⟩ := Run.opened hrun hhs
    refine Item.not_released i (Run.wellFormed hrun) (Run.handshaking hrun) hev hhs ?_
    exact (hall a j b i d fd (by simp) hj hb hev).1
  · intro hafter a j b i d fd htr hj hb hev
    subst htr
    obtain ⟨-, hpath⟩ := h.split
    have hrun : (machine c).Run (a ++ j :: b) i.pre := by
      rw [show a ++ j :: (b ++ i :: d) = (a ++ j :: b) ++ i :: d by simp] at h
      exact h.split.1
    have hbefore : ∀ k ∈ a ++ j :: b, Item.AfterHandshake k := fun k hk =>
      hafter k (by simp only [List.mem_append, List.mem_cons] at hk ⊢; tauto)
    have hrel := Item.released i (Run.wellFormed hrun) (Run.staged hrun hbefore) hev
      (hafter i (by simp) fd hev)
    refine ⟨hrel, ?_⟩
    have hwj : WellFormed j.post := Item.wellFormed j (Run.wellFormed h.split.1)
    have hopen : j.post.gate.gsConnection.get fd ≠ none := by simp [hj.listed]
    obtain ⟨hb', -⟩ := hpath.split
    exact Path.closes (hb'.snoc i rfl) hwj hopen hrel.gsConnection

/-! ## Concrete runs -/

/-- A client that sends a first packet for an unknown user, and goes away. -/
def rejectedClient : List Event :=
  [.connect 1 (bytes "10.0.0.1:1"), .packet 1 (bytes "dQ==:1:aA=="), .close 1]

theorem released_iff_rejectedClient : ∃ tr s, (machine {}).Run tr s ∧
    tr.map (·.ev) = rejectedClient ∧ ReleasesAll tr := by
  have h : ((machine {}).items (machine {}).init rejectedClient).map (fun tr =>
      decide (tr.map (·.ev) = rejectedClient ∧
        ∀ i ∈ tr, i.ev = .close 1 → i.pre.gate.handshake.get 1 = none)) = some true := by
    decide +kernel
  obtain ⟨tr, hrun, hP⟩ := Machine.exists_run h
  obtain ⟨hev, hclose⟩ := of_decide_eq_true hP
  refine ⟨tr, _, hrun, hev, (released_iff hrun).mpr fun i hi fd hends => ?_⟩
  have hmem : i.ev ∈ rejectedClient := hev ▸ List.mem_map_of_mem hi
  rcases hends with h | h
  · rw [h] at hmem
    obtain rfl : fd = 1 := by simpa [rejectedClient] using hmem
    exact hclose i hi h
  · rw [h] at hmem
    simp [rejectedClient] at hmem

/-- **A leak**: a client that connects and goes away stays in the table of `gateserver`. -/
theorem leaked_connection : ∃ tr s, (machine {}).Run tr s ∧
    tr.map (·.ev) = [.connect 1 (bytes "10.0.0.1:1"), .close 1] ∧
    s.gate.gsConnection.get 1 = some false ∧ (∀ i ∈ tr, .close 1 ∉ i.out) ∧
    ¬ ReleasesAll tr := by
  have h : ((machine {}).items (machine {}).init
      [.connect 1 (bytes "10.0.0.1:1"), .close 1]).map (fun tr =>
        decide (tr.map (·.ev) = [.connect 1 (bytes "10.0.0.1:1"), .close 1] ∧
          tr.map (·.out) = [[.start 1], []] ∧
          (Machine.last (machine {}).init tr).gate.gsConnection.get 1 = some false)) =
            some true := by
    decide +kernel
  obtain ⟨tr, hrun, hP⟩ := Machine.exists_run h
  obtain ⟨hev, hout, hgs⟩ := of_decide_eq_true hP
  have hno : ∀ i ∈ tr, .close 1 ∉ i.out := by
    intro i hi
    have hmem : i.out ∈ [[.start 1], []] := hout ▸ List.mem_map_of_mem hi
    intro hclose
    rcases List.mem_pair.mp hmem with h | h <;> (rw [h] at hclose; simp at hclose)
  refine ⟨tr, _, hrun, hev, hgs, hno, fun hall => ?_⟩
  obtain ⟨j, tr', rfl, hj, hev⟩ := List.map_eq_cons_iff.mp hev
  obtain ⟨i, tr'', rfl, hi, hev⟩ := List.map_eq_cons_iff.mp hev
  obtain rfl := List.map_eq_nil_iff.mp hev
  have hopens : Item.Opens j 1 := ⟨⟨_, hj⟩, by simp [(List.cons.inj hout).1]⟩
  have hrel := hall [] j [] i [] 1 rfl hopens (by simp) (.inl hi)
  exact absurd (hrel.1.gsConnection.symm.trans hgs) (by simp)

end LsServer.GameGate
