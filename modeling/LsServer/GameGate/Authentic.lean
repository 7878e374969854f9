import LsServer.GameGate.Fencing

/-!
# Who can make the gate run a handler

A handler runs for a user only on a connection whose first packet proved knowledge of the secret
that `server.login` stored, and each accepted handshake of a name has a larger index than the one
before. Both hold for arbitrary packets: `authCheck` compares numbers, so other spellings of an
old index (`0x1`, `1.0`, an overflow to infinity) are old too.

Source: GameGate.lua 153-179; lua-crypt.c for `hmac64` and `hashkey`; lbaselib.c for `tonumber`.

* `Proves`: a packet that decodes to the name of a user, has an index that is a number, and the
  `hmac64` of the text of that index with the secret of the user.
* `Spent`: the handshake of a connection is over, so no later packet of it is one.
* The version of a record never goes down (`Steady`), and it is the index of the last accepted
  handshake.

`LoginOnce` is needed since `server.login` makes a new record with version 0: a packet of the old
secret does not prove the new one, but one with the same secret would. `Gamed` never logs a name in
twice, which `Login.Agreement` shows.

Results:
* `Item.steady`: what no step changes about a user record;
* `Run.authenticated`: every connection of a user goes back to an accepted handshake;
* `authentic`: the three statements about a run in which connection numbers are not reused and
  every name logs in once.

Out of scope: whether a packet with the right hmac was made by somebody who knows the secret.
Nothing is assumed about `hmac64`.
-/

namespace LsServer.GameGate

open LsServer.Lib LsServer.Lua LsServer.Crypt

variable {c : Conf}

/-- The connection an event opens. -/
def Event.connects : Event → Option Fd
  | .connect fd _ => some fd
  | _ => none

/-- The name an event logs in. -/
def Event.logsIn : Event → Option Bytes
  | .login username _ => some username
  | _ => none

/-- No connection number is used twice. -/
def NoReuse (tr : List (Item c)) : Prop := ((tr.map (·.ev)).filterMap Event.connects).Nodup

/-- `server.login` is called at most once with a name. -/
def LoginOnce (tr : List (Item c)) : Prop := ((tr.map (·.ev)).filterMap Event.logsIn).Nodup

theorem NoReuse.append {a b : List (Item c)} (h : NoReuse (a ++ b)) :
    NoReuse a ∧ ∀ i ∈ a, ∀ j ∈ b, ∀ fd addr addr', i.ev = .connect fd addr →
      j.ev ≠ .connect fd addr' := by
  unfold NoReuse at h
  rw [List.map_append, List.filterMap_append, List.nodup_append] at h
  refine ⟨h.1, fun i hi j hj fd addr addr' hiev hjev => h.2.2 fd ?_ fd ?_ rfl⟩
  · exact List.mem_filterMap.mpr ⟨i.ev, List.mem_map_of_mem hi, by rw [hiev]; rfl⟩
  · exact List.mem_filterMap.mpr ⟨j.ev, List.mem_map_of_mem hj, by rw [hjev]; rfl⟩

theorem LoginOnce.append {a b : List (Item c)} (h : LoginOnce (a ++ b)) :
    LoginOnce a ∧ ∀ i ∈ a, ∀ j ∈ b, ∀ name secret secret', i.ev = .login name secret →
      j.ev ≠ .login name secret' := by
  unfold LoginOnce at h
  rw [List.map_append, List.filterMap_append, List.nodup_append] at h
  refine ⟨h.1, fun i hi j hj name secret secret' hiev hjev => h.2.2 name ?_ name ?_ rfl⟩
  · exact List.mem_filterMap.mpr ⟨i.ev, List.mem_map_of_mem hi, by rw [hiev]; rfl⟩
  · exact List.mem_filterMap.mpr ⟨j.ev, List.mem_map_of_mem hj, by rw [hjev]; rfl⟩

/-! ## What no step changes -/

/-- A step that keeps a user record except for its connection, its cache and a version that does
not decrease. -/
structure Steady (g g' : Gate) (u : UserId) : Prop where
  bound : u < g'.users.next
  username : (g'.users.cell u).username = (g.users.cell u).username
  secret : (g'.users.cell u).secret = (g.users.cell u).secret
  version : (g.users.cell u).version ≤ (g'.users.cell u).version

theorem Item.steady (i : Item c) (hw : WellFormed i.pre) {u : UserId}
    (hu : u < i.pre.gate.users.next) : Steady i.pre.gate i.post.gate u := by
  cases i.kind with
  | quiet hg =>
    have hn : i.post.gate.users.next = i.pre.gate.users.next := hg.users
    exact ⟨hn ▸ hu, hg.username u, hg.secret u, le_of_eq (hg.version u).symm⟩
  | @accept fd v idx h =>
    obtain ⟨addr, hpost, -⟩ := h.post
    obtain ⟨data, -, hauth⟩ := h.packet
    obtain ⟨_, _, _, _, _, _, _, _, _, _, hlt, _⟩ := authCheck_accepted hauth
    rw [hpost]
    by_cases hv : u = v
    · subst hv
      exact ⟨hu, by simp [bind], by simp [bind], by simpa [bind] using le_of_lt hlt⟩
    · refine ⟨hu, ?_, ?_, ?_⟩ <;> simp [bind, Heap.cell_set_ne hv]
  | sever _ hg =>
    have hcell := hg.cell u
    refine ⟨hg.users ▸ hu, ?_, ?_, ?_⟩ <;> rw [hcell] <;> split <;> simp
  | login _ hg =>
    rw [hg]
    have hne := Nat.ne_of_lt hu
    refine ⟨Nat.lt_succ_of_lt hu, ?_, ?_, ?_⟩ <;> simp [serverLogin, Heap.cell_alloc_ne hne]
  | @logout name _ hg _ =>
    have hl := serverLogout_loggedOut hw name
    rw [← hg] at hl
    cases hl with
    | absent _ hg' => rw [hg']; exact ⟨hu, rfl, rfl, le_refl _⟩
    | away _ _ hg' => rw [hg']; exact ⟨hu, rfl, rfl, le_refl _⟩
    | connected _ _ _ hg' => rw [hg']; exact ⟨hu, rfl, rfl, le_refl _⟩

/-- The same along a path. -/
theorem Path.steady {s t : State} {tr : List (Item c)} (h : (machine c).Path s tr t)
    (hw : WellFormed s) {u : UserId} (hu : u < s.gate.users.next) :
    Steady s.gate t.gate u := by
  have key : WellFormed t ∧ Steady s.gate t.gate u := by
    refine h.keeps (I := fun t => WellFormed t ∧ Steady s.gate t.gate u)
      ⟨hw, hu, rfl, rfl, le_refl _⟩ fun i _ ⟨hwi, hst⟩ => ⟨Item.wellFormed i hwi, ?_⟩
    have hi := Item.steady i hwi hst.bound
    exact ⟨hi.bound, hi.username.trans hst.username, hi.secret.trans hst.secret,
      hst.version.trans hi.version⟩
  exact key.2

/-! ## Where users and connections come from -/

/-- A new record of a user comes from `server.login`. -/
theorem Item.new_user (i : Item c) (hw : WellFormed i.pre) {u : UserId}
    (hu : u < i.post.gate.users.next) (hn : ¬ u < i.pre.gate.users.next) :
    u = i.pre.gate.users.next ∧
      i.ev = .login (i.post.gate.users.cell u).username (i.post.gate.users.cell u).secret := by
  cases i.kind with
  | quiet hg =>
    have : i.post.gate.users.next = i.pre.gate.users.next := hg.users
    exact absurd (this ▸ hu) hn
  | accept h =>
    obtain ⟨addr, hpost, -⟩ := h.post
    rw [hpost] at hu
    exact absurd hu hn
  | sever _ hg => exact absurd (hg.users ▸ hu) hn
  | login hev hg =>
    rw [hg] at hu ⊢
    have hlt : u < i.pre.gate.users.next + 1 := hu
    obtain rfl : u = i.pre.gate.users.next :=
      Nat.le_antisymm (Nat.le_of_lt_succ hlt) (not_lt.mp hn)
    exact ⟨rfl, by simpa [serverLogin] using hev⟩
  | @logout name _ hg _ =>
    have hl := serverLogout_loggedOut hw name
    rw [← hg] at hl
    cases hl with
    | absent _ hg' => rw [hg'] at hu; exact absurd hu hn
    | away _ _ hg' => rw [hg'] at hu; exact absurd hu hn
    | connected _ _ _ hg' => rw [hg'] at hu; exact absurd hu hn

/-- Every user record was stored by `server.login`. -/
theorem Run.logged_in {tr : List (Item c)} {s : State} (h : (machine c).Run tr s) :
    ∀ u, u < s.gate.users.next →
      ∃ l ∈ tr, l.ev = .login (s.gate.users.cell u).username (s.gate.users.cell u).secret := by
  refine Machine.Run.history (J := fun tr s => ∀ u, u < s.gate.users.next →
    ∃ l ∈ tr, l.ev = .login (s.gate.users.cell u).username (s.gate.users.cell u).secret)
    (fun u hu => absurd hu (by simp [machine, Gate.init, Heap.empty])) ?_ h
  intro tr i hrun ih u hu
  have hw := Run.wellFormed hrun
  by_cases hlt : u < i.pre.gate.users.next
  · obtain ⟨l, hl, hev⟩ := ih u hlt
    have hst := Item.steady i hw hlt
    rw [hst.username, hst.secret]
    exact ⟨l, by simp [hl], hev⟩
  · exact ⟨i, by simp, (Item.new_user i hw hu hlt).2⟩

/-- When every name logs in once, a name has one record. -/
theorem Run.name_unique {tr : List (Item c)} {s : State} (h : (machine c).Run tr s)
    (honce : LoginOnce tr) : ∀ u v, u < s.gate.users.next → v < s.gate.users.next →
      (s.gate.users.cell u).username = (s.gate.users.cell v).username → u = v := by
  refine Machine.Run.history (J := fun tr s => LoginOnce tr → ∀ u v, u < s.gate.users.next →
      v < s.gate.users.next →
      (s.gate.users.cell u).username = (s.gate.users.cell v).username → u = v)
    (fun _ u v hu => absurd hu (by simp [machine, Gate.init, Heap.empty])) ?_ h honce
  intro tr i hrun ih honce u v hu hv hname
  have hw := Run.wellFormed hrun
  obtain ⟨hp, hlast⟩ := honce.append
  -- a record that is new and one that is not would have two logins of one name
  have key : ∀ x y, x < i.pre.gate.users.next → y < i.post.gate.users.next →
      ¬ y < i.pre.gate.users.next →
      (i.post.gate.users.cell x).username ≠ (i.post.gate.users.cell y).username := by
    intro x y hx hy hny heq
    obtain ⟨l, hl, hev⟩ := Run.logged_in hrun x hx
    have hi := (Item.new_user i hw hy hny).2
    rw [← heq, (Item.steady i hw hx).username] at hi
    exact hlast l hl i (by simp) _ _ _ hev hi
  by_cases hu' : u < i.pre.gate.users.next
  · by_cases hv' : v < i.pre.gate.users.next
    · rw [(Item.steady i hw hu').username, (Item.steady i hw hv').username] at hname
      exact ih hp u v hu' hv' hname
    · exact absurd hname (key u v hu' hv hv')
  · by_cases hv' : v < i.pre.gate.users.next
    · exact absurd hname.symm (key v u hv' hu hu')
    · rw [(Item.new_user i hw hu hu').1, (Item.new_user i hw hv hv').1]

/-- A socket was connected. -/
theorem Run.connected {tr : List (Item c)} {s : State} (h : (machine c).Run tr s) :
    ∀ fd, s.net.get fd ≠ none → ∃ j ∈ tr, ∃ addr, j.ev = .connect fd addr := by
  refine Machine.Run.history (J := fun tr s => ∀ fd, s.net.get fd ≠ none →
    ∃ j ∈ tr, ∃ addr, j.ev = .connect fd addr) (fun fd hfd => absurd hfd (by simp [machine])) ?_ h
  intro tr i _ ih fd hfd
  rw [ne_eq, Item.net_none i, not_and_or, not_not, not_or] at hfd
  rcases hfd with ⟨addr, hev⟩ | ⟨-, hpre⟩
  · exact ⟨i, by simp, addr, hev⟩
  · obtain ⟨j, hj, hev⟩ := ih fd hpre
    exact ⟨j, by simp [hj], hev⟩

/-- **Every connection of a user goes back to an accepted handshake on it.** -/
theorem Run.authenticated {tr : List (Item c)} {s : State} (h : (machine c).Run tr s) :
    ∀ fd u, s.gate.connection.get fd = some u → ∃ a j b idx, tr = a ++ j :: b ∧
      Item.Accepts j fd u idx := by
  refine Machine.Run.history (J := fun tr s => ∀ fd u, s.gate.connection.get fd = some u →
    ∃ a j b idx, tr = a ++ j :: b ∧ Item.Accepts j fd u idx)
    (fun fd u hc => absurd hc (by simp [machine, Gate.init])) ?_ h
  intro tr i hrun ih fd u hc
  have hold : i.pre.gate.connection.get fd = some u → ∃ a j b idx, tr ++ [i] = a ++ j :: b ∧
      Item.Accepts j fd u idx := by
    intro hpre
    obtain ⟨a, j, b, idx, rfl, hj⟩ := ih fd u hpre
    exact ⟨a, j, b ++ [i], idx, by simp, hj⟩
  cases Item.kind i with
  | quiet hg =>
    have hc' : i.post.gate.connection = i.pre.gate.connection := hg.connection
    exact hold (hc' ▸ hc)
  | @accept x v idx hacc =>
    obtain ⟨addr, hpost, -⟩ := hacc.post
    rw [hpost] at hc
    simp only [bind, Table.get_set] at hc
    split at hc
    · rename_i hx
      obtain rfl := Option.some.inj hc
      exact ⟨tr, i, [], idx, rfl, hx ▸ hacc⟩
    · exact hold hc
  | sever _ hg =>
    rw [hg.connection] at hc
    exact hold (Table.get_of_get_del hc).2
  | login _ hg =>
    rw [hg] at hc
    exact hold hc
  | @logout name _ hg _ =>
    have hl := serverLogout_loggedOut (Run.wellFormed hrun) name
    rw [← hg] at hl
    cases hl with
    | absent _ hg' => rw [hg'] at hc; exact hold hc
    | away _ _ hg' => rw [hg'] at hc; exact hold hc
    | connected _ _ _ hg' => rw [hg'] at hc; exact hold (Table.get_of_get_del hc).2

/-! ## The handshake is the first packet -/

/-- A handshake is pending from the connect event on. -/
theorem Item.handshake_some (i : Item c) (hw : WellFormed i.pre) {fd : Fd} {addr : Bytes}
    (h : i.post.gate.handshake.get fd = some addr) :
    i.pre.gate.handshake.get fd = some addr ∨ i.ev = .connect fd addr := by
  cases i.kind with
  | quiet _ hhs => exact hhs fd addr h
  | accept hacc =>
    obtain ⟨_, hpost, -⟩ := hacc.post
    rw [hpost] at h
    exact Or.inl (Table.get_of_get_del h).2
  | sever _ hg =>
    rw [hg.handshake] at h
    exact Or.inl (Table.get_of_get_del h).2
  | login _ hg =>
    rw [hg] at h
    exact Or.inl h
  | @logout name _ hg _ =>
    have hl := serverLogout_loggedOut hw name
    rw [← hg] at hl
    cases hl with
    | absent _ hg' => rw [hg'] at h; exact Or.inl h
    | away _ _ hg' => rw [hg'] at h; exact Or.inl h
    | connected _ _ _ hg' => rw [hg'] at h; exact Or.inl h

/-- The next packet of the connection is no handshake. -/
def Spent (fd : Fd) (s : State) : Prop :=
  s.gate.handshake.get fd = none ∨ s.gate.gsConnection.get fd ≠ some true

theorem Item.spent (i : Item c) (hw : WellFormed i.pre) {fd : Fd} (hs : Spent fd i.pre)
    (hne : ∀ addr, i.ev ≠ .connect fd addr) : Spent fd i.post := by
  rcases hs with hs | hs
  · left
    by_contra hn
    obtain ⟨addr, ha⟩ := Option.ne_none_iff_exists'.mp hn
    rcases i.handshake_some hw ha with h | h
    · rw [hs] at h
      exact absurd h (by simp)
    · exact hne addr h
  · right
    intro ht
    rcases i.gsConnection_true hw ht with h | ⟨addr, h⟩
    · exact hs h
    · exact hne addr h

theorem Item.spent_packet (i : Item c) {fd : Fd} {data : Bytes} (hev : i.ev = .packet fd data) :
    Spent fd i.post := by
  have hh := i.handled
  rw [hev] at hh
  unfold Spent
  generalize i.post.gate = g', i.out = acts at hh
  cases hh with
  | dropped hgs => exact Or.inr hgs
  | refused => exact Or.inl (Table.get_del_self _ _)
  | accepted => exact Or.inl (Table.get_del_self _ _)
  | request _ hhs =>
    rw [(request_served c _ _ _).handshake]
    exact Or.inl hhs

/-- **The accepted handshake is the first packet of its connection.** -/
theorem Run.first_packet {a b : List (Item c)} {j : Item c} {s : State}
    (h : (machine c).Run (a ++ j :: b) s) (hfd : NoReuse (a ++ j :: b)) {fd : Fd} {u : UserId}
    {idx : Number} (hj : j.Accepts fd u idx) : ∀ i ∈ a, ∀ d, i.ev ≠ .packet fd d := by
  intro i hi d hev
  obtain ⟨a1, a2, rfl⟩ := List.append_of_mem hi
  have hrun := h.split.1
  obtain ⟨l, hl, addr, hconn⟩ := Run.connected hrun.split.1 fd (Item.packet_present i hev)
  -- the only connect event of `fd` comes before `i`
  have hno : ∀ j' ∈ a2, ∀ addr', j'.ev ≠ .connect fd addr' := by
    intro j' hj' addr'
    exact hfd.append.1.append.2 l hl j' (by simp [hj']) fd addr addr' hconn
  have hspent : WellFormed j.pre ∧ Spent fd j.pre := by
    refine hrun.split.2.keeps (I := fun s => WellFormed s ∧ Spent fd s)
      ⟨Item.wellFormed i (Run.wellFormed hrun.split.1), Item.spent_packet i hev⟩
      fun j' hj' hI => ?_
    exact ⟨Item.wellFormed j' hI.1, Item.spent j' hI.1 hI.2 (hno j' hj')⟩
  rcases hspent.2 with hs | hs
  · exact hj.handshake hs
  · exact hs hj.connected

/-! ## Invocations -/

/-- **When a handler is invoked**: for a request on a connection of the user it is invoked for. -/
theorem Item.invoke_inv (i : Item c) (hw : WellFormed i.pre) {k : TaskId} {name m : Bytes}
    (h : .invoke k name m ∈ i.out) : ∃ fd data u, i.ev = .packet fd data ∧
      i.pre.gate.connection.get fd = some u ∧ (i.pre.gate.users.cell u).username = name ∧
      contentOf data = m ∧ k = i.pre.gate.nextTask := by
  have hh := i.handled
  generalize he : i.ev = e, i.post.gate = g', i.out = acts at hh h
  cases hh with
  | connect fd addr =>
    obtain hm | hm := msgOpen_cases c i.pre.gate fd addr <;> simp [hm] at h
  | dropped => simp at h
  | refused => simp [sendStatus] at h
  | accepted =>
    simp only [bind, List.mem_append] at h
    rcases h with h | h
    · split at h <;> simp at h
    · simp [sendStatus] at h
  | @request fd data hgs hhs =>
    rw [request, mem_settle (by simp)] at h
    have hreq := doRequest_requested c i.pre.gate fd data
    generalize (doRequest c i.pre.gate fd data).1 = g',
      (doRequest c i.pre.gate fd data).2.1 = acts,
      (doRequest c i.pre.gate fd data).2.2 = ok at hreq h
    cases hreq with
    | invalid => simp at h
    | short => simp at h
    | @fresh u hc =>
      obtain ⟨rfl, rfl, rfl⟩ := by simpa [invokeHandler] using h
      exact ⟨fd, data, u, rfl, hc, rfl, rfl, rfl⟩
    | conflict => simp at h
    | @reuse u j hc =>
      obtain ⟨rfl, rfl, rfl⟩ := by simpa [invokeHandler, dropEntry] using h
      exact ⟨fd, data, u, rfl, hc, rfl, rfl, rfl⟩
    | pending => simp at h
    | again =>
      obtain ⟨_, _, h, -⟩ := mem_finish h
      exact absurd h (by simp)
  | complete r ht =>
    rw [complete, mem_settle (by simp)] at h
    obtain ⟨_, _, h, -⟩ := mem_resume h
    exact absurd h (by simp)
  | close fd =>
    obtain ⟨_, h⟩ | h := mem_disconnect h <;> exact absurd h (by simp)
  | error fd =>
    rcases List.mem_cons.mp h with h | h
    · exact absurd h (by simp)
    · obtain ⟨_, h⟩ | h := mem_disconnect h <;> exact absurd h (by simp)
  | login => simp at h
  | logout name =>
    cases serverLogout_loggedOut hw name with
    | absent _ _ hacts => rw [hacts] at h; simp at h
    | away _ _ _ hacts => rw [hacts] at h; simp at h
    | connected _ _ _ _ hacts =>
      rw [hacts] at h
      split at h <;> simp at h

/-! ## The three statements -/

/-- The packet names `name` and carries an index text with its hmac under `secret`. -/
def Proves (packet name secret : Bytes) : Prop :=
  ∃ name64 index hmac' hm, splitHandshake packet = some (name64, index, hmac') ∧
    base64decode name64 = some name ∧ base64decode hmac' = some hm ∧
    hmac64 (hashkey index) secret = some hm

/-- The step accepts a handshake packet for the name. -/
def Item.AcceptsName (i : Item c) (packet name : Bytes) (idx : Number) : Prop :=
  ∃ fd u, i.Accepts fd u idx ∧ i.ev = .packet fd packet ∧
    (i.pre.gate.users.cell u).username = name

/-- An accepted packet proves the secret of the user it is accepted for. -/
theorem Item.Accepts.proves {i : Item c} (hw : WellFormed i.pre) {fd : Fd} {u : UserId}
    {idx : Number} (h : i.Accepts fd u idx) : u < i.pre.gate.users.next ∧ ∃ packet,
      i.ev = .packet fd packet ∧
      Proves packet (i.pre.gate.users.cell u).username (i.pre.gate.users.cell u).secret := by
  obtain ⟨packet, hev, hauth⟩ := h.packet
  obtain ⟨name64, index, hmac', name, hm, hsplit, hname, hu, -, hhm, -, hh⟩ :=
    authCheck_accepted hauth
  obtain ⟨hlt, hun⟩ := hw.online name u hu
  exact ⟨hlt, packet, hev, name64, index, hmac', hm, hsplit, by rw [hname, hun], hhm, hh⟩

/-- The index of an accepted packet is the number its index text spells. -/
theorem Item.AcceptsName.index {i : Item c} {packet name : Bytes} {idx : Number}
    (h : i.AcceptsName packet name idx) : ∃ name64 index hmac',
      splitHandshake packet = some (name64, index, hmac') ∧ tonumber index = some idx := by
  obtain ⟨fd, u, hacc, hev, -⟩ := h
  obtain ⟨packet', hev', hauth⟩ := hacc.packet
  obtain ⟨rfl, rfl⟩ := by simpa using hev.symm.trans hev'
  obtain ⟨name64, index, hmac', _, _, hsplit, _, _, hidx, _⟩ := authCheck_accepted hauth
  exact ⟨name64, index, hmac', hsplit, hidx⟩

/-- **Accepted indices increase.** -/
theorem Run.index_lt {a b d : List (Item c)} {i j : Item c} {s : State}
    (h : (machine c).Run (a ++ i :: (b ++ j :: d)) s) (honce : LoginOnce (a ++ i :: (b ++ j :: d)))
    {p p' name : Bytes} {idx idx' : Number} (hi : i.AcceptsName p name idx)
    (hj : j.AcceptsName p' name idx') : idx < idx' := by
  obtain ⟨fd, u, hacc, -, hname⟩ := hi
  obtain ⟨fd', v, hacc', -, hname'⟩ := hj
  have hwi := Run.wellFormed h.split.1
  have hpath := h.split.2.split.1
  have heq : a ++ i :: (b ++ j :: d) = (a ++ i :: b) ++ j :: d := by simp
  rw [heq] at h honce
  have hrunj := h.split.1
  have huniq := Run.name_unique hrunj honce.append.1
  -- the record that `i` accepts for is the one `j` accepts for
  have hu := (hacc.proves hwi).1
  have hst := Item.steady i hwi hu
  have hst' := Path.steady hpath (Item.wellFormed i hwi) hst.bound
  have hv := (hacc'.proves (Run.wellFormed hrunj)).1
  obtain rfl : u = v := huniq u v hst'.bound hv (by
    rw [hst'.username, hst.username, hname, hname'])
  have hidx : (i.post.gate.users.cell u).version = idx := by
    obtain ⟨addr, hpost, -⟩ := hacc.post
    rw [hpost]
    simp [bind]
  obtain ⟨data, -, hauth⟩ := hacc'.packet
  obtain ⟨_, _, _, _, _, _, _, _, _, _, hlt, _⟩ := authCheck_accepted hauth
  calc idx = (i.post.gate.users.cell u).version := hidx.symm
    _ ≤ (j.pre.gate.users.cell u).version := hst'.version
    _ < idx' := hlt

/-- **Authentication and replay protection.** A handler runs only on a connection whose first
packet proved the secret of the user; the indices accepted for a name increase; no packet is
accepted twice for a name. -/
theorem authentic {tr : List (Item c)} {s : State} (h : (machine c).Run tr s)
    (hfd : NoReuse tr) (honce : LoginOnce tr) :
    (∀ a i b, tr = a ++ i :: b → ∀ k name m, .invoke k name m ∈ i.out →
      ∃ fd data, i.ev = .packet fd data ∧ ∃ a1 j a2 packet secret, a = a1 ++ j :: a2 ∧
        j.ev = .packet fd packet ∧ (∀ j' ∈ a1, ∀ d, j'.ev ≠ .packet fd d) ∧
        Proves packet name secret ∧ ∃ l ∈ a1, l.ev = .login name secret) ∧
    tr.Pairwise (fun i j => ∀ p p' name idx idx',
      Item.AcceptsName i p name idx → Item.AcceptsName j p' name idx' → idx < idx') ∧
    tr.Pairwise (fun i j => ∀ p p' name idx idx',
      Item.AcceptsName i p name idx → Item.AcceptsName j p' name idx' → p ≠ p') := by
  refine ⟨?_, pairwise_of_split ?_, pairwise_of_split ?_⟩
  · rintro a i b rfl k name m hinv
    have hrun := h.split.1
    obtain ⟨fd, data, u, hev, hc, hname, -, -⟩ := Item.invoke_inv i (Run.wellFormed hrun) hinv
    obtain ⟨a1, j, a2, idx, rfl, hacc⟩ := Run.authenticated hrun fd u hc
    have hwj := Run.wellFormed hrun.split.1
    obtain ⟨hu, packet, hevj, hproves⟩ := hacc.proves hwj
    have hst := Item.steady j hwj hu
    have hst' := Path.steady hrun.split.2 (Item.wellFormed j hwj) hst.bound
    have hname' : (j.pre.gate.users.cell u).username = name := by
      rw [← hst.username, ← hst'.username, hname]
    obtain ⟨l, hl, hlev⟩ := Run.logged_in hrun.split.1 u hu
    rw [hname'] at hproves hlev
    exact ⟨fd, data, hev, a1, j, a2, packet, _, rfl, hevj,
      Run.first_packet hrun hfd.append.1 hacc, hproves, l, hl, hlev⟩
  · rintro a i b j d rfl p p' name idx idx' hi hj
    exact Run.index_lt h honce hi hj
  · rintro a i b j d rfl p p' name idx idx' hi hj rfl
    have hlt := Run.index_lt h honce hi hj
    obtain ⟨_, index, _, hsplit, hidx⟩ := hi.index
    obtain ⟨_, index', _, hsplit', hidx'⟩ := hj.index
    rw [hsplit] at hsplit'
    obtain ⟨-, rfl, -⟩ := by simpa using hsplit'
    rw [hidx] at hidx'
    exact absurd hlt (by rw [Option.some.inj hidx']; exact lt_irrefl _)

/-! ## A run with a request -/

/-- A user who connects twice and then sends a request. -/
def requestRun : List Event := reconnect ++ [.packet 2 (bytes "move" ++ packBE 4 7)]

/-- The last step of `requestRun`. -/
def requestRunItems (tr : List (Item {})) : Bool :=
  match tr with
  | [i1, i2, i3, i4, i5, i] =>
    decide ([i1, i2, i3, i4, i5, i].map (·.ev) = requestRun ∧
      i.out = [.invoke 0 (bytes "dQ==@cw==@MQ==") (bytes "move")])
  | _ => false

/-- The last step of `requestRun` runs the handler. -/
theorem requestRun_run : ∃ (a : List (Item {})) (i : Item {}),
    (machine {}).Run (a ++ [i]) i.post ∧ (a ++ [i]).map (·.ev) = requestRun ∧
      .invoke 0 (bytes "dQ==@cw==@MQ==") (bytes "move") ∈ i.out := by
  have h : ((machine {}).items (machine {}).init requestRun).map requestRunItems = some true := by
    decide +kernel
  obtain ⟨tr, hrun, hP⟩ := Machine.exists_run h
  unfold requestRunItems at hP
  split at hP
  · rename_i i1 i2 i3 i4 i5 i
    obtain ⟨hev, hout⟩ := of_decide_eq_true hP
    exact ⟨[i1, i2, i3, i4, i5], i, hrun, hev, by rw [hout]; exact List.mem_singleton_self _⟩
  · exact absurd hP (by simp)

/-- The connection of the request goes back to a handshake with the stored secret. -/
theorem authentic_requestRun : ∃ tr : List (Item {}), tr.map (·.ev) = requestRun ∧
    ∃ i ∈ tr, .invoke 0 (bytes "dQ==@cw==@MQ==") (bytes "move") ∈ i.out ∧
      ∃ j ∈ tr, ∃ fd packet secret, j.ev = .packet fd packet ∧
        Proves packet (bytes "dQ==@cw==@MQ==") secret ∧
        ∃ l ∈ tr, l.ev = .login (bytes "dQ==@cw==@MQ==") secret := by
  obtain ⟨a, i, hrun, hev, hinv⟩ := requestRun_run
  have hfd : NoReuse (a ++ [i]) := by
    unfold NoReuse
    rw [hev]
    decide +kernel
  have honce : LoginOnce (a ++ [i]) := by
    unfold LoginOnce
    rw [hev]
    decide +kernel
  obtain ⟨fd, -, -, a1, j, a2, packet, secret, rfl, hj, -, hp, l, hl, hlev⟩ :=
    (authentic hrun hfd honce).1 a i [] rfl _ _ _ hinv
  exact ⟨_, hev, i, by simp, hinv, j, by simp, fd, packet, secret, hj, hp, l, by simp [hl], hlev⟩

end LsServer.GameGate
