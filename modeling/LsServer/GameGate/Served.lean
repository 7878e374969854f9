import LsServer.GameGate.Step

/-!
# What serving a request changes

Serving a request writes the cache and the index of a user, the entries, the tasks and which
connections `gateserver` still has open; `Served` says that it leaves everything else alone.
`Requested` lists the branches of `do_request` up to its yield, and `Finished` says what its end
does to the cache.

* `User.identity` is what does not change while a request is served: name, secret, version,
  connection and address of a user.
* `Requested` has a case for each branch of `do_request` with the entry that it found, so a proof
  about a request has all facts about the cache at hand.
* `Finished` is about the entry of the session, the entries that were retired, and the index.

These lemmas say what is left alone, once for all branches. The modules about runs use them in the
place of the definitions.

Results: `request_served`, `complete_served`, `doRequest_requested`, `finish_finished`.
-/

namespace LsServer.GameGate

open LsServer.Lib LsServer.Lua

/-! ## The frame -/

/-- The fields of a user that only `server.login`, `do_auth` and `handler.disconnect` write. -/
structure Identity where
  username : Bytes
  secret : Bytes
  version : Number
  fd : Option Fd
  ip : Option Bytes

def User.identity (r : User) : Identity := ⟨r.username, r.secret, r.version, r.fd, r.ip⟩

/-- What serving requests leaves alone. -/
structure Served (g g' : Gate) : Prop where
  userOnline : g'.userOnline = g.userOnline
  handshake : g'.handshake = g.handshake
  connection : g'.connection = g.connection
  users : g'.users.next = g.users.next
  identity : ∀ u, (g'.users.cell u).identity = (g.users.cell u).identity

namespace Served

variable {g g' g'' : Gate}

theorem refl (g : Gate) : Served g g := ⟨rfl, rfl, rfl, rfl, fun _ => rfl⟩

theorem trans (h : Served g g') (h' : Served g' g'') : Served g g'' where
  userOnline := h'.userOnline.trans h.userOnline
  handshake := h'.handshake.trans h.handshake
  connection := h'.connection.trans h.connection
  users := h'.users.trans h.users
  identity u := (h'.identity u).trans (h.identity u)

theorem username (h : Served g g') (u : UserId) :
    (g'.users.cell u).username = (g.users.cell u).username :=
  congrArg Identity.username (h.identity u)

theorem secret (h : Served g g') (u : UserId) :
    (g'.users.cell u).secret = (g.users.cell u).secret :=
  congrArg Identity.secret (h.identity u)

theorem version (h : Served g g') (u : UserId) :
    (g'.users.cell u).version = (g.users.cell u).version :=
  congrArg Identity.version (h.identity u)

theorem fd (h : Served g g') (u : UserId) : (g'.users.cell u).fd = (g.users.cell u).fd :=
  congrArg Identity.fd (h.identity u)

end Served

theorem identity_set {h : Heap User} {u : UserId} {r : User}
    (hr : r.identity = (h.cell u).identity) (v : UserId) :
    ((h.set u r).cell v).identity = (h.cell v).identity := by
  rw [Heap.cell_set]
  split
  · rename_i hv
    rw [hv, hr]
  · rfl

theorem retireResponse_served (c : Conf) (g : Gate) (u : UserId) :
    Served g (retireResponse c g u).1 := by
  simp only [retireResponse]
  split
  · exact ⟨rfl, rfl, rfl, rfl, identity_set rfl⟩
  · exact .refl g

theorem release_served (g : Gate) (u : UserId) (i : EntryId) : Served g (release g u i) :=
  ⟨rfl, rfl, rfl, rfl, identity_set rfl⟩

theorem finish_served (c : Conf) (g : Gate) (u : UserId) (i : EntryId) :
    Served g (finish c g u i).1 :=
  (release_served g u i).trans (retireResponse_served c _ u)

theorem dropEntry_served (g : Gate) (u : UserId) (session : Nat) :
    Served g (dropEntry g u session) :=
  ⟨rfl, rfl, rfl, rfl, identity_set rfl⟩

theorem invokeHandler_served (g : Gate) (fd : Fd) (u : UserId) (session : Nat) (m : Bytes) :
    Served g (invokeHandler g fd u session m).1 :=
  ⟨rfl, rfl, rfl, rfl, identity_set rfl⟩

theorem redirect_served (g : Gate) (fd : Fd) (u : UserId) (i : EntryId) :
    Served g (redirect g fd u i) :=
  ⟨rfl, rfl, rfl, rfl, fun _ => rfl⟩

theorem stamp_served (g : Gate) (t : Task) (frame : Bytes) : Served g (stamp g t frame) :=
  ⟨rfl, rfl, rfl, rfl, fun _ => rfl⟩

/-! ## The branches of `do_request` -/

/-- `do_request` up to its yield, branch by branch. -/
inductive Requested (c : Conf) (g : Gate) (fd : Fd) (data : Bytes) :
    Gate → List Act → Bool → Prop
  | invalid (hc : g.connection.get fd = none) : Requested c g fd data g [] false
  | short {u : UserId} (hc : g.connection.get fd = some u) (hlen : data.length < 4) :
    Requested c g fd data g [] false
  | fresh {u : UserId} (hc : g.connection.get fd = some u) (hlen : 4 ≤ data.length)
    (hs : (g.users.cell u).response.get (sessionOf data) = none) :
    Requested c g fd data (invokeHandler g fd u (sessionOf data) (contentOf data)).1
      (invokeHandler g fd u (sessionOf data) (contentOf data)).2.1 true
  | conflict {u : UserId} {i : EntryId} (hc : g.connection.get fd = some u)
    (hlen : 4 ≤ data.length) (hs : (g.users.cell u).response.get (sessionOf data) = some i)
    (hv : (g.entries.cell i).version = some (g.users.cell u).version)
    (hr : (g.entries.cell i).response = none) :
    Requested c g fd data (dropEntry g u (sessionOf data)) [] false
  | reuse {u : UserId} {i : EntryId} (hc : g.connection.get fd = some u)
    (hlen : 4 ≤ data.length) (hs : (g.users.cell u).response.get (sessionOf data) = some i)
    (hv : (g.entries.cell i).version = some (g.users.cell u).version)
    (hr : (g.entries.cell i).response ≠ none) :
    Requested c g fd data
      (invokeHandler (dropEntry g u (sessionOf data)) fd u (sessionOf data) (contentOf data)).1
      (invokeHandler (dropEntry g u (sessionOf data)) fd u (sessionOf data) (contentOf data)).2.1
      true
  | pending {u : UserId} {i : EntryId} (hc : g.connection.get fd = some u)
    (hlen : 4 ≤ data.length) (hs : (g.users.cell u).response.get (sessionOf data) = some i)
    (hv : (g.entries.cell i).version ≠ some (g.users.cell u).version)
    (hr : (g.entries.cell i).response = none) :
    Requested c g fd data (redirect g fd u i) [] true
  | again {u : UserId} {i : EntryId} (hc : g.connection.get fd = some u)
    (hlen : 4 ≤ data.length) (hs : (g.users.cell u).response.get (sessionOf data) = some i)
    (hv : (g.entries.cell i).version ≠ some (g.users.cell u).version)
    (hr : (g.entries.cell i).response ≠ none) :
    Requested c g fd data (finish c (redirect g fd u i) u i).1
      (finish c (redirect g fd u i) u i).2.1 (finish c (redirect g fd u i) u i).2.2

theorem doRequest_requested (c : Conf) (g : Gate) (fd : Fd) (data : Bytes) :
    Requested c g fd data (doRequest c g fd data).1 (doRequest c g fd data).2.1
      (doRequest c g fd data).2.2 := by
  unfold doRequest
  cases hc : g.connection.get fd with
  | none => exact .invalid hc
  | some u =>
    by_cases hlen : data.length < 4
    · simp only [if_pos hlen]
      exact .short hc hlen
    · simp only [if_neg hlen]
      rw [not_lt] at hlen
      cases hs : (g.users.cell u).response.get (sessionOf data) with
      | none => exact .fresh hc hlen hs
      | some i =>
        by_cases hv : (g.entries.cell i).version = some (g.users.cell u).version
        · by_cases hr : (g.entries.cell i).response = none
          · simp only [if_pos hv, if_pos hr]
            exact .conflict hc hlen hs hv hr
          · simp only [if_pos hv, if_neg hr]
            exact .reuse hc hlen hs hv hr
        · by_cases hr : (g.entries.cell i).response = none
          · simp only [if_neg hv, resend, if_pos hr]
            exact .pending hc hlen hs hv hr
          · simp only [if_neg hv, resend, if_neg hr]
            exact .again hc hlen hs hv hr

theorem Requested.served {c : Conf} {g g' : Gate} {fd : Fd} {data : Bytes} {acts : List Act}
    {ok : Bool} (h : Requested c g fd data g' acts ok) : Served g g' := by
  cases h with
  | invalid => exact .refl g
  | short => exact .refl g
  | fresh => exact invokeHandler_served _ _ _ _ _
  | conflict => exact dropEntry_served _ _ _
  | reuse => exact (dropEntry_served _ _ _).trans (invokeHandler_served _ _ _ _ _)
  | pending => exact redirect_served _ _ _ _
  | again => exact (redirect_served _ _ _ _).trans (finish_served _ _ _ _)

/-! ## The end of `request` -/

/-- `settle` only closes the connection. -/
theorem settle_eq (fd : Fd) (x : Gate × List Act × Bool) :
    settle fd x = (x.1, x.2.1) ∨ x.2.2 = false ∧ (x.1.connection.get fd).isSome ∧
      settle fd x = ({ x.1 with gsConnection := x.1.gsConnection.del fd },
        x.2.1 ++ if (x.1.gsConnection.get fd).isSome then [.close fd] else []) := by
  unfold settle
  by_cases hok : x.2.2 = true
  · rw [if_pos hok]
    exact Or.inl rfl
  · rw [if_neg hok]
    by_cases hc : (x.1.connection.get fd).isSome
    · rw [if_pos hc]
      exact Or.inr ⟨by simpa using hok, hc, by rw [closeclient_eq]⟩
    · rw [if_neg hc]
      exact Or.inl rfl

@[simp] theorem settle_users (fd : Fd) (x : Gate × List Act × Bool) :
    (settle fd x).1.users = x.1.users := by
  obtain he | ⟨-, -, he⟩ := settle_eq fd x <;> rw [he]

@[simp] theorem settle_entries (fd : Fd) (x : Gate × List Act × Bool) :
    (settle fd x).1.entries = x.1.entries := by
  obtain he | ⟨-, -, he⟩ := settle_eq fd x <;> rw [he]

@[simp] theorem settle_tasks (fd : Fd) (x : Gate × List Act × Bool) :
    (settle fd x).1.tasks = x.1.tasks := by
  obtain he | ⟨-, -, he⟩ := settle_eq fd x <;> rw [he]

@[simp] theorem settle_nextTask (fd : Fd) (x : Gate × List Act × Bool) :
    (settle fd x).1.nextTask = x.1.nextTask := by
  obtain he | ⟨-, -, he⟩ := settle_eq fd x <;> rw [he]

/-- `settle` adds nothing but the closing of the connection. -/
theorem mem_settle {fd : Fd} {x : Gate × List Act × Bool} {a : Act} (ha : ∀ fd, a ≠ .close fd) :
    a ∈ (settle fd x).2 ↔ a ∈ x.2.1 := by
  obtain he | ⟨-, -, he⟩ := settle_eq fd x
  · rw [he]
  · rw [he]
    simp only [List.mem_append]
    constructor
    · rintro (h | h)
      · exact h
      · split at h
        · exact absurd (List.mem_singleton.mp h) (ha fd)
        · exact absurd h (by simp)
    · exact Or.inl

theorem mem_settle_or {fd : Fd} {x : Gate × List Act × Bool} {a : Act}
    (h : a ∈ (settle fd x).2) : a ∈ x.2.1 ∨ a = .close fd := by
  obtain he | ⟨-, -, he⟩ := settle_eq fd x
  · rw [he] at h
    exact Or.inl h
  · rw [he] at h
    rcases List.mem_append.mp h with h | h
    · exact Or.inl h
    · split at h
      · exact Or.inr (List.mem_singleton.mp h)
      · exact absurd h (by simp)

theorem settle_served {g : Gate} (fd : Fd) {x : Gate × List Act × Bool} (h : Served g x.1) :
    Served g (settle fd x).1 := by
  obtain he | ⟨-, -, he⟩ := settle_eq fd x
  · rw [he]
    exact h
  · rw [he]
    exact h.trans ⟨rfl, rfl, rfl, rfl, fun _ => rfl⟩

theorem request_served (c : Conf) (g : Gate) (fd : Fd) (data : Bytes) :
    Served g (request c g fd data).1 :=
  settle_served fd (doRequest_requested c g fd data).served

theorem resume_served (c : Conf) (g : Gate) (t : Task) (r : HandlerResult) :
    Served g (resume c g t r).1 := by
  unfold resume
  split
  · exact .refl g
  · exact (stamp_served _ _ _).trans (finish_served _ _ _ _)

theorem complete_served (c : Conf) (g : Gate) (k : TaskId) (t : Task) (r : HandlerResult) :
    Served g (complete c g k t r).1 :=
  have h : Served g { g with tasks := g.tasks.del k } := ⟨rfl, rfl, rfl, rfl, fun _ => rfl⟩
  settle_served t.fd (h.trans (resume_served c _ t r))

/-! ## The end of `do_request` -/

/-- What the end of `do_request` for the entries in `is` does to the caches, the entries and the
tasks: it may delete sessions of `u`, and clears the return connection of the entries in `is`. -/
structure Finished (g g' : Gate) (u : UserId) (is : List EntryId) : Prop where
  tasks : g'.tasks = g.tasks
  nextTask : g'.nextTask = g.nextTask
  gsConnection : g'.gsConnection = g.gsConnection
  next : g'.entries.next = g.entries.next
  others : ∀ v, v ≠ u → g'.users.cell v = g.users.cell v
  shrinks : ∀ s j, (g'.users.cell u).response.get s = some j →
    (g.users.cell u).response.get s = some j
  fd : ∀ j, (g'.entries.cell j).fd = if j ∈ is then none else (g.entries.cell j).fd
  response : ∀ j, (g'.entries.cell j).response = (g.entries.cell j).response
  version : ∀ j, (g'.entries.cell j).version = (g.entries.cell j).version

theorem retireResponse_finished (c : Conf) (g : Gate) (u : UserId) :
    Finished g (retireResponse c g u).1 u [] := by
  have hentry : ∀ j, ∃ index, (retireLoop c.expired_number (g.users.cell u).response.entries
      ⟨(g.users.cell u).response, g.entries, 0⟩).1.entries.cell j =
        { g.entries.cell j with index := index } := fun j => retireLoop_entries j
  simp only [retireResponse]
  split
  · refine ⟨rfl, rfl, rfl, retireLoop_next, fun v hv => Heap.cell_set_ne hv, fun s j h => ?_,
      fun j => ?_, fun j => ?_, fun j => ?_⟩
    · simp only [Heap.cell_set_self] at h
      exact retireLoop_response h
    · obtain ⟨index, h⟩ := hentry j
      simp [h]
    · obtain ⟨index, h⟩ := hentry j
      simp [h]
    · obtain ⟨index, h⟩ := hentry j
      simp [h]
  · exact ⟨rfl, rfl, rfl, rfl, fun _ _ => rfl, fun _ _ h => h, fun _ => by simp, fun _ => rfl,
      fun _ => rfl⟩

theorem release_finished (g : Gate) (u : UserId) (i : EntryId) :
    Finished g (release g u i) u [i] := by
  refine ⟨rfl, rfl, rfl, rfl, fun v hv => Heap.cell_set_ne hv, fun s j h => ?_, fun j => ?_,
    fun j => ?_, fun j => ?_⟩
  · simpa [release] using h
  all_goals
    simp only [release, Heap.cell_set]
    by_cases hj : j = i
    · simp [hj]
    · simp [hj]

/-- **What `finish` does.** -/
theorem finish_finished (c : Conf) (g : Gate) (u : UserId) (i : EntryId) :
    Finished g (finish c g u i).1 u [i] := by
  have h1 := release_finished g u i
  have h2 := retireResponse_finished c (release g u i) u
  exact ⟨h2.tasks.trans h1.tasks, h2.nextTask.trans h1.nextTask,
    h2.gsConnection.trans h1.gsConnection, h2.next.trans h1.next,
    fun v hv => (h2.others v hv).trans (h1.others v hv),
    fun s j h => h1.shrinks s j (h2.shrinks s j h),
    fun j => (h2.fd j).trans (by simpa using h1.fd j),
    fun j => (h2.response j).trans (h1.response j), fun j => (h2.version j).trans (h1.version j)⟩

/-- `finish` only sends, to the connection of the entry and its response. -/
theorem mem_finish {c : Conf} {g : Gate} {u : UserId} {i : EntryId} {a : Act}
    (h : a ∈ (finish c g u i).2.1) : ∃ fd frame, a = .send fd frame ∧
      (g.entries.cell i).fd = some fd ∧ (g.entries.cell i).response = some frame ∧
      (g.connection.get fd).isSome := by
  simp only [finish] at h
  split at h
  · rename_i fd frame hfd hr
    split at h
    · rename_i hc
      exact ⟨fd, frame, List.mem_singleton.mp h, hfd, hr, hc⟩
    · exact absurd h (by simp)
  · exact absurd h (by simp)

theorem send_mem_finish {c : Conf} {g : Gate} {u : UserId} {i : EntryId} {fd : Fd} {frame : Bytes}
    (hfd : (g.entries.cell i).fd = some fd) (hr : (g.entries.cell i).response = some frame)
    (hc : (g.connection.get fd).isSome) : .send fd frame ∈ (finish c g u i).2.1 := by
  simp [finish, hfd, hr, hc]

theorem mem_resume {c : Conf} {g : Gate} {t : Task} {r : HandlerResult} {a : Act}
    (h : a ∈ (resume c g t r).2.1) : ∃ fd frame, a = .send fd frame ∧
      responseFrame r t.session = some frame ∧ (g.entries.cell t.entry).fd = some fd ∧
      (g.connection.get fd).isSome := by
  unfold resume at h
  split at h
  · exact absurd h (by simp)
  · rename_i frame hframe
    obtain ⟨fd, frame', rfl, hfd, hr, hc⟩ := mem_finish h
    simp only [stamp, Heap.cell_set_self, Option.some.injEq] at hfd hr
    subst hr
    exact ⟨fd, frame, rfl, hframe, hfd, hc⟩

/-- **`finish` keeps the entry it ends**, if no other session refers to it and it is stamped with
the index of its user. -/
theorem finish_keeps {c : Conf} {g : Gate} {u : UserId} {i : EntryId} {s : Nat}
    (hs : (g.users.cell u).response.get s = some i)
    (huniq : ∀ s', (g.users.cell u).response.get s' = some i → s' = s)
    (hi : (g.entries.cell i).index = some (g.users.cell u).index) :
    ((finish c g u i).1.users.cell u).response.get s = some i := by
  have hr : ((release g u i).users.cell u).response = (g.users.cell u).response := by
    simp [release]
  have hidx : ((release g u i).users.cell u).index = (g.users.cell u).index + 1 := by
    simp [release]
  simp only [finish, retireResponse]
  rw [hr, hidx]
  split
  · rename_i hle
    simp only [Heap.cell_set_self]
    rw [retireLoop_keeps (i := i) (Table.entries_nodup _)]
    · exact hs
    · intro p hp hpi
      exact huniq p.1 (Table.mem_entries.mp (by rw [← hpi]; exact hp))
    · intro p hp hps
      have := Table.mem_entries.mp (show (p.1, p.2) ∈ _ from hp)
      rw [hps, hs] at this
      exact (Option.some.inj this).symm
    · right
      refine ⟨(g.users.cell u).index, by simp [release, hi], by omega⟩
  · rw [hr]
    exact hs

end LsServer.GameGate
