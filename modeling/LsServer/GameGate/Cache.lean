import LsServer.GameGate.Live

/-!
# A step, seen from the response cache

`Item.Serves` says what a step does to the cached responses, their entries and the tasks: it is
idle, or it is one of the branches of `do_request`, or the end of a task. Each branch comes with
the responses it sends.

* `Item.Requests`: the step is a packet that reaches `do_request`, with the user, the session, the
  content and the entry that it finds.
* `Item.Responds`: the step sends a response frame to a connection; a status is none.
* `Item.Serves` has a case for every branch: a new entry and a call of the handler (`Invoked`), a
  conflict (`Dropped`), a resend that joins or is answered, and the end of a task (`Ended`).

A step that serves no request is `Idle`: it may bind, sever or log in users, and leaves every cache
as it is, but a login makes an empty one.

Results:
* `Item.serves`: what a step does;
* `Item.Requests.branch`, `Item.completes`: the same for a request, and for the end of a task;
* `Item.Requests.responds`, `Item.responds_of_complete`: what is sent is really sent.
-/

namespace LsServer.GameGate

open LsServer.Lib LsServer.Lua

variable {c : Conf}

/-- The step hands the packet to `do_request`, as a request of the user of its connection. -/
structure Item.Requests (i : Item c) (fd : Fd) (u : UserId) (data : Bytes) : Prop where
  ev : i.ev = .packet fd data
  listed : i.pre.gate.gsConnection.get fd = some true
  handshake : i.pre.gate.handshake.get fd = none
  connection : i.pre.gate.connection.get fd = some u
  length : 4 ≤ data.length

/-- The step sends a response of `do_request`. -/
def Item.Responds (i : Item c) (fd : Fd) (frame : Bytes) : Prop :=
  .send fd frame ∈ i.out ∧ ∀ x d, i.ev = .packet x d → i.pre.gate.handshake.get x = none

/-- Nothing happens to the caches; new users have none. -/
structure Idle (g g' : Gate) : Prop where
  response : ∀ u, u < g.users.next →
    (g'.users.cell u).response = (g.users.cell u).response
  fresh : ∀ u s j, (g'.users.cell u).response.get s = some j →
    (g.users.cell u).response.get s = some j
  entries : g'.entries = g.entries
  tasks : g'.tasks = g.tasks
  nextTask : g'.nextTask = g.nextTask

/-- A handler is invoked for the request `message` with number `s` on `fd`. -/
structure Invoked (g g' : Gate) (fd : Fd) (u : UserId) (s : Nat) (message : Bytes) : Prop where
  response : ∀ x, (g'.users.cell u).response.get x =
    if x = s then some g.entries.next else (g.users.cell u).response.get x
  others : ∀ v, v ≠ u → (g'.users.cell v).response = (g.users.cell v).response
  entries : g'.entries = g.entries.alloc ⟨some fd, none, none, none⟩
  tasks : g'.tasks = g.tasks.set g.nextTask ⟨fd, u, s, message, g.entries.next⟩
  nextTask : g'.nextTask = g.nextTask + 1

/-- The session `s` of `u` is deleted. -/
structure Dropped (g g' : Gate) (u : UserId) (s : Nat) : Prop where
  response : ∀ x, (g'.users.cell u).response.get x =
    if x = s then none else (g.users.cell u).response.get x
  others : ∀ v, v ≠ u → (g'.users.cell v).response = (g.users.cell v).response
  entries : g'.entries = g.entries
  tasks : g'.tasks = g.tasks
  nextTask : g'.nextTask = g.nextTask

/-- The state after the assignments of a step and before `finish`, with `g'` after it. -/
structure Ended (g g' : Gate) (u : UserId) (j : EntryId) (e : Entry) : Prop where
  shrinks : ∀ v s x, (g'.users.cell v).response.get s = some x →
    (g.users.cell v).response.get s = some x
  others : ∀ v, v ≠ u → (g'.users.cell v).response = (g.users.cell v).response
  next : g'.entries.next = g.entries.next
  fd : ∀ x, (g'.entries.cell x).fd = if x = j then none else (g.entries.cell x).fd
  response : ∀ x, (g'.entries.cell x).response =
    if x = j then e.response else (g.entries.cell x).response
  version : ∀ x, (g'.entries.cell x).version =
    if x = j then e.version else (g.entries.cell x).version
  nextTask : g'.nextTask = g.nextTask
  keeps : ∀ s, (g.users.cell u).response.get s = some j →
    (∀ s', (g.users.cell u).response.get s' = some j → s' = s) →
    (g'.users.cell u).response.get s = some j

/-- The other sessions stay as they are. -/
theorem Invoked.get_ne {g g' : Gate} {fd : Fd} {u v : UserId} {s x : Nat} {message : Bytes}
    (h : Invoked g g' fd u s message) (hne : ¬ (u = v ∧ s = x)) :
    (g'.users.cell v).response.get x = (g.users.cell v).response.get x := by
  by_cases hv : v = u
  · subst hv
    rw [h.response, if_neg fun hx => hne ⟨rfl, hx.symm⟩]
  · rw [h.others v hv]

theorem Dropped.get_ne {g g' : Gate} {u v : UserId} {s x : Nat} (h : Dropped g g' u s)
    (hne : ¬ (u = v ∧ s = x)) :
    (g'.users.cell v).response.get x = (g.users.cell v).response.get x := by
  by_cases hv : v = u
  · subst hv
    rw [h.response, if_neg fun hx => hne ⟨rfl, hx.symm⟩]
  · rw [h.others v hv]

theorem Ended.congr {g g' g'' : Gate} {u : UserId} {j : EntryId} {e : Entry}
    (h : Ended g g' u j e) (hu : g''.users = g'.users) (he : g''.entries = g'.entries)
    (hn : g''.nextTask = g'.nextTask) : Ended g g'' u j e :=
  ⟨hu ▸ h.shrinks, hu ▸ h.others, he ▸ h.next, he ▸ h.fd, he ▸ h.response, he ▸ h.version,
    hn ▸ h.nextTask, hu ▸ h.keeps⟩

theorem finish_ended {c : Conf} {g : Gate} {u : UserId} {j : EntryId} {e : Entry}
    (he : e.index = some (g.users.cell u).index) :
    Ended g (finish c { g with entries := g.entries.set j e } u j).1 u j e := by
  have hf := finish_finished c { g with entries := g.entries.set j e } u j
  refine ⟨fun v s x h => ?_, fun v hv => by rw [hf.others v hv], hf.next, fun x => ?_,
    fun x => ?_, fun x => ?_, hf.nextTask, fun s hs huniq => ?_⟩
  · by_cases hv : v = u
    · subst hv
      exact hf.shrinks s x h
    · rw [hf.others v hv] at h
      exact h
  · rw [hf.fd]
    by_cases hx : x = j
    · simp [hx]
    · simp [hx, Heap.cell_set_ne hx]
  · rw [hf.response, Heap.cell_set]
    split <;> rfl
  · rw [hf.version, Heap.cell_set]
    split <;> rfl
  · refine finish_keeps hs huniq ?_
    simp [he]

/-- What a step does to the caches. -/
inductive Item.Serves (i : Item c) : Prop
  | idle (hg : Idle i.pre.gate i.post.gate) (hreq : ∀ fd u data, ¬ i.Requests fd u data)
    (hev : ∀ k r, i.ev ≠ .complete k r) (hsend : ∀ fd frame, ¬ i.Responds fd frame)
  | invoke {fd : Fd} {u : UserId} {data : Bytes} (hreq : i.Requests fd u data)
    (hs : ∀ j, (i.pre.gate.users.cell u).response.get (sessionOf data) = some j →
      (i.pre.gate.entries.cell j).version = some (i.pre.gate.users.cell u).version ∧
      (i.pre.gate.entries.cell j).response ≠ none)
    (hg : Invoked i.pre.gate i.post.gate fd u (sessionOf data) (contentOf data))
    (hout : i.out = [.invoke i.pre.gate.nextTask (i.pre.gate.users.cell u).username
      (contentOf data)])
  | conflict {fd : Fd} {u : UserId} {data : Bytes} {j : EntryId} (hreq : i.Requests fd u data)
    (hs : (i.pre.gate.users.cell u).response.get (sessionOf data) = some j)
    (hv : (i.pre.gate.entries.cell j).version = some (i.pre.gate.users.cell u).version)
    (hr : (i.pre.gate.entries.cell j).response = none)
    (hg : Dropped i.pre.gate i.post.gate u (sessionOf data))
    (hout : ∀ a ∈ i.out, a = .close fd)
  | pending {fd : Fd} {u : UserId} {data : Bytes} {j : EntryId} (hreq : i.Requests fd u data)
    (hs : (i.pre.gate.users.cell u).response.get (sessionOf data) = some j)
    (hv : (i.pre.gate.entries.cell j).version ≠ some (i.pre.gate.users.cell u).version)
    (hr : (i.pre.gate.entries.cell j).response = none)
    (hg : i.post.gate = redirect i.pre.gate fd u j) (hout : i.out = [])
  | again {fd : Fd} {u : UserId} {data : Bytes} {j : EntryId} {frame : Bytes}
    (hreq : i.Requests fd u data)
    (hs : (i.pre.gate.users.cell u).response.get (sessionOf data) = some j)
    (hv : (i.pre.gate.entries.cell j).version ≠ some (i.pre.gate.users.cell u).version)
    (hr : (i.pre.gate.entries.cell j).response = some frame)
    (hg : Ended i.pre.gate i.post.gate u j ⟨some fd, some frame,
      some (i.pre.gate.users.cell u).version, some (i.pre.gate.users.cell u).index⟩)
    (htasks : i.post.gate.tasks = i.pre.gate.tasks)
    (hout : ∀ a ∈ i.out, a = .send fd frame ∨ a = .close fd)
  | answer {k : TaskId} {t : Task} {r : HandlerResult} {frame : Bytes} (hev : i.ev = .complete k r)
    (ht : i.pre.gate.tasks.get k = some t) (hf : responseFrame r t.session = some frame)
    (hg : Ended i.pre.gate i.post.gate t.user t.entry ⟨(i.pre.gate.entries.cell t.entry).fd,
      some frame, some (i.pre.gate.users.cell t.user).version,
      some (i.pre.gate.users.cell t.user).index⟩)
    (htasks : i.post.gate.tasks = i.pre.gate.tasks.del k)
    (hout : ∀ a ∈ i.out, (∃ fd, a = .send fd frame ∧
      (i.pre.gate.entries.cell t.entry).fd = some fd ∧
      (i.pre.gate.connection.get fd).isSome) ∨ a = .close t.fd)
  | tooLong {k : TaskId} {t : Task} {r : HandlerResult} (hev : i.ev = .complete k r)
    (ht : i.pre.gate.tasks.get k = some t) (hf : responseFrame r t.session = none)
    (husers : i.post.gate.users = i.pre.gate.users)
    (hentries : i.post.gate.entries = i.pre.gate.entries)
    (htasks : i.post.gate.tasks = i.pre.gate.tasks.del k)
    (hnext : i.post.gate.nextTask = i.pre.gate.nextTask)
    (hout : ∀ a ∈ i.out, a = .close t.fd)

/-- The branch of `do_request` that a request takes. -/
inductive Item.Branch (i : Item c) (fd : Fd) (u : UserId) (data : Bytes) : Prop
  | invoke (hs : ∀ j, (i.pre.gate.users.cell u).response.get (sessionOf data) = some j →
      (i.pre.gate.entries.cell j).version = some (i.pre.gate.users.cell u).version ∧
      (i.pre.gate.entries.cell j).response ≠ none)
    (hg : Invoked i.pre.gate i.post.gate fd u (sessionOf data) (contentOf data))
    (hout : i.out = [.invoke i.pre.gate.nextTask (i.pre.gate.users.cell u).username
      (contentOf data)])
  | conflict {j : EntryId}
    (hs : (i.pre.gate.users.cell u).response.get (sessionOf data) = some j)
    (hv : (i.pre.gate.entries.cell j).version = some (i.pre.gate.users.cell u).version)
    (hr : (i.pre.gate.entries.cell j).response = none)
    (hg : Dropped i.pre.gate i.post.gate u (sessionOf data)) (hout : ∀ a ∈ i.out, a = .close fd)
  | pending {j : EntryId}
    (hs : (i.pre.gate.users.cell u).response.get (sessionOf data) = some j)
    (hv : (i.pre.gate.entries.cell j).version ≠ some (i.pre.gate.users.cell u).version)
    (hr : (i.pre.gate.entries.cell j).response = none)
    (hg : i.post.gate = redirect i.pre.gate fd u j) (hout : i.out = [])
  | again {j : EntryId} {frame : Bytes}
    (hs : (i.pre.gate.users.cell u).response.get (sessionOf data) = some j)
    (hv : (i.pre.gate.entries.cell j).version ≠ some (i.pre.gate.users.cell u).version)
    (hr : (i.pre.gate.entries.cell j).response = some frame)
    (hg : Ended i.pre.gate i.post.gate u j ⟨some fd, some frame,
      some (i.pre.gate.users.cell u).version, some (i.pre.gate.users.cell u).index⟩)
    (hout : ∀ a ∈ i.out, a = .send fd frame ∨ a = .close fd)

/-- How task `k` ends. -/
inductive Item.Completes (i : Item c) (k : TaskId) (r : HandlerResult) : Prop
  | answer {t : Task} {frame : Bytes} (ht : i.pre.gate.tasks.get k = some t)
    (hf : responseFrame r t.session = some frame)
    (hout : ∀ a ∈ i.out, (∃ fd, a = .send fd frame ∧
      (i.pre.gate.entries.cell t.entry).fd = some fd ∧
      (i.pre.gate.connection.get fd).isSome) ∨ a = .close t.fd)
  | tooLong {t : Task} (ht : i.pre.gate.tasks.get k = some t)
    (hf : responseFrame r t.session = none) (husers : i.post.gate.users = i.pre.gate.users)
    (hentries : i.post.gate.entries = i.pre.gate.entries)
    (htasks : i.post.gate.tasks = i.pre.gate.tasks.del k) (hout : ∀ a ∈ i.out, a = .close t.fd)

/-- A step handles one request. -/
theorem Item.Requests.inj {i : Item c} {x x' : Fd} {v v' : UserId} {data data' : Bytes}
    (hreq : i.Requests x v data) (hreq' : i.Requests x' v' data') :
    x = x' ∧ v = v' ∧ data = data' := by
  obtain ⟨rfl, rfl⟩ := by simpa using hreq.ev.symm.trans hreq'.ev
  exact ⟨rfl, Option.some.inj (hreq.connection.symm.trans hreq'.connection), rfl⟩

theorem Item.Requests.not_complete {i : Item c} {x : Fd} {v : UserId} {data : Bytes}
    (hreq : i.Requests x v data) (k : TaskId) (r : HandlerResult) : i.ev ≠ .complete k r :=
  fun hc => absurd (hreq.ev.symm.trans hc) (by simp)

theorem Idle.of_eq {g g' : Gate} (hu : g'.users = g.users) (he : g'.entries = g.entries)
    (ht : g'.tasks = g.tasks) (hn : g'.nextTask = g.nextTask) : Idle g g' :=
  ⟨fun u _ => by rw [hu], fun u s j h => by rwa [hu] at h, he, ht, hn⟩

/-- Writing a user without touching its cache. -/
theorem Idle.of_set {g g' : Gate} {u : UserId} {r : User} (hu : g'.users = g.users.set u r)
    (hr : r.response = (g.users.cell u).response) (he : g'.entries = g.entries)
    (ht : g'.tasks = g.tasks) (hn : g'.nextTask = g.nextTask) : Idle g g' := by
  have key : ∀ v, (g'.users.cell v).response = (g.users.cell v).response := by
    intro v
    rw [hu, Heap.cell_set]
    split
    · rename_i hv
      rw [hv, hr]
    · rfl
  exact ⟨fun v _ => key v, fun v s j h => by rwa [key v] at h, he, ht, hn⟩

theorem disconnect_idle (g : Gate) (fd : Fd) : Idle g (disconnect g fd).1 := by
  cases h : g.connection.get fd with
  | none =>
    rw [disconnect_none h]
    exact .of_eq rfl rfl rfl rfl
  | some u =>
    rw [disconnect_some h]
    exact .of_set rfl rfl rfl rfl rfl

theorem Item.serves_request (i : Item c) {fd : Fd} {data : Bytes} (hev : i.ev = .packet fd data)
    (hgs : i.pre.gate.gsConnection.get fd = some true)
    (hhs : i.pre.gate.handshake.get fd = none)
    (hpost : i.post.gate = (request c i.pre.gate fd data).1)
    (hout : i.out = (request c i.pre.gate fd data).2) : i.Serves := by
  have hreq := doRequest_requested c i.pre.gate fd data
  have husers : i.post.gate.users = (doRequest c i.pre.gate fd data).1.users := by
    rw [hpost, request, settle_users]
  have hentries : i.post.gate.entries = (doRequest c i.pre.gate fd data).1.entries := by
    rw [hpost, request, settle_entries]
  have htasks : i.post.gate.tasks = (doRequest c i.pre.gate fd data).1.tasks := by
    rw [hpost, request, settle_tasks]
  have hnext : i.post.gate.nextTask = (doRequest c i.pre.gate fd data).1.nextTask := by
    rw [hpost, request, settle_nextTask]
  have hacts : ∀ a ∈ i.out, a ∈ (doRequest c i.pre.gate fd data).2.1 ∨ a = .close fd :=
    fun a ha => mem_settle_or (hout ▸ ha)
  have hok : (doRequest c i.pre.gate fd data).2.2 = true →
      i.post.gate = (doRequest c i.pre.gate fd data).1 ∧
        i.out = (doRequest c i.pre.gate fd data).2.1 := fun h => by
    rw [hpost, hout, request, settle, if_pos h]
    exact ⟨rfl, rfl⟩
  have hR : ∀ {u}, i.pre.gate.connection.get fd = some u → 4 ≤ data.length →
      i.Requests fd u data := fun hc hlen => ⟨hev, hgs, hhs, hc, hlen⟩
  -- a request that is not served
  have hidle : (∀ u, i.pre.gate.connection.get fd = some u → data.length < 4) →
      i.post.gate.users = i.pre.gate.users → i.post.gate.entries = i.pre.gate.entries →
      i.post.gate.tasks = i.pre.gate.tasks → i.post.gate.nextTask = i.pre.gate.nextTask →
      (∀ a ∈ i.out, a = .close fd) → i.Serves := by
    intro hbad h1 h2 h3 h4 h5
    refine .idle (.of_eq h1 h2 h3 h4) ?_ (by simp [hev]) ?_
    · intro x u d hr
      obtain ⟨rfl, rfl⟩ := by simpa using hev.symm.trans hr.ev
      exact absurd hr.length (not_le.mpr (hbad u hr.connection))
    · intro x frame hsend
      exact absurd (h5 _ hsend.1) (by simp)
  generalize (doRequest c i.pre.gate fd data).1 = g',
    (doRequest c i.pre.gate fd data).2.1 = acts,
    (doRequest c i.pre.gate fd data).2.2 = ok at *
  cases hreq with
  | invalid hc =>
    exact hidle (by simp [hc]) husers hentries htasks hnext (by simpa using hacts)
  | short hc hlen =>
    exact hidle (fun _ _ => hlen) husers hentries htasks hnext (by simpa using hacts)
  | @fresh u hc hlen hs =>
    obtain ⟨hg, ho⟩ := hok rfl
    refine .invoke (hR hc hlen) (by simp [hs]) ?_ ho
    rw [hg]
    refine ⟨fun x => ?_, fun v hv => ?_, rfl, rfl, rfl⟩
    · simp [invokeHandler, Table.get_set]
    · simp [invokeHandler, Heap.cell_set_ne hv]
  | @conflict u j hc hlen hs hv hr =>
    refine .conflict (hR hc hlen) hs hv hr ?_ (by simpa using hacts)
    refine ⟨fun x => ?_, fun v hv => ?_, hentries, htasks, hnext⟩
    · rw [husers]
      simp [dropEntry, Table.get_del]
    · rw [husers]
      simp [dropEntry, Heap.cell_set_ne hv]
  | @reuse u j hc hlen hs hv hr =>
    obtain ⟨hg, ho⟩ := hok rfl
    refine .invoke (hR hc hlen) (fun j' hj' => ?_) ?_ (by rw [ho]; simp [invokeHandler, dropEntry])
    · rw [hs] at hj'
      rw [← Option.some.inj hj']
      exact ⟨hv, hr⟩
    · rw [hg]
      refine ⟨fun x => ?_, fun v hv => ?_, rfl, rfl, rfl⟩
      · simp only [invokeHandler, dropEntry, Heap.cell_set_self, Table.get_set]
        split
        · rfl
        · rename_i hx
          exact Table.get_del_ne hx
      · simp [invokeHandler, dropEntry, Heap.cell_set_ne hv]
  | @pending u j hc hlen hs hv hr =>
    obtain ⟨hg, ho⟩ := hok rfl
    exact .pending (hR hc hlen) hs hv hr hg ho
  | @again u j hc hlen hs hv hr =>
    obtain ⟨frame, hframe⟩ := Option.ne_none_iff_exists'.mp hr
    have he : redirect i.pre.gate fd u j = { i.pre.gate with
        entries := i.pre.gate.entries.set j ⟨some fd, some frame,
          some (i.pre.gate.users.cell u).version, some (i.pre.gate.users.cell u).index⟩ } := by
      simp [redirect, hframe]
    have hf := finish_finished c (redirect i.pre.gate fd u j) u j
    have hend := finish_ended (c := c) (g := i.pre.gate) (u := u) (j := j)
      (e := ⟨some fd, some frame, some (i.pre.gate.users.cell u).version,
        some (i.pre.gate.users.cell u).index⟩) rfl
    rw [← he] at hend
    refine .again (hR hc hlen) hs hv hframe (hend.congr husers hentries hnext)
      (htasks.trans hf.tasks) ?_
    · intro a ha
      rcases hacts a ha with h | h
      · obtain ⟨x, fr, rfl, hx, hfr, -⟩ := mem_finish h
        simp only [redirect, Heap.cell_set_self, Option.some.injEq] at hx hfr
        rw [hframe] at hfr
        rw [← hx, Option.some.inj hfr]
        exact Or.inl rfl
      · exact Or.inr h

theorem Item.serves_complete (i : Item c) {k : TaskId} {t : Task} {r : HandlerResult}
    (hev : i.ev = .complete k r) (ht : i.pre.gate.tasks.get k = some t)
    (hpost : i.post.gate = (complete c i.pre.gate k t r).1)
    (hout : i.out = (complete c i.pre.gate k t r).2) : i.Serves := by
  rw [complete] at hpost hout
  have husers := congrArg Gate.users hpost
  have hentries := congrArg Gate.entries hpost
  have htasks := congrArg Gate.tasks hpost
  have hnext := congrArg Gate.nextTask hpost
  rw [settle_users] at husers
  rw [settle_entries] at hentries
  rw [settle_tasks] at htasks
  rw [settle_nextTask] at hnext
  have hacts : ∀ a ∈ i.out, a ∈ (resume c { i.pre.gate with
      tasks := i.pre.gate.tasks.del k } t r).2.1 ∨ a = .close t.fd :=
    fun a ha => mem_settle_or (hout ▸ ha)
  cases hf : responseFrame r t.session with
  | none =>
    simp only [resume, hf] at husers hentries htasks hnext hacts
    exact .tooLong hev ht hf husers hentries htasks hnext (by simpa using hacts)
  | some frame =>
    have hfin := finish_finished c (stamp { i.pre.gate with tasks := i.pre.gate.tasks.del k } t
      frame) t.user t.entry
    have hend := finish_ended (c := c) (g := { i.pre.gate with tasks := i.pre.gate.tasks.del k })
      (u := t.user) (j := t.entry) (e := ⟨(i.pre.gate.entries.cell t.entry).fd, some frame,
        some (i.pre.gate.users.cell t.user).version,
        some (i.pre.gate.users.cell t.user).index⟩) rfl
    have hmem := @mem_resume c { i.pre.gate with tasks := i.pre.gate.tasks.del k } t r
    simp only [resume, hf] at husers hentries htasks hnext hacts hmem
    refine .answer hev ht hf ?_ (htasks.trans hfin.tasks) ?_
    · have := hend.congr husers hentries hnext
      exact ⟨this.shrinks, this.others, this.next, this.fd, this.response, this.version,
        this.nextTask, this.keeps⟩
    · intro a ha
      rcases hacts a ha with h | h
      · obtain ⟨fd, fr, rfl, hfr, hfd, hc⟩ := hmem h
        rw [← Option.some.inj hfr]
        exact Or.inl ⟨fd, rfl, hfd, hc⟩
      · exact Or.inr h

/-- **What a step does to the caches.** -/
theorem Item.serves (i : Item c) (hw : WellFormed i.pre) : i.Serves := by
  have hh := i.handled
  -- an event that is no request and no end of a task
  have hidle : Idle i.pre.gate i.post.gate → (∀ fd u data, ¬ i.Requests fd u data) →
      (∀ k r, i.ev ≠ .complete k r) → (∀ fd frame, ¬ i.Responds fd frame) → i.Serves := .idle
  have hnoreq : (∀ x d, i.ev ≠ .packet x d) → ∀ fd u data, ¬ i.Requests fd u data :=
    fun hne fd u data h => hne fd data h.ev
  generalize hev : i.ev = e, hpost : i.post.gate = g', hout : i.out = acts at hh
  cases hh with
  | connect fd addr =>
    refine hidle ?_ (hnoreq (by simp [hev])) (by simp [hev]) ?_
    · obtain h | h := msgOpen_cases c i.pre.gate fd addr
      · rw [hpost, h]
        exact .of_eq rfl rfl rfl rfl
      · rw [hpost, h]
        exact .of_eq rfl rfl rfl rfl
    · intro x frame hx
      have := hout ▸ hx.1
      obtain h | h := msgOpen_cases c i.pre.gate fd addr <;> simp [h] at this
  | @dropped fd data hgs =>
    refine hidle ?_ ?_ (by simp [hev]) ?_
    · rw [hpost]
      exact .of_eq rfl rfl rfl rfl
    · intro x u d h
      obtain ⟨rfl, rfl⟩ := by simpa using hev.symm.trans h.ev
      exact hgs h.listed
    · intro x frame h
      have := hout ▸ h.1
      exact absurd this (by simp)
  | @refused fd data addr status _ hhs =>
    refine hidle ?_ ?_ (by simp [hev]) ?_
    · rw [hpost]
      exact .of_eq rfl rfl rfl rfl
    · intro x u d h
      obtain ⟨rfl, rfl⟩ := by simpa using hev.symm.trans h.ev
      exact absurd (hhs.symm.trans h.handshake) (by simp)
    · intro x frame h
      exact absurd (hhs.symm.trans (h.2 fd data hev)) (by simp)
  | @accepted fd data addr u idx _ hhs =>
    refine hidle ?_ ?_ (by simp [hev]) ?_
    · rw [hpost]
      exact .of_set rfl rfl rfl rfl rfl
    · intro x u d h
      obtain ⟨rfl, rfl⟩ := by simpa using hev.symm.trans h.ev
      exact absurd (hhs.symm.trans h.handshake) (by simp)
    · intro x frame h
      exact absurd (hhs.symm.trans (h.2 fd data hev)) (by simp)
  | @request fd data hgs hhs => exact i.serves_request hev hgs hhs hpost hout
  | @complete k t r ht => exact i.serves_complete hev ht hpost hout
  | close fd =>
    refine hidle ?_ (hnoreq (by simp [hev])) (by simp [hev]) ?_
    · have h := disconnect_idle { i.pre.gate with
        clientNumber := i.pre.gate.clientNumber - 1
        gsConnection := if i.pre.gate.gsConnection.get fd = some true then
          i.pre.gate.gsConnection.set fd false else i.pre.gate.gsConnection } fd
      rw [hpost]
      exact ⟨h.response, h.fresh, h.entries, h.tasks, h.nextTask⟩
    · intro x frame hx
      obtain ⟨_, h⟩ | h := mem_disconnect (hout ▸ hx.1) <;> exact absurd h (by simp)
  | error fd =>
    refine hidle ?_ (hnoreq (by simp [hev])) (by simp [hev]) ?_
    · rw [hpost]
      exact disconnect_idle i.pre.gate fd
    · intro x frame hx
      rcases List.mem_cons.mp (hout ▸ hx.1) with h | h
      · exact absurd h (by simp)
      · obtain ⟨_, h⟩ | h := mem_disconnect h <;> exact absurd h (by simp)
  | login name secret =>
    refine hidle ?_ (hnoreq (by simp [hev])) (by simp [hev]) ?_
    · rw [hpost]
      refine ⟨fun u hu => ?_, fun u s j h => ?_, rfl, rfl, rfl⟩
      · simp [serverLogin, Heap.cell_alloc_ne (Nat.ne_of_lt hu)]
      · simp only [serverLogin, Heap.cell_alloc] at h
        split at h
        · exact absurd h (by simp)
        · exact h
    · intro x frame hx
      exact absurd (hout ▸ hx.1) (by simp)
  | logout name =>
    have hl := serverLogout_loggedOut hw name
    rw [← hpost, ← hout] at hl
    refine hidle ?_ (hnoreq (by simp [hev])) (by simp [hev]) ?_
    · cases hl with
      | absent _ hg => rw [hg]; exact .of_eq rfl rfl rfl rfl
      | away _ _ hg => rw [hg]; exact .of_eq rfl rfl rfl rfl
      | connected _ _ _ hg => rw [hg]; exact .of_eq rfl rfl rfl rfl
    · intro x frame hx
      have hmem := hx.1
      cases hl with
      | absent _ _ hacts => rw [hacts] at hmem; simp at hmem
      | away _ _ _ hacts => rw [hacts] at hmem; simp at hmem
      | connected _ _ _ _ hacts =>
        rw [hacts] at hmem
        split at hmem <;> simp at hmem

/-! ## Requests and ends of tasks -/

/-- **What a request does**, branch by branch. -/
theorem Item.Requests.branch {i : Item c} {fd : Fd} {u : UserId} {data : Bytes}
    (h : i.Requests fd u data) (hw : WellFormed i.pre) : i.Branch fd u data := by
  cases i.serves hw with
  | idle _ hno => exact absurd h (hno fd u data)
  | invoke h' hs hg hout =>
    obtain ⟨rfl, rfl, rfl⟩ := h.inj h'
    exact .invoke hs hg hout
  | conflict h' hs hv hr hg hout =>
    obtain ⟨rfl, rfl, rfl⟩ := h.inj h'
    exact .conflict hs hv hr hg hout
  | pending h' hs hv hr hg hout =>
    obtain ⟨rfl, rfl, rfl⟩ := h.inj h'
    exact .pending hs hv hr hg hout
  | again h' hs hv hr hg _ hout =>
    obtain ⟨rfl, rfl, rfl⟩ := h.inj h'
    exact .again hs hv hr hg hout
  | answer hev => exact absurd hev (h.not_complete _ _)
  | tooLong hev => exact absurd hev (h.not_complete _ _)

/-- **What the end of a task does.** -/
theorem Item.completes (i : Item c) (hw : WellFormed i.pre) {k : TaskId} {r : HandlerResult}
    (hev : i.ev = .complete k r) : i.Completes k r := by
  cases i.serves hw with
  | idle _ _ hno => exact absurd hev (hno k r)
  | invoke hreq => exact absurd hev (hreq.not_complete k r)
  | conflict hreq => exact absurd hev (hreq.not_complete k r)
  | pending hreq => exact absurd hev (hreq.not_complete k r)
  | again hreq => exact absurd hev (hreq.not_complete k r)
  | answer hev' ht hf _ _ hout =>
    obtain ⟨rfl, rfl⟩ := Event.complete.inj (hev.symm.trans hev')
    exact .answer ht hf hout
  | tooLong hev' ht hf husers hentries htasks _ hout =>
    obtain ⟨rfl, rfl⟩ := Event.complete.inj (hev.symm.trans hev')
    exact .tooLong ht hf husers hentries htasks hout

theorem Item.Requests.request_eq {i : Item c} {fd : Fd} {u : UserId} {data : Bytes}
    (h : i.Requests fd u data) : i.post.gate = (request c i.pre.gate fd data).1 ∧
      i.out = (request c i.pre.gate fd data).2 := by
  have hi := i.inv.1
  rw [h.ev, handle, if_neg (i.packet_present h.ev)] at hi
  unfold dispatchMsg handlerMessage at hi
  rw [if_pos h.listed, h.handshake] at hi
  obtain ⟨h1, h2⟩ := Prod.ext_iff.mp (Option.some.inj hi)
  exact ⟨h1.symm, h2.symm⟩

theorem Item.complete_eq {i : Item c} {k : TaskId} {t : Task} {r : HandlerResult}
    (hev : i.ev = .complete k r) (ht : i.pre.gate.tasks.get k = some t) :
    i.post.gate = (complete c i.pre.gate k t r).1 ∧
      i.out = (complete c i.pre.gate k t r).2 := by
  have hi := i.inv.1
  rw [hev, handle, ht, Option.map_some, Option.some.injEq] at hi
  obtain ⟨h1, h2⟩ := Prod.ext_iff.mp hi
  exact ⟨h1.symm, h2.symm⟩

/-- A complete entry of an older version. -/
theorem Item.Requests.again_eq {i : Item c} {fd : Fd} {u : UserId} {data : Bytes} {j : EntryId}
    (h : i.Requests fd u data)
    (hs : (i.pre.gate.users.cell u).response.get (sessionOf data) = some j)
    (hv : (i.pre.gate.entries.cell j).version ≠ some (i.pre.gate.users.cell u).version)
    (hr : (i.pre.gate.entries.cell j).response ≠ none) :
    doRequest c i.pre.gate fd data = finish c (redirect i.pre.gate fd u j) u j := by
  unfold doRequest resend
  simp [h.connection, not_lt.mpr h.length, hs, hv, hr]

/-- A complete entry is sent again. -/
theorem Item.Requests.responds {i : Item c} {fd : Fd} {u : UserId} {data frame : Bytes}
    {j : EntryId} (h : i.Requests fd u data)
    (hs : (i.pre.gate.users.cell u).response.get (sessionOf data) = some j)
    (hv : (i.pre.gate.entries.cell j).version ≠ some (i.pre.gate.users.cell u).version)
    (hr : (i.pre.gate.entries.cell j).response = some frame) : i.Responds fd frame := by
  refine ⟨?_, fun x d hev => ?_⟩
  · rw [h.request_eq.2, request, h.again_eq hs hv (by simp [hr])]
    refine (mem_settle (by simp)).mpr (send_mem_finish ?_ ?_ ?_)
    · simp [redirect]
    · simp [redirect, hr]
    · simp [redirect, h.connection]
  · obtain ⟨rfl, -⟩ := Event.packet.inj (h.ev.symm.trans hev)
    exact h.handshake

end LsServer.GameGate
