import LsServer.GameGate.AtMostOnce

/-!
# Entries without a coroutine

A `do_request` inserts its entry before it yields and completes it afterwards. `string.pack` can
raise in between, on a response of more than 65535 bytes: the entry then stays behind, neither
complete nor owned by a coroutine, and a resend of its session finds it pending.

Source: GameGate.lua 247-262; lstrlib.c `str_pack` for `>s2`, which raises at 65536 bytes.

* The result of a handler has five bytes more in its frame: the status and the session. So 65531
  bytes are too long, and `string.pack` raises outside of the `pcall` of the handler.
* `Unwedged`: the session is not cached, or complete, or a task runs its handler. `Unstuck` asks
  that of every state of a run, and that every request is heard.
* `Item.Heard`: a request invokes a handler, or is answered, or joins a task that runs, or its
  connection is closed.
* The condition is on the results of the handlers whose entry is still cached: one that was dropped
  in the meantime may be as long as it likes.

The error also closes the connection (`request` 288-292), and the client will resend on the next
one; its resends are ignored as long as its versions differ from the one of the entry, which has
none.

Results:
* `Item.unwedged`: no other step leaves such an entry;
* `wedged_iff`: in a run every cached session is complete or has its coroutine, and every request
  is heard, exactly if no response of a cached session is too long;
* `resend_ignored`: a run with a response that is.
-/

namespace LsServer.GameGate

open LsServer.Lib LsServer.Lua

variable {c : Conf}

/-- The session is absent, complete, or a `do_request` still runs the handler for its entry. -/
def Unwedged (g : Gate) (u : UserId) (session : Nat) : Prop :=
  ∀ p, (g.users.cell u).response.get session = some p →
    ((g.entries.cell p).fd = none ∧ (g.entries.cell p).response ≠ none) ∨
      ∃ k t, g.tasks.get k = some t ∧ t.entry = p

/-- The step ends a handler whose entry is cached with a response that cannot be packed. -/
def Item.Wedges (i : Item c) : Prop :=
  ∃ k t r, i.ev = .complete k r ∧ i.pre.gate.tasks.get k = some t ∧
    responseFrame r t.session = none ∧
    (i.pre.gate.users.cell t.user).response.get t.session = some t.entry

/-- What becomes of a request: the handler is invoked, the cached response is sent, a coroutine
that runs the handler has taken note of the connection, or the connection is closed. -/
inductive Item.Heard (i : Item c) (fd : Fd) (u : UserId) (session : Nat) : Prop
  | invoked (k : TaskId) (message : Bytes)
    (h : .invoke k (i.pre.gate.users.cell u).username message ∈ i.out)
  | sent (frame : Bytes) (h : .send fd frame ∈ i.out)
  | noted (k : TaskId) (t : Task) (hk : i.post.gate.tasks.get k = some t)
    (hs : (i.post.gate.users.cell u).response.get session = some t.entry)
    (hfd : (i.post.gate.entries.cell t.entry).fd = some fd)
  | closed (h : i.post.gate.gsConnection.get fd = none)

/-! ## Running handlers -/

/-- The entry of a running handler has a return connection and no response. -/
def Running (g : Gate) : Prop :=
  ∀ k t, g.tasks.get k = some t →
    (g.entries.cell t.entry).fd ≠ none ∧ (g.entries.cell t.entry).response = none

/-- Two running handlers have their own entries. -/
theorem Owned.entry_inj {own : EntryId → Owner} {g : Gate} (h : Owned own g) {k k' : TaskId}
    {t t' : Task} (ht : g.tasks.get k = some t) (ht' : g.tasks.get k' = some t')
    (he : t.entry = t'.entry) : k = k' := by
  have h1 := (h.waiting k t ht).2
  have h2 := (h.waiting k' t' ht').2
  rw [he, h2] at h1
  exact (congrArg Owner.task h1).symm

theorem Item.running (i : Item c) (hw : WellFormed i.pre) {own : EntryId → Owner}
    (hown : Owned own i.pre.gate) (h : Running i.pre.gate) : Running i.post.gate := by
  intro q t hq
  cases i.serves hw with
  | idle hg =>
    rw [hg.tasks] at hq
    rw [hg.entries]
    exact h q t hq
  | invoke _ _ hg =>
    rw [hg.tasks, Table.get_set] at hq
    rw [hg.entries]
    split at hq
    · obtain rfl := Option.some.inj hq
      simp
    · have hlt := (hown.waiting q t hq).1
      rw [Heap.cell_alloc_ne (Nat.ne_of_lt hlt)]
      exact h q t hq
  | conflict _ _ _ _ hg =>
    rw [hg.tasks] at hq
    rw [hg.entries]
    exact h q t hq
  | @pending fd u data j _ _ _ _ hg =>
    rw [hg] at hq ⊢
    simp only [redirect, Heap.cell_set]
    split
    · rename_i hj
      exact ⟨by simp, hj ▸ (h q t hq).2⟩
    · exact h q t hq
  | @again fd u data j frame _ _ _ hr hg htasks =>
    rw [htasks] at hq
    have hne : t.entry ≠ j := by
      rintro rfl
      exact absurd (hr.symm.trans (h q t hq).2) (by simp)
    rw [hg.fd, hg.response, if_neg hne, if_neg hne]
    exact h q t hq
  | @answer k t₁ r frame _ ht _ hg htasks =>
    rw [htasks] at hq
    obtain ⟨hqk, hq⟩ := Table.get_of_get_del hq
    have hne : t.entry ≠ t₁.entry := fun he => hqk (hown.entry_inj hq ht he)
    rw [hg.fd, hg.response, if_neg hne, if_neg hne]
    exact h q t hq
  | tooLong _ _ _ _ hentries htasks =>
    rw [htasks] at hq
    rw [hentries]
    exact h q t (Table.get_of_get_del hq).2

theorem Run.running {tr : List (Item c)} {s : State} (h : (machine c).Run tr s) :
    Running s.gate := by
  refine Machine.Run.history (J := fun _ s => Running s.gate) ?_ ?_ h
  · intro k t hk
    simp [machine, Gate.init] at hk
  · intro tr i hrun hr
    obtain ⟨own, hown⟩ := Run.routed hrun
    exact Item.running i (Run.wellFormed hrun) hown.toOwned hr

/-! ## The step -/

/-- **Only a response that is too long leaves an entry behind.** -/
theorem Item.unwedged (i : Item c) (hw : WellFormed i.pre) {own : EntryId → Owner}
    (hown : Owned own i.pre.gate)
    (h : ∀ u session, Unwedged i.pre.gate u session) (hi : ¬ i.Wedges) (u : UserId)
    (session : Nat) : Unwedged i.post.gate u session := by
  intro p hp
  cases i.serves hw with
  | idle hg =>
    rw [hg.entries, hg.tasks]
    exact h u session p (hg.fresh u session p hp)
  | @invoke fd v data _ _ hg =>
    rw [hg.entries, hg.tasks]
    have hold : (i.pre.gate.users.cell u).response.get session = some p →
        (((i.pre.gate.entries.alloc ⟨some fd, none, none, none⟩).cell p).fd = none ∧
          ((i.pre.gate.entries.alloc ⟨some fd, none, none, none⟩).cell p).response ≠ none) ∨
        ∃ k t, (i.pre.gate.tasks.set i.pre.gate.nextTask
          ⟨fd, v, sessionOf data, contentOf data, i.pre.gate.entries.next⟩).get k = some t ∧
            t.entry = p := by
      intro hp
      have hlt := (hown.cached u session p hp).1
      rw [Heap.cell_alloc_ne (Nat.ne_of_lt hlt)]
      refine (h u session p hp).imp_right fun ⟨k, t, hk, ht⟩ => ⟨k, t, ?_, ht⟩
      have hkn : k < i.pre.gate.nextTask := by
        have h1 := hown.task t.entry (hown.waiting k t hk).1
        rwa [(hown.waiting k t hk).2] at h1
      rwa [Table.get_set_ne (Nat.ne_of_lt hkn)]
    by_cases hv : u = v
    · subst hv
      rw [hg.response] at hp
      split at hp
      · obtain rfl := Option.some.inj hp
        exact Or.inr ⟨_, _, Table.get_set_self _ _ _, rfl⟩
      · exact hold hp
    · rw [hg.others u hv] at hp
      exact hold hp
  | conflict _ _ _ _ hg =>
    rw [hg.entries, hg.tasks]
    exact h u session p (hg.noNew.response u session p hp)
  | @pending fd v data j _ _ _ hr hg =>
    rw [hg] at hp ⊢
    rcases h u session p hp with ⟨hfd, hresp⟩ | ht
    · have hne : p ≠ j := by
        rintro rfl
        exact hresp hr
      simp only [redirect, Heap.cell_set_ne hne]
      exact Or.inl ⟨hfd, hresp⟩
    · exact Or.inr ht
  | @again fd v data j frame _ _ _ hr hg htasks =>
    rw [htasks, hg.fd, hg.response]
    by_cases hpj : p = j
    · simp [hpj]
    · simp only [if_neg hpj]
      exact h u session p (hg.shrinks u session p hp)
  | @answer k t r frame _ ht _ hg htasks =>
    rw [htasks, hg.fd, hg.response]
    by_cases hpt : p = t.entry
    · simp [hpt]
    · simp only [if_neg hpt]
      refine (h u session p (hg.shrinks u session p hp)).imp_right fun ⟨q, t', hq, he⟩ => ?_
      refine ⟨q, t', (Table.get_del_ne ?_).trans hq, he⟩
      rintro rfl
      obtain rfl := Option.some.inj (ht.symm.trans hq)
      exact hpt he.symm
  | @tooLong k t r hev ht hf husers hentries htasks =>
    rw [husers] at hp
    rw [hentries, htasks]
    refine (h u session p hp).imp_right fun ⟨q, t', hq, he⟩ => ?_
    refine ⟨q, t', (Table.get_del_ne ?_).trans hq, he⟩
    rintro rfl
    obtain rfl := Option.some.inj (ht.symm.trans hq)
    -- the entry of `t` is cached under the session of `t`
    obtain ⟨-, hu, hs⟩ := hown.cached u session p hp
    rw [← he, (hown.waiting q t ht).2] at hu hs
    refine hi ⟨q, t, r, hev, ht, hf, ?_⟩
    rw [show t.user = u from hu, show t.session = session from hs, he]
    exact hp

/-- A response that is too long leaves its entry behind. -/
theorem Item.Wedges.not_unwedged {i : Item c} (h : i.Wedges) (hw : WellFormed i.pre)
    {own : EntryId → Owner} (hown : Owned own i.pre.gate) (hrun : Running i.pre.gate) :
    ∃ u session, ¬ Unwedged i.post.gate u session := by
  obtain ⟨k, t, r, hev, ht, hf, hs⟩ := h
  refine ⟨t.user, t.session, fun hun => ?_⟩
  cases i.completes hw hev with
  | answer ht' hf' =>
    obtain rfl := Option.some.inj (ht.symm.trans ht')
    exact absurd (hf.symm.trans hf') (by simp)
  | tooLong _ _ husers hentries htasks =>
    rcases hun t.entry (by rw [husers]; exact hs) with ⟨-, hr⟩ | ⟨q, t', hq, he⟩
    · rw [hentries] at hr
      exact hr (hrun k t ht).2
    · rw [htasks] at hq
      obtain ⟨hqk, hq⟩ := Table.get_of_get_del hq
      exact hqk (hown.entry_inj hq ht he)

/-! ## Requests -/

/-- **A request is heard**, if its session has no entry left behind. -/
theorem Item.heard (i : Item c) (hw : WellFormed i.pre) {fd : Fd} {u : UserId} {data : Bytes}
    (hreq : i.Requests fd u data) (h : Unwedged i.pre.gate u (sessionOf data)) :
    i.Heard fd u (sessionOf data) := by
  obtain ⟨hpost, hout⟩ := hreq.request_eq
  cases hreq.branch hw with
  | invoke _ _ ho => exact .invoked _ _ (by rw [ho]; exact List.mem_singleton_self _)
  | conflict hs hv hresp =>
    -- the coroutine has raised
    have hd : doRequest c i.pre.gate fd data =
        (dropEntry i.pre.gate u (sessionOf data), [], false) := by
      unfold doRequest
      simp [hreq.connection, not_lt.mpr hreq.length, hs, hv, hresp]
    refine .closed ?_
    rw [hpost]
    unfold request settle
    rw [hd]
    simp [dropEntry, hreq.connection, closeclient_eq]
  | @pending j hs _ hresp hg =>
    rcases h j hs with ⟨-, hne⟩ | ⟨k, t, hk, rfl⟩
    · exact absurd hresp hne
    · refine .noted k t ?_ ?_ ?_ <;> rw [hg]
      · exact hk
      · exact hs
      · simp [redirect]
  | @again j frame hs hv hresp => exact .sent frame (hreq.responds hs hv hresp).1

/-! ## Runs -/

/-- After the run, every session is absent, complete or being handled, and each request was
heard. -/
def Unstuck (tr : List (Item c)) : Prop :=
  (∀ i ∈ tr, ∀ u session, Unwedged i.post.gate u session) ∧
    ∀ i ∈ tr, ∀ fd u data, Item.Requests i fd u data → Item.Heard i fd u (sessionOf data)

/-- **No session is stuck, as long as no response of a cached session is too long**, and one is as
soon as such a response comes. -/
theorem wedged_iff {tr : List (Item c)} {s : State} (h : (machine c).Run tr s) :
    Unstuck tr ↔ ∀ i ∈ tr, ¬ Item.Wedges i := by
  have hpre : ∀ i ∈ tr, WellFormed i.pre ∧ (∃ own, Owned own i.pre.gate) ∧
      Running i.pre.gate := by
    intro i hi
    obtain ⟨a, b, rfl⟩ := List.append_of_mem hi
    have ha := (Machine.Path.split h).1
    obtain ⟨own, hown⟩ := Run.routed ha
    exact ⟨Run.wellFormed ha, ⟨own, hown.toOwned⟩, Run.running ha⟩
  have hinit : ∀ u session, Unwedged (machine c).init.gate u session := by
    intro u session p hp
    simp [machine, Gate.init, Heap.empty] at hp
  constructor
  · rintro ⟨hun, -⟩ i hi hw
    obtain ⟨hwf, ⟨own, hown⟩, hrun⟩ := hpre i hi
    obtain ⟨u, session, hn⟩ := hw.not_unwedged hwf hown hrun
    exact hn (hun i hi u session)
  · intro hno
    have hstep : ∀ i ∈ tr, (∀ u session, Unwedged i.pre.gate u session) →
        ∀ u session, Unwedged i.post.gate u session := by
      intro i hi hu u session
      obtain ⟨hwf, ⟨own, hown⟩, -⟩ := hpre i hi
      exact i.unwedged hwf hown hu (hno i hi) u session
    have hall := Machine.Path.keeps_pre (I := fun s => ∀ u session, Unwedged s.gate u session) h
      hinit hstep
    exact ⟨fun i hi => hstep i hi (hall i hi),
      fun i hi fd u data hr => i.heard (hpre i hi).1 hr (hall i hi u _)⟩

/-! ## Concrete runs -/

/-- An event that can happen is a step. -/
theorem exists_item {s : State} {e : Event} {x : Gate × List Act} (h : handle c s e = some x) :
    ∃ i : Item c, i.pre = s ∧ i.ev = e ∧ i.post.gate = x.1 ∧ i.out = x.2 :=
  ⟨⟨s, e, _, _, congrArg (Option.map _) h⟩, rfl, rfl, rfl, rfl⟩

theorem wedged_iff_resendRun : ∃ tr : List (Item {}), tr.map (·.ev) = resendRun ∧ Unstuck tr := by
  have h : ((machine {}).items (machine {}).init resendRun).map (fun tr =>
      decide (tr.map (·.ev) = resendRun)) = some true := by
    decide +kernel
  obtain ⟨tr, hrun, hP⟩ := Machine.exists_run h
  have hev : tr.map (·.ev) = resendRun := of_decide_eq_true hP
  refine ⟨tr, hev, (wedged_iff hrun).mpr fun i hi hw => ?_⟩
  obtain ⟨k, t, r, hc, -, hf, -⟩ := hw
  have hmem : Event.complete k r ∈ resendRun := hev ▸ hc ▸ List.mem_map_of_mem hi
  obtain ⟨rfl, rfl⟩ : k = 0 ∧ r = .ok (some (bytes "done")) := by
    simpa [resendRun, twoConnections] using hmem
  have hlen : (bytes "done").length = 4 := by decide
  simp [responseFrame, responseBody, packS2, packBE_length, hlen] at hf

/-- Where the response cannot be packed, the coroutine raises. -/
theorem complete_of_frame {g : Gate} {k : TaskId} {t : Task} {r : HandlerResult}
    (h : responseFrame r t.session = none) :
    complete c g k t r = settle t.fd ({ g with tasks := g.tasks.del k }, [], false) := by
  rw [complete, resume, h]

/-- A result that leaves no room for the status byte and the session. -/
def longResult : HandlerResult := .ok (some (List.replicate 65531 0))

theorem longResult_frame (session : Nat) : responseFrame longResult session = none := by
  have hlen : (responseBody longResult session).length = 65536 := by
    simp only [responseBody, longResult, Option.getD_some, List.length_append, List.length_cons,
      List.length_replicate, packBE_length]
  rw [responseFrame, packS2, if_neg (by omega)]

/-- **A resend is ignored**: the handler of the request ends with `longResult`, after the user has
connected again. The session stays pending without a coroutine, and the resend gets no answer. -/
theorem resend_ignored : ∃ (tr : List (Item {})) (i j : Item {}),
    (machine {}).Run (tr ++ [i] ++ [j]) j.post ∧ tr.map (·.ev) = twoConnections ∧
      i.ev = .complete 0 longResult ∧ ¬ Unwedged i.post.gate 0 7 ∧
      j.Requests 2 0 move ∧ j.out = [] ∧ (∀ k, j.post.gate.tasks.get k = none) ∧
      ¬ Unwedged j.post.gate 0 7 := by
  have h : ((machine {}).items (machine {}).init twoConnections).map (fun tr =>
      let g := (Machine.last (machine {}).init tr).gate
      decide (tr.map (·.ev) = twoConnections ∧
        (g.tasks.get 0).map (fun t => (t.fd, t.user, t.session, t.entry)) = some (1, 0, 7, 0) ∧
        g.tasks.entries.map Prod.fst = [0] ∧ (g.users.cell 0).response.get 7 = some 0 ∧
        (g.entries.cell 0).version = none ∧
        (g.gsConnection.get 2 = some true ∧ g.handshake.get 2 = none ∧
          g.connection.get 2 = some 0 ∧ g.connection.get 1 = some 0) ∧
        (Machine.last (machine {}).init tr).net.get 2 = some .open)) = some true := by
    decide +kernel
  obtain ⟨tr, hrun, hP⟩ := Machine.exists_run h
  generalize Machine.last (machine {}).init tr = s at hrun hP
  obtain ⟨hev, htask, htasks, hcached, hver, ⟨hgs, hhs, hc2, hc1⟩, hnet⟩ := of_decide_eq_true hP
  obtain ⟨t, ht, htf⟩ := Option.map_eq_some_iff.mp htask
  obtain ⟨hfd, hu, hs, he⟩ : t.fd = 1 ∧ t.user = 0 ∧ t.session = 7 ∧ t.entry = 0 := by
    simpa using htf
  obtain ⟨own, hown⟩ := Run.routed hrun
  have hresp : (s.gate.entries.cell 0).response = none := he ▸ (Run.running hrun 0 t ht).2
  -- the handler ends
  have hcomplete : complete {} s.gate 0 t longResult =
      ({ s.gate with
          tasks := s.gate.tasks.del 0
          gsConnection := s.gate.gsConnection.del 1 },
        if (s.gate.gsConnection.get 1).isSome then [.close 1] else []) := by
    rw [complete_of_frame (longResult_frame t.session), hfd, settle]
    simp [hc1, closeclient_eq]
  have hhandle := (congrArg (Option.map fun t => complete {} s.gate 0 t longResult) ht).trans
    (congrArg some hcomplete)
  obtain ⟨i, rfl, hiev, hipost, -⟩ := exists_item (c := {}) (s := s) (e := .complete 0 longResult)
    hhandle
  have hrun' : (machine {}).Run (tr ++ [i]) i.post :=
    Machine.path_snoc_iff.mpr ⟨hrun, rfl⟩
  have hnotask : ∀ k, i.post.gate.tasks.get k = none := by
    intro k
    rw [hipost, Table.get_del]
    split
    · rfl
    · rename_i hk
      by_contra hne
      obtain ⟨t', ht'⟩ := Option.ne_none_iff_exists'.mp hne
      have hmem := List.mem_map_of_mem (f := Prod.fst) (Table.mem_entries.mpr ht')
      rw [htasks] at hmem
      exact hk (List.mem_singleton.mp hmem)
  have hstuck : ∀ g : Gate, (∀ k, g.tasks.get k = none) →
      (g.users.cell 0).response.get 7 = some 0 → (g.entries.cell 0).response = none →
      ¬ Unwedged g 0 7 := by
    intro g hno hs hr hun
    rcases hun 0 hs with ⟨-, hne⟩ | ⟨k, t', hk, -⟩
    · exact hne hr
    · exact absurd ((hno k).symm.trans hk) (by simp)
  have hcached' : (i.post.gate.users.cell 0).response.get 7 = some 0 := by
    rw [hipost]
    exact hcached
  have hresp' : (i.post.gate.entries.cell 0).response = none := by rw [hipost]; exact hresp
  have hver' : (i.post.gate.entries.cell 0).version = none := by rw [hipost]; exact hver
  -- the resend
  have hsess : sessionOf move = 7 := by decide +kernel
  have hnet' : i.post.net.get 2 ≠ none := i.net_present (by simp [hnet]) (by simp [hiev])
  obtain ⟨j, hjpre, hjev, -, -⟩ := exists_item (c := {}) (s := i.post) (e := .packet 2 move)
    (by rw [handle, if_neg hnet'])
  have hreq : j.Requests 2 0 move := by
    refine ⟨hjev, ?_, ?_, ?_, by decide⟩ <;> rw [hjpre, hipost]
    · exact (Table.get_del_ne (by decide)).trans hgs
    · exact hhs
    · exact hc2
  obtain ⟨hjpost, hjout⟩ := hreq.request_eq
  have hd : doRequest {} j.pre.gate 2 move = (redirect i.post.gate 2 0 0, [], true) := by
    have hlen := hreq.length
    have hc := hreq.connection
    rw [hjpre] at hc ⊢
    unfold doRequest resend
    simp [hc, not_lt.mpr hlen, hsess, hcached', hver', hresp']
  rw [request, hd, settle, if_pos rfl] at hjpost hjout
  refine ⟨tr, i, j, Machine.path_snoc_iff.mpr ⟨hjpre ▸ hrun', rfl⟩, hev, hiev,
    hstuck _ hnotask hcached' hresp', hreq, hjout, ?_, ?_⟩
  · rw [hjpost]
    exact hnotask
  · rw [hjpost]
    exact hstuck _ hnotask hcached' (by simp [redirect, hresp'])

end LsServer.GameGate
