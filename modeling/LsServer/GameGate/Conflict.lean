import LsServer.GameGate.Retention

/-!
# Session conflicts

Two requests with one number on one authentication are a conflict: `do_request` raises
`Conflict session` and the connection is closed. The second is told from a resend by the version
of the entry, `p[3] == u.version`. The coroutine that made the entry writes `p[3]` after its
handler has ended, so while the handler runs the entry has no version, the first duplicate counts
as a resend: it joins the handler and stamps the entry (`Item.Joins`), with no answer. Only the one
after it is a conflict, and that one drops the entry for all connections of the user, so the next
invokes a handler again.

Source: GameGate.lua 232-245 for the test, 260-262 and 266-268 for the stamps, 284-294 for the
close.

* `Since` follows the entry of a session over the steps that are no requests of it: it may get its
  response and its stamp from its task, and it is not retired as long as it waits.
* `exists_last` finds the last request of the session before the duplicate. What that request did
  decides: it made the entry, or joined it.
* A conflict drops the entry from the cache, not its task: the handler still runs, its result goes
  to the connection that asked, and nobody finds it again.

Results:
* `Run.inUse`: an entry without a response has a return connection, so it is not retired;
* `Item.since`: what a step that is no request of the session leaves of its entry;
* `conflicts_iff`: a duplicate is a conflict exactly if the last request of the session before it
  joined a handler whose response is still missing;
* `first_duplicate_ignored`: the first duplicate of a request whose handler runs is ignored;
* `unnoticed_conflict`: a run with such a duplicate.
-/

namespace LsServer.GameGate

open LsServer.Lib LsServer.Lua

variable {c : Conf}

/-- The request raises `Conflict session` and its connection is closed; nothing is sent. -/
structure Item.Conflicts (i : Item c) (fd : Fd) (u : UserId) (data : Bytes) : Prop where
  raised : doRequest c i.pre.gate fd data =
    (dropEntry i.pre.gate u (sessionOf data), [], false)
  closed : .close fd ∈ i.out
  gone : i.post.gate.gsConnection.get fd = none
  silent : ∀ x frame, .send x frame ∉ i.out

/-- The step handles a request of the session and finds the entry `e`, without a response and not
stamped since the user authenticated: it waits for the handler of `e`. -/
def Item.Joins (i : Item c) (u : UserId) (session : Nat) (e : EntryId) : Prop :=
  i.AsksFor u session ∧ (i.pre.gate.users.cell u).response.get session = some e ∧
    (i.pre.gate.entries.cell e).version ≠ some (i.pre.gate.users.cell u).version ∧
    (i.pre.gate.entries.cell e).response = none

theorem Item.AsksFor.not_authenticates {i : Item c} {u : UserId} {session : Nat}
    (h : i.AsksFor u session) : ¬ i.Authenticates u := fun ha =>
  ha.not_stamps (k := 0) (Or.inl h)

/-! ## Entries in use -/

/-- An entry without a response has a return connection. -/
def InUse (g : Gate) : Prop :=
  ∀ e, e < g.entries.next → (g.entries.cell e).response = none → (g.entries.cell e).fd ≠ none

theorem Ended.inUse {g g' : Gate} {u : UserId} {j : EntryId} {x : Entry} (h : Ended g g' u j x)
    (hx : x.response ≠ none) (hi : InUse g) : InUse g' := by
  intro e he hr
  rw [h.next] at he
  rw [h.response] at hr
  rw [h.fd]
  split at hr
  · exact absurd hr hx
  · rename_i hne
    rw [if_neg hne]
    exact hi e he hr

theorem Item.inUse (i : Item c) (hw : WellFormed i.pre) (h : InUse i.pre.gate) :
    InUse i.post.gate := by
  cases i.serves hw with
  | idle hg =>
    intro e
    rw [hg.entries]
    exact h e
  | invoke _ _ hg =>
    intro e he hr
    rw [hg.entries] at he hr ⊢
    rcases Nat.lt_succ_iff_lt_or_eq.mp he with hlt | rfl
    · rw [Heap.cell_alloc_ne (Nat.ne_of_lt hlt)] at hr ⊢
      exact h e hlt hr
    · simp
  | conflict _ _ _ _ hg =>
    intro e
    rw [hg.entries]
    exact h e
  | @pending fd u data j _ _ _ _ hg =>
    intro e he hr
    rw [hg] at he hr ⊢
    by_cases hej : e = j
    · simp [redirect, hej]
    · simp only [redirect, Heap.cell_set_ne hej] at hr ⊢
      exact h e he hr
  | again _ _ _ _ hg => exact hg.inUse (by simp) h
  | answer _ _ _ hg => exact hg.inUse (by simp) h
  | tooLong _ _ _ _ hentries =>
    intro e
    rw [hentries]
    exact h e

/-- **An entry without a response is in use**, in every run. -/
theorem Run.inUse {tr : List (Item c)} {s : State} (h : (machine c).Run tr s) :
    InUse s.gate := by
  refine Machine.Run.history (J := fun _ s => InUse s.gate) ?_ ?_ h
  · intro e he
    simp [machine, Gate.init, Heap.empty] at he
  · intro tr i hrun hi
    exact Item.inUse i (Run.wellFormed hrun) hi

/-- `retire_response` keeps an entry in use. -/
theorem retireResponse_keeps {g : Gate} {u : UserId} {s : Nat} {e : EntryId}
    (hs : (g.users.cell u).response.get s = some e)
    (huniq : ∀ s', (g.users.cell u).response.get s' = some e → s' = s)
    (hfd : (g.entries.cell e).fd ≠ none) :
    ((retireResponse c g u).1.users.cell u).response.get s = some e := by
  simp only [retireResponse]
  split
  · simp only [Heap.cell_set_self]
    rw [retireLoop_keeps (i := e) (Table.entries_nodup _)]
    · exact hs
    · intro p hp hpe
      exact huniq p.1 (Table.mem_entries.mp (by rw [← hpe]; exact hp))
    · intro p hp hps
      have hp' := Table.mem_entries.mp (show (p.1, p.2) ∈ _ from hp)
      rw [hps, hs] at hp'
      exact (Option.some.inj hp').symm
    · exact Or.inl hfd
  · exact hs

/-! ## The entry of a session between two of its requests -/

/-- What is left in `g'` of the entry that `g` has cached for the session: it may be retired once it
has a response; before that it stays as it is. -/
structure Since (u : UserId) (session : Nat) (g g' : Gate) : Prop where
  version : (g'.users.cell u).version = (g.users.cell u).version
  bound : ∀ e, (g.users.cell u).response.get session = some e → e < g'.entries.next
  shrinks : ∀ e, (g'.users.cell u).response.get session = some e →
    (g.users.cell u).response.get session = some e
  pending : ∀ e, (g.users.cell u).response.get session = some e →
    (g'.entries.cell e).response = none →
    (g'.users.cell u).response.get session = some e ∧
      (g'.entries.cell e).version = (g.entries.cell e).version ∧
      (g.entries.cell e).response = none

section Since

variable {u : UserId} {session : Nat} {g g' g'' : Gate}

theorem Since.refl {own : EntryId → Owner} (hown : Owned own g) : Since u session g g :=
  ⟨rfl, fun e he => (hown.cached u session e he).1, fun _ h => h, fun _ h hr => ⟨h, rfl, hr⟩⟩

/-- One more step, given what it leaves of the entry while that is cached. -/
theorem Since.step (h : Since u session g g')
    (hver : (g''.users.cell u).version = (g'.users.cell u).version)
    (hnext : g'.entries.next ≤ g''.entries.next)
    (hsub : ∀ e, (g''.users.cell u).response.get session = some e →
      (g'.users.cell u).response.get session = some e)
    (hkeep : ∀ e, e < g'.entries.next → (g''.entries.cell e).response = none →
      (g'.entries.cell e).response = none ∧
        ((g'.users.cell u).response.get session = some e →
          (g''.users.cell u).response.get session = some e ∧
            (g''.entries.cell e).version = (g'.entries.cell e).version)) :
    Since u session g g'' := by
  refine ⟨hver.trans h.version, fun e he => lt_of_lt_of_le (h.bound e he) hnext,
    fun e he => h.shrinks e (hsub e he), fun e he hr => ?_⟩
  obtain ⟨hr', hk⟩ := hkeep e (h.bound e he) hr
  obtain ⟨hs, hv, hr₀⟩ := h.pending e he hr'
  obtain ⟨hs', hv'⟩ := hk hs
  exact ⟨hs', hv'.trans hv, hr₀⟩

end Since

section step

variable {i : Item c} {u : UserId} {session : Nat}

/-- The end of another `do_request` leaves the entry, while it has no response. -/
theorem Item.Finishing.keeps {G : Gate} {v : UserId} {j e : EntryId}
    (hf : i.Finishing G v j) {own : EntryId → Owner} (hown : Owned own i.pre.gate)
    (huse : InUse i.pre.gate) (hs : (i.pre.gate.users.cell u).response.get session = some e)
    (hr : (i.pre.gate.entries.cell e).response = none) (hne : e ≠ j) :
    (i.post.gate.users.cell u).response.get session = some e := by
  have hrel := hf.released
  rw [hf.post.1]
  by_cases hv : u = v
  · subst hv
    refine retireResponse_keeps (hrel.response ▸ hs) (fun s' hs' => ?_) ?_
    · rw [hrel.response] at hs'
      exact hown.session_inj hs' hs
    · rw [hrel.rest e hne]
      exact huse e (hown.cached u session e hs).1 hr
  · rw [(retireResponse_finished c (release G v j) v).others u hv, hrel.others u hv]
    exact hs

/-- **The step lemma for the entry of a session**: a step that is no request of it. -/
theorem Item.since (hw : WellFormed i.pre) {own : EntryId → Owner} (hown : Owned own i.pre.gate)
    (huse : InUse i.pre.gate) (hu : u < i.pre.gate.users.next) (ha : ¬ i.AsksFor u session)
    (hauth : ¬ i.Authenticates u) {g : Gate} (h : Since u session g i.pre.gate) :
    Since u session g i.post.gate := by
  have hver := i.version_eq hw hu hauth
  -- the end of a `do_request` for the entry `j`
  have hended : ∀ {G v j} {x : Entry}, i.Finishing G v j → x.response ≠ none →
      Ended i.pre.gate i.post.gate v j x → Since u session g i.post.gate := by
    intro G v j x hf hx hg
    refine h.step hver (by rw [hg.next]) (fun e => hg.shrinks u session e) fun e _ hr => ?_
    rw [hg.response] at hr
    split at hr
    · exact absurd hr hx
    · rename_i hne
      refine ⟨hr, fun hs => ⟨hf.keeps hown huse hs hr hne, ?_⟩⟩
      rw [hg.version, if_neg hne]
  cases i.serves hw with
  | idle hg =>
    refine h.step hver (by rw [hg.entries]) (fun e => hg.fresh u session e) fun e _ hr => ?_
    rw [hg.entries] at hr ⊢
    refine ⟨hr, fun hs => ⟨?_, rfl⟩⟩
    rw [hg.response u hu]
    exact hs
  | @invoke fd v data hreq _ hg =>
    have hslot := hg.get_ne (mt hreq.asks.mpr ha)
    refine h.step hver (by rw [hg.entries]; exact Nat.le_succ _) (fun e he => hslot ▸ he)
      fun e he hr => ?_
    rw [hg.entries, Heap.cell_alloc_ne (Nat.ne_of_lt he)] at hr ⊢
    exact ⟨hr, fun hs => ⟨hslot.trans hs, rfl⟩⟩
  | @conflict fd v data j hreq _ _ _ hg =>
    have hslot := hg.get_ne (mt hreq.asks.mpr ha)
    refine h.step hver (by rw [hg.entries]) (fun e he => hslot ▸ he) fun e _ hr => ?_
    rw [hg.entries] at hr ⊢
    exact ⟨hr, fun hs => ⟨hslot.trans hs, rfl⟩⟩
  | @pending fd v data j hreq hs' _ hr' hg =>
    rw [hg] at hver ⊢
    refine h.step hver le_rfl (fun _ he => he) fun e _ hr => ?_
    by_cases hej : e = j
    · subst hej
      refine ⟨hr', fun hs => absurd (hreq.asks.mpr ?_) ha⟩
      -- the entry is cached once
      obtain ⟨-, h1, h2⟩ := hown.cached v _ e hs'
      obtain ⟨-, h3, h4⟩ := hown.cached u session e hs
      exact ⟨h1.symm.trans h3, h2.symm.trans h4⟩
    · simp only [redirect, Heap.cell_set_ne hej] at hr ⊢
      exact ⟨hr, fun hs => ⟨hs, trivial⟩⟩
  | again hreq hs' hv' hr' hg =>
    exact hended (.resent hreq hs' hv' (by simp [hr'])) (by simp) hg
  | answer hev ht hf hg => exact hended (.ended hev ht hf) (by simp) hg
  | tooLong _ _ _ husers hentries =>
    refine h.step hver (by rw [hentries]) (fun e he => husers ▸ he) fun e _ hr => ?_
    rw [hentries] at hr ⊢
    exact ⟨hr, fun hs => ⟨husers ▸ hs, rfl⟩⟩

/-- **A request is a conflict** exactly if it finds an entry of this authentication without a
response. -/
theorem Item.Requests.finds_iff {fd : Fd} {data : Bytes} (h : i.Requests fd u data) :
    i.Conflicts fd u data ↔
      ∃ e, (i.pre.gate.users.cell u).response.get (sessionOf data) = some e ∧
        (i.pre.gate.entries.cell e).version = some (i.pre.gate.users.cell u).version ∧
        (i.pre.gate.entries.cell e).response = none := by
  obtain ⟨hpost, hout⟩ := h.request_eq
  constructor
  · intro hc
    have hreq := doRequest_requested c i.pre.gate fd data
    rw [hc.raised] at hreq
    generalize dropEntry i.pre.gate u (sessionOf data) = g',
      hacts : ([] : List Act) = acts, hok : false = ok at hreq
    cases hreq with
    | invalid hcon => exact absurd (hcon.symm.trans h.connection) (by simp)
    | short _ hlen => exact absurd h.length (not_le.mpr hlen)
    | fresh => exact absurd hok (by simp)
    | conflict hcon _ hs hv hr =>
      obtain rfl := Option.some.inj (hcon.symm.trans h.connection)
      exact ⟨_, hs, hv, hr⟩
    | reuse => exact absurd hok (by simp)
    | pending => exact absurd hok (by simp)
    | @again v j hcon _ _ _ hr =>
      -- the response is sent before `retire_response` can raise
      obtain ⟨frame, hframe⟩ := Option.ne_none_iff_exists'.mp hr
      simp [redirect, hframe, hcon] at hacts
  · rintro ⟨e, hs, hv, hr⟩
    have hd : doRequest c i.pre.gate fd data =
        (dropEntry i.pre.gate u (sessionOf data), [], false) := by
      unfold doRequest
      simp [h.connection, not_lt.mpr h.length, hs, hv, hr]
    have hset : settle fd (dropEntry i.pre.gate u (sessionOf data), [], false) =
        closeclient (dropEntry i.pre.gate u (sessionOf data)) fd := by
      unfold settle
      simp [dropEntry, h.connection]
    have hcl : (closeclient (dropEntry i.pre.gate u (sessionOf data)) fd).2 = [.close fd] := by
      rw [closeclient_eq]
      simp [dropEntry, h.listed]
    rw [request, hd, hset] at hpost hout
    refine ⟨hd, ?_, ?_, fun x frame hx => ?_⟩
    · rw [hout, hcl]
      exact List.mem_singleton_self _
    · rw [hpost, closeclient_eq]
      exact Table.get_del_self _ _
    · rw [hout, hcl] at hx
      exact absurd hx (by simp)

/-- What a request of the session leaves: an entry of this authentication without a response is
the one the request joined. -/
theorem Item.AsksFor.joins_iff (ha : i.AsksFor u session) (hw : WellFormed i.pre)
    {own : EntryId → Owner} (hown : Owned own i.pre.gate) {e : EntryId}
    (hs : (i.post.gate.users.cell u).response.get session = some e)
    (hr : (i.post.gate.entries.cell e).response = none) :
    (i.post.gate.entries.cell e).version = some (i.post.gate.users.cell u).version ↔
      i.Joins u session e := by
  have ha' := ha
  obtain ⟨fd, data, hreq, rfl⟩ := ha'
  have hver := i.version_eq hw (hw.bound fd u hreq.connection) ha.not_authenticates
  cases hreq.branch hw with
  | invoke _ hg =>
    rw [hg.response, if_pos rfl] at hs
    obtain rfl := Option.some.inj hs
    refine iff_of_false ?_ ?_
    · rw [hg.entries]
      simp
    · rintro ⟨-, hs', -⟩
      exact lt_irrefl _ (hown.cached _ _ _ hs').1
  | conflict _ _ _ hg =>
    rw [hg.response, if_pos rfl] at hs
    exact absurd hs (by simp)
  | pending hs' hv' hr' hg =>
    rw [hg] at hs
    obtain rfl := Option.some.inj (hs'.symm.trans hs)
    refine iff_of_true ?_ ⟨ha, hs', hv', hr'⟩
    rw [hver, hg]
    simp [redirect]
  | again hs' _ _ hg =>
    obtain rfl := Option.some.inj (hs'.symm.trans (hg.shrinks _ _ _ hs))
    rw [hg.response, if_pos rfl] at hr
    exact absurd hr (by simp)

/-- A request that joins a handler keeps the entry cached. -/
theorem Item.Joins.cached {e : EntryId} (h : i.Joins u session e) (hw : WellFormed i.pre) :
    (i.post.gate.users.cell u).response.get session = some e := by
  obtain ⟨⟨fd, data, hreq, rfl⟩, hs, hv, hr⟩ := h
  cases hreq.branch hw with
  | invoke hs' =>
    exact absurd (hs' e hs).1 hv
  | conflict hs' hv' =>
    obtain rfl := Option.some.inj (hs.symm.trans hs')
    exact absurd hv' hv
  | pending _ _ _ hg =>
    rw [hg]
    exact hs
  | again hs' _ hr' =>
    obtain rfl := Option.some.inj (hs.symm.trans hs')
    exact absurd (hr.symm.trans hr') (by simp)

/-- A task is not replaced. -/
theorem Item.tasks_old (hw : WellFormed i.pre) {k : TaskId} (hk : k < i.pre.gate.nextTask) :
    k < i.post.gate.nextTask ∧
      ∀ t, i.post.gate.tasks.get k = some t → i.pre.gate.tasks.get k = some t := by
  cases i.serves hw with
  | idle hg => exact ⟨hg.nextTask ▸ hk, fun t ht => hg.tasks ▸ ht⟩
  | invoke _ _ hg =>
    refine ⟨by rw [hg.nextTask]; exact Nat.lt_succ_of_lt hk, fun t ht => ?_⟩
    rwa [hg.tasks, Table.get_set_ne (Nat.ne_of_lt hk)] at ht
  | conflict _ _ _ _ hg => exact ⟨hg.nextTask ▸ hk, fun t ht => hg.tasks ▸ ht⟩
  | pending _ _ _ _ hg =>
    rw [hg]
    exact ⟨hk, fun _ ht => ht⟩
  | again _ _ _ _ hg htasks => exact ⟨hg.nextTask ▸ hk, fun t ht => htasks ▸ ht⟩
  | answer _ _ _ hg htasks =>
    refine ⟨hg.nextTask ▸ hk, fun t ht => ?_⟩
    rw [htasks] at ht
    exact (Table.get_of_get_del ht).2
  | tooLong _ _ _ _ _ htasks hnext =>
    refine ⟨hnext ▸ hk, fun t ht => ?_⟩
    rw [htasks] at ht
    exact (Table.get_of_get_del ht).2

end step

/-! ## Runs -/

/-- A list with an element of a kind has a last one. -/
theorem exists_last {α : Type} {P : α → Prop} {l : List α} (h : ∃ x ∈ l, P x) :
    ∃ a m b, l = a ++ m :: b ∧ P m ∧ ∀ y ∈ b, ¬ P y := by
  induction l using List.reverseRecOn with
  | nil => exact absurd h (by simp)
  | append_singleton l x ih =>
    by_cases hx : P x
    · exact ⟨l, x, [], rfl, hx, by simp⟩
    · obtain ⟨y, hy, hP⟩ := h
      rcases List.mem_append.mp hy with hy | hy
      · obtain ⟨a, m, b, rfl, hm, hb⟩ := ih ⟨y, hy, hP⟩
        refine ⟨a, m, b ++ [x], by simp, hm, fun z hz => ?_⟩
        rcases List.mem_append.mp hz with hz | hz
        · exact hb z hz
        · rwa [List.mem_singleton.mp hz]
      · rw [List.mem_singleton.mp hy] at hP
        exact absurd hP hx

/-- **Between two requests of a session**: what is left of its entry. -/
theorem Path.since {a b : List (Item c)} {s t : State} (h0 : (machine c).Run a s)
    (h : (machine c).Path s b t) {u : UserId} {session : Nat} (hu : u < s.gate.users.next)
    (ha : ∀ x ∈ b, ¬ Item.AsksFor x u session) (hauth : ∀ x ∈ b, ¬ Item.Authenticates x u) :
    Since u session s.gate t.gate := by
  obtain ⟨own₀, hown₀⟩ := Run.routed h0
  suffices hJ : (machine c).Run (a ++ b) t ∧ u < t.gate.users.next ∧
      Since u session s.gate t.gate from hJ.2.2
  refine Machine.Path.history (J := fun b t => (machine c).Run (a ++ b) t ∧
    u < t.gate.users.next ∧ Since u session s.gate t.gate) h ?_ ?_
  · exact ⟨by simpa using h0, hu, .refl hown₀.toOwned⟩
  · rintro b₁ x b₂ rfl ⟨hrun, hux, hsince⟩
    have hw := Run.wellFormed hrun
    obtain ⟨own, hown⟩ := Run.routed hrun
    refine ⟨?_, (Item.steady x hw hux).bound, ?_⟩
    · rw [← List.append_assoc]
      exact Machine.path_snoc_iff.mpr ⟨hrun, rfl⟩
    · exact Item.since hw hown.toOwned (Run.inUse hrun) hux (ha x (by simp)) (hauth x (by simp))
        hsince

/-- A path does not replace a task. -/
theorem Path.tasks_old {b : List (Item c)} {s t : State} (h : (machine c).Path s b t)
    (hw : WellFormed s) {k : TaskId} (hk : k < s.gate.nextTask) {x : Task}
    (hx : t.gate.tasks.get k = some x) : s.gate.tasks.get k = some x := by
  suffices hI : WellFormed t ∧ k < t.gate.nextTask ∧
      ∀ x, t.gate.tasks.get k = some x → s.gate.tasks.get k = some x from hI.2.2 x hx
  refine Machine.Path.keeps (I := fun t => WellFormed t ∧ k < t.gate.nextTask ∧
    ∀ x, t.gate.tasks.get k = some x → s.gate.tasks.get k = some x) h ⟨hw, hk, fun _ hx => hx⟩ ?_
  rintro i - ⟨hwi, hki, hold⟩
  obtain ⟨hki', hold'⟩ := Item.tasks_old hwi hki
  exact ⟨Item.wellFormed i hwi, hki', fun x hx => hold x (hold' x hx)⟩

/-- **Session conflicts.** `i` and `j` are requests of one session on one connection, and the user
does not authenticate in between. `j` is a conflict exactly if the last request of the session
before it, from `i` on and on any connection, joined a handler, and its response is still
missing. -/
theorem conflicts_iff {a b d : List (Item c)} {i j : Item c} {s : State}
    (h : (machine c).Run (a ++ i :: (b ++ j :: d)) s) {fd : Fd} {u : UserId} {d₁ d₂ : Bytes}
    (hi : i.Requests fd u d₁) (hj : j.Requests fd u d₂) (hs : sessionOf d₂ = sessionOf d₁)
    (hb : ∀ x ∈ b, ¬ Item.Authenticates x u) :
    j.Conflicts fd u d₂ ↔
      ∃ b₁ m b₂ e, i :: b = b₁ ++ m :: b₂ ∧ (∀ x ∈ b₂, ¬ Item.AsksFor x u (sessionOf d₁)) ∧
        Item.Joins m u (sessionOf d₁) e ∧ (j.pre.gate.entries.cell e).response = none := by
  have hiasks : i.AsksFor u (sessionOf d₁) := ⟨fd, d₁, hi, rfl⟩
  have hauth : ∀ x ∈ i :: b, ¬ Item.Authenticates x u := by
    simpa using ⟨hiasks.not_authenticates, hb⟩
  -- the last request `m` of the session before `j`
  have key : ∀ b₁ m b₂, i :: b = b₁ ++ m :: b₂ → Item.AsksFor m u (sessionOf d₁) →
      (∀ x ∈ b₂, ¬ Item.AsksFor x u (sessionOf d₁)) →
      Since u (sessionOf d₁) m.post.gate j.pre.gate ∧ WellFormed m.pre ∧
        ∃ own, Owned own m.pre.gate := by
    intro b₁ m b₂ hsplit hm hlast
    obtain ⟨x, data, hreq, -⟩ := hm
    have hrun : (machine c).Run ((a ++ b₁) ++ m :: (b₂ ++ j :: d)) s := by
      have happ : a ++ i :: (b ++ j :: d) = (a ++ b₁) ++ m :: (b₂ ++ j :: d) := by
        rw [← List.cons_append, hsplit]
        simp
      exact happ ▸ h
    obtain ⟨hpre, hpost⟩ := hrun.split
    have hw := Run.wellFormed hpre
    obtain ⟨own, hown⟩ := Run.routed hpre
    have hu := hw.bound x u hreq.connection
    refine ⟨Path.since (Machine.path_snoc_iff.mpr ⟨hpre, rfl⟩) hpost.split.1
      (Item.steady m hw hu).bound hlast fun y hy => hauth y ?_, hw, own, hown.toOwned⟩
    rw [hsplit]
    simp [hy]
  rw [hj.finds_iff, hs]
  constructor
  · rintro ⟨e, hse, hve, hre⟩
    obtain ⟨b₁, m, b₂, hsplit, hm, hlast⟩ := exists_last
      (P := fun x => Item.AsksFor x u (sessionOf d₁)) (l := i :: b) ⟨i, by simp, hiasks⟩
    obtain ⟨hsince, hw, own, hown⟩ := key b₁ m b₂ hsplit hm hlast
    have hse' := hsince.shrinks e hse
    obtain ⟨-, hv, hr⟩ := hsince.pending e hse' hre
    refine ⟨b₁, m, b₂, e, hsplit, hlast, (hm.joins_iff hw hown hse' hr).mp ?_, hre⟩
    rw [← hv, hve, hsince.version]
  · rintro ⟨b₁, m, b₂, e, hsplit, hlast, hjoin, hre⟩
    obtain ⟨hsince, hw, own, hown⟩ := key b₁ m b₂ hsplit hjoin.1 hlast
    have hse' := hjoin.cached hw
    obtain ⟨hse, hv, hr⟩ := hsince.pending e hse' hre
    refine ⟨e, hse, ?_, hre⟩
    rw [hv, (hjoin.1.joins_iff hw hown hse' hr).mpr hjoin, hsince.version]

/-- **The first duplicate is ignored**: `i` invokes the handler as task `k`, and `j` is the next
request of the session, while the task runs. -/
theorem first_duplicate_ignored {a b d : List (Item c)} {i j : Item c} {s : State}
    (h : (machine c).Run (a ++ i :: (b ++ j :: d)) s) {fd fd' : Fd} {u : UserId} {d₁ d₂ : Bytes}
    (hi : i.Requests fd u d₁) {k : TaskId} {name message : Bytes}
    (hk : .invoke k name message ∈ i.out) (hj : j.Requests fd' u d₂)
    (hs : sessionOf d₂ = sessionOf d₁) (ha : ∀ x ∈ b, ¬ Item.AsksFor x u (sessionOf d₁))
    (hauth : ∀ x ∈ b, ¬ Item.Authenticates x u) (hrun : j.pre.gate.tasks.get k ≠ none) :
    j.out = [] ∧ j.post.gate.gsConnection.get fd' = some true := by
  obtain ⟨hpre, hpost⟩ := h.split
  have hw := Run.wellFormed hpre
  have hu := hw.bound fd u hi.connection
  obtain ⟨hb, -⟩ := hpost.split
  have hi' := Machine.path_snoc_iff.mpr ⟨hpre, rfl⟩
  have hsince := Path.since hi' hb (Item.steady i hw hu).bound ha hauth
  have hjrun : (machine c).Run ((a ++ [i]) ++ b) j.pre := hi'.append hb
  obtain ⟨_, _, _, _, _, _, _, rfl⟩ := Item.invoke_inv i hw hk
  -- the entry of `i` is new, and its task still runs
  have hentry : (i.post.gate.users.cell u).response.get (sessionOf d₁) =
        some i.pre.gate.entries.next ∧
      (i.post.gate.entries.cell i.pre.gate.entries.next).version = none ∧
      (j.pre.gate.entries.cell i.pre.gate.entries.next).response = none := by
    cases hi.branch hw with
    | invoke _ hg =>
      obtain ⟨t, ht⟩ := Option.ne_none_iff_exists'.mp hrun
      have hold := Path.tasks_old hb (Item.wellFormed i hw)
        (by rw [hg.nextTask]; exact Nat.lt_succ_self _) ht
      rw [hg.tasks, Table.get_set_self] at hold
      refine ⟨by rw [hg.response, if_pos rfl], by rw [hg.entries, Heap.cell_alloc_self], ?_⟩
      have hresp := (Run.running hjrun _ t ht).2
      rwa [← Option.some.inj hold] at hresp
    | conflict _ _ _ _ hout => exact absurd (hout _ hk) (by simp)
    | pending _ _ _ _ hout => exact absurd (hout ▸ hk) (by simp)
    | again _ _ _ _ hout => exact absurd (hout _ hk) (by simp)
  obtain ⟨hslot, hv, hr⟩ := hentry
  obtain ⟨hslot', hv', -⟩ := hsince.pending _ hslot hr
  rw [hv] at hv'
  cases hj.branch (Run.wellFormed hjrun) with
  | invoke hs' => exact absurd (hv'.symm.trans (hs' _ (hs ▸ hslot')).1) (by simp)
  | conflict hs' hver =>
    rw [hs, hslot'] at hs'
    obtain rfl := Option.some.inj hs'
    exact absurd (hv'.symm.trans hver) (by simp)
  | pending _ _ _ hg hout =>
    refine ⟨hout, ?_⟩
    rw [hg]
    exact hj.listed
  | again hs' _ hresp =>
    rw [hs, hslot'] at hs'
    obtain rfl := Option.some.inj hs'
    exact absurd (hr.symm.trans hresp) (by simp)

/-! ## Concrete runs -/

/-- A request on the first connection of a user. -/
def oneRequest : List Event :=
  let name := bytes "dQ==@cw==@MQ=="
  let secret := bytes "12345678"
  [.login name secret,
   .connect 1 (bytes "10.0.0.1:1"), .packet 1 (handshakeOf name secret (bytes "1")),
   .packet 1 move]

/-- The three requests on the connection. -/
def thirdMoveItems (tr : List (Item {})) : Bool :=
  match tr with
  | [i1, i2, i3, i, m, j] =>
    decide ([i1, i2, i3, i, m, j].map (·.ev) = oneRequest ++ [.packet 1 move, .packet 1 move] ∧
      (∀ x ∈ [i, m, j], x.ev = .packet 1 move ∧ x.pre.gate.gsConnection.get 1 = some true ∧
        x.pre.gate.handshake.get 1 = none ∧ x.pre.gate.connection.get 1 = some 0 ∧
        4 ≤ move.length) ∧
      ((m.pre.gate.users.cell 0).response.get (sessionOf move) = some 0 ∧
        (m.pre.gate.entries.cell 0).version ≠ some (m.pre.gate.users.cell 0).version ∧
        (m.pre.gate.entries.cell 0).response = none) ∧
      (j.pre.gate.entries.cell 0).response = none)
  | _ => false

/-- The request comes three times while its handler runs: the third one is a conflict. -/
theorem conflicts_iff_thirdMove : ∃ (tr : List (Item {})) (j : Item {}),
    (machine {}).Run (tr ++ [j]) j.post ∧
      (tr ++ [j]).map (·.ev) = oneRequest ++ [.packet 1 move, .packet 1 move] ∧
      j.Conflicts 1 0 move := by
  have h : ((machine {}).items (machine {}).init
      (oneRequest ++ [.packet 1 move, .packet 1 move])).map thirdMoveItems = some true := by
    decide +kernel
  obtain ⟨tr, hrun, hP⟩ := Machine.exists_run h
  unfold thirdMoveItems at hP
  split at hP
  · rename_i i1 i2 i3 i m j
    obtain ⟨hev, hreqs, hjoin, hr⟩ := of_decide_eq_true hP
    have hreq : ∀ x ∈ [i, m, j], Item.Requests x 1 0 move := fun x hx => by
      obtain ⟨he, hgs, hhs, hc, hlen⟩ := hreqs x hx
      exact ⟨he, hgs, hhs, hc, hlen⟩
    have hasks : Item.AsksFor m 0 (sessionOf move) := ⟨1, move, hreq m (by simp), rfl⟩
    have hrun' : (machine {}).Run ([i1, i2, i3] ++ i :: ([m] ++ j :: [])) _ := hrun
    refine ⟨[i1, i2, i3, i, m], j, hrun, hev,
      (conflicts_iff hrun' (hreq i (by simp)) (hreq j (by simp)) rfl fun x hx => ?_).mpr
        ⟨[i], m, [], 0, rfl, by simp, ⟨hasks, hjoin⟩, hr⟩⟩
    rw [List.mem_singleton.mp hx]
    exact hasks.not_authenticates
  · exact absurd hP (by simp)

/-- The last two steps: the request and its duplicate. -/
def secondMoveItems (tr : List (Item {})) : Bool :=
  match tr with
  | [i1, i2, i3, i, j] =>
    decide ([i1, i2, i3, i, j].map (·.ev) = oneRequest ++ [.packet 1 move] ∧
      (∀ x ∈ [i, j], x.ev = .packet 1 move ∧ x.pre.gate.gsConnection.get 1 = some true ∧
        x.pre.gate.handshake.get 1 = none ∧ x.pre.gate.connection.get 1 = some 0 ∧
        4 ≤ move.length) ∧
      i.out = [.invoke 0 (bytes "dQ==@cw==@MQ==") (bytes "move")] ∧
      (j.pre.gate.tasks.get 0).isSome = true ∧ j.out = [] ∧
      j.post.gate.gsConnection.get 1 = some true)
  | _ => false

/-- **A conflict goes unnoticed**: the request comes a second time on its connection, while its
handler runs as task 0. It is not answered and the connection stays open. -/
theorem unnoticed_conflict : ∃ (tr : List (Item {})) (i j : Item {}),
    (machine {}).Run (tr ++ i :: ([] ++ [j])) j.post ∧
      (tr ++ [i, j]).map (·.ev) = oneRequest ++ [.packet 1 move] ∧
      i.Requests 1 0 move ∧ j.Requests 1 0 move ∧
      (∃ name message, .invoke 0 name message ∈ i.out) ∧ j.pre.gate.tasks.get 0 ≠ none ∧
      j.out = [] ∧ j.post.gate.gsConnection.get 1 = some true ∧ ¬ j.Conflicts 1 0 move := by
  have h : ((machine {}).items (machine {}).init (oneRequest ++ [.packet 1 move])).map
      secondMoveItems = some true := by
    decide +kernel
  obtain ⟨tr, hrun, hP⟩ := Machine.exists_run h
  unfold secondMoveItems at hP
  split at hP
  · rename_i i1 i2 i3 i j
    obtain ⟨hev, hreqs, hinv, htask, hout, hgs⟩ := of_decide_eq_true hP
    have hreq : ∀ x ∈ [i, j], Item.Requests x 1 0 move := fun x hx => by
      obtain ⟨he, hgs, hhs, hc, hlen⟩ := hreqs x hx
      exact ⟨he, hgs, hhs, hc, hlen⟩
    refine ⟨[i1, i2, i3], i, j, hrun, hev, hreq i (by simp), hreq j (by simp),
      ⟨bytes "dQ==@cw==@MQ==", bytes "move", ?_⟩, Option.isSome_iff_ne_none.mp htask, hout, hgs,
      fun hc => ?_⟩
    · rw [hinv]
      exact List.mem_singleton_self _
    · exact absurd (hout ▸ hc.closed) (by simp)
  · exact absurd hP (by simp)

end LsServer.GameGate
