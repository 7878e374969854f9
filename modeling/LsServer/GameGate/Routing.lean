import LsServer.GameGate.Authentic
import LsServer.GameGate.Cache

/-!
# Responses reach the user they belong to

An entry belongs to the request that created it: its user, its session and the task that runs the
handler (`Owner`). Resends change the return connection of an entry and a task may outlive the
cache entry of its session, but an entry keeps its owner. `Owned` is that invariant; `Routed` adds
where the return connection and the response of an entry come from.

Source: GameGate.lua 247-281; the response frame is `>s2` of the result, a status byte and the
session.

* `Owner` is fixed when an entry is made. The number of an entry is never used again, so an entry
  that was dropped from the cache, and is still held by its task, keeps its owner.
* `Received`: a request of the user with that session came on the connection. `Asked`: the handler
  was called for the user with that message. `Answered`: it has ended with a result that makes that
  frame.
* `routing` says of every response in every run: where it goes, for which session, whose handler
  made it, and that the handler was invoked for a message that came with this session from a
  connection of the user.

`NoNew` is for the branches that make no entry and change none but in its return connection and
stamp.

Results:
* `Run.routed`: the invariant holds in every run;
* `Run.connection_unique`: a connection number that is not reused has one user;
* `routing`: every response goes to a connection of the user whose handler made it, with the
  session of a request of that connection.
-/

namespace LsServer.GameGate

open LsServer.Lib LsServer.Lua

variable {c : Conf}

/-- The request an entry was created for. -/
structure Owner where
  user : UserId
  session : Nat
  task : TaskId

/-- Entries are referred to by their owner only. -/
structure Owned (own : EntryId → Owner) (g : Gate) : Prop where
  cached : ∀ u s j, (g.users.cell u).response.get s = some j →
    j < g.entries.next ∧ (own j).user = u ∧ (own j).session = s
  waiting : ∀ k t, g.tasks.get k = some t →
    t.entry < g.entries.next ∧ own t.entry = ⟨t.user, t.session, k⟩
  task : ∀ j, j < g.entries.next → (own j).task < g.nextTask

/-- A request of `u` with number `s` was received on `fd`. -/
def Received (tr : List (Item c)) (fd : Fd) (u : UserId) (s : Nat) : Prop :=
  ∃ i ∈ tr, ∃ data, Item.Requests i fd u data ∧ sessionOf data = s

/-- Task `k` is the call of the handler for `u` with `m`. -/
def Asked (tr : List (Item c)) (k : TaskId) (u : UserId) (m : Bytes) : Prop :=
  ∃ i ∈ tr, u < i.pre.gate.users.next ∧ .invoke k (i.pre.gate.users.cell u).username m ∈ i.out

/-- The handler called for the owner has ended, and the frame is its response. -/
def Answered (tr : List (Item c)) (o : Owner) (frame : Bytes) : Prop :=
  ∃ m r, Asked tr o.task o.user m ∧ (∃ i ∈ tr, i.ev = .complete o.task r) ∧
    responseFrame r o.session = some frame

theorem Received.mono {tr tr' : List (Item c)} (hsub : ∀ i ∈ tr, i ∈ tr') {fd : Fd} {u : UserId}
    {s : Nat} (h : Received tr fd u s) : Received tr' fd u s := by
  obtain ⟨i, hi, h⟩ := h
  exact ⟨i, hsub i hi, h⟩

theorem Asked.mono {tr tr' : List (Item c)} (hsub : ∀ i ∈ tr, i ∈ tr') {k : TaskId} {u : UserId}
    {m : Bytes} (h : Asked tr k u m) : Asked tr' k u m := by
  obtain ⟨i, hi, h⟩ := h
  exact ⟨i, hsub i hi, h⟩

theorem Answered.mono {tr tr' : List (Item c)} (hsub : ∀ i ∈ tr, i ∈ tr') {o : Owner}
    {frame : Bytes} (h : Answered tr o frame) : Answered tr' o frame := by
  obtain ⟨m, r, ha, ⟨i, hi, hev⟩, hf⟩ := h
  exact ⟨m, r, ha.mono hsub, ⟨i, hsub i hi, hev⟩, hf⟩

/-- Entries are referred to by their owner, a return connection has had a request of the owner,
and a response is what the handler of the owner returned. -/
structure Routed (tr : List (Item c)) (own : EntryId → Owner) (g : Gate) : Prop
    extends Owned own g where
  source : ∀ j, j < g.entries.next → ∀ fd, (g.entries.cell j).fd = some fd →
    Received tr fd (own j).user (own j).session
  answer : ∀ j, j < g.entries.next → ∀ frame, (g.entries.cell j).response = some frame →
    Answered tr (own j) frame
  asked : ∀ k t, g.tasks.get k = some t → Asked tr k t.user t.message

/-! ## The step -/

/-- The owner of a new entry. -/
def own' (own : EntryId → Owner) (g : Gate) (o : Owner) (j : EntryId) : Owner :=
  if j = g.entries.next then o else own j

theorem own'_old {own : EntryId → Owner} {g : Gate} {o : Owner} {j : EntryId}
    (h : j < g.entries.next) : own' own g o j = own j :=
  if_neg (Nat.ne_of_lt h)

/-- The caches and the tasks refer to nothing new. -/
structure NoNew (g g' : Gate) : Prop where
  response : ∀ u s j, (g'.users.cell u).response.get s = some j →
    (g.users.cell u).response.get s = some j
  tasks : ∀ k t, g'.tasks.get k = some t → g.tasks.get k = some t
  next : g'.entries.next = g.entries.next
  nextTask : g'.nextTask = g.nextTask

theorem Owned.noNew {own : EntryId → Owner} {g g' : Gate} (h : Owned own g) (hn : NoNew g g') :
    Owned own g' := by
  refine ⟨fun u s j hj => ?_, fun k t ht => ?_, fun j hj => ?_⟩
  · rw [hn.next]
    exact h.cached u s j (hn.response u s j hj)
  · rw [hn.next]
    exact h.waiting k t (hn.tasks k t ht)
  · rw [hn.next] at hj
    rw [hn.nextTask]
    exact h.task j hj

theorem Idle.noNew {g g' : Gate} (h : Idle g g') : NoNew g g' :=
  ⟨h.fresh, fun _ _ ht => h.tasks ▸ ht, by rw [h.entries], h.nextTask⟩

theorem Dropped.noNew {g g' : Gate} {u : UserId} {s : Nat} (h : Dropped g g' u s) :
    NoNew g g' := by
  refine ⟨fun v x j hj => ?_, fun _ _ ht => h.tasks ▸ ht, by rw [h.entries], h.nextTask⟩
  by_cases hv : v = u
  · subst hv
    rw [h.response] at hj
    split at hj
    · exact absurd hj (by simp)
    · exact hj
  · rwa [h.others v hv] at hj

theorem redirect_noNew (g : Gate) (fd : Fd) (u : UserId) (j : EntryId) :
    NoNew g (redirect g fd u j) :=
  ⟨fun _ _ _ h => h, fun _ _ h => h, rfl, rfl⟩

theorem Ended.noNew {g g' : Gate} {u : UserId} {j : EntryId} {e : Entry} (h : Ended g g' u j e)
    (ht : ∀ k t, g'.tasks.get k = some t → g.tasks.get k = some t) : NoNew g g' :=
  ⟨h.shrinks, ht, h.next, h.nextTask⟩

/-- An invocation gives the new entry to its request. -/
theorem Owned.invoked {own : EntryId → Owner} {g g' : Gate} {fd : Fd} {u : UserId} {s : Nat}
    {m : Bytes} (h : Owned own g) (hg : Invoked g g' fd u s m) :
    Owned (own' own g ⟨u, s, g.nextTask⟩) g' := by
  have hold : ∀ v x j, (g.users.cell v).response.get x = some j → j < g'.entries.next ∧
      (own' own g ⟨u, s, g.nextTask⟩ j).user = v ∧
      (own' own g ⟨u, s, g.nextTask⟩ j).session = x := by
    intro v x j hj
    obtain ⟨hlt, hu, hs⟩ := h.cached v x j hj
    rw [hg.entries, own'_old hlt]
    exact ⟨Nat.lt_succ_of_lt hlt, hu, hs⟩
  refine ⟨fun v x j hj => ?_, fun k t ht => ?_, fun j hj => ?_⟩
  · by_cases hv : v = u
    · subst hv
      rw [hg.response] at hj
      split at hj
      · rename_i hx
        rw [← Option.some.inj hj, hg.entries, hx]
        exact ⟨Nat.lt_succ_self _, by simp [own'], by simp [own']⟩
      · exact hold v x j hj
    · rw [hg.others v hv] at hj
      exact hold v x j hj
  · rw [hg.tasks, Table.get_set] at ht
    rw [hg.entries]
    split at ht
    · rename_i hk
      rw [← Option.some.inj ht, hk]
      exact ⟨Nat.lt_succ_self _, by simp [own']⟩
    · obtain ⟨hlt, hown⟩ := h.waiting k t ht
      exact ⟨Nat.lt_succ_of_lt hlt, (own'_old hlt).trans hown⟩
  · rw [hg.entries] at hj
    rw [hg.nextTask]
    rcases Nat.lt_succ_iff_lt_or_eq.mp hj with hlt | rfl
    · rw [own'_old hlt]
      exact Nat.lt_succ_of_lt (h.task j hlt)
    · simp [own']

/-- A step keeps the owners of the entries and may give a new one an owner. -/
theorem Item.owned (i : Item c) (hw : WellFormed i.pre) {own : EntryId → Owner}
    (h : Owned own i.pre.gate) : ∃ own₁, Owned own₁ i.post.gate ∧
      ∀ j, j < i.pre.gate.entries.next → own₁ j = own j := by
  cases i.serves hw with
  | idle hg => exact ⟨own, h.noNew hg.noNew, fun _ _ => rfl⟩
  | invoke _ _ hg => exact ⟨_, h.invoked hg, fun j hj => own'_old hj⟩
  | conflict _ _ _ _ hg => exact ⟨own, h.noNew hg.noNew, fun _ _ => rfl⟩
  | pending _ _ _ _ hg =>
    rw [hg]
    exact ⟨own, h.noNew (redirect_noNew _ _ _ _), fun _ _ => rfl⟩
  | again _ _ _ _ hg htasks =>
    exact ⟨own, h.noNew (hg.noNew fun _ _ ht => htasks ▸ ht), fun _ _ => rfl⟩
  | answer _ _ _ hg htasks =>
    refine ⟨own, h.noNew (hg.noNew fun k t ht => ?_), fun _ _ => rfl⟩
    rw [htasks] at ht
    exact (Table.get_of_get_del ht).2
  | tooLong _ _ _ husers hentries htasks hnext =>
    refine ⟨own, h.noNew ⟨fun v s x hx => husers ▸ hx, fun k t ht => ?_, by rw [hentries], hnext⟩,
      fun _ _ => rfl⟩
    rw [htasks] at ht
    exact (Table.get_of_get_del ht).2

/-- The routing invariant over a step that writes at most the entry `j` of its owner. -/
theorem Routed.write {tr tr' : List (Item c)} (hsub : ∀ i ∈ tr, i ∈ tr') {own : EntryId → Owner}
    {g g' : Gate} (h : Routed tr own g) (hn : NoNew g g') (j : EntryId)
    (hother : ∀ x, x ≠ j → (g'.entries.cell x).fd = (g.entries.cell x).fd ∧
      (g'.entries.cell x).response = (g.entries.cell x).response)
    (hfd : ∀ fd, (g'.entries.cell j).fd = some fd → Received tr' fd (own j).user (own j).session)
    (hresp : ∀ frame, (g'.entries.cell j).response = some frame → Answered tr' (own j) frame) :
    Routed tr' own g' := by
  refine ⟨h.toOwned.noNew hn, fun x hx fd hfd' => ?_, fun x hx frame hfr => ?_, fun k t ht => ?_⟩
  · rw [hn.next] at hx
    by_cases hxj : x = j
    · subst hxj
      exact hfd fd hfd'
    · rw [(hother x hxj).1] at hfd'
      exact (h.source x hx fd hfd').mono hsub
  · rw [hn.next] at hx
    by_cases hxj : x = j
    · subst hxj
      exact hresp frame hfr
    · rw [(hother x hxj).2] at hfr
      exact (h.answer x hx frame hfr).mono hsub
  · exact (h.asked k t (hn.tasks k t ht)).mono hsub

/-- The routing invariant over a step that writes no entry. -/
theorem Routed.keep {tr tr' : List (Item c)} (hsub : ∀ i ∈ tr, i ∈ tr') {own : EntryId → Owner}
    {g g' : Gate} (h : Routed tr own g) (hn : NoNew g g') (he : g'.entries = g.entries) :
    Routed tr' own g' :=
  ⟨h.toOwned.noNew hn, fun x hx fd hfd => (h.source x (he ▸ hx) fd (he ▸ hfd)).mono hsub,
    fun x hx frame hfr => (h.answer x (he ▸ hx) frame (he ▸ hfr)).mono hsub,
    fun k t ht => (h.asked k t (hn.tasks k t ht)).mono hsub⟩

/-- **One step of the routing invariant.** -/
theorem Item.routed (i : Item c) (hw : WellFormed i.pre) {tr : List (Item c)}
    {own : EntryId → Owner} (h : Routed tr own i.pre.gate) :
    ∃ own₁, Routed (tr ++ [i]) own₁ i.post.gate := by
  have hsub : ∀ x ∈ tr, x ∈ tr ++ [i] := fun x hx => by simp [hx]
  have hi : i ∈ tr ++ [i] := by simp
  cases i.serves hw with
  | idle hg => exact ⟨own, h.keep hsub hg.noNew hg.entries⟩
  | @invoke fd u data hreq _ hg hout =>
    have hu := hw.bound fd u hreq.connection
    refine ⟨own' own i.pre.gate ⟨u, sessionOf data, i.pre.gate.nextTask⟩,
      h.toOwned.invoked hg, fun x hx y hy => ?_, fun x hx frame hfr => ?_, fun k t ht => ?_⟩
    · rw [hg.entries] at hx hy
      rcases Nat.lt_succ_iff_lt_or_eq.mp hx with hlt | rfl
      · rw [Heap.cell_alloc_ne (Nat.ne_of_lt hlt)] at hy
        rw [own'_old hlt]
        exact (h.source x hlt y hy).mono hsub
      · simp only [Heap.cell_alloc_self, Option.some.injEq] at hy
        subst hy
        exact ⟨i, hi, data, by simpa [own'] using hreq, by simp [own']⟩
    · rw [hg.entries] at hx hfr
      rcases Nat.lt_succ_iff_lt_or_eq.mp hx with hlt | rfl
      · rw [Heap.cell_alloc_ne (Nat.ne_of_lt hlt)] at hfr
        rw [own'_old hlt]
        exact (h.answer x hlt frame hfr).mono hsub
      · simp at hfr
    · rw [hg.tasks, Table.get_set] at ht
      split at ht
      · rename_i hk
        rw [← Option.some.inj ht, hk]
        exact ⟨i, hi, hu, by rw [hout]; exact List.mem_singleton.mpr rfl⟩
      · exact (h.asked k t ht).mono hsub
  | conflict _ _ _ _ hg => exact ⟨own, h.keep hsub hg.noNew hg.entries⟩
  | @pending fd u data j hreq hs _ hr hg =>
    obtain ⟨hlt, hou, hos⟩ := h.cached u _ j hs
    rw [hg]
    refine ⟨own, h.write hsub (redirect_noNew _ _ _ _) j (fun x hx => ?_) (fun y hy => ?_)
      fun frame hfr => ?_⟩
    · simp [redirect, Heap.cell_set_ne hx]
    · simp only [redirect, Heap.cell_set_self, Option.some.injEq] at hy
      subst hy
      exact ⟨i, hi, data, by rw [hou]; exact hreq, hos.symm⟩
    · simp [redirect, hr] at hfr
  | @again fd u data j frame hreq hs _ hr hg htasks =>
    obtain ⟨hlt, -, -⟩ := h.cached u _ j hs
    refine ⟨own, h.write hsub (hg.noNew fun _ _ ht => htasks ▸ ht) j (fun x hx => ?_)
      (fun y hy => ?_) fun fr hfr => ?_⟩
    · rw [hg.fd, hg.response, if_neg hx, if_neg hx]
      exact ⟨rfl, rfl⟩
    · rw [hg.fd, if_pos rfl] at hy
      exact absurd hy (by simp)
    · rw [hg.response, if_pos rfl] at hfr
      exact (h.answer j hlt fr (hr.trans hfr)).mono hsub
  | @answer k t r frame hev ht hf hg htasks =>
    obtain ⟨hlt, hown⟩ := h.waiting k t ht
    refine ⟨own, h.write hsub (hg.noNew fun k' t' ht' => ?_) t.entry (fun x hx => ?_)
      (fun y hy => ?_) fun fr hfr => ?_⟩
    · rw [htasks] at ht'
      exact (Table.get_of_get_del ht').2
    · rw [hg.fd, hg.response, if_neg hx, if_neg hx]
      exact ⟨rfl, rfl⟩
    · rw [hg.fd, if_pos rfl] at hy
      exact absurd hy (by simp)
    · rw [hg.response, if_pos rfl] at hfr
      obtain rfl := Option.some.inj hfr
      rw [hown]
      exact ⟨t.message, r, (h.asked k t ht).mono hsub, ⟨i, hi, hev⟩, hf⟩
  | tooLong _ _ _ husers hentries htasks hnext =>
    refine ⟨own, h.keep hsub ⟨fun v s x hx => husers ▸ hx, fun k t ht => ?_, by rw [hentries],
      hnext⟩ hentries⟩
    rw [htasks] at ht
    exact (Table.get_of_get_del ht).2

/-! ## Runs -/

/-- **The routing invariant holds in every run.** -/
theorem Run.routed {tr : List (Item c)} {s : State} (h : (machine c).Run tr s) :
    ∃ own, Routed tr own s.gate := by
  refine Machine.Run.history (J := fun tr s => ∃ own, Routed tr own s.gate) ?_ ?_ h
  · refine ⟨fun _ => ⟨0, 0, 0⟩, ⟨?_, ?_, ?_⟩, ?_, ?_, ?_⟩ <;>
      simp [machine, Gate.init, Heap.empty]
  · rintro tr i hrun ⟨own, hown⟩
    exact Item.routed i (Run.wellFormed hrun) hown

/-- Two ways to cut a list at its first element with a property are one. -/
theorem first_unique {α : Type} {P : α → Prop} {a b d e : List α} {x y : α}
    (h : a ++ x :: b = d ++ y :: e) (ha : ∀ z ∈ a, ¬ P z) (hd : ∀ z ∈ d, ¬ P z) (hx : P x)
    (hy : P y) : x = y := by
  induction a generalizing d with
  | nil =>
    cases d with
    | nil => exact (List.cons.inj h).1
    | cons z d =>
      obtain rfl := (List.cons.inj h).1
      exact absurd hx (hd x List.mem_cons_self)
  | cons z a ih =>
    cases d with
    | nil =>
      obtain rfl := (List.cons.inj h).1
      exact absurd hy (ha z List.mem_cons_self)
    | cons z' d =>
      exact ih (List.cons.inj h).2 (fun w hw => ha w (List.mem_cons_of_mem _ hw))
        fun w hw => hd w (List.mem_cons_of_mem _ hw)

/-- **A connection number that is not reused has one user.** -/
theorem Run.connection_unique {a : List (Item c)} {i x : Item c} {b : List (Item c)} {s : State}
    (h : (machine c).Run (a ++ i :: b) s) (hfd : NoReuse (a ++ i :: b)) (hx : x ∈ a) {fd : Fd}
    {u v : UserId} (hu : x.pre.gate.connection.get fd = some u)
    (hv : i.pre.gate.connection.get fd = some v) : u = v := by
  have hrun := h.split.1
  have hfd' := hfd.append.1
  obtain ⟨a1, j, a2, idx, ha, hj⟩ := Run.authenticated hrun fd v hv
  obtain ⟨b1, b2, rfl⟩ := List.append_of_mem hx
  obtain ⟨d1, l, d2, idx', rfl, hl⟩ := Run.authenticated hrun.split.1 fd u hu
  have hfirst : ∀ y ∈ d1, ∀ d, y.ev ≠ .packet fd d :=
    Run.first_packet hrun.split.1 hfd'.append.1 hl
  have hfirst' : ∀ y ∈ a1, ∀ d, y.ev ≠ .packet fd d := by
    rw [ha] at hrun hfd'
    exact Run.first_packet hrun hfd' hj
  obtain ⟨dl, hdl, -⟩ := hl.packet
  obtain ⟨dj, hdj, -⟩ := hj.packet
  obtain rfl : l = j := by
    refine first_unique (P := fun y => ∃ d, y.ev = .packet fd d) (a := d1) (d := a1)
      (b := d2 ++ x :: b2) (e := a2) ?_ ?_ ?_ ⟨dl, hdl⟩ ⟨dj, hdj⟩
    · rw [← ha]
      simp
    · rintro y hy ⟨d, hd⟩
      exact hfirst y hy d hd
    · rintro y hy ⟨d, hd⟩
      exact hfirst' y hy d hd
  exact (hl.inj hj).2.1

/-- The name of a user does not change after the call for it. -/
theorem Asked.invoke {a : List (Item c)} {s : State} (h : (machine c).Run a s) {k : TaskId}
    {u : UserId} {m : Bytes} (hask : Asked a k u m) :
    ∃ x ∈ a, .invoke k (s.gate.users.cell u).username m ∈ x.out := by
  obtain ⟨x, hx, hlt, hinv⟩ := hask
  obtain ⟨a1, a2, rfl⟩ := List.append_of_mem hx
  have hw := Run.wellFormed h.split.1
  have hst := Item.steady x hw hlt
  have hst' := Path.steady h.split.2 (Item.wellFormed x hw) hst.bound
  exact ⟨x, hx, by rwa [hst'.username, hst.username]⟩

/-- **Response routing.** A response that is sent to `fd` is the status and body of a handler
called for the user of `fd`, with the session of a request received on `fd`. -/
theorem routing {a b : List (Item c)} {i : Item c} {s : State}
    (h : (machine c).Run (a ++ i :: b) s) (hfd : NoReuse (a ++ i :: b)) {fd : Fd} {frame : Bytes}
    (hr : i.Responds fd frame) :
    ∃ u k m r session, i.pre.gate.connection.get fd = some u ∧
      (∃ x ∈ a, .invoke k (i.pre.gate.users.cell u).username m ∈ x.out) ∧
      (∃ x ∈ a ++ [i], x.ev = .complete k r) ∧
      packS2 (responseBody r session) = some frame ∧ Received (a ++ [i]) fd u session := by
  have hrun := h.split.1
  have hw := Run.wellFormed hrun
  have hsub : ∀ x ∈ a, x ∈ a ++ [i] := fun x hx => by simp [hx]
  obtain ⟨own, hown⟩ := Run.routed hrun
  cases i.serves hw with
  | idle _ _ _ hsend => exact absurd hr (hsend fd frame)
  | invoke _ _ _ hout => exact absurd (hout ▸ hr.1) (by simp)
  | conflict _ _ _ _ _ hout => exact absurd (hout _ hr.1) (by simp)
  | pending _ _ _ _ _ hout => exact absurd (hout ▸ hr.1) (by simp)
  | @again x u data j frame' hreq hs _ hresp _ _ hout =>
    obtain ⟨rfl, rfl⟩ : fd = x ∧ frame = frame' := by simpa using hout _ hr.1
    obtain ⟨hlt, hou, hos⟩ := hown.cached u _ j hs
    obtain ⟨m, r, hask, ⟨y, hy, hev⟩, hf⟩ := hown.answer j hlt frame hresp
    rw [hou] at hask
    rw [hos] at hf
    exact ⟨u, _, m, r, _, hreq.connection, hask.invoke hrun, ⟨y, hsub y hy, hev⟩, hf, i, by simp,
      data, hreq, rfl⟩
  | @answer k t r frame' hev ht hf _ _ hout =>
    obtain ⟨rfl, hfde, hc⟩ : frame = frame' ∧ (i.pre.gate.entries.cell t.entry).fd = some fd ∧
        (i.pre.gate.connection.get fd).isSome := by
      simpa using hout _ hr.1
    obtain ⟨hlt, hown'⟩ := hown.waiting k t ht
    obtain ⟨v, hv⟩ := Option.isSome_iff_exists.mp hc
    obtain ⟨y, hy, data, hreq, hsess⟩ := hown.source t.entry hlt fd hfde
    rw [hown'] at hreq hsess
    obtain rfl := Run.connection_unique h hfd hy hreq.connection hv
    exact ⟨_, k, t.message, r, t.session, hv, (hown.asked k t ht).invoke hrun,
      ⟨i, by simp, hev⟩, hf, y, hsub y hy, data, hreq, hsess⟩
  | tooLong _ _ _ _ _ _ _ hout => exact absurd (hout _ hr.1) (by simp)

/-! ## A run with a response -/

/-- The request of `requestRun` is answered. -/
def responseRun : List Event := requestRun ++ [.complete 0 (.ok (some (bytes "done")))]

/-- The last step of `responseRun`. -/
def responseRunItems (tr : List (Item {})) : Bool :=
  match tr with
  | [i1, i2, i3, i4, i5, i6, i] =>
    decide ([i1, i2, i3, i4, i5, i6, i].map (·.ev) = responseRun ∧
      i.out = [.send 2 (packBE 2 9 ++ bytes "done" ++ 1 :: packBE 4 7)] ∧
      i.ev = .complete 0 (.ok (some (bytes "done"))))
  | _ => false

theorem responseRun_run : ∃ (a : List (Item {})) (i : Item {}),
    (machine {}).Run (a ++ [i]) i.post ∧ (a ++ [i]).map (·.ev) = responseRun ∧
      .send 2 (packBE 2 9 ++ bytes "done" ++ 1 :: packBE 4 7) ∈ i.out ∧
      i.ev = .complete 0 (.ok (some (bytes "done"))) := by
  have h : ((machine {}).items (machine {}).init responseRun).map responseRunItems =
      some true := by
    decide +kernel
  obtain ⟨tr, hrun, hP⟩ := Machine.exists_run h
  unfold responseRunItems at hP
  split at hP
  · rename_i i1 i2 i3 i4 i5 i6 i
    obtain ⟨hev, hout, hi⟩ := of_decide_eq_true hP
    exact ⟨[i1, i2, i3, i4, i5, i6], i, hrun, hev, by rw [hout]; exact List.mem_singleton_self _,
      hi⟩
  · exact absurd hP (by simp)

theorem routing_responseRun : ∃ (a : List (Item {})) (i : Item {}),
    (a ++ [i]).map (·.ev) = responseRun ∧
      .send 2 (packBE 2 9 ++ bytes "done" ++ 1 :: packBE 4 7) ∈ i.out ∧
      ∃ u session, i.pre.gate.connection.get 2 = some u ∧ Received (a ++ [i]) 2 u session := by
  obtain ⟨a, i, hrun, hev, hsend, hi⟩ := responseRun_run
  have hfd : NoReuse (a ++ [i]) := by
    unfold NoReuse
    rw [hev]
    decide +kernel
  have hresp : Item.Responds i 2 _ := ⟨hsend, by simp [hi]⟩
  obtain ⟨u, -, -, -, session, hc, -, -, -, hrec⟩ := routing hrun hfd hresp
  exact ⟨a, i, hev, hsend, u, session, hc, hrec⟩

end LsServer.GameGate
