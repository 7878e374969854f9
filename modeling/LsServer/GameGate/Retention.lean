import LsServer.GameGate.Retire
import LsServer.GameGate.Wedged

/-!
# How long a response is kept

A complete response has an index below `u.index`, and `u.index` stays below
`2 * expired_number`, so a user has fewer complete responses than that. Every end of `do_request`
raises `u.index` by one and `retire_response` lowers the index of an entry and `u.index` alike, so
the distance between the two bounds the ends of `do_request` since the entry was stamped (`Aged`).

Source: GameGate.lua 205-224 and 260-281; `expired_number` is 128 where `conf` has none, and any
number from 1 on here.

* `Item.Finishing` is the end of `do_request` behind line 274, for a task or for a resend that is
  answered.
* `LastStamp` is the last step that wrote `p[4]`. A resend that joins a task stamps too, and the end
  of the task stamps again.
* `Aged`: `u.index` is ahead of the index of a complete response by at most the ends of `do_request`
  of the user since its last stamp. A renumbering keeps the distance, or retires the entry.
* `Bounded.completed_length` is the bound of memory: fewer than `2 * expired_number` complete
  responses of a user.

Results:
* `Run.bounded`: the indices, in every run;
* `retention`: a response is retired only after `expired_number` later ends of `do_request` of its
  user.

Out of scope: entries that wait for their handler, whose number nothing bounds.
-/

namespace LsServer.GameGate

open LsServer.Lib LsServer.Lua

variable {c : Conf}

/-! ## The ends of `do_request` -/

/-- The call of `finish` in the step: the gate with the stamped entry, the user, the entry. -/
def Item.finishing (i : Item c) : Option (Gate × UserId × EntryId) :=
  let g := i.pre.gate
  match i.ev with
  | .packet fd data =>
    if g.gsConnection.get fd = some true ∧ g.handshake.get fd = none ∧ 4 ≤ data.length then
      (g.connection.get fd).bind fun u =>
        ((g.users.cell u).response.get (sessionOf data)).bind fun j =>
          if (g.entries.cell j).version ≠ some (g.users.cell u).version ∧
              (g.entries.cell j).response ≠ none then some (redirect g fd u j, u, j)
          else none
    else none
  | .complete k r =>
    (g.tasks.get k).bind fun t => (responseFrame r t.session).map fun frame =>
      (stamp { g with tasks := g.tasks.del k } t frame, t.user, t.entry)
  | _ => none

/-- A response is resent, or the handler has ended. -/
inductive Item.Finishing (i : Item c) : Gate → UserId → EntryId → Prop
  | resent {fd : Fd} {data : Bytes} {u : UserId} {j : EntryId} (hreq : i.Requests fd u data)
    (hs : (i.pre.gate.users.cell u).response.get (sessionOf data) = some j)
    (hv : (i.pre.gate.entries.cell j).version ≠ some (i.pre.gate.users.cell u).version)
    (hr : (i.pre.gate.entries.cell j).response ≠ none) :
    Finishing i (redirect i.pre.gate fd u j) u j
  | ended {k : TaskId} {t : Task} {r : HandlerResult} {frame : Bytes} (hev : i.ev = .complete k r)
    (ht : i.pre.gate.tasks.get k = some t) (hf : responseFrame r t.session = some frame) :
    Finishing i (stamp { i.pre.gate with tasks := i.pre.gate.tasks.del k } t frame) t.user t.entry

theorem Item.finishing_iff {i : Item c} {g : Gate} {u : UserId} {j : EntryId} :
    i.finishing = some (g, u, j) ↔ i.Finishing g u j := by
  constructor
  · intro h
    unfold Item.finishing at h
    cases hev : i.ev with
    | packet fd data =>
      simp only [hev] at h
      split at h
      · rename_i hp
        obtain ⟨u', hc, h⟩ := Option.bind_eq_some_iff.mp h
        obtain ⟨j', hs, h⟩ := Option.bind_eq_some_iff.mp h
        split at h
        · rename_i hvr
          obtain ⟨rfl, rfl, rfl⟩ := by simpa using h
          exact .resent ⟨hev, hp.1, hp.2.1, hc, hp.2.2⟩ hs hvr.1 hvr.2
        · exact absurd h (by simp)
      · exact absurd h (by simp)
    | complete k r =>
      simp only [hev] at h
      obtain ⟨t, ht, h⟩ := Option.bind_eq_some_iff.mp h
      obtain ⟨frame, hf, h⟩ := Option.map_eq_some_iff.mp h
      obtain ⟨rfl, rfl, rfl⟩ := by simpa using h
      exact .ended hev ht hf
    | _ => simp [hev] at h
  · rintro (⟨hreq, hs, hv, hr⟩ | ⟨hev, ht, hf⟩)
    · unfold Item.finishing
      simp [hreq.ev, hreq.listed, hreq.handshake, hreq.length, hreq.connection, hs, hv, hr]
    · unfold Item.finishing
      simp [hev, ht, hf]

/-- The step ends in `finish`, up to the closing of the connection. -/
theorem Item.Finishing.post {i : Item c} {g : Gate} {u : UserId} {j : EntryId}
    (h : i.Finishing g u j) :
    i.post.gate.users = (retireResponse c (release g u j) u).1.users ∧
      i.post.gate.entries = (retireResponse c (release g u j) u).1.entries := by
  cases h with
  | resent hreq hs hv hr =>
    rw [hreq.request_eq.1, request, hreq.again_eq hs hv hr, settle_users, settle_entries]
    exact ⟨rfl, rfl⟩
  | ended hev ht hf =>
    rw [(Item.complete_eq hev ht).1, complete, resume, hf, settle_users, settle_entries]
    exact ⟨rfl, rfl⟩

/-- The state in which `retire_response` runs. -/
structure Released (g G : Gate) (u : UserId) (j : EntryId) : Prop where
  response : (G.users.cell u).response = (g.users.cell u).response
  index : (G.users.cell u).index = (g.users.cell u).index + 1
  others : ∀ v, v ≠ u → G.users.cell v = g.users.cell v
  fd : (G.entries.cell j).fd = none
  full : (G.entries.cell j).response ≠ none ∧ (G.entries.cell j).version ≠ none
  stamp : (G.entries.cell j).index = some (g.users.cell u).index
  rest : ∀ p, p ≠ j → G.entries.cell p = g.entries.cell p

theorem Item.Finishing.released {i : Item c} {g : Gate} {u : UserId} {j : EntryId}
    (h : i.Finishing g u j) : Released i.pre.gate (release g u j) u j := by
  cases h with
  | resent hreq hs hv hr =>
    refine ⟨?_, ?_, fun v hv => ?_, ?_, ⟨?_, ?_⟩, ?_, fun p hp => ?_⟩
    · simp [release, redirect]
    · simp [release, redirect]
    · simp [release, redirect, Heap.cell_set_ne hv]
    · simp [release]
    · simpa [release, redirect] using hr
    · simp [release, redirect]
    · simp [release, redirect]
    · simp [release, redirect, Heap.cell_set_ne hp]
  | ended hev ht hf =>
    refine ⟨?_, ?_, fun v hv => ?_, ?_, ⟨?_, ?_⟩, ?_, fun p hp => ?_⟩
    · simp [release, GameGate.stamp]
    · simp [release, GameGate.stamp]
    · simp [release, GameGate.stamp, Heap.cell_set_ne hv]
    · simp [release]
    · simp [release, GameGate.stamp]
    · simp [release, GameGate.stamp]
    · simp [release, GameGate.stamp]
    · simp [release, GameGate.stamp, Heap.cell_set_ne hp]

/-- The entry belongs to the user. -/
theorem Item.Finishing.owner {i : Item c} {g : Gate} {u : UserId} {j : EntryId}
    (h : i.Finishing g u j) {own : EntryId → Owner} (hown : Owned own i.pre.gate) :
    (own j).user = u := by
  cases h with
  | resent _ hs => exact (hown.cached _ _ _ hs).2.1
  | ended _ ht => rw [(hown.waiting _ _ ht).2]

/-! ## The other steps -/

/-- No response is completed; a user keeps its index or is new. -/
structure Unfinished (g g' : Gate) : Prop where
  kept : ∀ u s p, (g'.users.cell u).response.get s = some p → (g'.entries.cell p).fd = none →
    (g.users.cell u).response.get s = some p ∧ g'.entries.cell p = g.entries.cell p
  index : ∀ u, (g'.users.cell u).index = (g.users.cell u).index ∨
    (g'.users.cell u).index = 0 ∧ ∀ s, (g'.users.cell u).response.get s = none

theorem Item.index_cases (i : Item c) (hw : WellFormed i.pre) (hf : i.finishing = none)
    (u : UserId) : (i.post.gate.users.cell u).index = (i.pre.gate.users.cell u).index ∨
      (i.post.gate.users.cell u).index = 0 ∧
        ∀ s, (i.post.gate.users.cell u).response.get s = none := by
  have hno : ∀ g v j, ¬ i.Finishing g v j := fun g v j h => by
    rw [Item.finishing_iff.mpr h] at hf
    exact absurd hf (by simp)
  have hset : ∀ (h : Heap User) (v : UserId) (r : User), r.index = (h.cell v).index →
      ((h.set v r).cell u).index = (h.cell u).index := by
    intro h v r hr
    rw [Heap.cell_set]
    split
    · rename_i hu
      rw [hu, hr]
    · rfl
  have hsever : ∀ {g g' : Gate} {fd : Fd}, Severed g g' fd →
      (g'.users.cell u).index = (g.users.cell u).index := by
    intro g g' fd h
    rw [h.cell u]
    split <;> rfl
  have hh := i.handled
  generalize hev : i.ev = e, hpost : i.post.gate = g', hout : i.out = acts at hh
  cases hh with
  | connect fd addr =>
    left
    obtain h | h := msgOpen_cases c i.pre.gate fd addr <;> rw [h]
  | dropped => exact Or.inl rfl
  | refused => exact Or.inl rfl
  | accepted => exact Or.inl (hset _ _ _ rfl)
  | @request fd data hgs hhs =>
    left
    have hreq := doRequest_requested c i.pre.gate fd data
    rw [request, settle_users]
    generalize (doRequest c i.pre.gate fd data).1 = g', (doRequest c i.pre.gate fd data).2.1 = acts,
      (doRequest c i.pre.gate fd data).2.2 = ok at hreq
    cases hreq with
    | invalid => rfl
    | short => rfl
    | fresh => exact hset _ _ _ rfl
    | conflict => exact hset _ _ _ rfl
    | @reuse v =>
      by_cases hu : u = v
      · subst hu
        simp [invokeHandler, dropEntry]
      · simp [invokeHandler, dropEntry, Heap.cell_set_ne hu]
    | pending => rfl
    | again hc hlen hs hv hr =>
      exact absurd (.resent ⟨hev, hgs, hhs, hc, hlen⟩ hs hv hr) (hno _ _ _)
  | @complete k t r ht =>
    left
    cases hfr : responseFrame r t.session with
    | none =>
      rw [complete, settle_users, resume, hfr]
    | some frame => exact absurd (.ended hev ht hfr) (hno _ _ _)
  | close fd =>
    have h := hsever (disconnect_severed { i.pre.gate with
      clientNumber := i.pre.gate.clientNumber - 1
      gsConnection := if i.pre.gate.gsConnection.get fd = some true then
        i.pre.gate.gsConnection.set fd false else i.pre.gate.gsConnection } fd)
    exact Or.inl h
  | error fd =>
    exact Or.inl (hsever (disconnect_severed i.pre.gate fd))
  | login name secret =>
    simp only [serverLogin, Heap.cell_alloc]
    split
    · exact Or.inr ⟨rfl, fun s => Table.get_empty s⟩
    · exact Or.inl rfl
  | logout name =>
    left
    cases serverLogout_loggedOut hw name with
    | absent _ hg => rw [hg]
    | away _ _ hg => rw [hg]
    | connected _ _ _ hg => rw [hg]

theorem Item.unfinished (i : Item c) (hw : WellFormed i.pre) (hf : i.finishing = none) :
    Unfinished i.pre.gate i.post.gate := by
  have hno : ∀ g v j, ¬ i.Finishing g v j := fun g v j h => by
    rw [Item.finishing_iff.mpr h] at hf
    exact absurd hf (by simp)
  refine ⟨fun u s p hs hfd => ?_, i.index_cases hw hf⟩
  cases i.serves hw with
  | idle hg =>
    rw [hg.entries]
    exact ⟨hg.fresh u s p hs, rfl⟩
  | @invoke fd v data _ _ hg =>
    rw [hg.entries] at hfd ⊢
    have hne : p ≠ i.pre.gate.entries.next := by
      rintro rfl
      simp at hfd
    refine ⟨?_, Heap.cell_alloc_ne hne⟩
    by_cases hv : u = v
    · subst hv
      rw [hg.response] at hs
      split at hs
      · exact absurd (Option.some.inj hs).symm hne
      · exact hs
    · rwa [hg.others u hv] at hs
  | conflict _ _ _ _ hg =>
    rw [hg.entries]
    exact ⟨hg.noNew.response u s p hs, rfl⟩
  | @pending fd v data j _ _ _ _ hg =>
    rw [hg] at hs hfd ⊢
    have hne : p ≠ j := by
      rintro rfl
      simp [redirect] at hfd
    exact ⟨hs, Heap.cell_set_ne hne⟩
  | again hreq hs' hv hr => exact absurd (.resent hreq hs' hv (by simp [hr])) (hno _ _ _)
  | answer hev ht hf' => exact absurd (.ended hev ht hf') (hno _ _ _)
  | tooLong _ _ _ husers hentries =>
    rw [husers] at hs
    rw [hentries]
    exact ⟨hs, rfl⟩

/-! ## The indices -/

/-- The indices of the complete responses of `u`, and `u.index` below `2 * n`. -/
structure Bounded (n : Nat) (g : Gate) (u : UserId) : Prop extends Indexed g u where
  bound : (g.users.cell u).index < 2 * n

theorem Entry.lower_fields (n : Nat) (p : Entry) : (p.lower n).fd = p.fd ∧
    (p.lower n).response = p.response ∧ (p.lower n).version = p.version := by
  unfold Entry.lower
  split
  · split <;> exact ⟨rfl, rfl, rfl⟩
  · exact ⟨rfl, rfl, rfl⟩

theorem Unfinished.bounded {g g' : Gate} (hu : Unfinished g g') {n : Nat} (hn : 1 ≤ n)
    {u : UserId} (h : Bounded n g u) : Bounded n g' u := by
  rcases hu.index u with hidx | ⟨hidx, hnone⟩
  · refine ⟨⟨fun s p hs hfd => ?_, fun s s' p p' m hs hs' hfd hfd' hm hm' => ?_⟩, hidx ▸ h.bound⟩
    · obtain ⟨hs, hcell⟩ := hu.kept u s p hs hfd
      rw [hcell] at hfd ⊢
      rw [hidx]
      exact h.full s p hs hfd
    · obtain ⟨hs, hcell⟩ := hu.kept u s p hs hfd
      obtain ⟨hs', hcell'⟩ := hu.kept u s' p' hs' hfd'
      rw [hcell] at hfd hm
      rw [hcell'] at hfd' hm'
      exact h.distinct s s' p p' m hs hs' hfd hfd' hm hm'
  · refine ⟨⟨fun s p hs => ?_, fun s s' p p' m hs => ?_⟩, by omega⟩
    · exact absurd ((hnone s).symm.trans hs) (by simp)
    · exact absurd ((hnone s).symm.trans hs) (by simp)

/-- The stamped entry has the largest index. -/
theorem Released.indexed {g G : Gate} {u : UserId} {j : EntryId} (hr : Released g G u j)
    (huniq : ∀ s s' p, (g.users.cell u).response.get s = some p →
      (g.users.cell u).response.get s' = some p → s = s') (h : Indexed g u) : Indexed G u := by
  -- the index of an older entry is smaller
  have hold : ∀ s p m, (g.users.cell u).response.get s = some p → p ≠ j →
      (G.entries.cell p).fd = none → (G.entries.cell p).index = some m →
      m < (g.users.cell u).index := by
    intro s p m hs hp hfd hm
    rw [hr.rest p hp] at hfd hm
    obtain ⟨-, -, m', hm', hlt⟩ := h.full s p hs hfd
    rwa [Option.some.inj (hm.symm.trans hm')]
  refine ⟨fun s p hs hfd => ?_, fun s s' p p' m hs hs' hfd hfd' hm hm' => ?_⟩
  · rw [hr.response] at hs
    rw [hr.index]
    by_cases hp : p = j
    · subst hp
      exact ⟨hr.full.1, hr.full.2, _, hr.stamp, Nat.lt_succ_self _⟩
    · rw [hr.rest p hp] at hfd ⊢
      obtain ⟨h1, h2, m, hm, hlt⟩ := h.full s p hs hfd
      exact ⟨h1, h2, m, hm, Nat.lt_succ_of_lt hlt⟩
  · rw [hr.response] at hs hs'
    by_cases hp : p = j
    · by_cases hp' : p' = j
      · exact huniq s s' p hs (hp.trans hp'.symm ▸ hs')
      · subst hp
        have := hold s' p' m hs' hp' hfd' hm'
        rw [Option.some.inj (hm.symm.trans hr.stamp)] at this
        exact absurd this (lt_irrefl _)
    · by_cases hp' : p' = j
      · subst hp'
        have := hold s p m hs hp hfd hm
        rw [Option.some.inj (hm'.symm.trans hr.stamp)] at this
        exact absurd this (lt_irrefl _)
      · rw [hr.rest p hp] at hfd hm
        rw [hr.rest p' hp'] at hfd' hm'
        exact h.distinct s s' p p' m hs hs' hfd hfd' hm hm'

/-- What a complete response that is left had for an index. -/
theorem Renumbered.index_of {d : Nat} {G g' : Gate} {u : UserId} (hr : Renumbered d G g' u)
    (h : Indexed G u) {s : Nat} {p : EntryId} (hs : (g'.users.cell u).response.get s = some p)
    (hfd : (g'.entries.cell p).fd = none) : (G.users.cell u).response.get s = some p ∧
      (G.entries.cell p).fd = none ∧ ∃ m, (G.entries.cell p).index = some m ∧ d ≤ m ∧
        g'.entries.cell p = { G.entries.cell p with index := some (m - d) } := by
  obtain ⟨hs, he⟩ := (hr.get s p).mp hs
  have hcell := hr.cell s p hs
  have hfd' : (G.entries.cell p).fd = none := by
    rw [hcell, (Entry.lower_fields d _).1] at hfd
    exact hfd
  obtain ⟨-, -, m, hm, -⟩ := h.full s p hs hfd'
  have hle : d ≤ m := not_lt.mp fun hlt => he ⟨hfd', m, hm, hlt⟩
  exact ⟨hs, hfd', m, hm, hle, hcell.trans (Entry.lower_of_le hfd' hm hle)⟩

theorem Renumbered.indexed {d : Nat} {G g' : Gate} {u : UserId} (hr : Renumbered d G g' u)
    (h : Indexed G u) : Indexed g' u := by
  refine ⟨fun s p hs hfd => ?_, fun s s' p p' m hs hs' hfd hfd' hm hm' => ?_⟩
  · obtain ⟨hs, hfd', m, hm, hle, hcell⟩ := hr.index_of h hs hfd
    obtain ⟨h1, h2, -⟩ := h.full s p hs hfd'
    rw [hcell]
    exact ⟨h1, h2, _, rfl, hr.below s p m hs hfd' hm hle⟩
  · obtain ⟨hs, hfd, n, hn, hle, hcell⟩ := hr.index_of h hs hfd
    obtain ⟨hs', hfd', n', hn', hle', hcell'⟩ := hr.index_of h hs' hfd'
    rw [hcell] at hm
    rw [hcell'] at hm'
    have heq : n = n' := by
      have h1 : n - d = m := Option.some.inj hm
      have h2 : n' - d = m := Option.some.inj hm'
      omega
    exact h.distinct s s' p p' n hs hs' hfd hfd' hn (heq ▸ hn')

/-- A step with an end of `do_request`: the entry is stamped, then the indices are shifted. -/
structure Item.Renumbers (i : Item c) (G : Gate) (u : UserId) (j : EntryId) (d : Nat) : Prop where
  released : Released i.pre.gate G u j
  indexed : Indexed G u
  shift : d = 0 ∨ d = c.expired_number ∧ 2 * c.expired_number ≤ (G.users.cell u).index
  renumbered : Renumbered d G i.post.gate u
  bound : (i.post.gate.users.cell u).index < 2 * c.expired_number
  ok : (retireResponse c G u).2 = true

theorem Owned.session_inj {own : EntryId → Owner} {g : Gate} (h : Owned own g) {u : UserId}
    {s s' : Nat} {p : EntryId} (hs : (g.users.cell u).response.get s = some p)
    (hs' : (g.users.cell u).response.get s' = some p) : s = s' :=
  (h.cached u s p hs).2.2.symm.trans (h.cached u s' p hs').2.2

theorem Item.Finishing.renumbers {i : Item c} {g : Gate} {u : UserId} {j : EntryId}
    (h : i.Finishing g u j) (hn : 1 ≤ c.expired_number) {own : EntryId → Owner}
    (hown : Owned own i.pre.gate) (hb : Bounded c.expired_number i.pre.gate u) :
    ∃ d, i.Renumbers (release g u j) u j d := by
  have hrel := h.released
  have huniq : ∀ s s' p, (i.pre.gate.users.cell u).response.get s = some p →
      (i.pre.gate.users.cell u).response.get s' = some p → s = s' :=
    fun s s' p => hown.session_inj
  have hidx := hrel.indexed huniq hb.toIndexed
  have hle : ((release g u j).users.cell u).index ≤ 2 * c.expired_number := by
    rw [hrel.index]
    exact hb.bound
  obtain ⟨hok, hlt, d, hd, hr⟩ := retireResponse_renumbered hn (hrel.response ▸ huniq) hidx hle
  obtain ⟨husers, hentries⟩ := h.post
  refine ⟨d, hrel, hidx, hd, ?_, husers ▸ hlt, hok⟩
  exact ⟨husers ▸ hr.get, hentries ▸ hr.cell, hentries ▸ hr.rest, husers ▸ hr.others,
    husers ▸ hr.below, husers ▸ hr.index⟩

/-- The responses of the other users stay as they are. -/
theorem Item.Renumbers.others {i : Item c} {G : Gate} {u : UserId} {j : EntryId} {d : Nat}
    (h : i.Renumbers G u j d) {own : EntryId → Owner} (hown : Owned own i.pre.gate)
    (hj : (own j).user = u) {v : UserId} (hv : v ≠ u) :
    i.post.gate.users.cell v = i.pre.gate.users.cell v ∧
      ∀ s p, (i.pre.gate.users.cell v).response.get s = some p →
        p ≠ j ∧ i.post.gate.entries.cell p = i.pre.gate.entries.cell p := by
  refine ⟨(h.renumbered.others v hv).trans (h.released.others v hv), fun s p hs => ?_⟩
  have hp := (hown.cached v s p hs).2.1
  have hpj : p ≠ j := by
    rintro rfl
    exact hv (hp.symm.trans hj)
  refine ⟨hpj, (h.renumbered.rest p fun s' hs' => ?_).trans (h.released.rest p hpj)⟩
  rw [h.released.response] at hs'
  exact hv (hp.symm.trans (hown.cached u s' p hs').2.1)

theorem Item.bounded (i : Item c) (hn : 1 ≤ c.expired_number) (hw : WellFormed i.pre)
    {own : EntryId → Owner} (hown : Owned own i.pre.gate)
    (h : ∀ u, Bounded c.expired_number i.pre.gate u) (v : UserId) :
    Bounded c.expired_number i.post.gate v := by
  cases hf : i.finishing with
  | none => exact (i.unfinished hw hf).bounded hn (h v)
  | some x =>
    obtain ⟨g, u, j⟩ := x
    have hfin := Item.finishing_iff.mp hf
    obtain ⟨d, hr⟩ := hfin.renumbers hn hown (h u)
    by_cases hv : v = u
    · subst hv
      exact ⟨hr.renumbered.indexed hr.indexed, hr.bound⟩
    · obtain ⟨hcell, hent⟩ := hr.others hown (hfin.owner hown) hv
      refine ⟨⟨fun s p hs hfd => ?_, fun s s' p p' m hs hs' hfd hfd' hm hm' => ?_⟩, ?_⟩
      · rw [hcell] at hs ⊢
        rw [(hent s p hs).2] at hfd ⊢
        exact (h v).full s p hs hfd
      · rw [hcell] at hs hs'
        rw [(hent s p hs).2] at hfd hm
        rw [(hent s' p' hs').2] at hfd' hm'
        exact (h v).distinct s s' p p' m hs hs' hfd hfd' hm hm'
      · rw [hcell]
        exact (h v).bound

theorem Run.bounded (hn : 1 ≤ c.expired_number) {tr : List (Item c)} {s : State}
    (h : (machine c).Run tr s) : ∀ u, Bounded c.expired_number s.gate u := by
  refine Machine.Run.history (J := fun _ s => ∀ u, Bounded c.expired_number s.gate u) ?_ ?_ h
  · intro u
    refine ⟨⟨fun s p hs => ?_, fun s s' p p' m hs => ?_⟩, ?_⟩
    · simp [machine, Gate.init, Heap.empty] at hs
    · simp [machine, Gate.init, Heap.empty] at hs
    · simp only [machine, Gate.init, Heap.empty]
      omega
  · intro tr i hrun hb
    obtain ⟨own, hown⟩ := Run.routed hrun
    exact Item.bounded i hn (Run.wellFormed hrun) hown.toOwned hb

/-! ## The age of a response -/

/-- The step ends a `do_request` of `u`. -/
def Item.EndsFor (u : UserId) (i : Item c) : Bool := i.finishing.map (fun x => x.2.1) = some u

/-- The step stamps and ends the entry `p` of `u`. -/
def Item.Ends (i : Item c) (u : UserId) (p : EntryId) : Prop := ∃ g, i.finishing = some (g, u, p)

/-- `p` was last stamped as an entry of `u` by the step before `b`. -/
def LastStamp (tr : List (Item c)) (u : UserId) (p : EntryId) (b : List (Item c)) : Prop :=
  ∃ a i, tr = a ++ i :: b ∧ Item.Ends i u p ∧ ∀ x ∈ b, ¬ Item.Ends x u p

theorem LastStamp.snoc {tr : List (Item c)} {u : UserId} {p : EntryId} {b : List (Item c)}
    (h : LastStamp tr u p b) {i : Item c} (hi : ¬ i.Ends u p) :
    LastStamp (tr ++ [i]) u p (b ++ [i]) := by
  obtain ⟨a, i₀, rfl, h₀, hb⟩ := h
  refine ⟨a, i₀, by simp, h₀, fun x hx => ?_⟩
  rcases List.mem_append.mp hx with hx | hx
  · exact hb x hx
  · rwa [List.mem_singleton.mp hx]

/-- `u.index` is ahead of the index of a complete response by at most the ends of `do_request` of
`u` since its stamp. -/
def Aged (tr : List (Item c)) (g : Gate) : Prop :=
  ∀ u s p m, (g.users.cell u).response.get s = some p → (g.entries.cell p).fd = none →
    (g.entries.cell p).index = some m →
    ∃ b, LastStamp tr u p b ∧ (g.users.cell u).index ≤ m + 1 + b.countP (Item.EndsFor u)

theorem Item.aged (i : Item c) (hn : 1 ≤ c.expired_number) (hw : WellFormed i.pre)
    {own : EntryId → Owner} (hown : Owned own i.pre.gate)
    (hb : ∀ u, Bounded c.expired_number i.pre.gate u) {tr : List (Item c)}
    (h : Aged tr i.pre.gate) : Aged (tr ++ [i]) i.post.gate := by
  intro v s p m hs hfd hm
  cases hf : i.finishing with
  | none =>
    obtain ⟨hs', hcell⟩ := (i.unfinished hw hf).kept v s p hs hfd
    rw [hcell] at hfd hm
    obtain ⟨b, hl, hle⟩ := h v s p m hs' hfd hm
    refine ⟨b ++ [i], hl.snoc fun ⟨g, hg⟩ => absurd (hf.symm.trans hg) (by simp), ?_⟩
    rcases (i.unfinished hw hf).index v with hidx | ⟨-, hnone⟩
    · rw [hidx, List.countP_append]
      omega
    · exact absurd ((hnone s).symm.trans hs) (by simp)
  | some x =>
    obtain ⟨g, u, j⟩ := x
    have hfin := Item.finishing_iff.mp hf
    obtain ⟨d, hr⟩ := hfin.renumbers hn hown (hb u)
    by_cases hv : v = u
    · subst hv
      have hends : Item.EndsFor v i = true := by simp [Item.EndsFor, hf]
      have hindex := hr.renumbered.index
      obtain ⟨hs', hfd', n, hn', hle, hcell⟩ := hr.renumbered.index_of hr.indexed hs hfd
      rw [hcell] at hm
      have hmn : n - d = m := Option.some.inj hm
      rw [hr.released.index] at hindex
      by_cases hp : p = j
      · -- the entry that has just been stamped
        subst hp
        have hnidx := Option.some.inj (hn'.symm.trans hr.released.stamp)
        refine ⟨[], ⟨tr, i, rfl, ⟨g, hf⟩, by simp⟩, ?_⟩
        simp only [List.countP_nil]
        omega
      · rw [hr.released.response] at hs'
        rw [hr.released.rest p hp] at hfd' hn'
        obtain ⟨b, hl, hage⟩ := h v s p n hs' hfd' hn'
        refine ⟨b ++ [i], hl.snoc fun ⟨g', hg'⟩ => ?_, ?_⟩
        · obtain ⟨-, -, rfl⟩ : g = g' ∧ v = v ∧ j = p := by simpa using hf.symm.trans hg'
          exact hp rfl
        · rw [List.countP_append, List.countP_singleton, if_pos hends]
          omega
    · obtain ⟨hcell, hent⟩ := hr.others hown (hfin.owner hown) hv
      rw [hcell] at hs
      obtain ⟨hpj, hpcell⟩ := hent s p hs
      rw [hpcell] at hfd hm
      obtain ⟨b, hl, hage⟩ := h v s p m hs hfd hm
      refine ⟨b ++ [i], hl.snoc fun ⟨g', hg'⟩ => ?_, ?_⟩
      · obtain ⟨-, rfl, -⟩ : g = g' ∧ u = v ∧ j = p := by simpa using hf.symm.trans hg'
        exact hv rfl
      · rw [hcell, List.countP_append]
        omega

theorem Run.aged (hn : 1 ≤ c.expired_number) {tr : List (Item c)} {s : State}
    (h : (machine c).Run tr s) : Aged tr s.gate := by
  refine Machine.Run.history (J := fun tr s => Aged tr s.gate) ?_ ?_ h
  · intro u s p m hs
    simp [machine, Gate.init, Heap.empty] at hs
  · intro tr i hrun ha
    obtain ⟨own, hown⟩ := Run.routed hrun
    exact Item.aged i hn (Run.wellFormed hrun) hown.toOwned (Run.bounded hn hrun) ha

/-! ## Retirement -/

/-- The complete responses of `u`, by session. -/
def completed (g : Gate) (u : UserId) : List (Nat × EntryId) :=
  (g.users.cell u).response.entries.filter fun e => (g.entries.cell e.2).fd = none

/-- Different complete responses have different indices below `u.index`. -/
theorem Bounded.completed_length {n : Nat} {g : Gate} {u : UserId} (h : Bounded n g u) :
    (completed g u).length ≤ 2 * n - 1 := by
  have hmem : ∀ e ∈ completed g u, (g.users.cell u).response.get e.1 = some e.2 ∧
      (g.entries.cell e.2).fd = none := by
    intro e he
    obtain ⟨he, hfd⟩ := List.mem_filter.mp he
    exact ⟨Table.mem_entries.mp (show (e.1, e.2) ∈ _ from he), of_decide_eq_true hfd⟩
  let index (e : Nat × EntryId) : Nat := ((g.entries.cell e.2).index).getD 0
  have hindex : ∀ e ∈ completed g u, (g.entries.cell e.2).index = some (index e) ∧
      index e < (g.users.cell u).index := by
    intro e he
    obtain ⟨-, -, m, hm, hlt⟩ := h.full e.1 e.2 (hmem e he).1 (hmem e he).2
    have hme : index e = m := by simp [index, hm]
    exact ⟨hme ▸ hm, hme ▸ hlt⟩
  have hnodup : ((completed g u).map index).Nodup := by
    have hnd : (completed g u).Nodup :=
      (List.Nodup.of_map _ (Table.entries_nodup (g.users.cell u).response)).filter _
    refine List.Nodup.map_on (fun x hx y hy hxy => ?_) hnd
    obtain ⟨hs, hfd⟩ := hmem x hx
    obtain ⟨hs', hfd'⟩ := hmem y hy
    have hxy' := h.distinct x.1 y.1 x.2 y.2 _ hs hs' hfd hfd' (hindex x hx).1
      (hxy ▸ (hindex y hy).1)
    rw [hxy'] at hs
    exact Prod.ext hxy' (Option.some.inj (hs.symm.trans hs'))
  have hsub : (completed g u).map index ⊆ List.range (g.users.cell u).index := by
    intro m hm
    obtain ⟨e, he, rfl⟩ := List.mem_map.mp hm
    exact List.mem_range.mpr (hindex e he).2
  have hlen := (List.subperm_of_subset hnodup hsub).length_le
  rw [List.length_map, List.length_range] at hlen
  have hbound := h.bound
  omega

/-- A step that ends a `do_request` removes a cached response of its user only if it is complete
and old. -/
theorem Item.Renumbers.retired {i : Item c} {G : Gate} {u : UserId} {j : EntryId} {d : Nat}
    (h : i.Renumbers G u j d) {tr : List (Item c)} (ha : Aged tr i.pre.gate) {s : Nat}
    {p : EntryId} (hi : Item.EndsFor u i = true)
    (hs : (i.pre.gate.users.cell u).response.get s = some p)
    (hgone : (i.post.gate.users.cell u).response.get s ≠ some p) :
    ∃ b, LastStamp tr u p b ∧ c.expired_number ≤ (b ++ [i]).countP (Item.EndsFor u) := by
  have hs' : (G.users.cell u).response.get s = some p := h.released.response ▸ hs
  have he : (G.entries.cell p).Expired d := by
    by_contra he
    exact hgone ((h.renumbered.get s p).mpr ⟨hs', he⟩)
  obtain ⟨hfd, m, hm, hlt⟩ := he
  have hshift := h.shift
  rw [h.released.index] at hshift
  have hpj : p ≠ j := by
    rintro rfl
    have := Option.some.inj (hm.symm.trans h.released.stamp)
    omega
  rw [h.released.rest p hpj] at hfd hm
  obtain ⟨b, hl, hage⟩ := ha u s p m hs hfd hm
  refine ⟨b, hl, ?_⟩
  rw [List.countP_append, List.countP_singleton, if_pos hi]
  omega

/-- **How many responses are kept, and for how long.** In every state of every run the complete
responses of a user are fully stamped and have different indices below `u.index`, which is below
`2 * expired_number`; `retire_response` never raises, and a response that it removes was stamped
at least `expired_number` ends of `do_request` of that user ago. -/
theorem retention (hn : 1 ≤ c.expired_number) {tr : List (Item c)} {s : State}
    (h : (machine c).Run tr s) :
    (∀ u, Bounded c.expired_number s.gate u ∧
      (completed s.gate u).length ≤ 2 * c.expired_number - 1) ∧
    (∀ i ∈ tr, ∀ g u j, Item.finishing i = some (g, u, j) → (finish c g u j).2.2 = true) ∧
    ∀ a i b, tr = a ++ i :: b → ∀ g u j, Item.finishing i = some (g, u, j) →
      ∀ session p, (i.pre.gate.users.cell u).response.get session = some p →
        (i.post.gate.users.cell u).response.get session ≠ some p →
        ∃ b', LastStamp a u p b' ∧
          c.expired_number ≤ (b' ++ [i]).countP (Item.EndsFor u) := by
  have hrenumbers : ∀ a i b, tr = a ++ i :: b → ∀ g u j, Item.finishing i = some (g, u, j) →
      Aged a i.pre.gate ∧ ∃ d, Item.Renumbers i (release g u j) u j d := by
    rintro a i b rfl g u j hf
    have ha := (Machine.Path.split h).1
    obtain ⟨own, hown⟩ := Run.routed ha
    exact ⟨Run.aged hn ha, (Item.finishing_iff.mp hf).renumbers hn hown.toOwned
      (Run.bounded hn ha u)⟩
  refine ⟨fun u => ⟨Run.bounded hn h u, (Run.bounded hn h u).completed_length⟩,
    fun i hi g u j hf => ?_, fun a i b htr g u j hf session p hs hgone => ?_⟩
  · obtain ⟨a, b, htr⟩ := List.append_of_mem hi
    obtain ⟨-, d, hr⟩ := hrenumbers a i b htr g u j hf
    exact hr.ok
  · obtain ⟨hage, d, hr⟩ := hrenumbers a i b htr g u j hf
    exact hr.retired hage (by simp [Item.EndsFor, hf]) hs hgone

/-! ## A run with a retirement -/

/-- A gate that caches one response, and two requests of one user. -/
def expiryRun : List Event :=
  let name := bytes "dQ==@cw==@MQ=="
  let secret := bytes "12345678"
  [.login name secret,
   .connect 1 (bytes "10.0.0.1:1"), .packet 1 (handshakeOf name secret (bytes "1")),
   .packet 1 move, .complete 0 (.ok (some (bytes "done"))),
   .packet 1 (bytes "stop" ++ packBE 4 8), .complete 1 (.ok (some (bytes "done")))]

/-- The last step of `expiryRun`. -/
def expiryRunItems (tr : List (Item ⟨1024, 1⟩)) : Bool :=
  match tr with
  | [i1, i2, i3, i4, i5, i6, i] =>
    decide ([i1, i2, i3, i4, i5, i6, i].map (·.ev) = expiryRun ∧
      i.finishing.map (fun x => x.2) = some (0, 1) ∧
      (i.pre.gate.users.cell 0).response.get 7 = some 0 ∧
      (i.post.gate.users.cell 0).response.get 7 = none)
  | _ => false

/-- The response of session 7 is gone after one more response. -/
theorem retention_expiryRun : ∃ (a : List (Item ⟨1024, 1⟩)) (i : Item ⟨1024, 1⟩),
    (a ++ [i]).map (·.ev) = expiryRun ∧ (i.pre.gate.users.cell 0).response.get 7 = some 0 ∧
      (i.post.gate.users.cell 0).response.get 7 = none ∧
      (completed i.post.gate 0).length ≤ 1 ∧
      ∃ b, LastStamp a 0 0 b ∧ 1 ≤ (b ++ [i]).countP (Item.EndsFor 0) := by
  have h : ((machine ⟨1024, 1⟩).items (machine ⟨1024, 1⟩).init expiryRun).map expiryRunItems =
      some true := by
    decide +kernel
  obtain ⟨tr, hrun, hP⟩ := Machine.exists_run h
  unfold expiryRunItems at hP
  split at hP
  · rename_i i1 i2 i3 i4 i5 i6 i
    obtain ⟨hev, hf, hpre, hpost⟩ := of_decide_eq_true hP
    obtain ⟨⟨g, u, j⟩, hf, hx⟩ := Option.map_eq_some_iff.mp hf
    obtain ⟨rfl, rfl⟩ : u = 0 ∧ j = 1 := by simpa using hx
    obtain ⟨hb, -, hr⟩ := retention (c := ⟨1024, 1⟩) le_rfl hrun
    exact ⟨[i1, i2, i3, i4, i5, i6], i, hev, hpre, hpost, (hb 0).2,
      hr [i1, i2, i3, i4, i5, i6] i [] rfl g 0 1 hf 7 0 hpre (by simp [hpost])⟩
  · exact absurd hP (by simp)

end LsServer.GameGate
