import LsServer.GameGate.Routing

/-!
# Renumbering the response cache

`retire_response` runs when the index of a user reaches `2 * expired_number`. It drops the complete
entries with an index below `expired_number`, lowers the others by it and sets `u.index` one above
the largest. `Retired` says what the loop does, whatever the order of the traversal; `Renumbered`
says it of the whole function, as a shift of all indices by `d`, with `d = 0` when nothing is done.

Source: GameGate.lua, `retire_response` 205-224.

* Entries that wait for their handler have no index yet, or an old one of a resend; the loop does
  not touch them.
* `Indexed`: the complete entries have an index below that of the user. This is what makes `max + 1`
  at most `u.index`.
* The loop assigns `nil` to the current key, which `pairs` allows.

A shift by `d` keeps the order of all indices and their distance to `u.index`. So whoever counts how
many requests have ended since an entry was stamped does not see that it happened.

Results: `retireLoop_retired`, `retireResponse_renumbered`.
-/

namespace LsServer.GameGate

open LsServer.Lib LsServer.Lua

/-- The entry is complete and its index is below `n`. -/
def Entry.Expired (n : Nat) (p : Entry) : Prop := p.fd = none ∧ ∃ m, p.index = some m ∧ m < n

/-- The loop body, for an entry that is kept. -/
def Entry.lower (n : Nat) (p : Entry) : Entry :=
  match p.fd, p.index with
  | none, some m => if m < n then p else { p with index := some (m - n) }
  | _, _ => p

theorem Entry.not_expired_of_fd {n : Nat} {p : Entry} (h : p.fd ≠ none) : ¬ p.Expired n :=
  fun he => h he.1

theorem Entry.lower_of_fd {n : Nat} {p : Entry} (h : p.fd ≠ none) : p.lower n = p := by
  obtain ⟨fd, hfd⟩ := Option.ne_none_iff_exists'.mp h
  unfold Entry.lower
  rw [hfd]

theorem Entry.lower_of_le {n m : Nat} {p : Entry} (hfd : p.fd = none) (hm : p.index = some m)
    (hle : n ≤ m) : p.lower n = { p with index := some (m - n) } := by
  unfold Entry.lower
  rw [hfd, hm]
  exact if_neg (not_lt.mpr hle)

theorem Entry.lower_of_expired {n : Nat} {p : Entry} (h : p.Expired n) : p.lower n = p := by
  obtain ⟨hfd, m, hm, hlt⟩ := h
  unfold Entry.lower
  rw [hfd, hm]
  exact if_pos hlt

/-! ## The loop -/

/-- The loop over `ps` leads from `r` to `r'`. -/
structure Retired (n : Nat) (ps : List (Nat × EntryId)) (r r' : Retire) : Prop where
  cell : ∀ i, r'.entries.cell i =
    if i ∈ ps.map Prod.snd then (r.entries.cell i).lower n else r.entries.cell i
  drops : ∀ p ∈ ps, (r.entries.cell p.2).Expired n → r'.response.get p.1 = none
  keeps : ∀ p ∈ ps, ¬ (r.entries.cell p.2).Expired n →
    r'.response.get p.1 = r.response.get p.1
  le_max : ∀ p ∈ ps, ∀ m, (r.entries.cell p.2).fd = none → (r.entries.cell p.2).index = some m →
    n ≤ m → m - n ≤ r'.max
  base : r.max ≤ r'.max
  max : r'.max = r.max ∨ ∃ p ∈ ps, ∃ m, (r.entries.cell p.2).fd = none ∧
    (r.entries.cell p.2).index = some m ∧ n ≤ m ∧ r'.max = m - n

/-- **The loop of `retire_response`**: it compares no `nil`, if every complete entry has an index,
and treats every entry on its own. -/
theorem retireLoop_retired {n : Nat} {ps : List (Nat × EntryId)} {r : Retire}
    (hk : (ps.map Prod.fst).Nodup) (hi : (ps.map Prod.snd).Nodup)
    (hidx : ∀ p ∈ ps, (r.entries.cell p.2).fd = none → (r.entries.cell p.2).index ≠ none) :
    (retireLoop n ps r).2 = true ∧ Retired n ps r (retireLoop n ps r).1 := by
  induction ps generalizing r with
  | nil => exact ⟨rfl, by constructor <;> simp [retireLoop]⟩
  | cons p ps ih =>
    obtain ⟨k, i⟩ := p
    rw [List.map_cons, List.nodup_cons] at hk hi
    have hne : ∀ p ∈ ps, p.1 ≠ k ∧ p.2 ≠ i := fun p hp =>
      ⟨fun h => hk.1 (List.mem_map.mpr ⟨p, hp, h⟩), fun h => hi.1 (List.mem_map.mpr ⟨p, hp, h⟩)⟩
    -- a visit that leaves the other sessions and entries as they are
    have hstep : ∀ r₁ : Retire,
        (∀ x, x ≠ i → r₁.entries.cell x = r.entries.cell x) →
        (∀ x, x ≠ k → r₁.response.get x = r.response.get x) →
        r₁.entries.cell i = (r.entries.cell i).lower n →
        ((r.entries.cell i).Expired n → r₁.response.get k = none) →
        (¬ (r.entries.cell i).Expired n → r₁.response.get k = r.response.get k) →
        r.max ≤ r₁.max →
        (∀ m, (r.entries.cell i).fd = none → (r.entries.cell i).index = some m → n ≤ m →
          m - n ≤ r₁.max) →
        (r₁.max = r.max ∨ ∃ m, (r.entries.cell i).fd = none ∧
          (r.entries.cell i).index = some m ∧ n ≤ m ∧ r₁.max = m - n) →
        (retireLoop n ps r₁).2 = true ∧ Retired n ((k, i) :: ps) r (retireLoop n ps r₁).1 := by
      intro r₁ hcell hget hi₁ hdrop hkeep hbase hle hmax
      have hsame : ∀ p ∈ ps, r₁.entries.cell p.2 = r.entries.cell p.2 :=
        fun p hp => hcell p.2 (hne p hp).2
      obtain ⟨hok, h⟩ := ih (r := r₁) hk.2 hi.2 fun p hp => by
        rw [hsame p hp]
        exact hidx p (List.mem_cons_of_mem _ hp)
      have hk₁ : (retireLoop n ps r₁).1.response.get k = r₁.response.get k :=
        retireLoop_notMem hk.1
      refine ⟨hok, fun x => ?_, fun p hp he => ?_, fun p hp he => ?_, fun p hp m hfd hm hnm => ?_,
        hbase.trans h.base, ?_⟩
      · rw [h.cell]
        by_cases hx : x = i
        · subst hx
          rw [if_neg hi.1, if_pos (by simp), hi₁]
        · simp only [List.map_cons, List.mem_cons, hx, false_or, hcell x hx]
      · rcases List.mem_cons.mp hp with rfl | hp
        · rw [hk₁]
          exact hdrop he
        · rw [← hsame p hp] at he
          exact h.drops p hp he
      · rcases List.mem_cons.mp hp with rfl | hp
        · rw [hk₁]
          exact hkeep he
        · rw [← hsame p hp] at he
          rw [h.keeps p hp he, hget p.1 (hne p hp).1]
      · rcases List.mem_cons.mp hp with rfl | hp
        · exact (hle m hfd hm hnm).trans h.base
        · rw [← hsame p hp] at hfd hm
          exact h.le_max p hp m hfd hm hnm
      · rcases h.max with he | ⟨p, hp, m, hfd, hm, hnm, he⟩
        · rw [he]
          refine hmax.imp_right fun hi => ?_
          obtain ⟨m, hm⟩ := hi
          exact ⟨(k, i), List.mem_cons_self, m, hm⟩
        · rw [hsame p hp] at hfd hm
          exact Or.inr ⟨p, List.mem_cons_of_mem _ hp, m, hfd, hm, hnm, he⟩
    simp only [retireLoop]
    split
    · rename_i fd hfd
      have hfd' : (r.entries.cell i).fd ≠ none := by simp [hfd]
      exact hstep r (fun _ _ => rfl) (fun _ _ => rfl) (Entry.lower_of_fd hfd').symm
        (fun he => absurd he (Entry.not_expired_of_fd hfd')) (fun _ => rfl) le_rfl
        (fun m h => absurd h hfd') (Or.inl rfl)
    · rename_i hfd
      split
      · rename_i hm
        exact absurd hm (hidx (k, i) List.mem_cons_self hfd)
      · rename_i m hm
        split
        · rename_i hlt
          have he : (r.entries.cell i).Expired n := ⟨hfd, m, hm, hlt⟩
          refine hstep { r with response := r.response.del k } (fun _ _ => rfl)
            (fun x hx => Table.get_del_ne hx) (Entry.lower_of_expired he).symm
            (fun _ => Table.get_del_self _ _) (absurd he) le_rfl (fun m' _ hm' hle => ?_)
            (Or.inl rfl)
          obtain rfl := Option.some.inj (hm.symm.trans hm')
          exact absurd hlt (not_lt.mpr hle)
        · rename_i hlt
          rw [not_lt] at hlt
          refine hstep { r with entries := _, max := _ } (fun x hx => Heap.cell_set_ne hx)
            (fun _ _ => rfl) ((Heap.cell_set_self _ _ _).trans (Entry.lower_of_le hfd hm hlt).symm)
            (fun he => ?_) (fun _ => rfl) (le_max_left _ _) (fun m' _ hm' _ => ?_) ?_
          · obtain ⟨-, m', hm', hlt'⟩ := he
            obtain rfl := Option.some.inj (hm.symm.trans hm')
            exact absurd hlt' (not_lt.mpr hlt)
          · obtain rfl := Option.some.inj (hm.symm.trans hm')
            exact le_max_right _ _
          · rcases max_choice r.max (m - n) with h | h
            · exact Or.inl h
            · exact Or.inr ⟨m, hfd, hm, hlt, h⟩

/-! ## The whole function -/

/-- The index of every complete response of `u` is below `u.index`, they differ, and the response
and the version are there. -/
structure Indexed (g : Gate) (u : UserId) : Prop where
  full : ∀ s p, (g.users.cell u).response.get s = some p → (g.entries.cell p).fd = none →
    (g.entries.cell p).response ≠ none ∧ (g.entries.cell p).version ≠ none ∧
      ∃ m, (g.entries.cell p).index = some m ∧ m < (g.users.cell u).index
  distinct : ∀ s s' p p' m, (g.users.cell u).response.get s = some p →
    (g.users.cell u).response.get s' = some p' → (g.entries.cell p).fd = none →
    (g.entries.cell p').fd = none → (g.entries.cell p).index = some m →
    (g.entries.cell p').index = some m → s = s'

/-- The indices of the complete responses of `u` are lowered by `d`, and those below `d` are
gone. -/
structure Renumbered (d : Nat) (g g' : Gate) (u : UserId) : Prop where
  get : ∀ s p, (g'.users.cell u).response.get s = some p ↔
    (g.users.cell u).response.get s = some p ∧ ¬ (g.entries.cell p).Expired d
  cell : ∀ s p, (g.users.cell u).response.get s = some p →
    g'.entries.cell p = (g.entries.cell p).lower d
  rest : ∀ p, (∀ s, (g.users.cell u).response.get s ≠ some p) →
    g'.entries.cell p = g.entries.cell p
  others : ∀ v, v ≠ u → g'.users.cell v = g.users.cell v
  below : ∀ s p m, (g.users.cell u).response.get s = some p → (g.entries.cell p).fd = none →
    (g.entries.cell p).index = some m → d ≤ m → m - d < (g'.users.cell u).index
  index : (g'.users.cell u).index + d ≤ (g.users.cell u).index

theorem Entry.not_expired_zero (p : Entry) : ¬ p.Expired 0 := by
  rintro ⟨-, m, -, hlt⟩
  exact Nat.not_lt_zero m hlt

theorem Entry.lower_zero (p : Entry) : p.lower 0 = p := by
  obtain ⟨fd, response, version, index⟩ := p
  unfold Entry.lower
  cases fd <;> cases index <;> simp

/-- A table that maps no two keys to one value lists every value once. -/
theorem entries_snd_nodup {V : Type} {t : Table Nat V}
    (h : ∀ k k' v, t.get k = some v → t.get k' = some v → k = k') :
    (t.entries.map Prod.snd).Nodup := by
  refine List.Nodup.map_on (fun x hx y hy hxy => ?_) (List.Nodup.of_map _ (Table.entries_nodup t))
  have hx' := Table.mem_entries.mp (show (x.1, x.2) ∈ _ from hx)
  have hy' := Table.mem_entries.mp (show (y.1, y.2) ∈ _ from hy)
  rw [hxy] at hx'
  exact Prod.ext (h _ _ _ hx' hy') hxy

/-- **`retire_response` shifts the indices of a user**, raises nothing and brings `u.index` below
`2 * expired_number`. -/
theorem retireResponse_renumbered {c : Conf} {g : Gate} {u : UserId} (hn : 1 ≤ c.expired_number)
    (huniq : ∀ s s' p, (g.users.cell u).response.get s = some p →
      (g.users.cell u).response.get s' = some p → s = s') (h : Indexed g u)
    (hle : (g.users.cell u).index ≤ 2 * c.expired_number) :
    (retireResponse c g u).2 = true ∧
      ((retireResponse c g u).1.users.cell u).index < 2 * c.expired_number ∧
      ∃ d, (d = 0 ∨ d = c.expired_number ∧ 2 * c.expired_number ≤ (g.users.cell u).index) ∧
        Renumbered d g (retireResponse c g u).1 u := by
  unfold retireResponse
  by_cases hge : c.expired_number * 2 ≤ (g.users.cell u).index
  · simp only [if_pos hge]
    have hmem : ∀ s p, (s, p) ∈ (g.users.cell u).response.entries ↔
        (g.users.cell u).response.get s = some p := fun s p => Table.mem_entries
    have hloop := @retireLoop_retired c.expired_number (g.users.cell u).response.entries
      ⟨(g.users.cell u).response, g.entries, 0⟩ (Table.entries_nodup _)
      (entries_snd_nodup huniq) fun p hp hfd => by
        obtain ⟨-, -, m, hm, -⟩ := h.full p.1 p.2 ((hmem _ _).mp hp) hfd
        simp [hm]
    obtain ⟨hok, hr⟩ := hloop
    have hdel : ∀ {s p}, (retireLoop c.expired_number (g.users.cell u).response.entries
        ⟨(g.users.cell u).response, g.entries, 0⟩).1.response.get s = some p →
        (g.users.cell u).response.get s = some p := fun h => retireLoop_response h
    generalize retireLoop c.expired_number (g.users.cell u).response.entries
      ⟨(g.users.cell u).response, g.entries, 0⟩ = x at hok hr hdel
    obtain ⟨l, ok⟩ := x
    obtain rfl : ok = true := hok
    -- the largest index that is left
    have hmax : l.max + 1 + c.expired_number ≤ (g.users.cell u).index := by
      rcases hr.max with he | ⟨p, hp, m, hfd, hm, hnm, he⟩
      · have : l.max = 0 := he
        omega
      · obtain ⟨-, -, m', hm', hlt⟩ := h.full p.1 p.2 ((hmem _ _).mp hp) hfd
        obtain rfl := Option.some.inj (hm.symm.trans hm')
        have hl : l.max = m - c.expired_number := he
        omega
    refine ⟨rfl, ?_, c.expired_number, Or.inr ⟨rfl, by omega⟩, ?_⟩
    · simp only [Heap.cell_set_self, if_true]
      omega
    · refine ⟨fun s p => ?_, fun s p hs => ?_, fun p hp => ?_, fun v hv => Heap.cell_set_ne hv,
        fun s p m hs hfd hm hnm => ?_, ?_⟩
      · simp only [Heap.cell_set_self]
        constructor
        · intro hs
          have hs' := hdel hs
          refine ⟨hs', fun he => ?_⟩
          exact absurd (hs.symm.trans (hr.drops (s, p) ((hmem s p).mpr hs') he)) (by simp)
        · rintro ⟨hs, he⟩
          exact (hr.keeps (s, p) ((hmem s p).mpr hs) he).trans hs
      · exact (hr.cell p).trans (if_pos (List.mem_map.mpr ⟨(s, p), (hmem s p).mpr hs, rfl⟩))
      · refine (hr.cell p).trans (if_neg fun hp' => ?_)
        obtain ⟨q, hq, rfl⟩ := List.mem_map.mp hp'
        exact hp q.1 ((hmem _ _).mp hq)
      · simp only [Heap.cell_set_self, if_true]
        exact Nat.lt_succ_of_le (hr.le_max (s, p) ((hmem s p).mpr hs) m hfd hm hnm)
      · simp only [Heap.cell_set_self, if_true]
        exact hmax
  · simp only [if_neg hge]
    refine ⟨trivial, by omega, 0, Or.inl rfl, fun s p => ?_, fun s p _ => ?_, fun _ _ => rfl,
      fun _ _ => rfl, fun s p m hs hfd hm _ => ?_, le_rfl⟩
    · exact ⟨fun hs => ⟨hs, Entry.not_expired_zero _⟩, And.left⟩
    · exact (Entry.lower_zero _).symm
    · obtain ⟨-, -, m', hm', hlt⟩ := h.full s p hs hfd
      obtain rfl := Option.some.inj (hm.symm.trans hm')
      simpa using hlt

end LsServer.GameGate
