import LsServer.Monitor.Publish

/-!
# Assignments during a walk

`pairs` allows a loop to clear fields, not to add them. A walk of `broadcastClusterInfo` waits for
a call in every round, and `sync` adds its node whenever `checkNodeAlive` answers.

Source: MonitorPublish.lua 14-22 and 70-74; ltable.c and the manual for `next`, whose behaviour is
undefined if an absent field is assigned during a traversal.

* `Suspended`: some walk waits in the body of its loop.
* `Item.Inserts`: a step assigns a key that was absent. Only `sync` does that, when its node has
  answered (`Item.inserts_iff`); a heartbeat assigns a present one, and everything else deletes.
* The condition is on the answers of `checkNodeAlive`: none comes for a node that is not registered
  while a walk is suspended.
* `Calm` is the invariant: no key was added since the start of a walk, so `insertedAt` is not above
  its `start`.

Results:
* `Item.changed`: what a step does to `clusterInfo`;
* `no_insertion_iff`: no key is added during a suspended walk exactly if no node that is not
  registered answers `checkNodeAlive` during one;
* `insertion_during_walk`: two nodes that register at the same time.
-/

namespace LsServer.Monitor

open LsServer.Lib LsServer.Lua LsServer.Cluster

/-! ## The table -/

theorem remove_get (s : State) (name n : NodeName) :
    (remove s name).clusterInfo.get n = if n = name then none else s.clusterInfo.get n := by
  unfold remove
  split
  · rename_i h
    split
    · rename_i hn
      rw [hn, h]
    · rfl
  · exact Table.get_del _ _ _

/-- `clusterHold` writes the table and its version. -/
theorem foldl_remove_eq (names : List NodeName) (s : State) : ∃ t v, s.version ≤ v ∧
    names.foldl remove s = { s with clusterInfo := t, version := v } := by
  induction names generalizing s with
  | nil => exact ⟨s.clusterInfo, s.version, le_rfl, rfl⟩
  | cons name names ih =>
    obtain ⟨t, v, hv, h⟩ := ih (remove s name)
    rw [List.foldl_cons, h]
    unfold remove at hv ⊢
    split at hv
    · rename_i hn
      rw [if_pos hn]
      exact ⟨t, v, hv, rfl⟩
    · rename_i hn
      rw [if_neg hn]
      exact ⟨t, v, (Nat.le_succ _).trans hv, rfl⟩

theorem foldl_remove_get (names : List NodeName) (s : State) (n : NodeName) :
    (names.foldl remove s).clusterInfo.get n =
      if n ∈ names then none else s.clusterInfo.get n := by
  induction names generalizing s with
  | nil => simp
  | cons name names ih =>
    rw [List.foldl_cons, ih, remove_get]
    by_cases hn : n ∈ names
    · simp [hn]
    · by_cases hname : n = name <;> simp [hn, hname]

@[simp] theorem setTask_clusterInfo (s : State) (k : TaskId) (t : Task) :
    (setTask s k t).clusterInfo = s.clusterInfo := rfl

@[simp] theorem broadcastClusterInfo_clusterInfo (s : State) (k : TaskId) (caller : Caller) :
    (broadcastClusterInfo s k caller).clusterInfo = s.clusterInfo := rfl

@[simp] theorem searched_clusterInfo (s : State) (q : CallId) (call : Call) (r : Search) :
    (searched s q call r).clusterInfo = s.clusterInfo := by
  unfold searched
  split <;> rfl

@[simp] theorem visit_clusterInfo (c : Conf) (s : State) (k : TaskId) (caller : Caller) (w : Walk)
    (n : NodeName) : (visit c s k caller w n).clusterInfo = s.clusterInfo := by
  unfold visit
  split <;> rfl

/-- What an event does to `clusterInfo`: nothing, or an assignment of `sync`, of `heartbeat`, of
`clusterHold`, of `broadcastClusterInfo`. -/
inductive Changed (c : Conf) (s : State) : Event → ClusterInfo → Prop
  | same {e : Event} (hq : ∀ k now, e ≠ .queried k true now)
    (hb : ∀ name now, e = .heartbeat name now → s.clusterInfo.get name = none) :
    Changed c s e s.clusterInfo
  | stored {k : TaskId} {name : NodeName} {ip : Bytes} {port : LuaNumber} {now : Nat}
    (hk : s.tasks.get k = some (.querying name ip port)) :
    Changed c s (.queried k true now) (s.clusterInfo.set name ⟨ip, port, some now⟩)
  | beaten {name : NodeName} {now : Nat} {info : NodeInfo}
    (hn : s.clusterInfo.get name = some info) :
    Changed c s (.heartbeat name now) (s.clusterInfo.set name { info with last := some now })
  | expired {now : Nat} {t : ClusterInfo}
    (ht : ∀ n, t.get n = if n ∈ expired c s now then none else s.clusterInfo.get n) :
    Changed c s (.hold now) t
  | failed {k : TaskId} {caller : Caller} {w : Walk} {n : NodeName} {q : CallId} {call : Call}
    (hk : s.tasks.get k = some (.broadcasting caller w)) (hp : w.phase = .calling n q)
    (hq : s.calls.get q = some call) (hf : failed call.result = true)
    (hn : s.clusterInfo.get n ≠ none) :
    Changed c s (.resume k) (s.clusterInfo.del n)

variable {c : Conf}

theorem Item.changed (i : Item c) : Changed c i.pre i.ev i.post.clusterInfo := by
  have hm := i.moved
  generalize i.ev = e, i.post = s', i.out = acts at hm
  cases hm with
  | alive _ hk => exact .stored hk
  | hold => exact .expired fun n => foldl_remove_get _ _ n
  | @heartbeat name now =>
    unfold heartbeat
    split
    · rename_i hn
      exact .same (by simp) (by simpa using hn)
    · rename_i info hn
      exact .beaten hn
  | visit =>
    rw [visit_clusterInfo]
    exact .same (by simp) (by simp)
  | search =>
    rw [searched_clusterInfo]
    exact .same (by simp) (by simp)
  | @resume k caller w n q call _ hk hp hq =>
    unfold afterCall
    split
    · rename_i hf
      unfold remove
      rw [setTask_clusterInfo]
      split
      · exact .same (by simp) (by simp)
      · rename_i hn
        exact .failed hk hp hq hf hn
    · exact .same (by simp) (by simp)
  | _ => exact .same (by simp) (by simp)

/-! ## Insertions -/

/-- The step assigns the key `n`, which was absent. -/
def Item.Inserts (i : Item c) (n : NodeName) : Prop :=
  i.pre.clusterInfo.get n = none ∧ i.post.clusterInfo.get n ≠ none

/-- The loop of `broadcastClusterInfo` waits for a call in its body. -/
def WalkPhase.waits : WalkPhase → Bool
  | .calling _ _ => true
  | _ => false

/-- The coroutine waits there. -/
def Task.waits : Task → Bool
  | .broadcasting _ w => w.phase.waits
  | _ => false

/-- Some loop of `broadcastClusterInfo` waits in its body. -/
def Suspended (s : State) : Prop := ∃ k t, s.tasks.get k = some t ∧ t.waits = true

theorem suspended_iff {s : State} : Suspended s ↔ ∃ e ∈ s.tasks.entries, e.2.waits = true := by
  constructor
  · rintro ⟨k, t, hk, hw⟩
    exact ⟨(k, t), Table.mem_entries.mpr hk, hw⟩
  · rintro ⟨⟨k, t⟩, he, hw⟩
    exact ⟨k, t, Table.mem_entries.mp he, hw⟩

instance (s : State) : Decidable (Suspended s) := decidable_of_iff' _ suspended_iff

/-- `checkNodeAlive` answers for the node `n` of a `sync`. -/
def Item.Answers (i : Item c) (n : NodeName) : Prop :=
  ∃ k ip port now, i.ev = .queried k true now ∧
    i.pre.tasks.get k = some (.querying n ip port)

/-- **Only `sync` adds a key**, when its node has answered. -/
theorem Item.inserts_iff (i : Item c) (n : NodeName) :
    i.Inserts n ↔ i.Answers n ∧ i.pre.clusterInfo.get n = none := by
  have hc := i.changed
  unfold Item.Inserts Item.Answers
  constructor
  · rintro ⟨hpre, hpost⟩
    refine ⟨?_, hpre⟩
    generalize i.ev = e, i.post.clusterInfo = t at hc hpost
    cases hc with
    | same => exact absurd hpre hpost
    | @stored k name ip port now hk =>
      by_cases hn : n = name
      · exact ⟨k, ip, port, now, rfl, hn ▸ hk⟩
      · rw [Table.get_set_ne hn] at hpost
        exact absurd hpre hpost
    | @beaten name now info hname =>
      have hn : n ≠ name := by
        rintro rfl
        rw [hname] at hpre
        exact absurd hpre (by simp)
      rw [Table.get_set_ne hn] at hpost
      exact absurd hpre hpost
    | expired ht =>
      rw [ht, hpre] at hpost
      simp at hpost
    | @failed k caller w m q call hk hp hq hf hm =>
      rw [Table.get_del] at hpost
      split at hpost
      · exact absurd rfl hpost
      · exact absurd hpre hpost
  · rintro ⟨⟨k, ip, port, now, hev, hk⟩, hpre⟩
    refine ⟨hpre, ?_⟩
    have hm := i.moved
    rw [hev] at hm
    generalize i.post = s', i.out = acts at hm
    cases hm with
    | alive _ hk' =>
      obtain ⟨rfl, rfl, rfl⟩ := by simpa using hk.symm.trans hk'
      simp [store]

/-! ## Scheduling -/

/-- The coroutine is at `next`. -/
def Task.AtNext (t : Task) : Prop := ∃ caller w lost, t = .broadcasting caller w ∧
  w.phase = .next lost

/-- Only the coroutine that runs is at `next`. -/
def Scheduled (s : State) : Prop :=
  ∀ k t, s.tasks.get k = some t → t.AtNext → s.running = some k

theorem Scheduled.setTask {s s₁ : State} (h : Scheduled s) {k : TaskId} (t : Task)
    (htasks : s₁.tasks = s.tasks) (hr : s.running = none ∨ s.running = some k) :
    Scheduled (setTask s₁ k t) := by
  intro q t' hq hn
  simp only [Monitor.setTask, htasks, Table.get_set] at hq
  split at hq
  · rename_i hqk
    obtain rfl := Option.some.inj hq
    obtain ⟨caller, ⟨visited, start, again, phase⟩, lost, rfl, hp⟩ := hn
    obtain rfl : phase = .next lost := hp
    rw [hqk]
    rfl
  · rename_i hqk
    have hrun := h q t' hq hn
    rcases hr with hr | hr
    · exact absurd (hr.symm.trans hrun) (by simp)
    · exact absurd (Option.some.inj (hr.symm.trans hrun)).symm hqk

theorem Scheduled.endTask {s : State} (h : Scheduled s) {k : TaskId}
    (hr : s.running = none ∨ s.running = some k) : Scheduled (endTask s k) := by
  intro q t' hq hn
  obtain ⟨hqk, hq⟩ := Table.get_of_get_del hq
  have hrun := h q t' hq hn
  rcases hr with hr | hr
  · exact absurd (hr.symm.trans hrun) (by simp)
  · exact absurd (Option.some.inj (hr.symm.trans hrun)).symm hqk

/-- A step that no coroutine takes. -/
theorem Scheduled.congr {s s' : State} (h : Scheduled s) (htasks : s'.tasks = s.tasks)
    (hr : s'.running = s.running) : Scheduled s' := fun k t hk hn =>
  hr ▸ h k t (htasks ▸ hk) hn

theorem Item.scheduled (i : Item c) (h : Scheduled i.pre) : Scheduled i.post := by
  have hm := i.moved
  generalize i.ev = e, i.post = s', i.out = acts at hm
  cases hm with
  | syncFails => exact h.congr rfl rfl
  | sync hr => exact h.setTask _ rfl (.inl hr)
  | query hr => exact h.setTask _ rfl (.inl hr)
  | refused hr => exact h.endTask (.inl hr)
  | again hr => exact h.setTask _ rfl (.inl hr)
  | done hr => exact h.endTask (.inl hr)
  | reloadRaises hr => exact h.endTask (.inl hr)
  | alive hr => exact h.setTask _ rfl (.inl hr)
  | dead hr => exact h.setTask _ rfl (.inl hr)
  | healthy => exact h
  | hold hr =>
    obtain ⟨t, v, -, heq⟩ := foldl_remove_eq (expired c i.pre _)
      { i.pre with nextTask := i.pre.nextTask + 1 }
    rw [heq]
    exact h.setTask _ rfl (.inl hr)
  | heartbeat =>
    unfold heartbeat
    split
    · exact h
    · exact h.congr rfl rfl
  | visit hr =>
    unfold visit
    split
    · exact h.setTask _ rfl (.inr hr)
    · exact h.setTask _ rfl (.inr hr)
  | loopEnd hr => exact h.setTask _ rfl (.inr hr)
  | raises hr => exact h.endTask (.inr hr)
  | search =>
    unfold searched
    split <;> exact h.congr rfl rfl
  | complete => exact h.congr rfl rfl
  | reply => exact h.congr rfl rfl
  | raise => exact h.congr rfl rfl
  | @resume k caller w n q call hr =>
    unfold afterCall
    split
    · unfold remove
      split <;> exact h.setTask _ rfl (.inl hr)
    · exact h.setTask _ rfl (.inl hr)

/-! ## Undisturbed walks -/

/-- No key was added since the start of a loop that has not ended. -/
structure Calm (s : State) : Prop where
  bound : s.insertedAt ≤ s.version
  walks : ∀ k caller w, s.tasks.get k = some (.broadcasting caller w) → w.phase ≠ .reloading →
    s.insertedAt ≤ w.start

/-- A step of task `k` that adds no key. -/
theorem Calm.setTask {s s₁ : State} (h : Calm s) {k : TaskId} {t : Task}
    (htasks : s₁.tasks = s.tasks) (hins : s₁.insertedAt = s.insertedAt)
    (hv : s.version ≤ s₁.version)
    (ht : ∀ caller w, t = .broadcasting caller w → w.phase ≠ .reloading →
      s.insertedAt ≤ w.start) : Calm (setTask s₁ k t) := by
  refine ⟨hins ▸ h.bound.trans hv, fun q caller w hq hp => ?_⟩
  simp only [Monitor.setTask, htasks, hins, Table.get_set] at hq ⊢
  split at hq
  · exact ht caller w (Option.some.inj hq) hp
  · exact h.walks q caller w hq hp

theorem Calm.congr {s s' : State} (h : Calm s)
    (htasks : ∀ k t, s'.tasks.get k = some t → s.tasks.get k = some t)
    (hins : s'.insertedAt = s.insertedAt) (hv : s'.version = s.version) : Calm s' :=
  ⟨by rw [hins, hv]; exact h.bound,
    fun k caller w hk hp => hins ▸ h.walks k caller w (htasks k _ hk) hp⟩

theorem Item.calm (i : Item c) (hs : Scheduled i.pre) (h : Calm i.pre)
    (hno : ∀ n, i.Answers n → i.pre.clusterInfo.get n = none → ¬ Suspended i.pre) :
    Calm i.post := by
  have hm := i.moved
  unfold Item.Answers at hno
  generalize i.ev = e, i.post = s', i.out = acts at hm hno
  cases hm with
  | syncFails => exact h.congr (fun _ _ h => h) rfl rfl
  | sync => exact h.setTask rfl rfl le_rfl (by simp)
  | query => exact h.setTask rfl rfl le_rfl (by simp)
  | refused => exact h.congr (fun _ _ h => (Table.get_of_get_del h).2) rfl rfl
  | again =>
    refine h.setTask rfl rfl le_rfl fun _ w hw _ => ?_
    obtain ⟨-, rfl⟩ := Task.broadcasting.inj hw
    exact h.bound
  | done | reloadRaises => exact h.congr (fun _ _ h => (Table.get_of_get_del h).2) rfl rfl
  | @alive k name ip port now hr hk =>
    refine ⟨?_, fun q caller w hq hp => ?_⟩
    · change (if _ then _ else _) ≤ i.pre.version + 1
      split
      · exact le_rfl
      · exact h.bound.trans (Nat.le_succ _)
    · change (if _ then _ else _) ≤ w.start
      simp only [broadcastClusterInfo, Monitor.setTask, store, Table.get_set] at hq
      split at hq
      · -- the walk that starts
        obtain ⟨-, rfl⟩ := Task.broadcasting.inj (Option.some.inj hq)
        change (if _ then _ else _) ≤ i.pre.version + 1
        split
        · exact le_rfl
        · exact h.bound.trans (Nat.le_succ _)
      · split
        · rename_i hn
          refine absurd ?_ (hno name ⟨k, ip, port, now, rfl, hk⟩ hn)
          cases hph : w.phase with
          | next lost =>
            exact absurd (hr.symm.trans (hs q _ hq ⟨caller, w, lost, rfl, hph⟩)) (by simp)
          | calling n q' => exact ⟨q, _, hq, by simp [Task.waits, WalkPhase.waits, hph]⟩
          | reloading => exact absurd hph hp
        · exact h.walks q caller w hq hp
  | dead => exact h.setTask rfl rfl le_rfl (by simp)
  | healthy => exact h
  | hold =>
    obtain ⟨t, v, hv, heq⟩ := foldl_remove_eq (expired c i.pre _)
      { i.pre with nextTask := i.pre.nextTask + 1 }
    rw [heq]
    refine h.setTask rfl rfl hv fun _ w hw _ => ?_
    obtain ⟨-, rfl⟩ := Task.broadcasting.inj hw
    exact h.bound.trans hv
  | heartbeat =>
    unfold heartbeat
    split
    · exact h
    · exact h.congr (fun _ _ h => h) rfl rfl
  | @visit k caller lost w n hr hk hp =>
    have hw := h.walks k caller w hk (by simp [hp])
    unfold visit
    split
    all_goals
      refine h.setTask rfl rfl le_rfl fun _ w' hw' _ => ?_
      obtain ⟨-, rfl⟩ := Task.broadcasting.inj hw'
      exact hw
  | loopEnd =>
    refine h.setTask rfl rfl le_rfl fun _ w' hw' hp' => ?_
    obtain ⟨-, rfl⟩ := Task.broadcasting.inj hw'
    exact absurd rfl hp'
  | raises => exact h.congr (fun _ _ h => (Table.get_of_get_del h).2) rfl rfl
  | search =>
    unfold searched
    split <;> exact h.congr (fun _ _ h => h) rfl rfl
  | complete => exact h.congr (fun _ _ h => h) rfl rfl
  | reply => exact h.congr (fun _ _ h => h) rfl rfl
  | raise => exact h.congr (fun _ _ h => h) rfl rfl
  | @resume k caller w n q call hr hk hp =>
    have hw := h.walks k caller w hk (by simp [hp])
    have hset : ∀ s₁ : State, s₁.tasks = i.pre.tasks → s₁.insertedAt = i.pre.insertedAt →
        i.pre.version ≤ s₁.version → ∀ again lost, Calm (setTask s₁ k
          (.broadcasting caller { w with syncAgain := again, phase := .next lost })) := by
      intro s₁ h1 h2 h3 again lost
      refine h.setTask h1 h2 h3 fun _ w' hw' _ => ?_
      obtain ⟨-, rfl⟩ := Task.broadcasting.inj hw'
      exact hw
    unfold afterCall
    split
    · unfold remove
      split
      · exact hset _ rfl rfl le_rfl _ _
      · exact hset { i.pre with
          clusterInfo := i.pre.clusterInfo.del n
          version := i.pre.version + 1 } rfl rfl (Nat.le_succ _) _ _
    · exact hset _ rfl rfl le_rfl _ _

/-- **When no key is added during a walk**: exactly if no node that is not registered answers
during one. Then `next` is defined throughout: no loop ever goes on over a table to which a key
was added. -/
theorem no_insertion_iff {tr : List (Item c)} {s : State} (h : (machine c).Run tr s) :
    ((∀ i ∈ tr, Suspended i.pre → ∀ n, ¬ Item.Inserts i n) ↔
      ∀ i ∈ tr, ∀ n, Item.Answers i n → i.pre.clusterInfo.get n = none → ¬ Suspended i.pre) ∧
    ((∀ i ∈ tr, Suspended i.pre → ∀ n, ¬ Item.Inserts i n) →
      ∀ k caller w, s.tasks.get k = some (.broadcasting caller w) → w.phase ≠ .reloading →
        disturbed s w = false) := by
  have hiff : (∀ i ∈ tr, Suspended i.pre → ∀ n, ¬ Item.Inserts i n) ↔
      ∀ i ∈ tr, ∀ n, Item.Answers i n → i.pre.clusterInfo.get n = none → ¬ Suspended i.pre := by
    constructor
    · intro hno i hi n ha hn hs
      exact hno i hi hs n ((Item.inserts_iff i n).mpr ⟨ha, hn⟩)
    · intro hno i hi hs n hins
      obtain ⟨ha, hn⟩ := (Item.inserts_iff i n).mp hins
      exact hno i hi n ha hn hs
  refine ⟨hiff, fun hno k caller w hk hp => ?_⟩
  have hcalm : Scheduled s ∧ Calm s := by
    refine Machine.Path.keeps (I := fun s => Scheduled s ∧ Calm s) h ⟨?_, ?_⟩ ?_
    · intro k t hk
      simp [machine, State.init] at hk
    · exact ⟨le_rfl, fun k caller w hk => by simp [machine, State.init] at hk⟩
    · rintro i hi ⟨hs, hc⟩
      exact ⟨Item.scheduled i hs, Item.calm i hs hc (hiff.mp hno i hi)⟩
  have hle := hcalm.2.walks k caller w hk hp
  unfold disturbed
  exact decide_eq_false (not_lt.mpr hle)

/-! ## Two nodes that register -/

/-- A master. -/
def masterConf : Conf := ⟨bytes "master", bytes "10.0.0.1", .int 2527⟩

/-- The node `game1` registers, and its walk calls it. -/
def firstNode : List Event :=
  [.sync (bytes "game1") (bytes "10.0.0.2") (bytes "2528"), .reloaded 0 true, .queried 0 true 100,
    .next 0 (some (bytes "master")), .next 0 (some (bytes "game1"))]

/-- The node `game2` registers meanwhile. -/
def secondNode : List Event :=
  [.sync (bytes "game2") (bytes "10.0.0.3") (bytes "2529"), .reloaded 1 true, .queried 1 true 100]

/-- The call of the walk, up to its answer. -/
def firstCall : List Event :=
  [.search 0 (.bound (some ⟨[bytes "syncClusterInfo"]⟩)), .complete 0, .reply 0]

theorem no_insertion_iff_firstCall : ∃ (tr : List (Item masterConf)) (s : State),
    (machine masterConf).Run tr s ∧ tr.map (·.ev) = firstNode ++ firstCall ∧
      (∃ i ∈ tr, Suspended i.pre) ∧ ∀ i ∈ tr, Suspended i.pre → ∀ n, ¬ Item.Inserts i n := by
  have h : ((machine masterConf).items (machine masterConf).init (firstNode ++ firstCall)).map
      (fun tr => decide (tr.map (·.ev) = firstNode ++ firstCall ∧ (∃ i ∈ tr, Suspended i.pre) ∧
        ∀ i ∈ tr, Suspended i.pre → i.ev ∈ firstCall)) = some true := by
    decide +kernel
  obtain ⟨tr, hrun, hP⟩ := Machine.exists_run h
  obtain ⟨hev, hs, hcall⟩ := of_decide_eq_true hP
  refine ⟨tr, _, hrun, hev, hs, (no_insertion_iff hrun).1.mpr fun i hi n ha hn hsus => ?_⟩
  obtain ⟨k, ip, port, now, hev, -⟩ := ha
  have := hcall i hi hsus
  simp [firstCall, hev] at this

/-- **`game2` is added to the table that the walk for `game1` is in.** -/
theorem insertion_during_walk : ∃ (tr : List (Item masterConf)) (s : State),
    (machine masterConf).Run tr s ∧ tr.map (·.ev) = firstNode ++ secondNode ∧
      ∃ i ∈ tr, Suspended i.pre ∧ Item.Inserts i (bytes "game2") := by
  have h : ((machine masterConf).items (machine masterConf).init (firstNode ++ secondNode)).map
      (fun tr => decide (tr.map (·.ev) = firstNode ++ secondNode ∧
        ∃ i ∈ tr, Suspended i.pre ∧ i.pre.clusterInfo.get (bytes "game2") = none ∧
          i.post.clusterInfo.get (bytes "game2") ≠ none)) = some true := by
    decide +kernel
  obtain ⟨tr, hrun, hP⟩ := Machine.exists_run h
  obtain ⟨hev, i, hi, hs, hins⟩ := of_decide_eq_true hP
  exact ⟨tr, _, hrun, hev, i, hi, hs, hins⟩

end LsServer.Monitor
