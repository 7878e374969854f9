import LsServer.Monitor.Traversal

/-!
# Agreement of the cluster maps

Every change of `clusterInfo` is followed by a walk that sends it to all nodes. `version` numbers
the changes, and a call carries the version that its map had when it was sent. A walk answers for
the current version if it started at it, or if it is going to start again (`Walk.Covers`). The
invariant is `Covered`: some walk answers for the current version, or every node has it.

Three things break it. `runTimeout` returns the message of an error in the place of the result, and
`not ret` does not tell it from a success (`Item.MistakesError`). A map has no stamp, so a node
takes an old one that arrives late (`Item.Overtaken`). And a walk that has deleted a node starts
again only behind `updateClusterConfig`, which may raise (`Item.GivesUp`).

Source: MonitorPublish.lua 11-29; Common.lua 51-56; MonitorSubscribe.lua 47-53.

* `Synced s n`: the last map that node `n` got is the current one, by its version.
* `Walk.Covers`: the walk started at the current version and goes on, or will start again; its
  current key is there; it is not at a `next` that raises.
* `Stamped` keeps the numbers in order: no map, no walk and no call has a version above the current
  one.
* The three conditions are on a step and the state before it: a call that raised and did not reach
  its node; a map that arrives where a later one is; a reload that raises in a broadcast that would
  run again.

A walk may be `disturbed` and then meet any keys, so a run that ends well has to bring the map to
every node all the same: the version has changed in that case, and another walk answers for it.

Results:
* `agreement`: without these three, all registered nodes have the map of the master whenever no
  coroutine of `sync` or `clusterHold` is left;
* `disagreement`: each of the three, in a run.
-/

namespace LsServer.Monitor

open LsServer.Lib LsServer.Lua LsServer.Cluster

/-- The walk goes on after a call that raised and did not reach the node. -/
def Item.MistakesError {c : Conf} (i : Item c) : Prop :=
  ∃ k caller w n q call, i.ev = .resume k ∧ i.pre.tasks.get k = some (.broadcasting caller w) ∧
    w.phase = .calling n q ∧ i.pre.calls.get q = some call ∧ call.result = some .raised ∧
      call.completed = false

/-- A map arrives at a node that already has a later one. -/
def Item.Overtaken {c : Conf} (i : Item c) : Prop :=
  ∃ q call p p', i.ev = .complete q ∧ i.pre.calls.get q = some call ∧ call.packed = some p ∧
    i.pre.nodes call.node = some p' ∧ p.1 < p'.1

/-- A broadcast that has deleted a node, and would run again, ends with an error. -/
def Item.GivesUp {c : Conf} (i : Item c) : Prop :=
  ∃ k caller w, i.ev = .reloaded k false ∧ i.pre.tasks.get k = some (.broadcasting caller w) ∧
    w.syncAgain = true

/-! ## What a step changes -/

/-- The table of `s'` is that of `s`, or it has a later version. -/
structure Wrote (s s' : State) : Prop where
  le : s.version ≤ s'.version
  inserted : s.insertedAt ≤ s.version → s'.insertedAt ≤ s'.version
  hosts : s'.version = s.version → hosts s'.clusterInfo = hosts s.clusterInfo

theorem Wrote.of_eq {s s' : State} (hv : s'.version = s.version)
    (hins : s'.insertedAt = s.insertedAt) (ht : s'.clusterInfo = s.clusterInfo) : Wrote s s' :=
  ⟨hv.ge, fun h => by rw [hv, hins]; exact h, fun _ => by rw [ht]⟩

theorem Wrote.setTask {s s' : State} (h : Wrote s s') (k : TaskId) (t : Task) :
    Wrote s (setTask s' k t) := ⟨h.le, h.inserted, h.hosts⟩

theorem wrote_store (s : State) (name : NodeName) (info : NodeInfo) :
    Wrote s (store s name info) := by
  refine ⟨Nat.le_succ _, fun h => ?_, fun h => absurd h (Nat.succ_ne_self _)⟩
  unfold store
  dsimp only
  split
  · exact le_rfl
  · exact h.trans (Nat.le_succ _)

theorem wrote_remove (s : State) (n : NodeName) : Wrote s (remove s n) := by
  unfold remove
  split
  · exact .of_eq rfl rfl rfl
  · exact ⟨Nat.le_succ _, fun h => h.trans (Nat.le_succ _),
      fun h => absurd h (Nat.succ_ne_self _)⟩

theorem Wrote.trans {s s₁ s₂ : State} (h₁ : Wrote s s₁) (h₂ : Wrote s₁ s₂) : Wrote s s₂ := by
  refine ⟨h₁.le.trans h₂.le, fun h => h₂.inserted (h₁.inserted h), fun h => ?_⟩
  have hv : s₁.version = s.version := le_antisymm (h ▸ h₂.le) h₁.le
  exact (h₂.hosts (h.trans hv.symm)).trans (h₁.hosts hv)

theorem wrote_foldl_remove (names : List NodeName) (s : State) :
    Wrote s (names.foldl remove s) := by
  induction names generalizing s with
  | nil => exact .of_eq rfl rfl rfl
  | cons name names ih => exact (wrote_remove s name).trans (ih _)

/-- A heartbeat moves no node. -/
theorem wrote_heartbeat (s : State) (name : NodeName) (now : Nat) :
    Wrote s (heartbeat s name now) := by
  unfold heartbeat
  split
  · exact .of_eq rfl rfl rfl
  · rename_i info hn
    refine ⟨le_rfl, id, fun _ => ?_⟩
    funext n
    unfold hosts
    rw [Table.get_set]
    split
    · rename_i hname
      rw [hname, hn]
      rfl
    · rfl

variable {c : Conf}

theorem Item.wrote (i : Item c) : Wrote i.pre i.post := by
  have hm := i.moved
  generalize i.ev = e, i.post = s', i.out = acts at hm
  cases hm with
  | alive => exact (wrote_store _ _ _).setTask _ _
  | @hold now =>
    have h := wrote_foldl_remove (expired c i.pre now)
      { i.pre with nextTask := i.pre.nextTask + 1 }
    exact ⟨h.le, h.inserted, h.hosts⟩
  | heartbeat => exact wrote_heartbeat _ _ _
  | visit =>
    unfold visit
    split <;> exact .of_eq rfl rfl rfl
  | search =>
    unfold searched
    split <;> exact .of_eq rfl rfl rfl
  | @resume k caller w n q call =>
    unfold afterCall
    split
    · exact (wrote_remove _ _).setTask _ _
    · exact .of_eq rfl rfl rfl
  | _ => exact .of_eq rfl rfl rfl

/-- What a step does to the call `q`. -/
inductive Phoned (c : Conf) (s s' : State) (e : Event) (q : CallId) :
    Option Call → Option Call → Prop
  | same (o : Option Call) : Phoned c s s' e q o o
  | made (o : Option Call) {k : TaskId} {n : NodeName} (he : e = .next k (some n))
    (hn : n ≠ c.thisNodeName) (hq : q = s.nextCall) (hs : s'.nextCall = s.nextCall + 1) :
    Phoned c s s' e q o (some ⟨n, none, false, none⟩)
  | packed {call : Call} (hp : call.packed = none) :
    Phoned c s s' e q (some call) (some { call with packed := some (s.version, s.clusterInfo) })
  | completed {call : Call} {p : Nat × ClusterInfo} (he : e = .complete q)
    (hp : call.packed = some p) :
    Phoned c s s' e q (some call) (some { call with completed := true })
  | ended {call : Call} {r : CallResult} (hr : r = .returned true → call.completed = true) :
    Phoned c s s' e q (some call) (some { call with result := some r })

/-- A step that writes the call `q'`. -/
theorem Phoned.set {s s' : State} {e : Event} {q' : CallId} {call : Call}
    (h : Phoned c s s' e q' (s.calls.get q') (some call)) (q : CallId) :
    Phoned c s s' e q (s.calls.get q) ((s.calls.set q' call).get q) := by
  rw [Table.get_set]
  split
  · rename_i hq
    rw [hq]
    exact h
  · exact .same _

@[simp] theorem remove_calls (s : State) (n : NodeName) : (remove s n).calls = s.calls := by
  unfold remove
  split <;> rfl

theorem Item.phoned (i : Item c) (q : CallId) :
    Phoned c i.pre i.post i.ev q (i.pre.calls.get q) (i.post.calls.get q) := by
  have hm := i.moved
  generalize i.ev = e, i.post = s', i.out = acts at hm
  cases hm with
  | hold =>
    obtain ⟨t, v, -, heq⟩ := foldl_remove_eq (expired c i.pre _)
      { i.pre with nextTask := i.pre.nextTask + 1 }
    rw [heq]
    exact .same _
  | heartbeat =>
    unfold heartbeat
    split <;> exact .same _
  | @visit k caller lost w n =>
    unfold visit
    split
    · exact .same _
    · rename_i hn
      exact Phoned.set (.made _ rfl hn rfl rfl) q
  | @search q' call r hr hq' hp =>
    unfold searched
    split
    · exact Phoned.set (hq' ▸ .ended (by simp)) q
    · exact Phoned.set (hq' ▸ .ended (by simp)) q
    · exact Phoned.set (hq' ▸ .packed hp) q
  | complete hr hq' hp => exact Phoned.set (hq' ▸ .completed rfl hp) q
  | reply hr hq' hc => exact Phoned.set (hq' ▸ .ended fun _ => hc) q
  | raise hr hq' => exact Phoned.set (hq' ▸ .ended (by simp)) q
  | resume =>
    unfold afterCall
    split
    · change Phoned _ _ _ _ _ _ ((remove _ _).calls.get q)
      rw [remove_calls]
      exact .same _
    · exact .same _
  | _ => exact .same _

/-- What a step does to the last map of the node `n`. -/
theorem Item.nodes_cases (i : Item c) (n : NodeName) : i.post.nodes n = i.pre.nodes n ∨
    ∃ q call p, i.ev = .complete q ∧ i.pre.calls.get q = some call ∧ call.packed = some p ∧
      call.node = n ∧ i.post.nodes n = some p := by
  have hm := i.moved
  generalize i.ev = e, i.post = s', i.out = acts at hm
  cases hm with
  | hold =>
    obtain ⟨t, v, -, heq⟩ := foldl_remove_eq (expired c i.pre _)
      { i.pre with nextTask := i.pre.nextTask + 1 }
    rw [heq]
    exact .inl rfl
  | heartbeat =>
    unfold heartbeat
    split <;> exact .inl rfl
  | visit =>
    unfold visit
    split <;> exact .inl rfl
  | search =>
    unfold searched
    split <;> exact .inl rfl
  | @complete q call p hr hq hp hc =>
    by_cases hn : n = call.node
    · exact .inr ⟨q, call, p, rfl, hq, hp, hn.symm, if_pos hn⟩
    · exact .inl (if_neg hn)
  | resume =>
    unfold afterCall remove
    split
    · split <;> exact .inl rfl
    · exact .inl rfl
  | _ => exact .inl rfl

/-- What a step leaves as the walk of task `k`. -/
inductive Walked (c : Conf) (s s' : State) (e : Event) (k : TaskId) (caller : Caller) : Walk → Prop
  | kept {w : Walk} (hk : s.tasks.get k = some (.broadcasting caller w)) :
    Walked c s s' e k caller w
  | fresh (hc : (∃ w, s.tasks.get k = some (.broadcasting caller w)) ∨
      ∀ n, caller = some n → s'.clusterInfo.get n ≠ none) :
    Walked c s s' e k caller ⟨[], s'.version, false, .next false⟩
  | met {w : Walk} {lost : Bool} (hk : s.tasks.get k = some (.broadcasting caller w))
    (hp : w.phase = .next lost) : Walked c s s' e k caller
      { w with visited := c.thisNodeName :: w.visited, phase := .next false }
  | called {w : Walk} {lost : Bool} {n : NodeName}
    (hk : s.tasks.get k = some (.broadcasting caller w)) (hp : w.phase = .next lost)
    (hq : s'.calls.get s.nextCall = some ⟨n, none, false, none⟩) : Walked c s s' e k caller
      { w with visited := n :: w.visited, phase := .calling n s.nextCall }
  | ended {w : Walk} {lost : Bool} (hk : s.tasks.get k = some (.broadcasting caller w))
    (hp : w.phase = .next lost) : Walked c s s' e k caller { w with phase := .reloading }
  | synced {w : Walk} {n : NodeName} {q : CallId} {call : Call} (he : e = .resume k)
    (hk : s.tasks.get k = some (.broadcasting caller w)) (hp : w.phase = .calling n q)
    (hq : s.calls.get q = some call) (hf : failed call.result = false) (lost : Bool) :
    Walked c s s' e k caller { w with phase := .next lost }
  | failed {w : Walk} {n : NodeName} {q : CallId}
    (hk : s.tasks.get k = some (.broadcasting caller w)) (hp : w.phase = .calling n q)
    (hn : s'.clusterInfo.get n = none) (lost : Bool) :
    Walked c s s' e k caller { w with syncAgain := true, phase := .next lost }

/-- A step that writes the task `k'`. -/
theorem Walked.set {s s' : State} {e : Event} {k' : TaskId} {t : Task}
    (h : ∀ caller w, t = .broadcasting caller w → Walked c s s' e k' caller w) {k : TaskId}
    {caller : Caller} {w : Walk} (hk : (s.tasks.set k' t).get k = some (.broadcasting caller w)) :
    Walked c s s' e k caller w := by
  rw [Table.get_set] at hk
  split at hk
  · rename_i hkk
    rw [hkk]
    exact h caller w (Option.some.inj hk)
  · exact .kept hk

@[simp] theorem remove_tasks (s : State) (n : NodeName) : (remove s n).tasks = s.tasks := by
  unfold remove
  split <;> rfl

theorem Item.walked (i : Item c) {k : TaskId} {caller : Caller} {w : Walk}
    (hk : i.post.tasks.get k = some (.broadcasting caller w)) :
    Walked c i.pre i.post i.ev k caller w := by
  have hm := i.moved
  generalize i.ev = e, i.post = s', i.out = acts at hm hk
  cases hm with
  | sync | query | dead => exact Walked.set (by simp) hk
  | refused | done | reloadRaises | raises => exact .kept (Table.get_of_get_del hk).2
  | again _ hk' =>
    refine Walked.set (fun _ _ h => ?_) hk
    obtain ⟨rfl, rfl⟩ := Task.broadcasting.inj h
    exact .fresh (.inl ⟨_, hk'⟩)
  | alive =>
    refine Walked.set (fun _ _ h => ?_) hk
    obtain ⟨rfl, rfl⟩ := Task.broadcasting.inj h
    refine .fresh (.inr fun n hn => ?_)
    obtain rfl := Option.some.inj hn
    simp [store]
  | hold =>
    obtain ⟨t, v, -, heq⟩ := foldl_remove_eq (expired c i.pre _)
      { i.pre with nextTask := i.pre.nextTask + 1 }
    rw [heq] at hk ⊢
    refine Walked.set (fun _ _ h => ?_) hk
    obtain ⟨rfl, rfl⟩ := Task.broadcasting.inj h
    exact .fresh (.inr (by simp))
  | heartbeat =>
    unfold heartbeat at hk
    split at hk <;> exact .kept hk
  | @visit k' caller' lost w' n hr hk' hp =>
    unfold visit at hk ⊢
    split at hk
    · rename_i hn
      subst hn
      rw [if_pos rfl]
      refine Walked.set (fun _ _ h => ?_) hk
      obtain ⟨rfl, rfl⟩ := Task.broadcasting.inj h
      exact .met hk' hp
    · rename_i hn
      rw [if_neg hn]
      refine Walked.set (fun _ _ h => ?_) hk
      obtain ⟨rfl, rfl⟩ := Task.broadcasting.inj h
      exact .called hk' hp (Table.get_set_self _ _ _)
  | loopEnd hr hk' hp =>
    refine Walked.set (fun _ _ h => ?_) hk
    obtain ⟨rfl, rfl⟩ := Task.broadcasting.inj h
    exact .ended hk' hp
  | search =>
    unfold searched at hk
    split at hk <;> exact .kept hk
  | @resume k' caller' w' n q call hr hk' hp hq =>
    unfold afterCall at hk ⊢
    split at hk
    · rename_i hf
      rw [if_pos hf]
      change ((remove _ _).tasks.set _ _).get k = _ at hk
      rw [remove_tasks] at hk
      refine Walked.set (fun _ _ h => ?_) hk
      obtain ⟨rfl, rfl⟩ := Task.broadcasting.inj h
      refine .failed hk' hp ?_ _
      rw [setTask_clusterInfo, remove_get, if_pos rfl]
    · rename_i hf
      refine Walked.set (fun _ _ h => ?_) hk
      obtain ⟨rfl, rfl⟩ := Task.broadcasting.inj h
      exact .synced rfl hk' hp hq (by simpa using hf) _
  | _ => exact .kept hk

/-! ## The maps in flight -/

/-- A map with its version: a version is the version of one map. -/
def Packed (s : State) (p : Nat × ClusterInfo) : Prop :=
  p.1 ≤ s.version ∧ (p.1 = s.version → hosts p.2 = hosts s.clusterInfo)

theorem Packed.wrote {s s' : State} {p : Nat × ClusterInfo} (h : Packed s p) (hw : Wrote s s') :
    Packed s' p := by
  refine ⟨h.1.trans hw.le, fun hp => ?_⟩
  have hv : s'.version = s.version := le_antisymm (hp ▸ h.1) hw.le
  rw [hw.hosts hv]
  exact h.2 (hp.trans hv)

/-- The versions of the maps, the numbers of the calls, and the call of a walk. -/
structure Stamped (s : State) : Prop where
  inserted : s.insertedAt ≤ s.version
  fresh : ∀ q call, s.calls.get q = some call → q < s.nextCall
  packed : ∀ q call p, s.calls.get q = some call → call.packed = some p → Packed s p
  nodes : ∀ n p, s.nodes n = some p → Packed s p
  walks : ∀ k caller w, s.tasks.get k = some (.broadcasting caller w) → w.start ≤ s.version
  calling : ∀ k caller w n q, s.tasks.get k = some (.broadcasting caller w) →
    w.phase = .calling n q → ∃ call, s.calls.get q = some call ∧ call.node = n ∧
      ∀ p, call.packed = some p → w.start ≤ p.1

theorem remove_nextCall (s : State) (n : NodeName) : (remove s n).nextCall = s.nextCall := by
  unfold remove
  split <;> rfl

theorem Item.nextCall_le (i : Item c) : i.pre.nextCall ≤ i.post.nextCall := by
  have hm := i.moved
  generalize i.ev = e, i.post = s', i.out = acts at hm
  cases hm with
  | hold =>
    obtain ⟨t, v, -, heq⟩ := foldl_remove_eq (expired c i.pre _)
      { i.pre with nextTask := i.pre.nextTask + 1 }
    rw [heq]
    exact le_rfl
  | heartbeat =>
    unfold heartbeat
    split <;> exact le_rfl
  | visit =>
    unfold visit
    split
    · exact le_rfl
    · exact Nat.le_succ _
  | search =>
    unfold searched
    split <;> exact le_rfl
  | resume =>
    unfold afterCall
    split
    · exact (remove_nextCall _ _).ge
    · exact le_rfl
  | _ => exact le_rfl

theorem Item.stamped (i : Item c) (h : Stamped i.pre) : Stamped i.post := by
  have hw := i.wrote
  refine ⟨hw.inserted h.inserted, fun q call hq => ?_, fun q call p hq hp => ?_, fun n p hn => ?_,
    fun k caller w hk => ?_, fun k caller w n q hk hp => ?_⟩
  · have hph := i.phoned q
    have hle := i.nextCall_le
    generalize ho : i.pre.calls.get q = o at hph
    rw [hq] at hph
    cases hph with
    | same => exact (h.fresh q _ ho).trans_le hle
    | made _ _ _ hq' hs =>
      rw [hq', hs]
      exact Nat.lt_succ_self _
    | packed | completed | ended => exact (h.fresh q _ ho).trans_le hle
  · have hph := i.phoned q
    generalize ho : i.pre.calls.get q = o at hph
    rw [hq] at hph
    cases hph with
    | same => exact (h.packed q _ p ho hp).wrote hw
    | made => exact absurd hp (by simp)
    | packed =>
      obtain rfl := Option.some.inj hp
      exact Packed.wrote ⟨le_rfl, fun _ => rfl⟩ hw
    | completed | ended => exact (h.packed q _ p ho hp).wrote hw
  · rcases i.nodes_cases n with hn' | ⟨q, call, p', -, hq, hp, -, hn'⟩
    · exact (h.nodes n p (hn' ▸ hn)).wrote hw
    · obtain rfl := Option.some.inj (hn.symm.trans hn')
      exact (h.packed q call p hq hp).wrote hw
  · cases i.walked hk with
    | kept hk' => exact (h.walks k caller _ hk').trans hw.le
    | fresh => exact le_rfl
    | met hk' | called hk' | ended hk' | synced _ hk' | failed hk' =>
      exact (h.walks k caller _ hk').trans hw.le
  · -- a walk and its call
    have hwalk := i.walked hk
    cases hwalk with
    | kept hk' =>
      obtain ⟨call, hq, hnode, hle⟩ := h.calling k caller w n q hk' hp
      have hph := i.phoned q
      rw [hq] at hph
      generalize i.post.calls.get q = o at hph
      cases hph with
      | same => exact ⟨call, rfl, hnode, hle⟩
      | made _ _ _ hq' => exact absurd (h.fresh q call hq) (by rw [hq']; exact lt_irrefl _)
      | packed =>
        refine ⟨_, rfl, hnode, fun p hp' => ?_⟩
        obtain rfl := Option.some.inj hp'
        exact h.walks k caller w hk'
      | completed | ended => exact ⟨_, rfl, hnode, hle⟩
    | called hk' hp' hq =>
      obtain ⟨rfl, rfl⟩ := WalkPhase.calling.inj hp
      exact ⟨_, hq, rfl, by simp⟩
    | fresh | met | ended | synced | failed => exact absurd hp (by simp)

theorem Run.stamped {tr : List (Item c)} {s : State} (h : (machine c).Run tr s) : Stamped s := by
  refine Machine.Run.invariant ?_ (fun i => Item.stamped i) h
  constructor <;> simp [machine, State.init]

/-! ## The nodes that have the map -/

/-- The last map of the node has the current version. -/
def Synced (s : State) (n : NodeName) : Prop := ∃ p, s.nodes n = some p ∧ p.1 = s.version

/-- What holds of the calls and of the walks that started at the current version, while no error
is mistaken and no map overtaken. -/
structure Sent (c : Conf) (s : State) : Prop where
  completed : ∀ q call, s.calls.get q = some call → call.completed = true →
    ∃ p p', call.packed = some p ∧ s.nodes call.node = some p' ∧ p.1 ≤ p'.1
  replied : ∀ q call, s.calls.get q = some call → call.result = some (.returned true) →
    call.completed = true
  visited : ∀ k caller w, s.tasks.get k = some (.broadcasting caller w) → w.start = s.version →
    w.phase ≠ .reloading → ∀ n ∈ w.visited, n ≠ c.thisNodeName → s.clusterInfo.get n ≠ none →
      Synced s n ∨ ∃ q, w.phase = .calling n q

/-- The map at a node gets no older. -/
theorem Item.nodes_mono (i : Item c) (ho : ¬ i.Overtaken) {n : NodeName} {p : Nat × ClusterInfo}
    (h : i.pre.nodes n = some p) : ∃ p', i.post.nodes n = some p' ∧ p.1 ≤ p'.1 := by
  rcases i.nodes_cases n with hn | ⟨q, call, p', hev, hq, hp, rfl, hn⟩
  · exact ⟨p, hn.trans h, le_rfl⟩
  · refine ⟨p', hn, not_lt.mp fun hlt => ho ⟨q, call, p', p, hev, hq, hp, h, hlt⟩⟩

theorem Item.synced_mono (i : Item c) (hs : Stamped i.post) (ho : ¬ i.Overtaken)
    (hv : i.post.version = i.pre.version) {n : NodeName} (h : Synced i.pre n) :
    Synced i.post n := by
  obtain ⟨p, hp, hpv⟩ := h
  obtain ⟨p', hp', hle⟩ := i.nodes_mono ho hp
  exact ⟨p', hp', le_antisymm (hs.nodes n p' hp').1 (hv.trans hpv.symm ▸ hle)⟩

theorem hosts_eq_none {t : ClusterInfo} {n : NodeName} : hosts t n = none ↔ t.get n = none :=
  Option.map_eq_none_iff

/-- The same version has the same nodes. -/
theorem Item.present_iff (i : Item c) (hv : i.post.version = i.pre.version) (n : NodeName) :
    i.post.clusterInfo.get n ≠ none ↔ i.pre.clusterInfo.get n ≠ none := by
  refine not_congr ?_
  rw [← hosts_eq_none, ← hosts_eq_none, i.wrote.hosts hv]

/-- A call that is not taken for a failure. -/
theorem failed_eq_false {r : Option CallResult} :
    failed r = false ↔ r = some (.returned true) ∨ r = some .raised := by
  rcases r with _ | ⟨_ | _⟩ | _ <;> simp [failed, runTimeout]

theorem Item.sent (i : Item c) (hst : Stamped i.pre) (h : Sent c i.pre)
    (he : ¬ i.MistakesError) (ho : ¬ i.Overtaken) : Sent c i.post := by
  have hst' := i.stamped hst
  refine ⟨fun q call hq hc => ?_, fun q call hq hr => ?_,
    fun k caller w hk hstart hne n hn hthis hpres => ?_⟩
  · -- a completed call
    have hph := i.phoned q
    generalize hpre : i.pre.calls.get q = o at hph
    rw [hq] at hph
    have hkept : ∀ {call' : Call}, i.pre.calls.get q = some call' → call'.completed = true →
        ∃ p p', call'.packed = some p ∧ i.post.nodes call'.node = some p' ∧ p.1 ≤ p'.1 := by
      intro call' hq' hc'
      obtain ⟨p, p', hp, hp', hle⟩ := h.completed q call' hq' hc'
      obtain ⟨p₂, hp₂, hle₂⟩ := i.nodes_mono ho hp'
      exact ⟨p, p₂, hp, hp₂, hle.trans hle₂⟩
    cases hph with
    | same => exact hkept hpre hc
    | made => exact absurd hc (by simp)
    | packed hp =>
      obtain ⟨p, -, hp', -⟩ := hkept hpre hc
      exact absurd (hp.symm.trans hp') (by simp)
    | @completed call' p hev hp =>
      have hm := i.moved
      rw [hev] at hm
      refine ⟨p, p, hp, ?_, le_rfl⟩
      generalize i.post = s', i.out = acts at hm
      cases hm with
      | complete _ hq' hp' =>
        obtain rfl := Option.some.inj (hpre.symm.trans hq')
        obtain rfl := Option.some.inj (hp.symm.trans hp')
        exact if_pos rfl
    | ended =>
      have hk := hkept hpre hc
      exact hk
  · -- an answer
    have hph := i.phoned q
    generalize hpre : i.pre.calls.get q = o at hph
    rw [hq] at hph
    cases hph with
    | same => exact h.replied q call hpre hr
    | made => exact absurd hr (by simp)
    | packed =>
      have hc := h.replied q _ hpre hr
      exact hc
    | completed => rfl
    | ended hr' => exact hr' (Option.some.inj hr)
  · -- the nodes that a walk has met
    have hold : ∀ w', i.pre.tasks.get k = some (.broadcasting caller w') → w'.start = w.start →
        w'.phase ≠ .reloading → n ∈ w'.visited →
        Synced i.post n ∨ ∃ q, w'.phase = .calling n q := by
      intro w' hk' hstart' hne' hn'
      have hv : i.post.version = i.pre.version :=
        le_antisymm (hstart ▸ hstart' ▸ hst.walks k caller w' hk') i.wrote.le
      refine (h.visited k caller w' hk' (hstart'.trans (hstart.trans hv)) hne' n hn' hthis
        ((i.present_iff hv n).mp hpres)).imp_left (i.synced_mono hst' ho hv)
    cases i.walked hk with
    | kept hk' => exact hold w hk' rfl hne hn
    | fresh => exact absurd hn (by simp)
    | met hk' hp =>
      rcases List.mem_cons.mp hn with rfl | hn
      · exact absurd rfl hthis
      · exact (hold _ hk' rfl (by simp [hp]) hn).imp_right fun ⟨q, hq⟩ => by simp [hp] at hq
    | called hk' hp =>
      rcases List.mem_cons.mp hn with rfl | hn
      · exact .inr ⟨_, rfl⟩
      · exact .inl ((hold _ hk' rfl (by simp [hp]) hn).resolve_right fun ⟨q, hq⟩ => by
          simp [hp] at hq)
    | ended => exact absurd rfl hne
    | @synced w' m q call hev hk' hp hq hf lost =>
      rcases hold w' hk' rfl (by simp [hp]) hn with hsyn | ⟨q', hq'⟩
      · exact .inl hsyn
      · obtain ⟨rfl, rfl⟩ := WalkPhase.calling.inj (hp.symm.trans hq')
        have hv : i.post.version = i.pre.version :=
          le_antisymm (hstart ▸ hst.walks k caller w' hk') i.wrote.le
        -- the call was answered, or raised after it had reached the node
        have hc : call.completed = true := by
          rcases failed_eq_false.mp hf with hr | hr
          · exact h.replied q call hq hr
          · by_contra hc
            exact he ⟨k, caller, w', m, q, call, hev, hk', hp, hq, hr, by simpa using hc⟩
        obtain ⟨call', hq'', hnode, hle⟩ := hst.calling k caller w' m q hk' hp
        obtain rfl := Option.some.inj (hq.symm.trans hq'')
        obtain ⟨p, p', hpk, hp', hpp⟩ := h.completed q call hq hc
        rw [hnode] at hp'
        refine .inl (i.synced_mono hst' ho hv ⟨p', hp', ?_⟩)
        exact le_antisymm (hst.nodes m p' hp').1
          ((hv.symm.trans hstart.symm ▸ hle p hpk).trans hpp)
    | @failed w' m q hk' hp hm lost =>
      rcases hold w' hk' rfl (by simp [hp]) hn with hsyn | ⟨q', hq'⟩
      · exact .inl hsyn
      · obtain ⟨rfl, rfl⟩ := WalkPhase.calling.inj (hp.symm.trans hq')
        exact absurd hm hpres

/-! ## The walk that answers for the version -/

/-- The walk will bring the current version to every node: it started at it or starts again, and
no other coroutine has deleted its current key. -/
structure Walk.Covers (s : State) (w : Walk) : Prop where
  current : w.syncAgain = true ∨ w.start = s.version ∧ w.phase ≠ .reloading
  present : ∀ n q, w.phase = .calling n q → s.clusterInfo.get n ≠ none
  found : w.phase ≠ .next true

/-- A task with such a walk. -/
def Covering (s : State) : Prop :=
  ∃ k caller w, s.tasks.get k = some (.broadcasting caller w) ∧ w.Covers s

/-- Every registered node has the current version. -/
def AllSynced (c : Conf) (s : State) : Prop :=
  ∀ n, n ≠ c.thisNodeName → s.clusterInfo.get n ≠ none → Synced s n

/-- **The invariant of the broadcasts.** -/
def Covered (c : Conf) (s : State) : Prop := AllSynced c s ∨ Covering s

theorem covers_fresh (s : State) : Walk.Covers s ⟨[], s.version, false, .next false⟩ :=
  ⟨.inr ⟨rfl, by simp⟩, by simp, by simp⟩

/-- The walk that a task starts. -/
theorem covering_broadcast (s : State) (k : TaskId) (caller : Caller) :
    Covering (broadcastClusterInfo s k caller) :=
  ⟨k, caller, _, Table.get_set_self _ _ _, covers_fresh _⟩

/-- A walk that covers goes on to a node. -/
theorem Walk.Covers.visit {s : State} {w : Walk} (hc : w.Covers s) {n : NodeName}
    (hv : canVisit s w n = true) (k : TaskId) (caller : Caller) :
    Covering (visit c s k caller w n) := by
  have hn : s.clusterInfo.get n ≠ none := by
    simp only [canVisit, Bool.and_eq_true] at hv
    exact Option.isSome_iff_ne_none.mp hv.1
  unfold Monitor.visit
  split
  · exact ⟨k, caller, _, Table.get_set_self _ _ _,
      ⟨hc.current.imp_right fun h => ⟨h.1, by simp⟩, by simp, by simp⟩⟩
  · refine ⟨k, caller, _, Table.get_set_self _ _ _,
      ⟨hc.current.imp_right fun h => ⟨h.1, by simp⟩, fun m q hm => ?_, by simp⟩⟩
    obtain ⟨rfl, -⟩ := WalkPhase.calling.inj hm
    exact hn

/-- A walk of the current version that can end has met every node. -/
theorem mem_visited_of_canEnd {s : State} {w : Walk} (hst : Stamped s)
    (hstart : w.start = s.version) (hend : canEnd s w = true) {n : NodeName}
    (hn : s.clusterInfo.get n ≠ none) : n ∈ w.visited := by
  have hcalm : disturbed s w = false := by
    unfold disturbed
    rw [hstart]
    exact decide_eq_false (not_lt.mpr hst.inserted)
  obtain ⟨info, hinfo⟩ := Option.ne_none_iff_exists'.mp hn
  simp only [canEnd, hcalm, Bool.false_or, List.all_eq_true, decide_eq_true_eq] at hend
  exact hend _ (Table.mem_entries.mpr hinfo)

/-- The coroutines keep their numbers. -/
def Numbered (s : State) : Prop := ∀ k t, s.tasks.get k = some t → k < s.nextTask

theorem Numbered.setTask {s s₁ : State} (h : Numbered s) (htasks : s₁.tasks = s.tasks)
    (hle : s.nextTask ≤ s₁.nextTask) {k : TaskId} (hk : k < s₁.nextTask) (t : Task) :
    Numbered (setTask s₁ k t) := by
  intro q t' hq
  simp only [Monitor.setTask, htasks, Table.get_set] at hq
  split at hq
  · rename_i hqk
    rw [hqk]
    exact hk
  · exact (h q t' hq).trans_le hle

theorem Numbered.of_get {s s' : State} (h : Numbered s)
    (htasks : ∀ k t, s'.tasks.get k = some t → s.tasks.get k = some t)
    (hle : s.nextTask ≤ s'.nextTask) : Numbered s' := fun k t hk =>
  (h k t (htasks k t hk)).trans_le hle

theorem Item.numbered (i : Item c) (h : Numbered i.pre) : Numbered i.post := by
  have hm := i.moved
  generalize i.ev = e, i.post = s', i.out = acts at hm
  cases hm with
  | syncFails => exact h.of_get (fun _ _ hk => hk) (Nat.le_succ _)
  | sync =>
    refine h.setTask ?_ ?_ ?_ _
    · rfl
    · exact Nat.le_succ _
    · exact Nat.lt_succ_self _
  | query _ hk | again _ hk | alive _ hk | dead _ hk | loopEnd _ hk =>
    exact h.setTask rfl le_rfl (h _ _ hk) _
  | refused | done | reloadRaises | raises =>
    exact h.of_get (fun _ _ hk => (Table.get_of_get_del hk).2) le_rfl
  | healthy => exact h
  | hold =>
    obtain ⟨t, v, -, heq⟩ := foldl_remove_eq (expired c i.pre _)
      { i.pre with nextTask := i.pre.nextTask + 1 }
    rw [heq]
    refine h.setTask ?_ ?_ ?_ _
    · rfl
    · exact Nat.le_succ _
    · exact Nat.lt_succ_self _
  | heartbeat =>
    unfold heartbeat
    split <;> exact h.of_get (fun _ _ hk => hk) le_rfl
  | visit _ hk =>
    unfold visit
    split <;> exact h.setTask rfl le_rfl (h _ _ hk) _
  | search =>
    unfold searched
    split <;> exact h.of_get (fun _ _ hk => hk) le_rfl
  | complete | reply | raise => exact h.of_get (fun _ _ hk => hk) le_rfl
  | resume _ hk =>
    unfold afterCall remove
    split
    · split <;> exact h.setTask rfl le_rfl (h _ _ hk) _
    · exact h.setTask rfl le_rfl (h _ _ hk) _

theorem Item.covered (i : Item c) (hnum : Numbered i.pre) (hst : Stamped i.pre)
    (hsent : Sent c i.pre) (h : Covered c i.pre) (ho : ¬ i.Overtaken) (hg : ¬ i.GivesUp) :
    Covered c i.post := by
  have hst' := i.stamped hst
  -- a step that changes no node, if the walks that cover still do
  have hkeep : i.post.version = i.pre.version →
      (∀ k caller w, i.pre.tasks.get k = some (.broadcasting caller w) → w.Covers i.pre →
        Covered c i.post) → Covered c i.post := by
    intro hv hwalks
    rcases h with hall | ⟨k, caller, w, hk, hc⟩
    · refine .inl fun n hn hpres => ?_
      exact i.synced_mono hst' ho hv (hall n hn ((i.present_iff hv n).mp hpres))
    · exact hwalks k caller w hk hc
  -- a walk that the step leaves alone
  have hsame : i.post.version = i.pre.version → ∀ k caller w, w.Covers i.pre →
      i.post.tasks.get k = some (.broadcasting caller w) → Covered c i.post := by
    intro hv k caller w hc hk
    refine .inr ⟨k, caller, w, hk, ⟨hv ▸ hc.current, fun n q hp => ?_, hc.found⟩⟩
    exact (i.present_iff hv n).mpr (hc.present n q hp)
  have hm := i.moved
  unfold Item.GivesUp at hg
  generalize i.ev = e, i.post = s', i.out = acts at hm hkeep hsame hg
  cases hm with
  | syncFails | complete | reply | raise =>
    exact hkeep rfl fun k caller w hk hc => hsame rfl k caller w hc hk
  | healthy => exact h
  | sync =>
    refine hkeep rfl fun k caller w hk hc => hsame rfl k caller w hc ?_
    exact (Table.get_set_ne (hnum k _ hk).ne).trans hk
  | query _ hk' | dead _ hk' =>
    refine hkeep rfl fun k caller w hk hc => hsame rfl k caller w hc ?_
    refine (Table.get_set_ne ?_).trans hk
    rintro rfl
    exact absurd (hk.symm.trans hk') (by simp)
  | refused _ hk' =>
    refine hkeep rfl fun k caller w hk hc => hsame rfl k caller w hc ?_
    refine (Table.get_del_ne ?_).trans hk
    rintro rfl
    exact absurd (hk.symm.trans hk') (by simp)
  | again => exact .inr (covering_broadcast _ _ _)
  | alive => exact .inr (covering_broadcast _ _ _)
  | hold => exact .inr (covering_broadcast _ _ _)
  | done _ hk' hp ha =>
    -- a walk that covers in `cluster.reload` starts again
    refine hkeep rfl fun k caller w hk hc => hsame rfl k caller w hc ?_
    refine (Table.get_del_ne ?_).trans hk
    rintro rfl
    obtain ⟨-, rfl⟩ := Task.broadcasting.inj (Option.some.inj (hk.symm.trans hk'))
    rcases hc.current with hagain | ⟨-, hne⟩
    · exact absurd (ha.symm.trans hagain) (by simp)
    · exact hne hp
  | @reloadRaises k' t _ hk' ht =>
    refine hkeep rfl fun k caller w hk hc => hsame rfl k caller w hc ?_
    refine (Table.get_del_ne ?_).trans hk
    rintro rfl
    obtain rfl := Option.some.inj (hk.symm.trans hk')
    -- in `cluster.reload` it only covers if it would run again
    rcases hc.current with hagain | ⟨-, hne⟩
    · exact hg ⟨k, caller, w, rfl, hk, hagain⟩
    · exact hne (of_decide_eq_true ht)
  | raises _ hk' hp =>
    refine hkeep rfl fun k caller w hk hc => hsame rfl k caller w hc ?_
    refine (Table.get_del_ne ?_).trans hk
    rintro rfl
    obtain ⟨-, rfl⟩ := Task.broadcasting.inj (Option.some.inj (hk.symm.trans hk'))
    exact hc.found hp
  | @heartbeat name now =>
    have hv : (heartbeat i.pre name now).version = i.pre.version := by
      unfold heartbeat
      split <;> rfl
    refine hkeep hv fun k caller w hk hc => hsame hv k caller w hc ?_
    unfold heartbeat
    split <;> exact hk
  | @search q call r =>
    have hv : (searched i.pre q call r).version = i.pre.version := by
      unfold searched
      split <;> rfl
    refine hkeep hv fun k caller w hk hc => hsame hv k caller w hc ?_
    unfold searched
    split <;> exact hk
  | @visit k' caller' lost w' n _ hk' hp hvis =>
    have hv : (visit c i.pre k' caller' w' n).version = i.pre.version := by
      unfold visit
      split <;> rfl
    refine hkeep hv fun k caller w hk hc => ?_
    by_cases hkk : k = k'
    · subst hkk
      obtain ⟨rfl, rfl⟩ := Task.broadcasting.inj (Option.some.inj (hk.symm.trans hk'))
      exact .inr (hc.visit hvis k caller)
    · refine hsame hv k caller w hc ?_
      unfold visit
      split <;> exact (Table.get_set_ne hkk).trans hk
  | @loopEnd k' caller' lost w' _ hk' hp hend =>
    refine hkeep rfl fun k caller w hk hc => ?_
    by_cases hkk : k = k'
    · subst hkk
      obtain ⟨rfl, rfl⟩ := Task.broadcasting.inj (Option.some.inj (hk.symm.trans hk'))
      rcases hc.current with hagain | ⟨hstart, -⟩
      · exact .inr ⟨k, caller, _, Table.get_set_self _ _ _, ⟨.inl hagain, by simp, by simp⟩⟩
      · -- the walk has met every node
        refine .inl fun n hn hpres => ?_
        have hvisited := mem_visited_of_canEnd hst hstart hend hpres
        refine (hsent.visited k caller w hk hstart (by simp [hp]) n hvisited hn hpres).resolve_right
          fun hcalling => ?_
        obtain ⟨q, hq⟩ := hcalling
        exact absurd (hp.symm.trans hq) (by simp)
    · exact hsame rfl k caller w hc ((Table.get_set_ne hkk).trans hk)
  | @resume k' caller' w' n q call _ hk' hp hq =>
    unfold afterCall at hkeep hsame ⊢
    by_cases hf : failed call.result = true
    · simp only [if_pos hf] at hkeep hsame ⊢
      by_cases hn : i.pre.clusterInfo.get n = none
      · have hrem : remove i.pre n = i.pre := by
          unfold remove
          rw [if_pos hn]
        rw [hrem] at hkeep hsame ⊢
        refine hkeep rfl fun k caller w hk hc => hsame rfl k caller w hc ?_
        refine (Table.get_set_ne ?_).trans hk
        rintro rfl
        obtain ⟨-, rfl⟩ := Task.broadcasting.inj (Option.some.inj (hk.symm.trans hk'))
        exact hc.present n q hp hn
      · -- the walk that deletes the node starts again
        refine .inr ⟨k', caller', _, Table.get_set_self _ _ _, ⟨.inl rfl, by simp, ?_⟩⟩
        simpa using hn
    · simp only [if_neg hf] at hkeep hsame ⊢
      refine hkeep rfl fun k caller w hk hc => ?_
      by_cases hkk : k = k'
      · subst hkk
        obtain ⟨rfl, rfl⟩ := Task.broadcasting.inj (Option.some.inj (hk.symm.trans hk'))
        refine .inr ⟨k, caller, _, Table.get_set_self _ _ _,
          ⟨hc.current.imp_right fun h => ⟨h.1, by simp⟩, by simp, ?_⟩⟩
        simpa using hc.present n q hp
      · exact hsame rfl k caller w hc ((Table.get_set_ne hkk).trans hk)

/-! ## Runs -/

/-- **Agreement.** In a run in which no error is mistaken for a success, no map is overtaken and no
broadcast gives up, every registered node has the map of the master when no coroutine is left. -/
theorem agreement {tr : List (Item c)} {s : State} (h : (machine c).Run tr s)
    (herr : ∀ i ∈ tr, ¬ Item.MistakesError i) (hover : ∀ i ∈ tr, ¬ Item.Overtaken i)
    (hgives : ∀ i ∈ tr, ¬ Item.GivesUp i) (hidle : ∀ k, s.tasks.get k = none) :
    ∀ n, n ≠ c.thisNodeName → s.clusterInfo.get n ≠ none →
      ∃ v info, s.nodes n = some (v, info) ∧ hosts info = hosts s.clusterInfo := by
  have hinv : Numbered s ∧ Stamped s ∧ Sent c s ∧ Covered c s := by
    refine Machine.Path.keeps (I := fun s => Numbered s ∧ Stamped s ∧ Sent c s ∧ Covered c s) h
      ⟨?_, ?_, ?_, ?_⟩ ?_
    · intro k t hk
      simp [machine, State.init] at hk
    · constructor <;> simp [machine, State.init]
    · constructor <;> simp [machine, State.init]
    · refine .inl fun n hn hpres => absurd ?_ hpres
      exact (Table.get_set_ne hn).trans (Table.get_empty n)
    · rintro i hi ⟨hnum, hst, hsent, hcov⟩
      exact ⟨Item.numbered i hnum, Item.stamped i hst,
        Item.sent i hst hsent (herr i hi) (hover i hi),
        Item.covered i hnum hst hsent hcov (hover i hi) (hgives i hi)⟩
  obtain ⟨-, hst, -, hcov⟩ := hinv
  intro n hn hpres
  rcases hcov with hall | ⟨k, caller, w, hk, -⟩
  · obtain ⟨⟨v, info⟩, hinfo, hv⟩ := hall n hn hpres
    exact ⟨v, info, hinfo, (hst.nodes n _ hinfo).2 hv⟩
  · exact absurd (hidle k) (by simp [hk])

/-- No task is left. -/
theorem tasks_get_of_entries {s : State} (h : s.tasks.entries = []) (k : TaskId) :
    s.tasks.get k = none := by
  by_contra hk
  obtain ⟨t, ht⟩ := Option.ne_none_iff_exists'.mp hk
  have hmem := Table.mem_entries.mpr ht
  rw [h] at hmem
  exact absurd hmem (by simp)

/-- The end of a walk, and of its `sync`. -/
def lastRound (k : TaskId) : List Event := [.resume k, .next k none, .reloaded k true]

/-- A walk that meets the master only. -/
def emptyRound (k : TaskId) : List Event :=
  [.next k (some (bytes "master")), .next k none, .reloaded k true]

/-- The node `game1` registers, and its call is answered. -/
def registration : List Event := firstNode ++ firstCall ++ lastRound 0

theorem agreement_registration : ∃ (tr : List (Item masterConf)) (s : State),
    (machine masterConf).Run tr s ∧ tr.map (·.ev) = registration ∧
      (∀ k, s.tasks.get k = none) ∧ s.clusterInfo.get (bytes "game1") ≠ none ∧
      ∃ v info, s.nodes (bytes "game1") = some (v, info) ∧ hosts info = hosts s.clusterInfo := by
  have h : ((machine masterConf).items (machine masterConf).init registration).map (fun tr =>
      let s := Machine.last (machine masterConf).init tr
      decide (tr.map (·.ev) = registration ∧ s.tasks.entries = [] ∧
        s.clusterInfo.get (bytes "game1") ≠ none ∧ ∀ i ∈ tr, ∀ e ∈ i.pre.calls.entries,
          e.2.result ≠ some .raised ∧
          (i.ev = .complete e.1 → (i.pre.nodes e.2.node).isNone))) = some true := by
    decide +kernel
  obtain ⟨tr, hrun, hP⟩ := Machine.exists_run h
  obtain ⟨hev, htasks, hpres, hcalls⟩ := of_decide_eq_true hP
  have hok : ∀ i ∈ tr, ∀ k, i.ev ≠ .reloaded k false := by
    intro i hi k he
    have hmem := List.mem_map_of_mem (f := (·.ev)) hi
    rw [hev, he] at hmem
    simp [registration, firstNode, firstCall, lastRound] at hmem
  have hidle := tasks_get_of_entries htasks
  refine ⟨tr, _, hrun, hev, hidle, hpres,
    agreement hrun (fun i hi he => ?_) (fun i hi ho => ?_) (fun i hi hg => ?_) hidle _ (by decide)
      hpres⟩
  · obtain ⟨k, caller, w, n, q, call, -, -, -, hq, hr, -⟩ := he
    exact (hcalls i hi _ (Table.mem_entries.mpr hq)).1 hr
  · obtain ⟨q, call, p, p', hc, hq, -, hp, -⟩ := ho
    have hnone := (hcalls i hi _ (Table.mem_entries.mpr hq)).2 hc
    rw [hp] at hnone
    exact absurd hnone (by simp)
  · obtain ⟨k, -, -, he, -⟩ := hg
    exact hok i hi k he

/-- The call of the walk raises on its way to the node. -/
def raisedCall : List Event :=
  firstNode ++ [.search 0 (.bound (some ⟨[bytes "syncClusterInfo"]⟩)), .raise 0] ++ lastRound 0

/-- The call of the walk times out, `game1` registers with another port, and the first map
arrives after the second. -/
def lateCall : List Event :=
  firstNode ++ [.search 0 (.bound (some ⟨[bytes "syncClusterInfo"]⟩))] ++ lastRound 0 ++
    emptyRound 0 ++
    [.sync (bytes "game1") (bytes "10.0.0.2") (bytes "2530"), .reloaded 1 true, .queried 1 true 200,
      .next 1 (some (bytes "master")), .next 1 (some (bytes "game1")),
      .search 1 (.bound (some ⟨[bytes "syncClusterInfo"]⟩)), .complete 1, .reply 1] ++
    lastRound 1 ++ [.complete 0]

/-- The node `game2` registers, `game1` gets the map with both, the call to `game2` fails, and the
file is refused before the map without `game2` is sent. -/
def givenUp : List Event :=
  registration ++
    [.sync (bytes "game2") (bytes "10.0.0.3") (bytes "2529"), .reloaded 1 true, .queried 1 true 200,
      .next 1 (some (bytes "master")), .next 1 (some (bytes "game1")),
      .search 1 (.bound (some ⟨[bytes "syncClusterInfo"]⟩)), .complete 1, .reply 1, .resume 1,
      .next 1 (some (bytes "game2")), .search 2 .queryFails, .resume 1, .next 1 none,
      .reloaded 1 false]

/-- **A registered node without the map**, and no coroutine left: its call raised and counts as
answered; a node with an old map, which was overtaken; and one with a node that was deleted since,
by a broadcast that gave up. -/
theorem disagreement :
    (∃ (tr : List (Item masterConf)) (s : State), (machine masterConf).Run tr s ∧
      tr.map (·.ev) = raisedCall ∧ (∀ k, s.tasks.get k = none) ∧
      s.clusterInfo.get (bytes "game1") ≠ none ∧ s.nodes (bytes "game1") = none) ∧
    (∃ (tr : List (Item masterConf)) (s : State), (machine masterConf).Run tr s ∧
      tr.map (·.ev) = lateCall ∧ (∀ k, s.tasks.get k = none) ∧
      s.clusterInfo.get (bytes "game1") ≠ none ∧ ∃ v info,
        s.nodes (bytes "game1") = some (v, info) ∧ hosts info ≠ hosts s.clusterInfo) ∧
    ∃ (tr : List (Item masterConf)) (s : State), (machine masterConf).Run tr s ∧
      tr.map (·.ev) = givenUp ∧ (∀ k, s.tasks.get k = none) ∧
      s.clusterInfo.get (bytes "game1") ≠ none ∧ ∃ v info,
        s.nodes (bytes "game1") = some (v, info) ∧ hosts info ≠ hosts s.clusterInfo := by
  have hraised : ((machine masterConf).items (machine masterConf).init raisedCall).map (fun tr =>
      let s := Machine.last (machine masterConf).init tr
      decide (tr.map (·.ev) = raisedCall ∧ s.tasks.entries = [] ∧
        s.clusterInfo.get (bytes "game1") ≠ none ∧ (s.nodes (bytes "game1")).isNone)) =
      some true := by
    decide +kernel
  have hlate : ((machine masterConf).items (machine masterConf).init lateCall).map (fun tr =>
      let s := Machine.last (machine masterConf).init tr
      decide (tr.map (·.ev) = lateCall ∧ s.tasks.entries = [] ∧
        s.clusterInfo.get (bytes "game1") ≠ none ∧
        ((s.nodes (bytes "game1")).map fun p =>
          decide (hosts p.2 (bytes "game1") = hosts s.clusterInfo (bytes "game1"))) =
            some false)) = some true := by
    decide +kernel
  have hgiven : ((machine masterConf).items (machine masterConf).init givenUp).map (fun tr =>
      let s := Machine.last (machine masterConf).init tr
      decide (tr.map (·.ev) = givenUp ∧ s.tasks.entries = [] ∧
        s.clusterInfo.get (bytes "game1") ≠ none ∧
        ((s.nodes (bytes "game1")).map fun p =>
          decide (hosts p.2 (bytes "game2") = hosts s.clusterInfo (bytes "game2"))) =
            some false)) = some true := by
    decide +kernel
  refine ⟨?_, ?_, ?_⟩
  · obtain ⟨tr, hrun, hP⟩ := Machine.exists_run hraised
    obtain ⟨hev, htasks, hpres, hnode⟩ := of_decide_eq_true hP
    exact ⟨tr, _, hrun, hev, tasks_get_of_entries htasks, hpres, Option.isNone_iff_eq_none.mp hnode⟩
  · obtain ⟨tr, hrun, hP⟩ := Machine.exists_run hlate
    obtain ⟨hev, htasks, hpres, hnode⟩ := of_decide_eq_true hP
    obtain ⟨⟨v, info⟩, hp, hne⟩ := Option.map_eq_some_iff.mp hnode
    refine ⟨tr, _, hrun, hev, tasks_get_of_entries htasks, hpres, v, info, hp, fun heq => ?_⟩
    exact of_decide_eq_false hne (congrFun heq _)
  · obtain ⟨tr, hrun, hP⟩ := Machine.exists_run hgiven
    obtain ⟨hev, htasks, hpres, hnode⟩ := of_decide_eq_true hP
    obtain ⟨⟨v, info⟩, hp, hne⟩ := Option.map_eq_some_iff.mp hnode
    refine ⟨tr, _, hrun, hev, tasks_get_of_entries htasks, hpres, v, info, hp, fun heq => ?_⟩
    exact of_decide_eq_false hne (congrFun heq _)

end LsServer.Monitor
