import LsServer.Monitor.Agreement
import LsServer.Monitor.Register

/-!
# What nobody disturbs is a run of the service (MonitorPublish.lua)

`broadcast` computes what a coroutine does when no other one runs, and `Master.sync` what a
registration does. Here both are runs of the service. For every `Pass` there are events that make
it: `next` gives the keys in its order, and each call ends as it says. A call that returns `true`
has been searched, completed and answered before `runTimeout` looks; for one that times out nothing
happens.

The runs here are those in which `cluster.reload` returns (`rejects` is never true), and the
arguments of `sync` are texts.

Source: none of its own. `Broadcast` and `Register` compute from MonitorPublish.lua what one
coroutine does; `Publish` has the same code step by step. These theorems say that both have
understood it alike.

* `AtNext`: a coroutine is at `next` of a walk in which no key was added.
* `Turned` is one round of the loop: the call is made, and ends as the pass says.
* `remaining` is the map while a loop has keys left, so `loop` and the walk can be compared half
  way.
* `Informed`: the node of each call that returned `true` has the map that the call carried.

`Yields` leaves the events open: which ones make a pass is for the proof to say.

Results:
* `call_yields`: every way a call can end;
* `loop_yields`: one loop;
* `broadcast_yields`: a broadcast, and the map at each node that its last loop has called;
* `sync_yields`: a registration.
-/

namespace LsServer.Monitor

open LsServer.Lib LsServer.Lua LsServer.Cluster

variable {c : Conf} {s : State} {k : TaskId} {caller : Caller} {w : Walk}

/-! ## Steps -/

theorem yields_idle {t : State} {e : Event} {out : List Act} (hr : s.running = none)
    (h : stepIdle c s e = some (t, out)) : (machine c).Yields s out t := by
  refine Machine.Yields.of_step (e := e) ?_
  change step c s e = _
  rw [step, hr]
  exact h

/-- Task `k` is at `next` of a walk in which no key was added. -/
structure AtNext (s : State) (k : TaskId) (caller : Caller) (w : Walk) : Prop where
  running : s.running = some k
  task : s.tasks.get k = some (.broadcasting caller w)
  phase : w.phase = .next false
  calm : s.insertedAt ≤ w.start

theorem AtNext.yields (h : AtNext s k caller w) {t : State} {e : Event} {out : List Act}
    (he : e.nextOf = some k) (ht : stepNext c s k caller w false e = some (t, out)) :
    (machine c).Yields s out t := by
  obtain ⟨visited, start, syncAgain, phase⟩ := w
  obtain ⟨hr, hk, rfl, -⟩ := h
  refine Machine.Yields.of_step (e := e) ?_
  change step c s e = _
  rw [step, hr]
  dsimp only
  rw [if_pos he, hk]
  exact ht

/-- `next` can give every key that it has not given yet. -/
theorem AtNext.visit (h : AtNext s k caller w) {n : NodeName} (hn : s.clusterInfo.get n ≠ none)
    (hnew : n ∉ w.visited) : (machine c).Yields s [] (Monitor.visit c s k caller w n) := by
  refine h.yields (e := .next k (some n)) rfl ?_
  have hcan : canVisit s w n = true := by
    rw [canVisit, Option.isSome_iff_ne_none.mpr hn]
    simp [hnew]
  exact if_pos hcan

/-! ## One call -/

/-- **A call can end in every way.** It changes nothing but itself and the map of its node. -/
theorem call_yields (hr : s.running = none) {q : CallId} {n : NodeName}
    (hq : s.calls.get q = some ⟨n, none, false, none⟩) (r : Option CallResult) :
    ∃ calls nodes call, (machine c).Yields s [] { s with calls := calls, nodes := nodes } ∧
      calls.get q = some call ∧ call.result = r ∧
      (r = some (.returned true) → nodes n = some (s.version, s.clusterInfo)) ∧
      ∀ m, m ≠ n → nodes m = s.nodes m := by
  rcases r with _ | _ | _
  · exact ⟨_, _, _, .refl s, hq, rfl, by simp, fun _ _ => rfl⟩
  · rename_i data
    cases data with
    | false =>
      let call : Call := ⟨n, none, false, some (.returned false)⟩
      have hsearch : stepIdle c s (.search q .queryFails) =
          some ({ s with calls := s.calls.set q call }, []) := by
        simp [stepIdle, hq, stepCall, searched, remoteCall, getRemoteSrv, call]
      exact ⟨_, s.nodes, call, yields_idle hr hsearch, Table.get_set_self _ _ _, rfl, by simp,
        fun _ _ => rfl⟩
    | true =>
      let info := some (s.version, s.clusterInfo)
      let s₁ : State := { s with calls := s.calls.set q ⟨n, info, false, none⟩ }
      let s₂ : State := { s₁ with
        calls := s₁.calls.set q ⟨n, info, true, none⟩
        nodes := fun m => if m = n then info else s.nodes m }
      have hsearch : (machine c).Yields s [] s₁ := by
        refine yields_idle hr (e := .search q (.bound (some ⟨[bytes "syncClusterInfo"]⟩))) ?_
        simp [stepIdle, hq, stepCall, searched, remoteCall, getRemoteSrv, s₁, info]
      have hcomplete : (machine c).Yields s₁ [] s₂ := by
        refine yields_idle hr (e := .complete q) ?_
        simp [stepIdle, stepCall, syncClusterInfo, s₁, s₂, info]
      have hreply : (machine c).Yields s₂ []
          { s₂ with calls := s₂.calls.set q ⟨n, info, true, some (.returned true)⟩ } := by
        refine yields_idle hr (e := .reply q) ?_
        simp [stepIdle, stepCall, s₂]
      exact ⟨_, _, _, (hsearch.trans hcomplete).trans hreply, Table.get_set_self _ _ _, rfl,
        fun _ => if_pos rfl, fun m hm => if_neg hm⟩
  · -- the service of the node has no such method
    let call : Call := ⟨n, none, false, some .raised⟩
    have hsearch : stepIdle c s (.search q (.bound (some ⟨[]⟩))) =
        some ({ s with calls := s.calls.set q call }, []) := by
      simp [stepIdle, hq, stepCall, searched, remoteCall, getRemoteSrv, call]
    exact ⟨_, s.nodes, call, yields_idle hr hsearch, Table.get_set_self _ _ _, rfl, by simp,
      fun _ _ => rfl⟩

/-! ## One loop -/

/-- From `s` task `k` comes to `next` of the walk `w`, with the map `t`. -/
structure Turned (c : Conf) (k : TaskId) (caller : Caller) (s : State) (w : Walk) (t : ClusterInfo)
    (s' : State) : Prop where
  yields : (machine c).Yields s [] s'
  next : AtNext s' k caller w
  map : s'.clusterInfo = t
  version : s.version ≤ s'.version

/-- What a call to `n` with this result leaves of the map. -/
def remaining (t : ClusterInfo) (n : NodeName) (r : Option CallResult) : ClusterInfo :=
  if failed r then t.del n else t

/-- The loop goes on after the call to `n`. -/
theorem resume_yields {n : NodeName} {q : CallId} {call : Call} (hr : s.running = none)
    (hk : s.tasks.get k = some (.broadcasting caller { w with phase := .calling n q }))
    (hq : s.calls.get q = some call) (hn : s.clusterInfo.get n ≠ none)
    (hcalm : s.insertedAt ≤ w.start) :
    ∃ s', Turned c k caller s
        { w with syncAgain := w.syncAgain || failed call.result, phase := .next false }
        (remaining s.clusterInfo n call.result) s' ∧ s'.nodes = s.nodes := by
  have hstep : (machine c).Yields s []
      (afterCall s k caller { w with phase := .calling n q } n call) := by
    refine yields_idle hr (e := .resume k) ?_
    simp [stepIdle, hk, hq]
  have hlost : (s.clusterInfo.get n).isNone = false := by
    simpa [Option.isSome_iff_ne_none] using hn
  unfold remaining
  cases hf : failed call.result with
  | true =>
    rw [afterCall, hlost, if_pos hf, remove, if_neg hn] at hstep
    exact ⟨_, ⟨hstep, ⟨rfl, by simp [setTask], rfl, hcalm⟩, rfl, Nat.le_succ _⟩, rfl⟩
  | false =>
    rw [afterCall, hlost, if_neg (by simp [hf])] at hstep
    exact ⟨_, ⟨hstep, ⟨rfl, by simp [setTask], rfl, hcalm⟩, rfl, Nat.le_refl _⟩, rfl⟩

/-- **One turn of the loop**, for a node other than the master. -/
theorem turn_yields (h : AtNext s k caller w) {n : NodeName} (hn : s.clusterInfo.get n ≠ none)
    (hnew : n ∉ w.visited) (hthis : n ≠ c.thisNodeName) (r : Option CallResult) :
    ∃ s', Turned c k caller s
        { w with visited := n :: w.visited, syncAgain := w.syncAgain || failed r }
        (remaining s.clusterInfo n r) s' ∧
      (r = some (.returned true) → s'.nodes n = some (s.version, s.clusterInfo)) ∧
      ∀ m, m ≠ n → s'.nodes m = s.nodes m := by
  have hvisit := h.visit (c := c) hn hnew
  rw [Monitor.visit, if_neg hthis] at hvisit
  generalize hs : setTask _ k _ = s₁ at hvisit
  have hr : s₁.running = none := by rw [← hs]; rfl
  have hk : s₁.tasks.get k = some (.broadcasting caller
      { w with visited := n :: w.visited, phase := .calling n s.nextCall }) := by
    rw [← hs]
    exact Table.get_set_self _ _ _
  have hq : s₁.calls.get s.nextCall = some ⟨n, none, false, none⟩ := by
    rw [← hs]
    exact Table.get_set_self _ _ _
  have hmap : s₁.clusterInfo = s.clusterInfo := by rw [← hs]; rfl
  have hversion : s₁.version = s.version := by rw [← hs]; rfl
  have hnodes : s₁.nodes = s.nodes := by rw [← hs]; rfl
  have hcalm : s₁.insertedAt ≤ w.start := by rw [← hs]; exact h.calm
  obtain ⟨calls, nodes, call, hcall, hq, rfl, hsent, hothers⟩ := call_yields (c := c) hr hq r
  obtain ⟨s', hturn, hnodes'⟩ := resume_yields (c := c) (w := { w with visited := n :: w.visited })
    (s := { s₁ with calls := calls, nodes := nodes }) hr hk hq (by rw [hmap]; exact hn) hcalm
  rw [h.phase]
  refine ⟨s', ⟨(hvisit.trans hcall).trans hturn.yields, hturn.next, ?_, ?_⟩, ?_, ?_⟩
  · rw [← hmap]
    exact hturn.map
  · rw [← hversion]
    exact hturn.version
  · rw [hnodes', ← hmap, ← hversion]
    exact hsent
  · rw [hnodes', ← hnodes]
    exact hothers

/-- The turn for the master itself. -/
theorem turn_self (h : AtNext s k caller w) (hn : s.clusterInfo.get c.thisNodeName ≠ none)
    (hnew : c.thisNodeName ∉ w.visited) : ∃ s', Turned c k caller s
      { w with visited := c.thisNodeName :: w.visited } s.clusterInfo s' ∧ s'.nodes = s.nodes := by
  have hvisit := h.visit (c := c) hn hnew
  rw [Monitor.visit, if_pos rfl, ← h.phase] at hvisit
  refine ⟨_, ⟨hvisit, ⟨?_, Table.get_set_self _ _ _, h.phase, h.calm⟩, rfl, Nat.le_refl _⟩, rfl⟩
  rw [h.phase]
  rfl

/-- The calls that returned `true` have left their map at their nodes. -/
def Informed (s : State) (sent : List SyncCall) : Prop :=
  ∀ call ∈ sent, call.result = some (.returned true) →
    ∃ v, s.nodes call.node = some (v, call.info)

theorem loop_cons_self (p : Pass) (names : List NodeName) (t : ClusterInfo) :
    loop c p (c.thisNodeName :: names) t = loop c p names t := if_pos rfl

theorem loop_cons (p : Pass) {n : NodeName} (h : n ≠ c.thisNodeName) (names : List NodeName)
    (t : ClusterInfo) : loop c p (n :: names) t =
      let x := loop c p names (remaining t n (p.result n))
      (x.1, failed (p.result n) || x.2.1, ⟨n, t, p.result n⟩ :: x.2.2) := by
  rw [loop, if_neg h, remaining]
  dsimp only
  split
  · rename_i hf
    rw [hf, Bool.true_or]
  · rename_i hf
    rw [Bool.not_eq_true] at hf
    rw [hf, Bool.false_or]

theorem remaining_get_ne {t : ClusterInfo} {n m : NodeName} (h : m ≠ n) (r : Option CallResult) :
    (remaining t n r).get m = t.get m := by
  unfold remaining
  split
  · exact Table.get_del_ne h
  · rfl

/-- **The loop**, over keys that `next` has not given. -/
theorem loop_yields (p : Pass) {names : List NodeName} (hnodup : names.Nodup)
    (h : AtNext s k caller w)
    (hnames : ∀ n ∈ names, s.clusterInfo.get n ≠ none ∧ n ∉ w.visited) :
    ∃ s', Turned c k caller s
        { w with
          visited := names.reverse ++ w.visited
          syncAgain := w.syncAgain || (loop c p names s.clusterInfo).2.1 }
        (loop c p names s.clusterInfo).1 s' ∧
      Informed s' (loop c p names s.clusterInfo).2.2 ∧
      ∀ m, m ∉ names → s'.nodes m = s.nodes m := by
  induction names generalizing s w with
  | nil =>
    refine ⟨s, ⟨.refl s, ?_, rfl, Nat.le_refl _⟩, by simp [Informed, loop], fun _ _ => rfl⟩
    simpa [loop] using h
  | cons n names ih =>
    obtain ⟨hnotin, hnodup⟩ := List.nodup_cons.mp hnodup
    obtain ⟨⟨hn, hnew⟩, hrest⟩ := List.forall_mem_cons.mp hnames
    by_cases hthis : n = c.thisNodeName
    · obtain ⟨s₁, hturn, hnodes⟩ := turn_self (c := c) h (hthis ▸ hn) (hthis ▸ hnew)
      rw [hthis, loop_cons_self]
      obtain ⟨s', hturn', hinformed, hothers⟩ := ih hnodup hturn.next fun m hm => by
        rw [hturn.map, List.mem_cons]
        refine ⟨(hrest m hm).1, ?_⟩
        rintro (rfl | hv)
        · exact hnotin (hthis ▸ hm)
        · exact (hrest m hm).2 hv
      rw [hturn.map] at hturn' hinformed
      refine ⟨s', ⟨hturn.yields.trans hturn'.yields, ?_, hturn'.map,
        hturn.version.trans hturn'.version⟩, hinformed, fun m hm => ?_⟩
      · simpa using hturn'.next
      · rw [hothers m fun hmem => hm (List.mem_cons_of_mem _ hmem), hnodes]
    · obtain ⟨s₁, hturn, hsent, hnodes⟩ := turn_yields (c := c) h hn hnew hthis (p.result n)
      rw [loop_cons p hthis]
      obtain ⟨s', hturn', hinformed, hothers⟩ := ih hnodup hturn.next fun m hm => by
        have hne : m ≠ n := fun heq => hnotin (heq ▸ hm)
        rw [hturn.map, remaining_get_ne hne, List.mem_cons]
        refine ⟨(hrest m hm).1, ?_⟩
        rintro (rfl | hv)
        · exact hne rfl
        · exact (hrest m hm).2 hv
      rw [hturn.map] at hturn' hinformed
      refine ⟨s', ⟨hturn.yields.trans hturn'.yields, ?_, hturn'.map,
        hturn.version.trans hturn'.version⟩, ?_, fun m hm => ?_⟩
      · simpa [Bool.or_assoc] using hturn'.next
      · refine List.forall_mem_cons.mpr ⟨fun hr => ⟨s.version, ?_⟩, hinformed⟩
        rw [hothers n hnotin]
        exact hsent hr
      · obtain ⟨hne, hm⟩ := not_or.mp (mt List.mem_cons.mpr hm)
        rw [hothers m hm, hnodes m hne]

/-! ## The broadcast -/

/-- At the start of a loop. -/
theorem broadcast_atNext (k : TaskId) (caller : Caller) (hcalm : s.insertedAt ≤ s.version) :
    AtNext (broadcastClusterInfo s k caller) k caller ⟨[], s.version, false, .next false⟩ :=
  ⟨rfl, Table.get_set_self _ _ _, rfl, hcalm⟩

/-- **A loop of a broadcast**, up to its reload. -/
theorem runLoop_yields (k : TaskId) (caller : Caller) (p : Pass)
    (hcalm : s.insertedAt ≤ s.version) :
    ∃ s' w, (machine c).Yields (broadcastClusterInfo s k caller) [] s' ∧ s'.running = none ∧
      s'.tasks.get k = some (.broadcasting caller w) ∧ w.phase = .reloading ∧
      w.syncAgain = (runLoop c p s.clusterInfo).syncAgain ∧
      s'.clusterInfo = (runLoop c p s.clusterInfo).info ∧ s'.insertedAt ≤ s'.version ∧
      Informed s' (runLoop c p s.clusterInfo).sent := by
  have hnames : ∀ n ∈ p.order (nodeNames s.clusterInfo), s.clusterInfo.get n ≠ none ∧
      n ∉ ([] : List NodeName) := fun n hn =>
    ⟨mem_nodeNames.mp ((p.perm _).mem_iff.mp hn), List.not_mem_nil⟩
  obtain ⟨s', hturn, hinformed, -⟩ := loop_yields (c := c) p (order_nodup p s.clusterInfo)
    (broadcast_atNext k caller hcalm) hnames
  have hmap : s'.clusterInfo = (runLoop c p s.clusterInfo).info := hturn.map
  have hend := hturn.next.yields (c := c) (e := .next k none) rfl (if_pos ?_)
  · exact ⟨_, _, hturn.yields.trans hend, rfl, Table.get_set_self _ _ _, rfl, Bool.false_or _,
      hmap, hturn.next.calm.trans hturn.version, hinformed⟩
  · -- `next` has given all keys that are left
    rw [canEnd, Bool.or_eq_true, List.all_eq_true]
    refine .inr fun e he => ?_
    have hleft : (runLoop c p s.clusterInfo).info.get e.1 ≠ none := by
      rw [← mem_nodeNames, nodeNames, ← hmap]
      exact List.mem_map_of_mem he
    rw [runLoop_get] at hleft
    have hbefore : s.clusterInfo.get e.1 ≠ none := by
      intro hnone
      rw [hnone, ite_self] at hleft
      exact hleft rfl
    simpa using (p.perm _).mem_iff.mpr (mem_nodeNames.mpr hbefore)

theorem broadcast_loops_ne_nil {rejects : Bytes → Bool} {ps : List Pass} {t : ClusterInfo}
    {r : Broadcast} (h : broadcast c rejects ps t = some r) : r.loops ≠ [] := by
  unfold broadcast at h
  split at h
  · exact absurd h (by simp)
  · dsimp only at h
    split at h
    · obtain rfl := Option.some.inj h
      exact List.cons_ne_nil _ _
    · split at h
      · obtain ⟨r', -, rfl⟩ := Option.map_eq_some_iff.mp h
        exact List.cons_ne_nil _ _
      · obtain rfl := Option.some.inj h
        exact List.cons_ne_nil _ _

/-- **A broadcast that nobody disturbs is a run of the service.** -/
theorem broadcast_yields (k : TaskId) (caller : Caller) {ps : List Pass} {r : Broadcast}
    (hcalm : s.insertedAt ≤ s.version)
    (h : broadcast c (fun _ => false) ps s.clusterInfo = some r) :
    ∃ s', (machine c).Yields (broadcastClusterInfo s k caller)
        (result caller (.returned k true)) s' ∧
      s'.running = none ∧ s'.tasks.get k = none ∧ s'.clusterInfo = r.clusterInfo ∧
      ∀ x, r.loops.getLast? = some x → Informed s' x.sent := by
  induction ps generalizing s r with
  | nil => exact absurd h (by simp [broadcast])
  | cons p ps ih =>
    obtain ⟨s₁, w, hyields, hr, hk, hp, hagain, hmap, hcalm₁, hinformed⟩ :=
      runLoop_yields (c := c) k caller p hcalm
    rw [broadcast, if_neg (by simp), ← hagain] at h
    cases ha : w.syncAgain with
    | true =>
      rw [if_pos ha, ← hmap] at h
      obtain ⟨r', hr', rfl⟩ := Option.map_eq_some_iff.mp h
      obtain ⟨s', hyields', hrunning, htask, hmap', hlast⟩ := ih hcalm₁ hr'
      have hgoOn : (machine c).Yields s₁ [] (broadcastClusterInfo s₁ k caller) := by
        refine yields_idle hr (e := .reloaded k true) ?_
        simp [stepIdle, hk, afterReload, hp, ha]
      refine ⟨s', (hyields.trans hgoOn).trans hyields', hrunning, htask, hmap', fun x hx => ?_⟩
      obtain ⟨y, ys, hy⟩ := List.exists_cons_of_ne_nil (broadcast_loops_ne_nil hr')
      refine hlast x ?_
      rw [hy]
      simpa [hy] using hx
    | false =>
      rw [if_neg (by simp [ha])] at h
      obtain rfl := Option.some.inj h
      have hdone : (machine c).Yields s₁ (result caller (.returned k true)) (endTask s₁ k) := by
        refine yields_idle hr (e := .reloaded k true) ?_
        simp [stepIdle, hk, afterReload, hp, ha]
      refine ⟨_, hyields.trans hdone, rfl, Table.get_del_self _ _, hmap, fun x hx => ?_⟩
      obtain rfl := Option.some.inj hx
      exact hinformed

/-! ## The registration -/

/-- How a registration ends, as an action of the service. -/
def SyncEnd.act (k : TaskId) : SyncEnd → Act
  | .returned ok => .returned k ok
  | .raised => .raised k

/-- **A registration that nobody disturbs goes on from a run of the service.** -/
theorem sync_yields {tr : List (Item c)} (hrun : (machine c).Run tr s) {m : Master c}
    {o : Outcome} {name : NodeName} {ip port : Bytes} {r : SyncResult} (hr : s.running = none)
    (hm : m.clusterInfo = s.clusterInfo)
    (h : m.sync (fun _ => false) o (.string name) (.string ip) (.string port) = some r) :
    ∃ s', (machine c).Yields s [r.ending.act s.nextTask] s' ∧ s'.running = none ∧
      s'.clusterInfo = r.clusterInfo := by
  cases hport : str2num port with
  | none =>
    have hraised : (machine c).Yields s [.raised s.nextTask]
        { s with nextTask := s.nextTask + 1 } := by
      refine yields_idle hr (e := .sync name ip port) ?_
      simp [stepIdle, Monitor.sync, hport]
    have hsync : r.clusterInfo = m.clusterInfo ∧ r.ending = .raised := by
      unfold Master.sync at h
      rw [if_neg (by simp [isKey])] at h
      simp only [toNumber, hport, concat] at h
      obtain rfl := Option.some.inj h
      exact ⟨rfl, rfl⟩
    rw [hsync.2, hsync.1, hm]
    exact ⟨_, hraised, hr, rfl⟩
  | some port' =>
    let s₁ : State := { s with nextTask := s.nextTask + 1 }
    let s₂ := setTask s₁ s.nextTask (.registering name ip port')
    let s₃ := setTask s₂ s.nextTask (.querying name ip port')
    have hregister : (machine c).Yields s [] s₂ := by
      refine yields_idle hr (e := .sync name ip port) ?_
      simp [stepIdle, Monitor.sync, hport, s₁, s₂]
    have hreload : (machine c).Yields s₂ [] s₃ := by
      refine yields_idle rfl (e := .reloaded s.nextTask true) ?_
      simp [stepIdle, afterReload, setTask, s₂, s₃]
    have hquery := hregister.trans hreload
    have hip' : concat (.string ip) = some ip := rfl
    have hport' : toNumber (.string port) = some port' := hport
    rw [Master.sync_of_entry hip' hport'] at h
    dsimp only at h
    rw [if_neg (by simp)] at h
    cases ha : o.alive with
    | true =>
      rw [if_pos ha] at h
      obtain ⟨b, hb, rfl⟩ := Option.map_eq_some_iff.mp h
      let s₄ := store s₃ name ⟨ip, port', some o.now⟩
      have hstore : (machine c).Yields s₃ []
          (broadcastClusterInfo s₄ s.nextTask (some name)) := by
        refine yields_idle rfl (e := .queried s.nextTask true o.now) ?_
        simp [stepIdle, afterQuery, setTask, s₃, s₄]
      have hcalm' : s₄.insertedAt ≤ s₄.version := by
        dsimp only [s₄, store]
        split
        · exact Nat.le_refl _
        · exact (Run.stamped hrun).inserted.trans (Nat.le_succ _)
      rw [hm] at hb
      obtain ⟨s', hyields, hrunning, -, hmap, -⟩ :=
        broadcast_yields s.nextTask (some name) hcalm' hb
      have hraised : b.raised = false := by
        simpa using (broadcast_part hb).2
      rw [hraised]
      exact ⟨s', (hquery.trans hstore).trans hyields, hrunning, hmap⟩
    | false =>
      rw [if_neg (by simp [ha])] at h
      obtain rfl := Option.some.inj h
      have hrefuse : (machine c).Yields s₃ [] (setTask s₃ s.nextTask .refusing) := by
        refine yields_idle rfl (e := .queried s.nextTask false o.now) ?_
        simp [stepIdle, afterQuery, setTask, s₃]
      have hreturn : (machine c).Yields (setTask s₃ s.nextTask .refusing)
          [.returned s.nextTask false] (endTask (setTask s₃ s.nextTask .refusing) s.nextTask) := by
        refine yields_idle rfl (e := .reloaded s.nextTask true) ?_
        simp [stepIdle, afterReload, setTask]
      exact ⟨_, (hquery.trans hrefuse).trans hreturn, rfl, hm.symm⟩

end LsServer.Monitor
