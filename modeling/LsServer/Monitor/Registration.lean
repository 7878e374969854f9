import LsServer.Monitor.Agreement

/-!
# Lost registrations

A walk knows a node by its name. When its call has failed it deletes the entry of that name, also
if the node has registered again while the call was under way: a node that crashed and came back
is deleted for the call that the crash had lost.

Source: MonitorPublish.lua 16-20 for the calls, 35-40 for `clusterHold`, 70-75 for `sync`, 83-90 for
`heartbeat`.

* `Item.Issues`: the walk makes call `q` to a node. `Item.Fails`: the walk goes on after `q` with a
  timeout or a falsy result, and deletes the entry.
* `Item.Beats`: a registration or a heartbeat. `Item.Expires`: `clusterHold` finds that the last one
  is more than six seconds old.
* The condition is about calls that were made before the last registration of their node and fail
  after it.

A call that ends with an error deletes nothing: `runTimeout` takes it for a success.

Results:
* `registration_kept_iff`: an entry is deleted only for its age, or for a call made after it was
  stored, exactly if no call made before the last registration fails while the entry is there;
* `registration_lost`: a node that registers again while it is being called.
-/

namespace LsServer.Monitor

open LsServer.Lib LsServer.Lua LsServer.Cluster

variable {c : Conf}

/-- The entry of `n` is deleted. -/
def Item.Removes (i : Item c) (n : NodeName) : Prop :=
  i.pre.clusterInfo.get n ≠ none ∧ i.post.clusterInfo.get n = none

/-- The call `q` to `n` is made. -/
def Item.Issues (i : Item c) (q : CallId) (n : NodeName) : Prop :=
  ∃ k, i.ev = .next k (some n) ∧ n ≠ c.thisNodeName ∧ i.pre.nextCall = q

/-- A walk goes on after its call `q` to `n`, which timed out or returned a falsy value. -/
def Fails (s : State) (e : Event) (q : CallId) (n : NodeName) : Prop :=
  ∃ k caller w call, e = .resume k ∧ s.tasks.get k = some (.broadcasting caller w) ∧
    w.phase = .calling n q ∧ s.calls.get q = some call ∧
      (call.result = none ∨ call.result = some (.returned false))

def Item.Fails (i : Item c) (q : CallId) (n : NodeName) : Prop := Monitor.Fails i.pre i.ev q n

/-- A registration or a heartbeat of `n`, at the time `t`. -/
def Item.Beats (i : Item c) (n : NodeName) (t : Nat) : Prop :=
  (∃ k ip port, i.ev = .queried k true t ∧ i.pre.tasks.get k = some (.querying n ip port)) ∨
    i.ev = .heartbeat n t ∧ i.pre.clusterInfo.get n ≠ none

/-- `clusterHold` finds that the last of the items `tr` that is a registration or a heartbeat of
`n` is more than 6 seconds old. -/
def Item.Expires (j : Item c) (tr : List (Item c)) (n : NodeName) : Prop :=
  ∃ now last a x b, j.ev = .hold now ∧ tr = a ++ x :: b ∧ Item.Beats x n last ∧
    (∀ y ∈ b, ∀ t, ¬ Item.Beats y n t) ∧ last + 6 < now

theorem failed_eq_true {r : Option CallResult} :
    failed r = true ↔ r = none ∨ r = some (.returned false) := by
  rcases r with _ | ⟨_ | _⟩ | _ <;> simp [failed, runTimeout]

theorem mem_expired {s : State} {now : Nat} {n : NodeName} : n ∈ expired c s now ↔
    n ≠ c.thisNodeName ∧ ∃ info last, s.clusterInfo.get n = some info ∧ info.last = some last ∧
      last + 6 < now := by
  unfold expired
  constructor
  · intro h
    obtain ⟨⟨n', info⟩, he, rfl⟩ := List.mem_map.mp h
    obtain ⟨hmem, hp⟩ := List.mem_filter.mp he
    obtain ⟨hne, last, hlast, hlt⟩ := of_decide_eq_true hp
    exact ⟨hne, info, last, Table.mem_entries.mp hmem, hlast, hlt⟩
  · rintro ⟨hne, info, last, hget, hlast, hlt⟩
    exact List.mem_map.mpr ⟨(n, info), List.mem_filter.mpr
      ⟨Table.mem_entries.mpr hget, decide_eq_true ⟨hne, last, hlast, hlt⟩⟩, rfl⟩

/-! ## Who deletes an entry -/

/-- **Only `clusterHold` and a failed call delete an entry.** -/
theorem Item.removes (i : Item c) {n : NodeName} (h : i.Removes n) :
    (∃ now, i.ev = .hold now ∧ n ∈ expired c i.pre now) ∨ ∃ q, i.Fails q n := by
  obtain ⟨hpre, hpost⟩ := h
  have hc := i.changed
  unfold Item.Fails Monitor.Fails
  generalize i.ev = e, i.post.clusterInfo = t at hc hpost
  cases hc with
  | same => exact absurd hpost hpre
  | stored =>
    rw [Table.get_set] at hpost
    split at hpost
    · exact absurd hpost (by simp)
    · exact absurd hpost hpre
  | beaten =>
    rw [Table.get_set] at hpost
    split at hpost
    · exact absurd hpost (by simp)
    · exact absurd hpost hpre
  | @expired now t ht =>
    rw [ht] at hpost
    split at hpost
    · rename_i hmem
      exact .inl ⟨now, rfl, hmem⟩
    · exact absurd hpost hpre
  | @failed k caller w m q call hk hp hq hf hm =>
    rw [Table.get_del] at hpost
    split at hpost
    · rename_i hn
      rw [hn]
      exact .inr ⟨q, k, caller, w, call, rfl, hk, hp, hq, failed_eq_true.mp hf⟩
    · exact absurd hpost hpre

/-- A failed call deletes the entry that is there, whenever it was stored. -/
theorem Item.Fails.removes {i : Item c} {q : CallId} {n : NodeName} (h : i.Fails q n)
    (hn : i.pre.clusterInfo.get n ≠ none) : i.Removes n := by
  obtain ⟨k, caller, w, call, hev, hk, hp, hq, hr⟩ := h
  refine ⟨hn, ?_⟩
  have hm := i.moved
  rw [hev] at hm
  generalize i.post = s', i.out = acts at hm
  cases hm with
  | resume hrun hk' hp' hq' =>
    obtain ⟨rfl, rfl⟩ := Task.broadcasting.inj (Option.some.inj (hk.symm.trans hk'))
    obtain ⟨rfl, rfl⟩ := WalkPhase.calling.inj (hp.symm.trans hp')
    obtain rfl := Option.some.inj (hq.symm.trans hq')
    unfold afterCall
    rw [if_pos (failed_eq_true.mpr hr), setTask_clusterInfo, remove_get, if_pos rfl]

/-! ## The age of an entry -/

/-- The time in an entry is that of the last registration or heartbeat. -/
theorem Item.beats (i : Item c) {n : NodeName} {info : NodeInfo}
    (h : i.post.clusterInfo.get n = some info) :
    (∃ t, info.last = some t ∧ i.Beats n t) ∨
      i.pre.clusterInfo.get n = some info ∧ ∀ t, ¬ i.Beats n t := by
  have hc := i.changed
  unfold Item.Beats
  generalize i.ev = e, i.post.clusterInfo = t at hc h
  cases hc with
  | same hq hb =>
    refine .inr ⟨h, fun t ht => ?_⟩
    rcases ht with ⟨k, ip, port, hev, -⟩ | ⟨hev, hn⟩
    · exact hq k t hev
    · exact hn (hb n t hev)
  | @stored k name ip port now hk =>
    rw [Table.get_set] at h
    split at h
    · rename_i hn
      subst hn
      obtain rfl := Option.some.inj h
      exact .inl ⟨now, rfl, .inl ⟨k, ip, port, rfl, hk⟩⟩
    · rename_i hn
      refine .inr ⟨h, fun t ht => ?_⟩
      rcases ht with ⟨k', ip', port', hev, hk'⟩ | ⟨hev, -⟩
      · obtain ⟨rfl, -⟩ := Event.queried.inj hev
        exact hn (Task.querying.inj (Option.some.inj (hk'.symm.trans hk))).1
      · exact absurd hev (by simp)
  | @beaten name now info' hname =>
    rw [Table.get_set] at h
    split at h
    · rename_i hn
      subst hn
      obtain rfl := Option.some.inj h
      exact .inl ⟨now, rfl, .inr ⟨rfl, by simp [hname]⟩⟩
    · rename_i hn
      refine .inr ⟨h, fun t ht => ?_⟩
      rcases ht with ⟨k', ip', port', hev, -⟩ | ⟨hev, -⟩
      · exact absurd hev (by simp)
      · exact hn (Event.heartbeat.inj hev).1.symm
  | expired ht =>
    rw [ht] at h
    split at h
    · exact absurd h (by simp)
    · exact .inr ⟨h, fun t ht => by simp at ht⟩
  | failed =>
    exact .inr ⟨(Table.get_of_get_del h).2, fun t ht => by simp at ht⟩

/-- From a registration on, an entry has the time of the last of its beats. -/
theorem Path.last {i : Item c} {n : NodeName} (hi : i.Answers n) {b : List (Item c)} {s : State}
    (h : Machine.Path (machine c) i.post b s) {info : NodeInfo}
    (hs : s.clusterInfo.get n = some info) :
    ∃ last b₁ x b₂, info.last = some last ∧ i :: b = b₁ ++ x :: b₂ ∧ Item.Beats x n last ∧
      ∀ y ∈ b₂, ∀ t, ¬ Item.Beats y n t := by
  revert info
  refine Machine.Path.history (J := fun b s => ∀ {info : NodeInfo},
    s.clusterInfo.get n = some info → ∃ last b₁ x b₂, info.last = some last ∧
      i :: b = b₁ ++ x :: b₂ ∧ Item.Beats x n last ∧ ∀ y ∈ b₂, ∀ t, ¬ Item.Beats y n t) h ?_ ?_
  · intro info hs
    rcases i.beats hs with ⟨t, hlast, hb⟩ | ⟨-, hno⟩
    · exact ⟨t, [], i, [], hlast, rfl, hb, by simp⟩
    · obtain ⟨k, ip, port, now, hev, hk⟩ := hi
      exact absurd (.inl ⟨k, ip, port, hev, hk⟩) (hno now)
  · intro a j _ _ ih info hs
    rcases Item.beats j hs with ⟨t, hlast, hb⟩ | ⟨hpre, hno⟩
    · exact ⟨t, i :: a, j, [], hlast, rfl, hb, by simp⟩
    · obtain ⟨last, b₁, x, b₂, hlast, heq, hb, hno'⟩ := ih hpre
      refine ⟨last, b₁, x, b₂ ++ [j], hlast, ?_, hb, fun y hy t => ?_⟩
      · rw [← List.cons_append, heq, List.append_assoc]
        rfl
      · rcases List.mem_append.mp hy with hy | hy
        · exact hno' y hy t
        · obtain rfl := List.mem_singleton.mp hy
          exact hno t

/-! ## When a call was made -/

/-- Every call was made by some walk. -/
theorem Run.issued {tr : List (Item c)} {s : State} (h : (machine c).Run tr s) {q : CallId}
    {call : Call} (hq : s.calls.get q = some call) : ∃ i ∈ tr, Item.Issues i q call.node := by
  revert q call
  refine Machine.Run.history (J := fun tr s => ∀ {q call}, s.calls.get q = some call →
    ∃ i ∈ tr, Item.Issues i q call.node) ?_ ?_ h
  · intro q call hq
    simp [machine, State.init] at hq
  · intro tr i _ ih q call hq
    have hold : ∀ {call' : Call}, i.pre.calls.get q = some call' → call'.node = call.node →
        ∃ j ∈ tr ++ [i], Item.Issues j q call.node := by
      intro call' hq' hnode
      obtain ⟨j, hj, hiss⟩ := ih hq'
      exact ⟨j, List.mem_append_left _ hj, hnode ▸ hiss⟩
    have hph := Item.phoned i q
    generalize ho : i.pre.calls.get q = o at hph
    rw [hq] at hph
    cases hph with
    | same => exact hold ho rfl
    | made _ he hn hq' => exact ⟨i, by simp, _, he, hn, hq'.symm⟩
    | packed | completed | ended => exact hold ho rfl

theorem Path.lt_nextCall {s t : State} {b : List (Item c)} (h : Machine.Path (machine c) s b t)
    {q : CallId} (hq : q < s.nextCall) : q < t.nextCall :=
  Machine.Path.keeps (I := fun s => q < s.nextCall) h hq fun j _ hj =>
    hj.trans_le (Item.nextCall_le j)

/-- A number is used for one call. -/
theorem not_issues_of_lt {i : Item c} {s : State} {b : List (Item c)}
    (h : Machine.Path (machine c) s b i.pre) {q : CallId} (hq : q < s.nextCall) {n : NodeName} :
    ¬ i.Issues q n := by
  rintro ⟨k, -, -, hnext⟩
  exact absurd hnext (Path.lt_nextCall h hq).ne'

theorem Item.Issues.lt {i : Item c} {q : CallId} {n : NodeName} (h : i.Issues q n) :
    q < i.post.nextCall := by
  obtain ⟨k, hev, hn, rfl⟩ := h
  have hm := i.moved
  rw [hev] at hm
  generalize i.post = s', i.out = acts at hm
  cases hm with
  | visit =>
    unfold visit
    rw [if_neg hn]
    exact Nat.lt_succ_self _

/-- A walk waits for one call. -/
theorem Item.Fails.unique {i : Item c} {q q' : CallId} {n : NodeName} (h : i.Fails q n)
    (h' : i.Fails q' n) : q' = q := by
  obtain ⟨k, _, w, _, hev, hk, hp, -⟩ := h
  obtain ⟨k', _, w', _, hev', hk', hp', -⟩ := h'
  obtain rfl := Event.resume.inj (hev.symm.trans hev')
  obtain ⟨-, rfl⟩ := Task.broadcasting.inj (Option.some.inj (hk.symm.trans hk'))
  exact (WalkPhase.calling.inj (hp'.symm.trans hp)).2

/-- A call that fails was made before. -/
theorem Item.Fails.issued {tr : List (Item c)} {j : Item c} (h : (machine c).Run tr j.pre)
    {q : CallId} {n : NodeName} (hf : j.Fails q n) : ∃ i ∈ tr, Item.Issues i q n := by
  obtain ⟨k, caller, w, call, -, hk, hp, hq, -⟩ := hf
  obtain ⟨call', hq', hnode, -⟩ := (Run.stamped h).calling k caller w n q hk hp
  obtain rfl := Option.some.inj (hq.symm.trans hq')
  exact hnode ▸ Run.issued h hq

/-- **When registrations are kept**: an entry is deleted only by `clusterHold`, more than 6 seconds
after the last registration or heartbeat, or for a call made since it was stored that timed out or
returned a falsy value; exactly if no call from before the last registration of its node fails
while the entry is there. -/
theorem registration_kept_iff {tr : List (Item c)} {s : State} (h : (machine c).Run tr s) :
    (∀ a i b j d n, tr = a ++ i :: (b ++ j :: d) → Item.Answers i n →
      (∀ x ∈ b, ¬ Item.Answers x n) → Item.Removes j n →
      Item.Expires j (i :: b) n ∨ ∃ q, Item.Fails j q n ∧ ∃ x ∈ b, Item.Issues x q n) ↔
    ∀ a i b j d n q, tr = a ++ i :: (b ++ j :: d) → Item.Answers i n →
      (∀ x ∈ b, ¬ Item.Answers x n) → j.pre.clusterInfo.get n ≠ none → Item.Fails j q n →
      ∀ x ∈ a, ¬ Item.Issues x q n := by
  constructor
  · intro hkept a i b j d n q heq ha hno hn hf x hx hiss
    rcases hkept a i b j d n heq ha hno (hf.removes hn) with hexp | ⟨q', hf', y, hy, hiss'⟩
    · obtain ⟨now, -, -, -, -, hev, -⟩ := hexp
      obtain ⟨k, -, -, -, hev', -⟩ := hf
      exact absurd (hev.symm.trans hev') (by simp)
    · -- one number for two calls
      obtain rfl := hf.unique hf'
      obtain ⟨a₁, a₂, rfl⟩ := List.append_of_mem hx
      obtain ⟨b₁, b₂, rfl⟩ := List.append_of_mem hy
      subst heq
      have hsplit : a₁ ++ x :: a₂ ++ i :: (b₁ ++ y :: b₂ ++ j :: d) =
          a₁ ++ x :: (a₂ ++ i :: b₁ ++ y :: (b₂ ++ j :: d)) := by simp
      have hpath := (Machine.Path.split (Machine.Path.split (hsplit ▸ h)).2).1
      exact not_issues_of_lt hpath hiss.lt hiss'
  · intro hfresh a i b j d n heq ha hno hrem
    have hpath : Machine.Path (machine c) i.post b j.pre := by
      rw [heq] at h
      exact (Machine.Path.split (Machine.Path.split h).2).1
    rcases Item.removes j hrem with ⟨now, hev, hmem⟩ | ⟨q, hf⟩
    · obtain ⟨-, info, last, hget, hlast, hlt⟩ := mem_expired.mp hmem
      obtain ⟨last', b₁, x, b₂, hlast', hsplit, hbeat, hnone⟩ := Path.last ha hpath hget
      obtain rfl := Option.some.inj (hlast.symm.trans hlast')
      exact .inl ⟨now, last, b₁, x, b₂, hev, hsplit, hbeat, hnone, hlt⟩
    · refine .inr ⟨q, hf, ?_⟩
      have hrun : (machine c).Run (a ++ i :: b) j.pre := by
        rw [heq, ← List.cons_append, ← List.append_assoc] at h
        exact (Machine.Path.split h).1
      obtain ⟨x, hx, hiss⟩ := hf.issued hrun
      rcases List.mem_append.mp hx with hx | hx
      · exact absurd hiss (hfresh a i b j d n q heq ha hno hrem.1 hf x hx)
      · rcases List.mem_cons.mp hx with rfl | hx
        · -- a registration makes no call
          obtain ⟨k, ip, port, now, hev, -⟩ := ha
          obtain ⟨k', hev', -⟩ := hiss
          exact absurd (hev.symm.trans hev') (by simp)
        · exact ⟨x, hx, hiss⟩

/-! ## A node that comes back -/

/-- The call of the walk times out. -/
def lostNode : List Event := firstNode ++ [.resume 0]

theorem registration_kept_iff_lostNode : ∃ (tr : List (Item masterConf)) (s : State),
    (machine masterConf).Run tr s ∧ tr.map (·.ev) = lostNode ∧
      (∃ j ∈ tr, Item.Removes j (bytes "game1")) ∧
      ∀ a i b j d n, tr = a ++ i :: (b ++ j :: d) → Item.Answers i n →
        (∀ x ∈ b, ¬ Item.Answers x n) → Item.Removes j n →
        Item.Expires j (i :: b) n ∨ ∃ q, Item.Fails j q n ∧ ∃ x ∈ b, Item.Issues x q n := by
  have h : ((machine masterConf).items (machine masterConf).init lostNode).map (fun tr =>
      decide (tr.map (·.ev) = lostNode ∧
        (∃ j ∈ tr, j.pre.clusterInfo.get (bytes "game1") ≠ none ∧
          j.post.clusterInfo.get (bytes "game1") = none) ∧
        ∀ i ∈ tr, i.ev = .queried 0 true 100 → i.pre.nextCall = 0)) = some true := by
    decide +kernel
  obtain ⟨tr, hrun, hP⟩ := Machine.exists_run h
  obtain ⟨hev, hrem, hcall⟩ := of_decide_eq_true hP
  refine ⟨tr, _, hrun, hev, hrem, (registration_kept_iff hrun).mpr ?_⟩
  intro a i b j d n q heq ha _ _ _ x hx hiss
  -- no call is made before the registration
  have hi : i.ev ∈ tr.map (·.ev) := List.mem_map_of_mem (by simp [heq])
  obtain ⟨k, ip, port, now, hiev, -⟩ := ha
  rw [hev, hiev] at hi
  have hnext : i.pre.nextCall = 0 := hcall i (by simp [heq]) (by
    simpa [hiev, lostNode, firstNode] using hi)
  obtain ⟨a₁, a₂, rfl⟩ := List.append_of_mem hx
  subst heq
  have hsplit : a₁ ++ x :: a₂ ++ i :: (b ++ j :: d) = a₁ ++ x :: (a₂ ++ i :: (b ++ j :: d)) := by
    simp
  have hpath := (Machine.Path.split (Machine.Path.split (hsplit ▸ hrun)).2).1
  exact absurd (Path.lt_nextCall hpath hiss.lt) (by rw [hnext]; exact Nat.not_lt_zero _)

/-- The node `game1` registers again while the walk of its first registration calls it; that call
times out. -/
def comingBack : List Event :=
  firstNode ++ [.sync (bytes "game1") (bytes "10.0.0.2") (bytes "2528"), .reloaded 1 true] ++
    .queried 1 true 101 ::
      ([.next 1 (some (bytes "master")), .next 1 (some (bytes "game1"))] ++ [.resume 0])

/-- **A registration is lost** to a call that was made before it. -/
theorem registration_lost : ∃ (a : List (Item masterConf)) (i : Item masterConf)
    (b : List (Item masterConf)) (j : Item masterConf),
    (machine masterConf).Run (a ++ i :: (b ++ [j])) j.post ∧
      (a ++ i :: (b ++ [j])).map (·.ev) = comingBack ∧ i.Answers (bytes "game1") ∧
      (∀ x ∈ b, ¬ Item.Answers x (bytes "game1")) ∧ j.Removes (bytes "game1") ∧
      ¬ (j.Expires (i :: b) (bytes "game1") ∨ ∃ q, j.Fails q (bytes "game1") ∧
        ∃ x ∈ b, Item.Issues x q (bytes "game1")) := by
  have h : ((machine masterConf).items (machine masterConf).init comingBack).map (fun tr =>
      decide (tr.map (·.ev) = comingBack ∧
        (∀ i ∈ tr, i.ev = .queried 1 true 101 →
          i.pre.tasks.get 1 = some (.querying (bytes "game1") (bytes "10.0.0.2") (.int 2528)))  ∧
        (∀ j ∈ tr, j.ev = .resume 0 → j.pre.clusterInfo.get (bytes "game1") ≠ none ∧
          j.post.clusterInfo.get (bytes "game1") = none ∧ j.pre.tasks.get 0 = some (.broadcasting
            (some (bytes "game1"))
            ⟨[bytes "game1", bytes "master"], 1, false, .calling (bytes "game1") 0⟩)) ∧
        ∀ x ∈ tr, x.ev = .next 1 (some (bytes "game1")) → x.pre.nextCall = 1)) = some true := by
    decide +kernel
  obtain ⟨tr, hrun, hP⟩ := Machine.exists_run h
  obtain ⟨hev, hreg, hres, hcall⟩ := of_decide_eq_true hP
  obtain ⟨a, r, rfl, ha, hr⟩ := List.map_eq_append_iff.mp hev
  obtain ⟨i, r, rfl, hi, hr⟩ := List.map_eq_cons_iff.mp hr
  obtain ⟨b, r, rfl, hb, hr⟩ := List.map_eq_append_iff.mp hr
  obtain ⟨j, r, rfl, hj, hr⟩ := List.map_eq_cons_iff.mp hr
  obtain rfl := List.map_eq_nil_iff.mp hr
  have hevb : ∀ x ∈ b, x.ev = .next 1 (some (bytes "master")) ∨
      x.ev = .next 1 (some (bytes "game1")) := by
    intro x hx
    have hmem := List.mem_map_of_mem (f := fun i : Item masterConf => i.ev) hx
    rw [hb] at hmem
    simpa using hmem
  obtain ⟨hpre, hpost, htask⟩ := hres j (by simp) hj
  have hcut : a ++ i :: (b ++ [j]) = (a ++ i :: b) ++ [j] := by simp
  have hrun' : (machine masterConf).Run (a ++ i :: (b ++ [j])) j.post := by
    rw [hcut] at hrun ⊢
    exact Machine.path_snoc_iff.mpr ⟨(Machine.path_snoc_iff.mp hrun).1, rfl⟩
  refine ⟨a, i, b, j, hrun', hev, ⟨1, _, _, 101, hi, hreg i (by simp) hi⟩, ?_, ⟨hpre, hpost⟩, ?_⟩
  · rintro x hx ⟨k, ip, port, now, hx', -⟩
    rcases hevb x hx with h | h <;> exact absurd (hx'.symm.trans h) (by simp)
  · rintro (⟨now, -, -, -, -, hexp, -⟩ | ⟨q, ⟨k, caller, w, call, hk, ht, hp, -⟩, x, hx, hiss⟩)
    · exact absurd (hj.symm.trans hexp) (by simp)
    · obtain rfl := Event.resume.inj (hj.symm.trans hk)
      obtain ⟨-, rfl⟩ := Task.broadcasting.inj (Option.some.inj (htask.symm.trans ht))
      obtain ⟨-, rfl⟩ := WalkPhase.calling.inj hp
      obtain ⟨k', hx', -, hnext⟩ := hiss
      rcases hevb x hx with h | h
      · have hname := (Event.next.inj (hx'.symm.trans h)).2
        exact absurd hname (by decide)
      · exact absurd ((hcall x (by simp [hx]) h).symm.trans hnext) (by decide)

end LsServer.Monitor
