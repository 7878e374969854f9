import LsServer.Monitor.Config
import Mathlib.Data.Finset.Card

/-!
# A broadcast that nobody disturbs (MonitorPublish.lua)

While no other coroutine changes `clusterInfo`, `broadcastClusterInfo` is a function of how its
calls end. A `Pass` says that for one of its loops: the order in which `pairs` gives the keys, and
the result of each call. A key that the loop clears is the current one, so `pairs` gives every key
once, and a call carries the map as it is when the call starts.

`rejects` tells the files for which `cluster.reload` raises.

Source: MonitorPublish.lua 11-29, run by one coroutine while no other one changes `clusterInfo`.

* `loop` goes over the keys that were there at the start. It deletes the current key only, and
  deletes nothing else, so all of them are still there when their turn comes.
* `Looped.sent` lists the calls with the maps they carry and how they end.
* `broadcast` takes a list of passes and uses as many as it needs.
* A pass that deletes no node is the last one, and all nodes got the same map in it, that of the
  end.

An error counts as a success here, as in the code: `failed` is `timeout or not ret`, where `ret` may
be an error message.

Results:
* `loop_get`, `loop_sent`: what one loop does;
* `broadcast_part`: a broadcast only removes nodes other than the master;
* `broadcast_converges`: after at most one pass more than there are other nodes, the broadcast has
  ended, and all nodes that are left were sent the map that is left.
-/

namespace LsServer.Monitor

open LsServer.Lib LsServer.Lua LsServer.Cluster

/-- How a loop goes: the order of the keys, and how the call to each node ends. -/
structure Pass where
  order : List NodeName → List NodeName
  perm : ∀ names, (order names).Perm names
  result : NodeName → Option CallResult

/-- A `runTimeout` of the loop: the node, the map that it carries, and how it ends. -/
structure SyncCall where
  node : NodeName
  info : ClusterInfo
  result : Option CallResult

/-- A loop: the table before and after, `syncAgain`, and its calls. -/
structure Looped where
  start : ClusterInfo
  info : ClusterInfo
  syncAgain : Bool
  sent : List SyncCall

/-- The loop of `broadcastClusterInfo` over these keys. -/
def loop (c : Conf) (p : Pass) : List NodeName → ClusterInfo → ClusterInfo × Bool × List SyncCall
  | [], t => (t, false, [])
  | nodeName :: names, t =>
    if nodeName = c.thisNodeName then loop c p names t
    else
      let call : SyncCall := ⟨nodeName, t, p.result nodeName⟩
      if failed call.result then
        let x := loop c p names (t.del nodeName)
        (x.1, true, call :: x.2.2)
      else
        let x := loop c p names t
        (x.1, x.2.1, call :: x.2.2)

/-- The names of a map. -/
def nodeNames (t : ClusterInfo) : List NodeName := t.entries.map Prod.fst

/-- The loop of `broadcastClusterInfo`. -/
def runLoop (c : Conf) (p : Pass) (t : ClusterInfo) : Looped :=
  let x := loop c p (p.order (nodeNames t)) t
  ⟨t, x.1, x.2.1, x.2.2⟩

/-- How a broadcast ends: the table and the file, the loops, and whether `cluster.reload` has
raised. -/
structure Broadcast where
  clusterInfo : ClusterInfo
  file : Bytes
  loops : List Looped
  raised : Bool

/-- `broadcastClusterInfo`, for the first of these passes that it needs; `none` if it needs more. -/
def broadcast (c : Conf) (rejects : Bytes → Bool) : List Pass → ClusterInfo → Option Broadcast
  | [], _ => none
  | p :: ps, t =>
    let x := runLoop c p t
    let file := configText x.info
    if rejects file then some ⟨x.info, file, [x], true⟩
    else if x.syncAgain then
      (broadcast c rejects ps x.info).map fun r => { r with loops := x :: r.loops }
    else some ⟨x.info, file, [x], false⟩

/-- The nodes other than the master. -/
def others (c : Conf) (t : ClusterInfo) : Finset NodeName :=
  (nodeNames t).toFinset.erase c.thisNodeName

/-! ## One loop -/

theorem mem_nodeNames {t : ClusterInfo} {n : NodeName} : n ∈ nodeNames t ↔ t.get n ≠ none := by
  rw [← mem_clusterNodeKey, clusterNodeKey, List.mem_insertionSort]
  rfl

theorem mem_others {c : Conf} {t : ClusterInfo} {n : NodeName} :
    n ∈ others c t ↔ n ≠ c.thisNodeName ∧ t.get n ≠ none := by
  rw [others, Finset.mem_erase, List.mem_toFinset, mem_nodeNames]

theorem loop_get (c : Conf) (p : Pass) {names : List NodeName} (hnodup : names.Nodup)
    (t : ClusterInfo) (n : NodeName) : (loop c p names t).1.get n =
      if n ∈ names ∧ n ≠ c.thisNodeName ∧ failed (p.result n) = true then none else t.get n := by
  induction names generalizing t with
  | nil => simp [loop]
  | cons m names ih =>
    obtain ⟨hm, hnodup⟩ := List.nodup_cons.mp hnodup
    rw [loop]
    split
    · rename_i hthis
      rw [ih hnodup]
      by_cases hn : n = m
      · subst hn
        rw [if_neg (by simp [hm]), if_neg (by simp [hthis])]
      · simp [hn]
    · rename_i hthis
      dsimp only
      split
      · rename_i hf
        rw [ih hnodup, Table.get_del]
        by_cases hn : n = m
        · subst hn
          simp [hm, hthis, hf]
        · simp [hn]
      · rename_i hf
        rw [ih hnodup]
        by_cases hn : n = m
        · subst hn
          simp [hm, hf]
        · simp [hn]

theorem loop_syncAgain (c : Conf) (p : Pass) (names : List NodeName) (t : ClusterInfo) :
    (loop c p names t).2.1 = true ↔
      ∃ n ∈ names, n ≠ c.thisNodeName ∧ failed (p.result n) = true := by
  induction names generalizing t with
  | nil => simp [loop]
  | cons m names ih =>
    rw [loop, List.exists_mem_cons_iff]
    split
    · rename_i hthis
      rw [ih]
      simp [hthis]
    · rename_i hthis
      dsimp only
      split
      · rename_i hf
        simp [hthis, hf]
      · rename_i hf
        rw [ih]
        simp [hf]

/-- A loop without failures calls all nodes with the table as it is. -/
theorem loop_sent {c : Conf} {p : Pass} {names : List NodeName} {t : ClusterInfo}
    (h : (loop c p names t).2.1 = false) : (loop c p names t).1 = t ∧
      ∀ n ∈ names, n ≠ c.thisNodeName → ⟨n, t, p.result n⟩ ∈ (loop c p names t).2.2 ∧
        failed (p.result n) = false := by
  induction names with
  | nil => simp [loop]
  | cons m names ih =>
    rw [loop] at h ⊢
    split at h
    · rename_i hthis
      rw [if_pos hthis]
      obtain ⟨hinfo, hsent⟩ := ih h
      exact ⟨hinfo, List.forall_mem_cons.mpr ⟨fun hne => absurd hthis hne, hsent⟩⟩
    · rename_i hthis
      rw [if_neg hthis]
      dsimp only at h ⊢
      split at h
      · exact absurd h (by simp)
      · rename_i hf
        rw [if_neg hf]
        obtain ⟨hinfo, hsent⟩ := ih h
        refine ⟨hinfo, List.forall_mem_cons.mpr ⟨fun _ => ⟨by simp, by simpa using hf⟩, ?_⟩⟩
        intro n hn hne
        exact ⟨List.mem_cons_of_mem _ (hsent n hn hne).1, (hsent n hn hne).2⟩

theorem order_nodup (p : Pass) (t : ClusterInfo) : (p.order (nodeNames t)).Nodup :=
  (p.perm _).nodup_iff.mpr t.entries_nodup

/-- What is left after a loop. -/
theorem runLoop_get (c : Conf) (p : Pass) (t : ClusterInfo) (n : NodeName) :
    (runLoop c p t).info.get n =
      if n ≠ c.thisNodeName ∧ failed (p.result n) = true then none else t.get n := by
  rw [runLoop]
  dsimp only
  rw [loop_get c p (order_nodup p t)]
  by_cases hn : t.get n = none
  · simp [hn]
  · simp [(p.perm _).mem_iff, mem_nodeNames, hn]

theorem others_subset (c : Conf) (p : Pass) (t : ClusterInfo) :
    others c (runLoop c p t).info ⊆ others c t := by
  intro n hn
  rw [mem_others, runLoop_get] at hn
  rw [mem_others]
  refine ⟨hn.1, fun hnone => hn.2 ?_⟩
  rw [hnone, ite_self]

/-- **A loop that goes again has removed a node.** -/
theorem others_ssubset {c : Conf} {p : Pass} {t : ClusterInfo}
    (h : (runLoop c p t).syncAgain = true) :
    others c (runLoop c p t).info ⊂ others c t := by
  obtain ⟨n, hn, hthis, hf⟩ := (loop_syncAgain c p _ t).mp h
  rw [(p.perm _).mem_iff, mem_nodeNames] at hn
  refine ⟨others_subset c p t, fun hsub => ?_⟩
  have hmem := mem_others.mp (hsub (mem_others.mpr ⟨hthis, hn⟩))
  rw [runLoop_get, if_pos ⟨hthis, hf⟩] at hmem
  exact hmem.2 rfl

/-! ## The broadcast -/

/-- Each loop starts with what the one before has left, which is less than that had. -/
def Shrinks (c : Conf) : ClusterInfo → List Looped → Prop
  | _, [] => True
  | t, x :: xs => x.start = t ∧
      (xs ≠ [] → others c x.info ⊂ others c t) ∧ Shrinks c x.info xs

/-- What is left in the end, its file, and the calls of the last loop. -/
structure Converged (c : Conf) (t : ClusterInfo) (r : Broadcast) : Prop where
  self : r.clusterInfo.get c.thisNodeName = t.get c.thisNodeName
  file : r.file = configText r.clusterInfo
  shrinks : Shrinks c t r.loops
  synced : r.raised = false → ∃ x, r.loops.getLast? = some x ∧
    ∀ n, n ≠ c.thisNodeName → r.clusterInfo.get n ≠ none → ∃ call ∈ x.sent,
      call.node = n ∧ runTimeout call.result = (false, true) ∧ call.info = r.clusterInfo

theorem runTimeout_of_not_failed {r : Option CallResult} (h : failed r = false) :
    runTimeout r = (false, true) := by
  unfold failed at h
  simp only [Bool.or_eq_false_iff, Bool.not_eq_false'] at h
  exact Prod.ext h.1 h.2

theorem broadcast_converged {c : Conf} {rejects : Bytes → Bool} {ps : List Pass}
    {t : ClusterInfo} {r : Broadcast} (h : broadcast c rejects ps t = some r) :
    Converged c t r := by
  induction ps generalizing t r with
  | nil => exact absurd h (by simp [broadcast])
  | cons p ps ih =>
    have hself : (runLoop c p t).info.get c.thisNodeName = t.get c.thisNodeName := by
      rw [runLoop_get, if_neg (by simp)]
    rw [broadcast] at h
    split at h
    · obtain rfl := Option.some.inj h
      exact ⟨hself, rfl, ⟨rfl, by simp, trivial⟩, by simp⟩
    · split at h
      · rename_i hagain
        obtain ⟨r', hr', rfl⟩ := Option.map_eq_some_iff.mp h
        have hrest := ih hr'
        refine ⟨hrest.self.trans hself, hrest.file,
          ⟨rfl, fun _ => others_ssubset hagain, hrest.shrinks⟩, fun hraised => ?_⟩
        obtain ⟨x, hx, hsent⟩ := hrest.synced hraised
        refine ⟨x, ?_, hsent⟩
        cases hl : r'.loops with
        | nil => rw [hl] at hx; exact absurd hx (by simp)
        | cons y ys =>
          rw [hl] at hx
          rw [List.getLast?_cons_cons]
          exact hx
      · rename_i hagain
        obtain rfl := Option.some.inj h
        have hagain' : (loop c p (p.order (nodeNames t)) t).2.1 = false := by
          simpa [runLoop] using hagain
        obtain ⟨hinfo, hsent⟩ := loop_sent hagain'
        refine ⟨hself, rfl, ⟨rfl, by simp, trivial⟩, fun _ => ⟨_, rfl, fun n hthis hn => ?_⟩⟩
        have hn' : n ∈ p.order (nodeNames t) := by
          rw [(p.perm _).mem_iff, mem_nodeNames]
          change (loop c p (p.order (nodeNames t)) t).1.get n ≠ none at hn
          rwa [hinfo] at hn
        obtain ⟨hmem, hf⟩ := hsent n hn' hthis
        exact ⟨_, hmem, rfl, runTimeout_of_not_failed hf, hinfo.symm⟩

/-- `t'` is what is left of `t` when some nodes other than the master are removed. -/
def Part (c : Conf) (t' t : ClusterInfo) : Prop :=
  ∀ n, t'.get n = t.get n ∨ (n ≠ c.thisNodeName ∧ t'.get n = none)

theorem Part.trans {c : Conf} {t t' t'' : ClusterInfo} (h : Part c t'' t') (h' : Part c t' t) :
    Part c t'' t := by
  intro n
  rcases h n with hn | hn
  · rw [hn]
    exact h' n
  · exact .inr hn

theorem runLoop_part (c : Conf) (p : Pass) (t : ClusterInfo) :
    Part c (runLoop c p t).info t := by
  intro n
  rw [runLoop_get]
  split
  · rename_i h
    exact .inr ⟨h.1, rfl⟩
  · exact .inl rfl

/-- What a broadcast leaves, and when it raises. -/
theorem broadcast_part {c : Conf} {rejects : Bytes → Bool} {ps : List Pass}
    {t : ClusterInfo} {r : Broadcast} (h : broadcast c rejects ps t = some r) :
    Part c r.clusterInfo t ∧ (r.raised = true → rejects (configText r.clusterInfo) = true) := by
  induction ps generalizing t r with
  | nil => exact absurd h (by simp [broadcast])
  | cons p ps ih =>
    rw [broadcast] at h
    split at h
    · rename_i hrejects
      obtain rfl := Option.some.inj h
      exact ⟨runLoop_part c p t, fun _ => hrejects⟩
    · split at h
      · obtain ⟨r', hr', rfl⟩ := Option.map_eq_some_iff.mp h
        obtain ⟨hpart, hraised⟩ := ih hr'
        exact ⟨hpart.trans (runLoop_part c p t), hraised⟩
      · obtain rfl := Option.some.inj h
        exact ⟨runLoop_part c p t, fun hr => absurd hr (by simp)⟩

/-- A pass more than there are other nodes is enough. -/
theorem broadcast_isSome (c : Conf) (rejects : Bytes → Bool) {ps : List Pass} {t : ClusterInfo}
    (h : (others c t).card < ps.length) : ∃ r, broadcast c rejects ps t = some r ∧
      r.loops.length ≤ (others c t).card + 1 := by
  induction ps generalizing t with
  | nil => exact absurd h (by simp)
  | cons p ps ih =>
    rw [broadcast]
    split
    · exact ⟨_, rfl, by simp⟩
    · split
      · rename_i hagain
        have hlt := Finset.card_lt_card (others_ssubset hagain)
        obtain ⟨r, hr, hlen⟩ := ih (t := (runLoop c p t).info) (by simp at h; omega)
        refine ⟨_, by rw [hr]; rfl, ?_⟩
        rw [List.length_cons]
        omega
      · exact ⟨_, rfl, by simp⟩

/-- **A broadcast ends and converges**, however its calls end. -/
theorem broadcast_converges (c : Conf) (rejects : Bytes → Bool) (t : ClusterInfo)
    (ps : List Pass) (h : (others c t).card < ps.length) :
    ∃ r, broadcast c rejects ps t = some r ∧ r.loops.length ≤ (others c t).card + 1 ∧
      Converged c t r := by
  obtain ⟨r, hr, hlen⟩ := broadcast_isSome c rejects h
  exact ⟨r, hr, hlen, broadcast_converged hr⟩

theorem perm_id (names : List NodeName) : (id names).Perm names := .refl _

/-- A call to `gamed1` does not return in time, calls to other nodes succeed. -/
def losingGamed1 : Pass :=
  ⟨id, perm_id, fun n => if n = bytes "gamed1" then none else some (.returned true)⟩

/-- `firstMap` with a third node. -/
def secondMap : ClusterInfo :=
  firstMap.set (bytes "gamed1") ⟨bytes "10.0.0.3", .int 2529, some 100⟩

theorem broadcast_converges_losingGamed1 :
    (∃ r, broadcast masterConf (fun _ => false) (List.replicate 3 losingGamed1) secondMap =
        some r ∧ r.loops.length ≤ (others masterConf secondMap).card + 1 ∧
        Converged masterConf secondMap r) ∧
      (broadcast masterConf (fun _ => false) (List.replicate 3 losingGamed1) secondMap).map
        (fun r => (r.loops.length, nodeNames r.clusterInfo)) =
          some (2, [bytes "game1", bytes "master"]) :=
  ⟨broadcast_converges _ _ _ _ (by decide +kernel), by decide +kernel⟩

end LsServer.Monitor
