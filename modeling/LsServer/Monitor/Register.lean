import LsServer.Lua.Value
import LsServer.Monitor.Broadcast

/-!
# A registration that nobody disturbs (MonitorPublish.lua)

`response.sync` with all values that a node can send, the cluster configuration file, and the error
exits. `updateClusterConfig` opens the file with `w+`, which truncates it. Where it raises before
`f:close`, the C library has written the first `flushed` bytes of what it was given, any number of
them. The entries of `clusterInfo` itself come from registrations that succeeded, so their texts
can be concatenated.

Only the exit by a negative `checkNodeAlive` writes the file again.

Source: MonitorPublish.lua `response.sync` 64-81; Common.lua `updateClusterConfig` 14-34; ltable.c
`luaH_newkey` for the keys that raise; lauxlib.c and liolib.c for `io.open` with `w+`.

* `Outcome` is what `sync` does not decide: how much of an unclosed file is written, whether the
  node answers, the time, and the passes of the broadcast.
* `concat` and `toNumber` are the concatenation and `tonumber` for all values that a message can
  carry.
* A name that is no text cannot be sorted with that of the master, and raises at the first line of
  the file; an ip or a port that cannot be written raises at the line of the node.
* `Master.FailsSafe`: every `sync` that does not return `true` leaves the map and the file as they
  were.

The condition `Master.Restores` is on the arguments, the map and what `clusterd` refuses. It is
hardly ever met by arguments that raise: the file is truncated before they do.

Results:
* `Master.sync_ends`: a registration ends;
* `Master.sync_restores_iff`: for which arguments every failure leaves the map and the file as they
  were.

Out of scope: what an abandoned file writes when it is collected, after the `sync` has ended.
-/

namespace LsServer.Monitor

open LsServer.Lib LsServer.Lua LsServer.Cluster

/-- The master: `clusterInfo`, in which `init` has put the master itself, and the file. -/
structure Master (c : Conf) where
  clusterInfo : ClusterInfo
  file : Bytes
  self : clusterInfo.get c.thisNodeName ≠ none

/-- What is not in the hands of `sync`: how much of an open file is written, `checkNodeAlive`,
`os.time()`, and the loops of the broadcast. -/
structure Outcome where
  flushed : Nat
  alive : Bool
  now : Nat
  passes : List Pass

/-- How `sync` ends. -/
inductive SyncEnd
  | returned (ok : Bool)
  | raised
  deriving DecidableEq

/-- The master afterwards. -/
structure SyncResult where
  clusterInfo : ClusterInfo
  file : Bytes
  ending : SyncEnd

/-- A value in a concatenation. -/
def concat : Value → Option Bytes
  | .string s => some s
  | .number n => some (numberText n)
  | _ => none

/-- `tonumber(v)`. -/
def toNumber : Value → Option LuaNumber
  | .string s => str2num s
  | .number n => some n
  | _ => none

/-- `nil` and NaN cannot be assigned to (ltable.c `luaH_newkey`). -/
def isKey : Value → Bool
  | .nil => false
  | .number (.nan _) => false
  | _ => true

/-- The lines before the one of `name`. -/
def linesBefore (t : ClusterInfo) (name : NodeName) : Bytes :=
  ((clusterNodeKey t).filter fun n => strLe n name ∧ n ≠ name).flatMap (configLine t)

/-- `response.sync`; `none` if the broadcast needs more loops than given. -/
def Master.sync {c : Conf} (m : Master c) (rejects : Bytes → Bool) (o : Outcome)
    (remoteName remoteIp remotePort : Value) : Option SyncResult :=
  if isKey remoteName = false then some ⟨m.clusterInfo, m.file, .raised⟩
  else
    match remoteName with
    | .string name =>
      match concat remoteIp, toNumber remotePort with
      | some ip, some port =>
        let tmpText := configText (m.clusterInfo.set name ⟨ip, port, none⟩)
        if rejects tmpText then some ⟨m.clusterInfo, tmpText, .raised⟩
        else if o.alive then
          (broadcast c rejects o.passes (m.clusterInfo.set name ⟨ip, port, some o.now⟩)).map
            fun r => ⟨r.clusterInfo, r.file, if r.raised then .raised else .returned true⟩
        else
          let text := configText m.clusterInfo
          some ⟨m.clusterInfo, text, if rejects text then .raised else .returned false⟩
      -- the concatenation raises at the line of the node
      | _, _ =>
        let written := configHead ++ linesBefore m.clusterInfo name
        some ⟨m.clusterInfo, written.take o.flushed, .raised⟩
    -- `table.sort` compares it with the name of the master
    | _ => some ⟨m.clusterInfo, configHead.take o.flushed, .raised⟩

/-- Nothing has changed, and the file is the one of the map. -/
structure Restored {c : Conf} (m : Master c) (r : SyncResult) : Prop where
  clusterInfo : ∀ n, r.clusterInfo.get n = m.clusterInfo.get n
  file : r.file = configText m.clusterInfo

/-- The arguments whose failures leave nothing behind. -/
def Master.Restores {c : Conf} (m : Master c) (rejects : Bytes → Bool)
    (remoteName remoteIp remotePort : Value) : Prop :=
  if isKey remoteName = false then m.file = configText m.clusterInfo
  else ∃ name ip port, remoteName = .string name ∧ concat remoteIp = some ip ∧
    toNumber remotePort = some port ∧
    let tmpText := configText (m.clusterInfo.set name ⟨ip, port, none⟩)
    if rejects tmpText then tmpText = configText m.clusterInfo
    else ∀ now t, Part c t (m.clusterInfo.set name ⟨ip, port, some now⟩) →
      rejects (configText t) = true → ∀ n, t.get n = m.clusterInfo.get n

variable {c : Conf} {m : Master c} {rejects : Bytes → Bool}

/-! ## The cases of `sync` -/

theorem Master.sync_of_not_key {o : Outcome} {remoteName : Value} (h : isKey remoteName = false)
    (remoteIp remotePort : Value) : m.sync rejects o remoteName remoteIp remotePort =
      some ⟨m.clusterInfo, m.file, .raised⟩ := by
  unfold Master.sync
  exact if_pos h

theorem Master.sync_of_entry {name : NodeName} {ip : Bytes} {port : LuaNumber} {o : Outcome}
    {remoteIp remotePort : Value} (hip : concat remoteIp = some ip)
    (hport : toNumber remotePort = some port) :
    m.sync rejects o (.string name) remoteIp remotePort =
      let tmpText := configText (m.clusterInfo.set name ⟨ip, port, none⟩)
      if rejects tmpText then some ⟨m.clusterInfo, tmpText, .raised⟩
      else if o.alive then
        (broadcast c rejects o.passes (m.clusterInfo.set name ⟨ip, port, some o.now⟩)).map
          fun r => ⟨r.clusterInfo, r.file, if r.raised then .raised else .returned true⟩
      else
        let text := configText m.clusterInfo
        some ⟨m.clusterInfo, text, if rejects text then .raised else .returned false⟩ := by
  unfold Master.sync
  rw [if_neg (by simp [isKey]), hip, hport]

/-- The arguments for which `updateClusterConfig` writes a file. -/
def IsEntry (remoteName remoteIp remotePort : Value) : Prop :=
  ∃ name ip port, remoteName = .string name ∧ concat remoteIp = some ip ∧
    toNumber remotePort = some port

/-- In the other cases it leaves a part of one. -/
theorem Master.sync_of_not_entry (m : Master c) (rejects : Bytes → Bool)
    {remoteName remoteIp remotePort : Value}
    (hkey : isKey remoteName = true) (h : ¬ IsEntry remoteName remoteIp remotePort) :
    ∃ written : Bytes, ∀ o, m.sync rejects o remoteName remoteIp remotePort =
      some ⟨m.clusterInfo, written.take o.flushed, .raised⟩ := by
  unfold Master.sync
  simp only [hkey, Bool.true_eq_false, if_false]
  cases remoteName with
  | string name =>
    dsimp only
    cases hip : concat remoteIp with
    | none => exact ⟨_, fun o => rfl⟩
    | some ip =>
      cases hport : toNumber remotePort with
      | none => exact ⟨_, fun o => rfl⟩
      | some port => exact absurd ⟨name, ip, port, rfl, hip, hport⟩ h
  | nil => exact ⟨_, fun o => rfl⟩
  | boolean b => exact ⟨_, fun o => rfl⟩
  | number n => exact ⟨_, fun o => rfl⟩
  | object r => exact ⟨_, fun o => rfl⟩

/-! ## A registration ends -/

theorem others_set (t : ClusterInfo) (name : NodeName) (info : NodeInfo) :
    (others c (t.set name info)).card ≤ (others c t).card + 1 := by
  have hsub : others c (t.set name info) ⊆ insert name (others c t) := by
    intro n hn
    rw [mem_others, Table.get_set] at hn
    rw [Finset.mem_insert, mem_others]
    by_cases hname : n = name
    · exact .inl hname
    · rw [if_neg hname] at hn
      exact .inr hn
  exact (Finset.card_le_card hsub).trans (Finset.card_insert_le _ _)

/-- **A registration ends**: the broadcast may have one node more than there were. -/
theorem Master.sync_ends (m : Master c) (rejects : Bytes → Bool) (o : Outcome)
    (remoteName remoteIp remotePort : Value)
    (h : (others c m.clusterInfo).card + 1 < o.passes.length) :
    ∃ r, m.sync rejects o remoteName remoteIp remotePort = some r := by
  cases hkey : isKey remoteName with
  | false => exact ⟨_, Master.sync_of_not_key hkey remoteIp remotePort⟩
  | true =>
    by_cases hentry : IsEntry remoteName remoteIp remotePort
    · obtain ⟨name, ip, port, rfl, hip, hport⟩ := hentry
      rw [Master.sync_of_entry hip hport]
      dsimp only
      split
      · exact ⟨_, rfl⟩
      · split
        · obtain ⟨r, hr, -⟩ := broadcast_isSome c rejects
            ((others_set m.clusterInfo name ⟨ip, port, some o.now⟩).trans_lt h)
          exact ⟨_, by rw [hr]; rfl⟩
        · exact ⟨_, rfl⟩
    · obtain ⟨written, hwritten⟩ := m.sync_of_not_entry rejects hkey hentry
      exact ⟨_, hwritten o⟩

/-! ## What a failure leaves -/

theorem configText_ne_nil (t : ClusterInfo) : configText t ≠ [] :=
  List.append_ne_nil_of_left_ne_nil (by decide +kernel) _

/-- The loop in which just the calls to the nodes that `t` lacks fail. -/
def losing (t : ClusterInfo) : Pass :=
  ⟨id, perm_id, fun n => if t.get n = none then none else some (.returned true)⟩

theorem runLoop_losing {t t' : ClusterInfo} (h : Part c t' t) (n : NodeName) :
    (runLoop c (losing t') t).info.get n = t'.get n := by
  have hfailed : failed ((losing t').result n) = true ↔ t'.get n = none := by
    by_cases hn : t'.get n = none
    · simp [losing, hn, failed, runTimeout]
    · simp [losing, hn, failed, runTimeout]
  rw [runLoop_get]
  simp only [hfailed]
  rcases h n with hn | ⟨hthis, hn⟩
  · rw [← hn]
    split
    · rename_i hnone
      exact hnone.2.symm
    · rfl
  · rw [if_pos ⟨hthis, hn⟩, hn]

theorem hosts_congr {t t' : ClusterInfo} (h : ∀ n, t.get n = t'.get n) (n : NodeName) :
    hosts t n = hosts t' n := by
  rw [hosts, hosts, h]

/-- Each part of a map that `cluster.reload` raises for is what some broadcast leaves. -/
theorem exists_broadcast {t t' : ClusterInfo} (h : Part c t' t)
    (hrejects : rejects (configText t') = true) :
    ∃ b, broadcast c rejects [losing t'] t = some b ∧ b.raised = true ∧
      ∀ n, b.clusterInfo.get n = t'.get n := by
  have htext : configText (runLoop c (losing t') t).info = configText t' :=
    configText_congr (hosts_congr (runLoop_losing h))
  have hb : broadcast c rejects [losing t'] t = some ⟨(runLoop c (losing t') t).info,
      configText (runLoop c (losing t') t).info, [runLoop c (losing t') t], true⟩ := by
    rw [broadcast]
    exact if_pos (htext ▸ hrejects)
  exact ⟨_, hb, rfl, runLoop_losing h⟩

/-- A broadcast of the new map that raises. -/
theorem restored_of_broadcast {t : ClusterInfo} {ps : List Pass} {b : Broadcast}
    (hparts : ∀ t', Part c t' t → rejects (configText t') = true →
      ∀ n, t'.get n = m.clusterInfo.get n)
    (hb : broadcast c rejects ps t = some b) (hraised : b.raised = true) :
    Restored m ⟨b.clusterInfo, b.file, .raised⟩ := by
  obtain ⟨hpart, hrejects⟩ := broadcast_part hb
  have hget := hparts _ hpart (hrejects hraised)
  exact ⟨hget, (broadcast_converged hb).file.trans (configText_congr (hosts_congr hget))⟩

/-- Nothing that `sync` can meet leaves the master changed without success. -/
def Master.FailsSafe (m : Master c) (rejects : Bytes → Bool)
    (remoteName remoteIp remotePort : Value) : Prop :=
  ∀ o r, m.sync rejects o remoteName remoteIp remotePort = some r →
    r.ending ≠ .returned true → Restored m r

theorem Master.failsSafe_of_restores {remoteName remoteIp remotePort : Value}
    (h : m.Restores rejects remoteName remoteIp remotePort) :
    m.FailsSafe rejects remoteName remoteIp remotePort := by
  intro o r hr hending
  unfold Master.Restores at h
  split at h
  · rename_i hkey
    rw [Master.sync_of_not_key hkey] at hr
    obtain rfl := Option.some.inj hr
    exact ⟨fun _ => rfl, h⟩
  · obtain ⟨name, ip, port, rfl, hip, hport, h⟩ := h
    rw [Master.sync_of_entry hip hport] at hr
    dsimp only at h hr
    split at hr
    · rename_i hrejects
      rw [if_pos hrejects] at h
      obtain rfl := Option.some.inj hr
      exact ⟨fun _ => rfl, h⟩
    · rename_i hrejects
      rw [if_neg hrejects] at h
      split at hr
      · obtain ⟨b, hb, rfl⟩ := Option.map_eq_some_iff.mp hr
        dsimp only at hending
        cases hraised : b.raised with
        | true => exact restored_of_broadcast (h o.now) hb hraised
        | false => exact absurd (by rw [hraised]; rfl) hending
      · obtain rfl := Option.some.inj hr
        exact ⟨fun _ => rfl, rfl⟩

theorem Master.restores_of_failsSafe {remoteName remoteIp remotePort : Value}
    (h : m.FailsSafe rejects remoteName remoteIp remotePort) :
    m.Restores rejects remoteName remoteIp remotePort := by
  unfold Master.Restores
  cases hkey : isKey remoteName with
  | false =>
    rw [if_pos rfl]
    exact (h ⟨0, false, 0, []⟩ _ (Master.sync_of_not_key hkey _ _) (by simp)).file
  | true =>
    rw [if_neg (by simp)]
    by_cases hentry : IsEntry remoteName remoteIp remotePort
    · obtain ⟨name, ip, port, rfl, hip, hport⟩ := hentry
      refine ⟨name, ip, port, rfl, hip, hport, ?_⟩
      unfold Master.FailsSafe at h
      simp only [Master.sync_of_entry hip hport] at h
      dsimp only
      split
      · rename_i hrejects
        simp only [hrejects, if_true] at h
        exact (h ⟨0, false, 0, []⟩ _ rfl (by simp)).file
      · rename_i hrejects
        intro now t ht hpart n
        obtain ⟨b, hb, hraised, hget⟩ := exists_broadcast ht hpart
        have hend := h ⟨0, true, now, [losing t]⟩ ⟨b.clusterInfo, b.file, .raised⟩
          (by rw [if_neg hrejects, if_pos rfl, hb, Option.map_some, if_pos hraised]) (by simp)
        rw [← hget, hend.clusterInfo]
    · -- nothing of the file has reached the disk yet
      obtain ⟨written, hwritten⟩ := m.sync_of_not_entry rejects hkey hentry
      have hend := h ⟨0, false, 0, []⟩ _ (hwritten _) (by simp)
      exact absurd hend.file.symm (configText_ne_nil _)

/-- **When a failed registration leaves nothing behind.** -/
theorem Master.sync_restores_iff (m : Master c) (rejects : Bytes → Bool)
    (remoteName remoteIp remotePort : Value) :
    m.FailsSafe rejects remoteName remoteIp remotePort ↔
      m.Restores rejects remoteName remoteIp remotePort :=
  ⟨Master.restores_of_failsSafe, Master.failsSafe_of_restores⟩

/-- The master with `firstMap` and its file. -/
def firstMaster : Master masterConf where
  clusterInfo := firstMap
  file := configText firstMap
  self := by decide +kernel

/-- A `cluster.reload` that takes assignments only. -/
def rejectsOther (text : Bytes) : Bool := (assignments text).isNone

/-- **A registration that destroys the file**: the port is not a number, so the file is open when
`updateClusterConfig` raises. A name that is not an identifier stays in the file. -/
theorem truncated_file :
    (firstMaster.sync rejectsOther ⟨0, false, 0, []⟩ (.string (bytes "game2"))
        (.string (bytes "10.0.0.3")) (.string (bytes "x"))).map (fun r => (r.ending, r.file)) =
      some (.raised, []) ∧
    (firstMaster.sync rejectsOther ⟨0, false, 0, []⟩ (.string (bytes "game-2"))
        (.string (bytes "10.0.0.3")) (.string (bytes "2529"))).map (fun r => (r.ending, r.file)) =
      some (.raised, bytes ("__nowaiting = true\ngame-2=\"10.0.0.3:2529\"\n" ++
        "game1=\"10.0.0.2:2528\"\nmaster=\"10.0.0.1:2527\"\n")) ∧
    ¬ firstMaster.FailsSafe rejectsOther (.string (bytes "game2")) (.string (bytes "10.0.0.3"))
        (.string (bytes "x")) := by
  have htruncated : (firstMaster.sync rejectsOther ⟨0, false, 0, []⟩ (.string (bytes "game2"))
      (.string (bytes "10.0.0.3")) (.string (bytes "x"))).map (fun r => (r.ending, r.file)) =
        some (.raised, []) := by
    decide +kernel
  refine ⟨htruncated, by decide +kernel, fun h => ?_⟩
  obtain ⟨r, hr, hend⟩ := Option.map_eq_some_iff.mp htruncated
  obtain ⟨hending, hfile⟩ := Prod.mk.inj hend
  have hrestored := h _ _ hr (by rw [hending]; simp)
  exact configText_ne_nil _ (hrestored.file.symm.trans hfile)

end LsServer.Monitor
