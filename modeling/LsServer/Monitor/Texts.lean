import LsServer.Monitor.Raw
import LsServer.Monitor.Registration

/-!
# The service for texts (MonitorPublish.lua)

`Monitor.machine` is the service for nodes that send texts. It leaves out two places where the
source raises: that the concatenation in `updateClusterConfig(clusterInfo)` does, and
`nodeInfo.last + 6`. Here every run of it is a run of `Raw.machine`, which has both, so neither can
be reached.

A call to a node is a sequence of events there and one `resume` here.

Source: as in `Publish` and `Raw`, which are about the same service.

* `SameMap` relates the maps: a name and an ip are texts, a port is a number, and `last` is the same
  (`entryOf`).
* `SameTask` relates the coroutines, `phaseOf` and `walkOf` forget the call in flight and its
  result.
* `Follows` is a simulation with stutter: the steps of a call (`search`, `complete`, `reply`,
  `raise`) do nothing in `Raw.machine`.

So the results of `Raw` hold for the service with texts, and what was left out of it is nothing.

Results:
* `step_follows`: `Raw.machine` follows every step;
* `raw_of_run`: it follows every run, and every `sync` returns the same;
* `last_of_run`: every node but the master has a `last`.
-/

namespace LsServer.Monitor.Raw

open LsServer.Lib LsServer.Lua LsServer.Cluster

/-! ## The relation -/

/-- An entry with its values in Lua. -/
def entryOf (info : Monitor.NodeInfo) : NodeInfo := ⟨.string info.ip, some info.port, info.last⟩

/-- The map has the texts as keys. -/
structure SameMap (t : Monitor.ClusterInfo) (t' : ClusterInfo) : Prop where
  text : ∀ n, t'.get (.string n) = (t.get n).map entryOf
  key : ∀ v, t'.get v ≠ none → ∃ n, v = .string n

def phaseOf : Monitor.WalkPhase → WalkPhase
  | .next lost => .next lost
  | .calling n _ => .calling (.string n)
  | .reloading => .reloading

def walkOf (w : Monitor.Walk) : Walk :=
  ⟨w.visited.map .string, w.start, w.syncAgain, phaseOf w.phase⟩

/-- A coroutine. `Monitor.Task` has the port as a number. -/
inductive SameTask : Monitor.Task → Task → Prop
  | registering {name : NodeName} {ip text : Bytes} {port : LuaNumber}
    (h : str2num text = some port) :
    SameTask (.registering name ip port) (.registering (.string name) (.string ip) (.string text))
  | querying {name : NodeName} {ip text : Bytes} {port : LuaNumber}
    (h : str2num text = some port) :
    SameTask (.querying name ip port) (.querying (.string name) (.string ip) (.string text))
  | refusing : SameTask .refusing .refusing
  | broadcasting (caller : Caller) (w : Monitor.Walk) :
    SameTask (.broadcasting caller w) (.broadcasting caller.isSome (walkOf w))

/-- The same state, but for the calls. -/
structure Same (s : Monitor.State) (r : State) : Prop where
  map : SameMap s.clusterInfo r.clusterInfo
  version : r.version = s.version
  insertedAt : r.insertedAt = s.insertedAt
  tasks : ∀ k, Option.Rel SameTask (s.tasks.get k) (r.tasks.get k)
  nextTask : r.nextTask = s.nextTask
  running : r.running = s.running

/-- What a `sync` returns. -/
def returned : Act → Option (TaskId × Bool)
  | .returned k ok => some (k, ok)
  | .raised _ _ => none

def returnedOf : Monitor.Act → Option (TaskId × Bool)
  | .returned k ok => some (k, ok)
  | .raised _ => none

variable {c : Conf} {s : Monitor.State} {r : State} {k : TaskId}

/-! ## Maps -/

variable {t : Monitor.ClusterInfo} {t' : ClusterInfo}

theorem SameMap.get_eq_none (h : SameMap t t') {n : NodeName} :
    t'.get (.string n) = none ↔ t.get n = none := by
  rw [h.text, Option.map_eq_none_iff]

theorem SameMap.set (h : SameMap t t') (n : NodeName) (info : Monitor.NodeInfo) :
    SameMap (t.set n info) (t'.set (.string n) (entryOf info)) := by
  refine ⟨fun m => ?_, fun v hv => ?_⟩
  · rw [Table.get_set, Table.get_set, h.text]
    simp only [Value.string.injEq]
    split <;> rfl
  · rw [Table.get_set] at hv
    split at hv
    · rename_i heq
      exact ⟨n, heq⟩
    · exact h.key v hv

theorem SameMap.del (h : SameMap t t') (n : NodeName) :
    SameMap (t.del n) (t'.del (.string n)) := by
  refine ⟨fun m => ?_, fun v hv => ?_⟩
  · rw [Table.get_del, Table.get_del, h.text]
    simp only [Value.string.injEq]
    split <;> rfl
  · rw [Table.get_del] at hv
    split at hv
    · exact absurd rfl hv
    · exact h.key v hv

/-- The entries are the same, in some order. -/
theorem SameMap.mem_entries (h : SameMap t t') {e : Value × NodeInfo} :
    e ∈ t'.entries ↔ ∃ n info, (n, info) ∈ t.entries ∧ e = (.string n, entryOf info) := by
  obtain ⟨v, info'⟩ := e
  rw [Table.mem_entries]
  constructor
  · intro hv
    obtain ⟨n, rfl⟩ := h.key v (by rw [hv]; simp)
    rw [h.text] at hv
    obtain ⟨info, hinfo, rfl⟩ := Option.map_eq_some_iff.mp hv
    exact ⟨n, info, Table.mem_entries.mpr hinfo, rfl⟩
  · rintro ⟨n, info, hn, heq⟩
    obtain ⟨rfl, rfl⟩ := Prod.mk.inj heq
    rw [h.text, Table.mem_entries.mp hn]
    rfl

/-! ## Operations -/

theorem Same.task (h : Same s r) {t : Monitor.Task} (hk : s.tasks.get k = some t) :
    ∃ t', r.tasks.get k = some t' ∧ SameTask t t' := by
  have hrel := h.tasks k
  rw [hk] at hrel
  generalize r.tasks.get k = u at hrel ⊢
  cases hrel with
  | some ht => exact ⟨_, rfl, ht⟩

theorem Same.setTask (h : Same s r) {t : Monitor.Task} {t' : Task} (ht : SameTask t t') :
    Same (Monitor.setTask s k t) (setTask r k t') := by
  refine ⟨h.map, h.version, h.insertedAt, fun q => ?_, h.nextTask, ?_⟩
  · change Option.Rel SameTask ((s.tasks.set k t).get q) ((r.tasks.set k t').get q)
    rw [Table.get_set, Table.get_set]
    split
    · exact .some ht
    · exact h.tasks q
  · cases ht with
    | broadcasting caller w =>
      obtain ⟨visited, start, syncAgain, phase⟩ := w
      cases phase <;> rfl
    | _ => rfl

theorem Same.endTask (h : Same s r) : Same (Monitor.endTask s k) (endTask r k) := by
  refine ⟨h.map, h.version, h.insertedAt, fun q => ?_, h.nextTask, rfl⟩
  change Option.Rel SameTask ((s.tasks.del k).get q) ((r.tasks.del k).get q)
  rw [Table.get_del, Table.get_del]
  split
  · exact .none
  · exact h.tasks q

theorem Same.succ (h : Same s r) : Same { s with nextTask := s.nextTask + 1 }
    { r with nextTask := r.nextTask + 1 } :=
  ⟨h.map, h.version, h.insertedAt, h.tasks, congrArg (· + 1) h.nextTask, h.running⟩

theorem Same.broadcast (h : Same s r) (caller : Caller) :
    Same (Monitor.broadcastClusterInfo s k caller) (broadcastClusterInfo r k caller.isSome) := by
  unfold broadcastClusterInfo Monitor.broadcastClusterInfo
  rw [h.version]
  exact h.setTask (.broadcasting caller ⟨[], s.version, false, .next false⟩)

theorem Same.store (h : Same s r) (n : NodeName) (info : Monitor.NodeInfo) :
    Same (Monitor.store s n info) (store r (.string n) (entryOf info)) := by
  refine ⟨h.map.set n info, congrArg (· + 1) h.version, ?_, h.tasks, h.nextTask, h.running⟩
  dsimp only [Raw.store, Monitor.store]
  rw [h.version, h.insertedAt]
  simp only [h.map.get_eq_none]

theorem Same.remove (h : Same s r) (n : NodeName) :
    Same (Monitor.remove s n) (remove r (.string n)) := by
  unfold Raw.remove Monitor.remove
  by_cases hn : s.clusterInfo.get n = none
  · rw [if_pos hn, if_pos (h.map.get_eq_none.mpr hn)]
    exact h
  · rw [if_neg hn, if_neg (mt h.map.get_eq_none.mp hn)]
    exact ⟨h.map.del n, congrArg (· + 1) h.version, h.insertedAt, h.tasks, h.nextTask, h.running⟩

theorem Same.heartbeat (h : Same s r) (n : NodeName) (now : Nat) :
    Same (Monitor.heartbeat s n now) (heartbeat r (.string n) now) := by
  unfold Raw.heartbeat Monitor.heartbeat
  rw [h.map.text]
  cases hn : s.clusterInfo.get n with
  | none => exact h
  | some info =>
    exact ⟨h.map.set n { info with last := some now }, h.version, h.insertedAt, h.tasks, h.nextTask,
      h.running⟩

/-! ## `clusterHold` -/

/-- The nodes that the loop deletes. -/
def expired (c : Conf) (now : Nat) (es : List (Value × NodeInfo)) : List Value :=
  (es.filter fun e => e.1 ≠ .string c.thisNodeName ∧
    ∃ last, e.2.last = some last ∧ last + 6 < now).map Prod.fst

theorem holdLoop_eq (now : Nat) {es : List (Value × NodeInfo)}
    (hes : ∀ e ∈ es, GoodEntry c e.1 e.2) (r : State) (b : Bool) : holdLoop c now es r b =
      ((expired c now es).foldl remove r, some (b || !(expired c now es).isEmpty)) := by
  induction es generalizing r b with
  | nil => simp [holdLoop, expired]
  | cons e es ih =>
    obtain ⟨node, nodeInfo⟩ := e
    obtain ⟨hgood, hes⟩ := List.forall_mem_cons.mp hes
    rw [holdLoop]
    by_cases hnode : node = .string c.thisNodeName
    · rw [if_pos hnode, ih hes]
      simp [expired, hnode]
    · rw [if_neg hnode]
      cases hlast : nodeInfo.last with
      | none => exact absurd hlast (hgood.last hnode)
      | some last =>
        dsimp only
        by_cases hexp : last + 6 < now
        · rw [if_pos hexp, ih hes]
          simp [expired, hnode, hlast, hexp]
        · rw [if_neg hexp, ih hes]
          simp [expired, hnode, hlast, hexp]

theorem foldl_remove {vs : List Value} (hnodup : vs.Nodup)
    (hvs : ∀ v ∈ vs, r.clusterInfo.get v ≠ none) : ∃ t : ClusterInfo,
      vs.foldl remove r = { r with clusterInfo := t, version := r.version + vs.length } ∧
      ∀ v, t.get v = if v ∈ vs then none else r.clusterInfo.get v := by
  induction vs generalizing r with
  | nil => exact ⟨r.clusterInfo, rfl, by simp⟩
  | cons v vs ih =>
    obtain ⟨hv, hnodup⟩ := List.nodup_cons.mp hnodup
    obtain ⟨hget, hvs⟩ := List.forall_mem_cons.mp hvs
    have hremove : remove r v =
        { r with clusterInfo := r.clusterInfo.del v, version := r.version + 1 } := if_neg hget
    obtain ⟨t, heq, ht⟩ := ih (r := remove r v) hnodup fun u hu => by
      have hne : u ≠ v := fun huv => hv (huv ▸ hu)
      rw [hremove]
      dsimp only
      rw [Table.get_del_ne hne]
      exact hvs u hu
    refine ⟨t, ?_, fun u => ?_⟩
    · rw [List.foldl_cons, heq, hremove, List.length_cons, Nat.add_assoc, Nat.add_comm 1]
    · rw [ht, hremove, Table.get_del]
      by_cases hu : u ∈ vs <;> by_cases huv : u = v <;> simp [hu, huv]

theorem foldl_remove_nextTask (vs : List Value) (r : State) (n : TaskId) :
    vs.foldl remove { r with nextTask := n } = { vs.foldl remove r with nextTask := n } := by
  induction vs generalizing r with
  | nil => rfl
  | cons v vs ih =>
    have hremove : remove { r with nextTask := n } v = { remove r v with nextTask := n } := by
      unfold remove
      dsimp only
      split <;> rfl
    rw [List.foldl_cons, hremove, ih, List.foldl_cons]

theorem Same.foldl_remove (h : Same s r) (names : List NodeName) :
    Same (names.foldl Monitor.remove s) ((names.map Value.string).foldl Raw.remove r) := by
  induction names generalizing s r with
  | nil => exact h
  | cons n names ih => exact ih (Same.remove h n)

/-- The order in which nodes are deleted makes no difference. -/
theorem Same.foldl_perm (h : Same s r) {names : List NodeName} {vs : List Value}
    (hnodup : vs.Nodup) (hvs : ∀ v ∈ vs, r.clusterInfo.get v ≠ none)
    (hperm : vs.Perm (names.map .string)) :
    Same (names.foldl Monitor.remove s) (vs.foldl Raw.remove r) := by
  obtain ⟨t, heq, ht⟩ := Raw.foldl_remove hnodup hvs
  obtain ⟨u, heq', hu⟩ := Raw.foldl_remove (r := r) (hperm.nodup_iff.mp hnodup) fun v hv =>
    hvs v (hperm.mem_iff.mpr hv)
  have hsame := h.foldl_remove names
  have hget : ∀ v, t.get v = u.get v := fun v => by
    rw [ht, hu]
    simp only [hperm.mem_iff]
  rw [heq'] at hsame
  rw [heq, hperm.length_eq]
  refine ⟨⟨fun n => ?_, fun v hv => ?_⟩, hsame.version, hsame.insertedAt, hsame.tasks,
    hsame.nextTask, hsame.running⟩
  · exact (hget _).trans (hsame.map.text n)
  · exact hsame.map.key v fun hnone => hv ((hget v).trans hnone)

theorem expired_nodup (now : Nat) (t : ClusterInfo) : (expired c now t.entries).Nodup :=
  t.entries_nodup.sublist (List.filter_sublist.map Prod.fst)

theorem mem_expired {now : Nat} {v : Value} : v ∈ expired c now t'.entries ↔
    v ≠ .string c.thisNodeName ∧ ∃ info last, t'.get v = some info ∧ info.last = some last ∧
      last + 6 < now := by
  unfold expired
  constructor
  · intro h
    obtain ⟨⟨v', info⟩, he, rfl⟩ := List.mem_map.mp h
    obtain ⟨hmem, hp⟩ := List.mem_filter.mp he
    obtain ⟨hne, last, hlast, hlt⟩ := of_decide_eq_true hp
    exact ⟨hne, info, last, Table.mem_entries.mp hmem, hlast, hlt⟩
  · rintro ⟨hne, info, last, hget, hlast, hlt⟩
    exact List.mem_map.mpr ⟨(v, info), List.mem_filter.mpr
      ⟨Table.mem_entries.mpr hget, decide_eq_true ⟨hne, last, hlast, hlt⟩⟩, rfl⟩

theorem Same.expired (h : Same s r) (now : Nat) :
    (expired c now r.clusterInfo.entries).Perm ((Monitor.expired c s now).map .string) := by
  have hnodup : (Monitor.expired c s now).Nodup :=
    s.clusterInfo.entries_nodup.sublist (List.filter_sublist.map Prod.fst)
  refine (List.perm_ext_iff_of_nodup (expired_nodup now _)
    (hnodup.map fun _ _ => Value.string.inj)).mpr fun v => ?_
  rw [mem_expired, List.mem_map]
  constructor
  · rintro ⟨hne, info, last, hget, hlast, hlt⟩
    obtain ⟨n, rfl⟩ := h.map.key v (by rw [hget]; simp)
    rw [h.map.text] at hget
    obtain ⟨info, hinfo, rfl⟩ := Option.map_eq_some_iff.mp hget
    exact ⟨n, Monitor.mem_expired.mpr
      ⟨fun hn => hne (congrArg Value.string hn), info, last, hinfo, hlast, hlt⟩, rfl⟩
  · rintro ⟨n, hn, rfl⟩
    obtain ⟨hne, info, last, hget, hlast, hlt⟩ := Monitor.mem_expired.mp hn
    refine ⟨fun heq => hne (Value.string.inj heq), entryOf info, last, ?_, hlast, hlt⟩
    rw [h.map.text, hget]
    rfl

theorem clusterHold_eq (hsafe : Safe c r) (now : Nat) : clusterHold c r now =
    let names := expired c now r.clusterInfo.entries
    if names = [] then (r, [])
    else (broadcastClusterInfo (names.foldl remove { r with nextTask := r.nextTask + 1 })
      r.nextTask false, []) := by
  have hgood : ∀ e ∈ r.clusterInfo.entries, GoodEntry c e.1 e.2 := fun e he =>
    hsafe.map.entry e.1 e.2 (Table.mem_entries.mp he)
  unfold clusterHold
  dsimp only
  rw [holdLoop_eq now hgood, Bool.false_or, foldl_remove_nextTask _ r (r.nextTask + 1)]
  cases expired c now r.clusterInfo.entries <;> rfl

theorem Same.healthy (h : Same s r) (hsafe : Safe c r) {now : Nat}
    (hnames : Monitor.expired c s now = []) : clusterHold c r now = (r, []) := by
  have hperm := h.expired (c := c) now
  rw [hnames] at hperm
  rw [clusterHold_eq hsafe]
  exact if_pos hperm.eq_nil

theorem Same.hold (h : Same s r) (hsafe : Safe c r) {now : Nat}
    (hnames : Monitor.expired c s now ≠ []) : ∃ r', clusterHold c r now = (r', []) ∧
      Same (Monitor.broadcastClusterInfo ((Monitor.expired c s now).foldl Monitor.remove
        { s with nextTask := s.nextTask + 1 }) s.nextTask none) r' := by
  have hperm := h.expired (c := c) now
  have hpresent : ∀ v ∈ Raw.expired c now r.clusterInfo.entries, r.clusterInfo.get v ≠ none := by
    intro v hv
    obtain ⟨-, info, -, hget, -⟩ := mem_expired.mp hv
    rw [hget]
    simp
  refine ⟨_, (clusterHold_eq hsafe now).trans (if_neg fun hnil => hnames ?_), ?_⟩
  · rw [hnil] at hperm
    exact List.map_eq_nil_iff.mp hperm.nil_eq.symm
  · have hsame := h.succ.foldl_perm (expired_nodup now _) hpresent hperm
    rw [h.nextTask] at hsame ⊢
    exact hsame.broadcast none

/-! ## Steps -/

theorem mem_visited {w : Monitor.Walk} {n : NodeName} :
    .string n ∈ (walkOf w).visited ↔ n ∈ w.visited :=
  List.mem_map_of_injective fun _ _ => Value.string.inj

theorem Same.disturbed (h : Same s r) (w : Monitor.Walk) :
    disturbed r (walkOf w) = Monitor.disturbed s w := by
  unfold Raw.disturbed Monitor.disturbed
  rw [h.insertedAt]
  rfl

theorem Same.canVisit (h : Same s r) (w : Monitor.Walk) (n : NodeName) :
    canVisit r (walkOf w) (.string n) = Monitor.canVisit s w n := by
  unfold Raw.canVisit Monitor.canVisit
  rw [h.disturbed, h.map.text, Option.isSome_map]
  simp only [mem_visited]

theorem Same.canEnd (h : Same s r) (w : Monitor.Walk) :
    canEnd r (walkOf w) = Monitor.canEnd s w := by
  unfold Raw.canEnd Monitor.canEnd
  rw [h.disturbed, Bool.eq_iff_iff]
  simp only [Bool.or_eq_true, List.all_eq_true, decide_eq_true_eq]
  refine or_congr_right ⟨fun hall e he => ?_, fun hall e he => ?_⟩
  · exact mem_visited.mp (hall (.string e.1, entryOf e.2)
      (h.map.mem_entries.mpr ⟨e.1, e.2, he, rfl⟩))
  · obtain ⟨n, info, hn, rfl⟩ := h.map.mem_entries.mp he
    exact mem_visited.mpr (hall (n, info) hn)

theorem Same.visit (h : Same s r) (caller : Caller) (w : Monitor.Walk) (n : NodeName) :
    Same (Monitor.visit c s k caller w n)
      (visit c r k caller.isSome (walkOf w) (.string n)) := by
  unfold Raw.visit Monitor.visit
  simp only [Value.string.injEq]
  split
  · exact h.setTask (.broadcasting caller
      { w with visited := n :: w.visited, phase := .next false })
  · have hcalls : Same { s with
        calls := s.calls.set s.nextCall ⟨n, none, false, none⟩
        nextCall := s.nextCall + 1 } r :=
      ⟨h.map, h.version, h.insertedAt, h.tasks, h.nextTask, h.running⟩
    exact hcalls.setTask (.broadcasting caller
      { w with visited := n :: w.visited, phase := .calling n s.nextCall })

theorem Same.afterCall (h : Same s r) (caller : Caller) (w : Monitor.Walk) (n : NodeName)
    (call : Call) : Same (Monitor.afterCall s k caller w n call)
      (afterCall r k caller.isSome (walkOf w) (.string n) (failed call.result)) := by
  have hlost : (r.clusterInfo.get (.string n)).isNone = (s.clusterInfo.get n).isNone := by
    rw [h.map.text, Option.isNone_map]
  unfold Raw.afterCall Monitor.afterCall
  rw [hlost]
  dsimp only
  split
  · exact (h.remove n).setTask (.broadcasting caller
      { w with syncAgain := true, phase := .next (s.clusterInfo.get n).isNone })
  · exact h.setTask (.broadcasting caller
      { w with phase := .next (s.clusterInfo.get n).isNone })

/-- What an `updateClusterConfig` for texts with this port does. -/
theorem config_text (hsafe : Safe c r) (name ip text : Bytes) : updateClusterConfig
    (r.clusterInfo.set (.string name) ⟨.string ip, toNumber (.string text), none⟩) = none ↔
      str2num text = none := by
  have hkey : ∀ v ∈ (r.clusterInfo.set (.string name)
      ⟨.string ip, toNumber (.string text), none⟩).entries.map Prod.fst, ∃ n, v = .string n := by
    intro v hv
    obtain ⟨info, hinfo⟩ := mem_keys.mp hv
    rw [Table.get_set] at hinfo
    split at hinfo
    · rename_i heq
      exact ⟨name, heq⟩
    · exact (hsafe.map.entry v info hinfo).name
  rw [← not_iff_not]
  refine updateClusterConfig_iff.trans ⟨fun h => ?_, fun h => ⟨?_, fun v info hv => ?_⟩⟩
  · exact (h.2 (.string name) _ (Table.get_set_self _ _ _)).2.2
  · refine List.pairwise_of_forall_mem_list fun a ha b hb => ?_
    obtain ⟨a, rfl⟩ := hkey a ha
    obtain ⟨b, rfl⟩ := hkey b hb
    rfl
  · rw [Table.get_set] at hv
    split at hv
    · rename_i heq
      rw [heq, ← Option.some.inj hv]
      exact ⟨by simp [concat], by simp [concat], h⟩
    · obtain ⟨⟨n, rfl⟩, hip, hport, -⟩ := hsafe.map.entry v info hv
      exact ⟨by simp [concat], hip, hport⟩

theorem Same.sync (h : Same s r) (hsafe : Safe c r) (name ip : Bytes) {text : Bytes}
    {port : LuaNumber} (hport : str2num text = some port) : ∃ r',
      sync r (.string name) (.string ip) (.string text) = (r', []) ∧
      Same (Monitor.setTask { s with nextTask := s.nextTask + 1 } s.nextTask
        (.registering name ip port)) r' := by
  have hconfig := mt (config_text hsafe name ip text).mp (by simp [hport])
  refine ⟨Raw.setTask { r with nextTask := r.nextTask + 1 } r.nextTask
    (.registering (.string name) (.string ip) (.string text)), ?_, ?_⟩
  · unfold Raw.sync
    rw [if_neg (by simp [isKey])]
    dsimp only
    split
    · rename_i hnone
      exact absurd hnone hconfig
    · rfl
  · have hsame := h.succ
    rw [h.nextTask] at hsame ⊢
    exact hsame.setTask (.registering hport)

/-- A port that is no number. -/
theorem sync_raises (hsafe : Safe c r) (name ip : Bytes) {text : Bytes}
    (hport : str2num text = none) : sync r (.string name) (.string ip) (.string text) =
      ({ r with nextTask := r.nextTask + 1 }, [.raised r.nextTask .candidate]) := by
  unfold sync
  rw [if_neg (by simp [isKey])]
  dsimp only
  rw [(config_text hsafe name ip text).mpr hport]

theorem writeConfig_of_safe (hsafe : Safe c r) (t : Task) :
    writeConfig r k t = (setTask r k t, []) := by
  unfold writeConfig
  split
  · rename_i hnone
    exact absurd hnone (updateClusterConfig_ne_none hsafe.map)
  · rfl

/-- From `r` the service comes to a state that is the same as `s`, and returns the same. -/
def Follows (c : Conf) (r : State) (s : Monitor.State) (acts : List Monitor.Act) : Prop :=
  ∃ out r', (machine c).Yields r out r' ∧ Same s r' ∧
    out.filterMap returned = acts.filterMap returnedOf

theorem Follows.skip (h : Same s r) : Follows c r s [] := ⟨[], r, .refl r, h, rfl⟩

theorem Follows.idle {acts : List Monitor.Act} {e : Event} {out : List Act} {r' : State}
    (hr : r.running = none) (he : stepIdle c r e = some (r', out)) (h : Same s r')
    (hout : out.filterMap returned = acts.filterMap returnedOf) : Follows c r s acts := by
  refine ⟨out, r', Machine.Yields.of_step (e := e) ?_, h, hout⟩
  change step c r e = _
  rw [step, hr]
  exact he

theorem Follows.next {acts : List Monitor.Act} {e : Event} {out : List Act} {r' : State}
    {isSync lost : Bool} {w : Walk} (hr : r.running = some k) (hk : e.nextOf = some k)
    (ht : r.tasks.get k = some (.broadcasting isSync w)) (hp : w.phase = .next lost)
    (he : stepNext c r k isSync w lost e = some (r', out)) (h : Same s r')
    (hout : out.filterMap returned = acts.filterMap returnedOf) : Follows c r s acts := by
  obtain ⟨visited, start, syncAgain, phase⟩ := w
  obtain rfl : phase = .next lost := hp
  refine ⟨out, r', Machine.Yields.of_step (e := e) ?_, h, hout⟩
  change step c r e = _
  rw [step, hr]
  dsimp only
  rw [if_pos hk, ht]
  exact he

/-- **Every step can be followed.** -/
theorem step_follows (i : Monitor.Item c) (h : Same i.pre r) (hsafe : Safe c r) :
    Follows c r i.post i.out := by
  have hm := i.moved
  generalize i.pre = s, i.ev = e, i.post = s', i.out = acts at hm h ⊢
  have hr := h.running
  cases hm with
  | @syncFails name ip port hs hp =>
    exact .idle (hr.trans hs) (e := .sync (.string name) (.string ip) (.string port))
      (congrArg some (sync_raises hsafe name ip hp)) h.succ rfl
  | @sync name ip text _ hs hp =>
    obtain ⟨r', hsync, hsame⟩ := h.sync hsafe name ip hp
    exact .idle (hr.trans hs) (e := .sync (.string name) (.string ip) (.string text))
      (congrArg some hsync) hsame rfl
  | @query k name ip _ hs hk =>
    obtain ⟨t, hk', ht⟩ := h.task hk
    cases ht with
    | @registering _ _ text _ hp =>
      have hstep : stepIdle c r (.reloaded k true) = some (setTask r k
          (.querying (.string name) (.string ip) (.string text)), []) := by
        simp [stepIdle, hk', afterReload]
      exact .idle (hr.trans hs) hstep (h.setTask (.querying hp)) rfl
  | @refused k hs hk =>
    obtain ⟨t, hk', ht⟩ := h.task hk
    cases ht with
    | refusing =>
      have hstep : stepIdle c r (.reloaded k true) = some (endTask r k, [.returned k false]) := by
        simp [stepIdle, hk', afterReload]
      exact .idle (hr.trans hs) hstep h.endTask rfl
  | @again k caller w hs hk hp ha =>
    obtain ⟨t, hk', ht⟩ := h.task hk
    cases ht with
    | broadcasting =>
      have hstep : stepIdle c r (.reloaded k true) =
          some (broadcastClusterInfo r k caller.isSome, []) := by
        simp [stepIdle, hk', afterReload, walkOf, phaseOf, hp, ha]
      exact .idle (hr.trans hs) hstep (h.broadcast caller) rfl
  | @done k caller w hs hk hp ha =>
    obtain ⟨t, hk', ht⟩ := h.task hk
    cases ht with
    | broadcasting =>
      have hstep : stepIdle c r (.reloaded k true) =
          some (endTask r k, if caller.isSome then [.returned k true] else []) := by
        simp [stepIdle, hk', afterReload, walkOf, phaseOf, hp, ha]
      refine .idle (hr.trans hs) hstep h.endTask ?_
      unfold result
      split <;> rfl
  | @reloadRaises k t hs hk ht =>
    obtain ⟨t', hk', hsame⟩ := h.task hk
    have hreloads : t'.reloads = true := by
      cases hsame with
      | registering | refusing => rfl
      | querying => exact absurd ht (by simp [Monitor.Task.reloads])
      | broadcasting caller w =>
        have hp : w.phase = .reloading := of_decide_eq_true ht
        simp [Task.reloads, walkOf, phaseOf, hp]
    have hstep : stepIdle c r (.reloaded k false) = some (endTask r k, [.raised k .reload]) := by
      simp [stepIdle, hk', hreloads]
    refine .idle (hr.trans hs) hstep h.endTask ?_
    unfold Monitor.Task.raised result
    split
    · split <;> rfl
    · rfl
  | @alive k name ip port now hs hk =>
    obtain ⟨t, hk', ht⟩ := h.task hk
    cases ht with
    | @querying _ _ text _ hp =>
      have hstep : stepIdle c r (.queried k true now) = some (broadcastClusterInfo
          (store r (.string name) (entryOf ⟨ip, port, some now⟩)) k true, []) := by
        simp [stepIdle, hk', afterQuery, entryOf, toNumber, hp]
      exact .idle (hr.trans hs) hstep ((h.store name _).broadcast (some name)) rfl
  | @dead k name ip port now hs hk =>
    obtain ⟨t, hk', ht⟩ := h.task hk
    cases ht with
    | querying hp =>
      have hstep : stepIdle c r (.queried k false now) = some (setTask r k .refusing, []) := by
        simp [stepIdle, hk', afterQuery, writeConfig_of_safe hsafe]
      exact .idle (hr.trans hs) hstep (h.setTask .refusing) rfl
  | healthy hs he =>
    exact .idle (hr.trans hs) (e := .hold _) (congrArg some (h.healthy hsafe he)) h rfl
  | hold hs he =>
    obtain ⟨r', hhold, hsame⟩ := h.hold hsafe he
    exact .idle (hr.trans hs) (e := .hold _) (congrArg some hhold) hsame rfl
  | heartbeat hs => exact .idle (hr.trans hs) (e := .heartbeat _ _) rfl (h.heartbeat _ _) rfl
  | @visit k caller lost w n hs hk hp hv =>
    obtain ⟨t, hk', ht⟩ := h.task hk
    cases ht with
    | broadcasting =>
      have hstep : stepNext c r k caller.isSome (walkOf w) lost (.next k (some (.string n))) =
          some (visit c r k caller.isSome (walkOf w) (.string n), []) :=
        if_pos ((h.canVisit w n).trans hv)
      exact .next (hr.trans hs) rfl hk' (congrArg phaseOf hp) hstep (h.visit caller w n) rfl
  | @loopEnd k caller lost w hs hk hp hv =>
    obtain ⟨t, hk', ht⟩ := h.task hk
    cases ht with
    | broadcasting =>
      have hstep : stepNext c r k caller.isSome (walkOf w) lost (.next k none) =
          some (writeConfig r k
            (.broadcasting caller.isSome { walkOf w with phase := .reloading })) :=
        if_pos ((h.canEnd w).trans hv)
      rw [writeConfig_of_safe hsafe] at hstep
      exact .next (hr.trans hs) rfl hk' (congrArg phaseOf hp) hstep
        (h.setTask (.broadcasting caller { w with phase := .reloading })) rfl
  | @raises k caller w hs hk hp hd =>
    obtain ⟨t, hk', ht⟩ := h.task hk
    cases ht with
    | broadcasting =>
      have hstep : stepNext c r k caller.isSome (walkOf w) true (.nextRaises k) =
          some (endTask r k, [.raised k .next]) := if_pos ⟨(h.disturbed w).trans hd, rfl⟩
      refine .next (hr.trans hs) rfl hk' (congrArg phaseOf hp) hstep h.endTask ?_
      unfold result
      split <;> rfl
  | search =>
    unfold searched
    split <;> exact .skip ⟨h.map, h.version, h.insertedAt, h.tasks, h.nextTask, h.running⟩
  | complete | reply | raise =>
    exact .skip ⟨h.map, h.version, h.insertedAt, h.tasks, h.nextTask, h.running⟩
  | @resume k caller w n q call hs hk hp hq =>
    obtain ⟨t, hk', ht⟩ := h.task hk
    cases ht with
    | broadcasting =>
      have hstep : stepIdle c r (.resume k (failed call.result)) =
          some (afterCall r k caller.isSome (walkOf w) (.string n) (failed call.result), []) := by
        simp [stepIdle, hk', walkOf, phaseOf, hp]
      exact .idle (hr.trans hs) hstep (h.afterCall caller w n call) rfl

/-! ## Runs -/

theorem init_same (c : Conf) : Same (Monitor.State.init c) (State.init c) := by
  refine ⟨?_, rfl, rfl, fun k => .none, rfl, rfl⟩
  have hempty : SameMap Table.empty Table.empty :=
    ⟨fun n => by simp, fun v hv => absurd (Table.get_empty v) hv⟩
  exact hempty.set c.thisNodeName ⟨c.ip, c.port, none⟩

/-- **Every run for texts is a run of the service**, in which every `sync` returns the same. -/
theorem raw_of_run {tr : List (Monitor.Item c)} (h : (Monitor.machine c).Run tr s) :
    ∃ (tr' : List (Item c)) (r : State), (machine c).Run tr' r ∧ Same s r ∧
      (tr'.flatMap Machine.Item.out).filterMap returned =
        (tr.flatMap Machine.Item.out).filterMap returnedOf := by
  have hstep : ∀ (i : Monitor.Item c) r, Same i.pre r ∧ Safe c r → ∃ out r',
      (machine c).Yields r out r' ∧ (Same i.post r' ∧ Safe c r') ∧
        out.filterMap returned = i.out.filterMap returnedOf := by
    rintro i r ⟨h, hsafe⟩
    obtain ⟨out, r', ⟨tr, hpath, rfl⟩, hsame, hout⟩ := step_follows i h hsafe
    have hsafe' : Safe c r' := hpath.keeps hsafe fun j _ hj => (step_safe hj j.ok).1
    exact ⟨_, r', ⟨tr, hpath, rfl⟩, ⟨hsame, hsafe'⟩, hout⟩
  obtain ⟨out, r, ⟨tr', hrun, rfl⟩, ⟨hsame, -⟩, hout⟩ := h.simulation (N := machine c)
    (R := fun s r => Same s r ∧ Safe c r) ⟨init_same c, init_safe c⟩ hstep
  exact ⟨tr', r, hrun, hsame, hout⟩

/-- So `nodeInfo.last + 6` does not raise there either. -/
theorem last_of_run {tr : List (Monitor.Item c)} (h : (Monitor.machine c).Run tr s)
    {n : NodeName} {info : Monitor.NodeInfo} (hn : s.clusterInfo.get n = some info)
    (hthis : n ≠ c.thisNodeName) : info.last ≠ none := by
  obtain ⟨tr', r, hrun, hsame, -⟩ := raw_of_run h
  have hget : r.clusterInfo.get (.string n) = some (entryOf info) := by
    rw [hsame.map.text, hn]
    rfl
  exact ((run_safe hrun).map.entry _ _ hget).last fun heq => hthis (Value.string.inj heq)

end LsServer.Monitor.Raw
