import LsServer.Monitor.Config

/-!
# Maps that arrive at a node (MonitorSubscribe.lua)

`syncClusterInfo(info)` writes the configuration file, waits for `clusterd` to reload it, and then
assigns `clusterInfo`, which `NodeIsExist` reads. Several handlers can wait at the same time, so
the file can be ahead of the variable. `clusterd` answers the reloads in the order in which they
were called, so the handlers go on in the order of their messages.

A handler that raises leaves one half undone: both, where the file cannot be opened, and the
variable, where `clusterd` answers with an error. So the file is that of the last message that was
written, and the variable that of the last one whose reload was answered without an error. If no
handler raises the two halves together are a register: the map of the last handler that
waits, or else the variable.

Source: MonitorSubscribe.lua `response.syncClusterInfo` 47-53, `response.NodeIsExist` 56-62;
Common.lua 14-34; service/clusterd.lua 140-143, one message after the other.

* `syncClusterInfo info opened`: a message arrives, and the file could be opened or not. The handler
  writes the file before its call of `clusterd`.
* `reloaded ok`: `clusterd` answers the oldest call, with a result or an error. Its answers come in
  the order of the calls, since its handler of `reload` does not wait.
* `LastSucceeds` is the condition, on the events behind the last message: its file could be opened,
  and its reload was not answered with an error.

`lastMessage`, `lastWritten` and `lastReloaded` are read off the events of a run, so the statement
has no invariant in it.

Results:
* `Run.file`, `Run.clusterInfo`: what the file and the variable are after every run;
* `last_writer_wins_iff`: when no handler is left, both describe the last message exactly if both
  of these do; in particular if the handler of that message has not raised;
* `file_ahead`: a file and a variable of two different messages.
-/

namespace LsServer.Monitor.Received

open LsServer.Lib LsServer.Lua LsServer.Cluster

abbrev HandlerId := Nat

/-- `file` is `none` until the service writes it. `reloads` are the handlers that wait for
`cluster.reload`, in the order in which they called it. -/
structure State where
  file : Option Bytes
  clusterInfo : Option ClusterInfo
  reloads : List (HandlerId × ClusterInfo)
  nextHandler : HandlerId

/-- A message arrives, and the file can be opened or not; `clusterd` answers the oldest reload, with
an error or not. -/
inductive Event
  | syncClusterInfo (info : ClusterInfo) (opened : Bool)
  | reloaded (ok : Bool)

/-- How a handler ends. -/
inductive Act
  | returned (k : HandlerId)
  | raised (k : HandlerId)
  deriving DecidableEq

/-- `response.syncClusterInfo`, up to `cluster.reload`. Where `io.open` gives nothing `f:write`
raises. -/
def syncClusterInfo (s : State) (info : ClusterInfo) (opened : Bool) : State × List Act :=
  let k := s.nextHandler
  let s := { s with nextHandler := k + 1 }
  if opened then
    ({ s with file := some (configText info), reloads := s.reloads ++ [(k, info)] }, [])
  else (s, [.raised k])

/-- One event, if it can happen. -/
def step (s : State) : Event → Option (State × List Act)
  | .syncClusterInfo info opened => some (syncClusterInfo s info opened)
  | .reloaded ok =>
    match s.reloads with
    | [] => none
    | (k, info) :: rest =>
      if ok then some ({ s with clusterInfo := some info, reloads := rest }, [.returned k])
      else some ({ s with reloads := rest }, [.raised k])

/-- `response.NodeIsExist`. -/
def nodeIsExist (s : State) (nodeName : NodeName) : Bool :=
  (s.clusterInfo.bind fun clusterInfo => clusterInfo.get nodeName).isSome

/-- **The service.** -/
def machine : Machine State Event Act := ⟨⟨none, none, [], 0⟩, step⟩

/-- A step of the service. -/
abbrev Item := machine.Item

/-! ## The messages -/

/-- The map of the last message. -/
def lastMessage (tr : List Item) : Option ClusterInfo :=
  tr.foldl (fun last i =>
    match i.ev with
    | .syncClusterInfo info _ => some info
    | .reloaded _ => last) none

/-- The map of the last message for which the file could be opened. -/
def lastWritten (tr : List Item) : Option ClusterInfo :=
  tr.foldl (fun last i =>
    match i.ev with
    | .syncClusterInfo info true => some info
    | _ => last) none

/-- The map of the last message whose reload was answered without an error. -/
def lastReloaded (tr : List Item) : Option ClusterInfo :=
  tr.foldl (fun last i =>
    match i.ev with
    | .reloaded true => i.pre.reloads.head?.map Prod.snd
    | _ => last) none

/-- The file and `clusterInfo` are those of a map. -/
def Describes (s : State) (info : Option ClusterInfo) : Prop :=
  s.file = info.map configText ∧ s.clusterInfo = info ∧
    ∀ n, nodeIsExist s n = (info.bind fun info => info.get n).isSome

/-- The handler of the last message has not raised. -/
def LastSucceeds (tr : List Item) : Prop :=
  ∃ a i b info, tr = a ++ i :: b ∧ i.ev = .syncClusterInfo info true ∧
    (∀ j ∈ b, ∀ info opened, j.ev ≠ .syncClusterInfo info opened) ∧
    ∀ j ∈ b, Act.raised i.pre.nextHandler ∉ j.out

theorem lastMessage_append (tr : List Item) (i : Item) : lastMessage (tr ++ [i]) =
    match i.ev with
    | .syncClusterInfo info _ => some info
    | .reloaded _ => lastMessage tr := by
  rw [lastMessage, List.foldl_append]
  rfl

theorem lastWritten_append (tr : List Item) (i : Item) : lastWritten (tr ++ [i]) =
    match i.ev with
    | .syncClusterInfo info true => some info
    | _ => lastWritten tr := by
  rw [lastWritten, List.foldl_append]
  rfl

theorem lastReloaded_append (tr : List Item) (i : Item) : lastReloaded (tr ++ [i]) =
    match i.ev with
    | .reloaded true => i.pre.reloads.head?.map Prod.snd
    | _ => lastReloaded tr := by
  rw [lastReloaded, List.foldl_append]
  rfl

/-! ## One step -/

/-- What the service does with an event. -/
inductive Moved (s : State) : Event → State → List Act → Prop
  | raised (info : ClusterInfo) : Moved s (.syncClusterInfo info false)
      { s with nextHandler := s.nextHandler + 1 } [.raised s.nextHandler]
  | written (info : ClusterInfo) : Moved s (.syncClusterInfo info true)
      ⟨some (configText info), s.clusterInfo, s.reloads ++ [(s.nextHandler, info)],
        s.nextHandler + 1⟩ []
  | assigned {k : HandlerId} {info : ClusterInfo} {rest : List (HandlerId × ClusterInfo)}
    (h : s.reloads = (k, info) :: rest) :
    Moved s (.reloaded true) { s with clusterInfo := some info, reloads := rest } [.returned k]
  | refused {k : HandlerId} {info : ClusterInfo} {rest : List (HandlerId × ClusterInfo)}
    (h : s.reloads = (k, info) :: rest) :
    Moved s (.reloaded false) { s with reloads := rest } [.raised k]

theorem Item.moved (i : Item) : Moved i.pre i.ev i.post i.out := by
  have h : step i.pre i.ev = some (i.post, i.out) := i.ok
  generalize i.ev = e, i.post = s', i.out = acts at h
  cases e with
  | syncClusterInfo info opened =>
    cases opened with
    | true =>
      obtain ⟨rfl, rfl⟩ := Prod.mk.inj (Option.some.inj h)
      exact .written info
    | false =>
      obtain ⟨rfl, rfl⟩ := Prod.mk.inj (Option.some.inj h)
      exact .raised info
  | reloaded ok =>
    simp only [step] at h
    split at h
    · exact absurd h (by simp)
    · rename_i k info rest hreloads
      cases ok with
      | true =>
        obtain ⟨rfl, rfl⟩ := Prod.mk.inj (Option.some.inj h)
        exact .assigned hreloads
      | false =>
        obtain ⟨rfl, rfl⟩ := Prod.mk.inj (Option.some.inj h)
        exact .refused hreloads

/-! ## Runs -/

/-- **The file is that of the last message that was written.** -/
theorem Run.file {tr : List Item} {s : State} (h : machine.Run tr s) :
    s.file = (lastWritten tr).map configText := by
  refine Machine.Run.history (J := fun tr s => s.file = (lastWritten tr).map configText) rfl ?_ h
  intro tr i _ hi
  have hm := Item.moved i
  rw [lastWritten_append]
  generalize i.ev = e, i.post = s', i.out = acts at hm
  cases hm with
  | written => rfl
  | raised | assigned | refused => exact hi

/-- **The variable is that of the last reload without an error.** -/
theorem Run.clusterInfo {tr : List Item} {s : State} (h : machine.Run tr s) :
    s.clusterInfo = lastReloaded tr := by
  refine Machine.Run.history (J := fun tr s => s.clusterInfo = lastReloaded tr) rfl ?_ h
  intro tr i _ hi
  have hm := Item.moved i
  rw [lastReloaded_append]
  generalize i.ev = e, i.post = s', i.out = acts at hm
  cases hm with
  | assigned hreloads =>
    dsimp only
    rw [hreloads]
    rfl
  | raised | written | refused => exact hi

/-- The handler `k` with the map `info` waits, the last of all, or has ended. -/
def Awaits (k : HandlerId) (info : ClusterInfo) (s : State) : Prop :=
  (∃ l, s.reloads = l ++ [(k, info)]) ∨ s.reloads = [] ∧ s.clusterInfo = some info

/-- The reloads are answered in order, so no other handler assigns after it. -/
theorem Item.awaits {k : HandlerId} {info : ClusterInfo} (i : Item) (h : Awaits k info i.pre)
    (hno : ∀ info opened, i.ev ≠ .syncClusterInfo info opened) (hk : Act.raised k ∉ i.out) :
    Awaits k info i.post := by
  have hm := i.moved
  generalize i.ev = e, i.post = s', i.out = acts at hm hno hk
  cases hm with
  | raised info' => exact absurd rfl (hno info' false)
  | written info' => exact absurd rfl (hno info' true)
  | @assigned k' info' rest hreloads =>
    rcases h with ⟨l, hl⟩ | ⟨hnil, -⟩
    · rw [hreloads] at hl
      cases l with
      | nil =>
        obtain ⟨hhead, rfl⟩ := List.cons.inj hl
        obtain ⟨-, rfl⟩ := Prod.mk.inj hhead
        exact .inr ⟨rfl, rfl⟩
      | cons x l => exact .inl ⟨l, (List.cons.inj hl).2⟩
    · exact absurd (hreloads.symm.trans hnil) (List.cons_ne_nil _ _)
  | @refused k' info' rest hreloads =>
    rcases h with ⟨l, hl⟩ | ⟨hnil, -⟩
    · rw [hreloads] at hl
      cases l with
      | nil =>
        obtain ⟨hhead, -⟩ := List.cons.inj hl
        obtain ⟨rfl, -⟩ := Prod.mk.inj hhead
        exact absurd (List.mem_singleton.mpr rfl) hk
      | cons x l => exact .inl ⟨l, (List.cons.inj hl).2⟩
    · exact absurd (hreloads.symm.trans hnil) (List.cons_ne_nil _ _)

/-- Without another message the last one stays the last one. -/
theorem last_append {a b : List Item} {i : Item} {info : ClusterInfo}
    (hi : i.ev = .syncClusterInfo info true)
    (hno : ∀ j ∈ b, ∀ info opened, j.ev ≠ .syncClusterInfo info opened) :
    lastMessage (a ++ i :: b) = some info ∧ lastWritten (a ++ i :: b) = some info := by
  induction b using List.reverseRecOn with
  | nil =>
    rw [lastMessage_append, lastWritten_append, hi]
    exact ⟨rfl, rfl⟩
  | append_singleton b j ih =>
    obtain ⟨hm, hw⟩ := ih fun j' hj' => hno j' (List.mem_append_left _ hj')
    have hj := hno j (by simp)
    rw [← List.cons_append, ← List.append_assoc, lastMessage_append, lastWritten_append]
    cases hev : j.ev with
    | syncClusterInfo info' opened => exact absurd hev (hj info' opened)
    | reloaded ok => exact ⟨hm, hw⟩

/-- **Whose map the node has**: the file and the variable describe the last message exactly if the
last message that was written and the last one that was reloaded say the same as it. When no handler
is left, this is so if the handler of the last message has not raised. -/
theorem last_writer_wins_iff {tr : List Item} {s : State} (h : machine.Run tr s) :
    (Describes s (lastMessage tr) ↔
      (lastWritten tr).map configText = (lastMessage tr).map configText ∧
        lastReloaded tr = lastMessage tr) ∧
    (s.reloads = [] → LastSucceeds tr → Describes s (lastMessage tr)) := by
  have hiff : Describes s (lastMessage tr) ↔
      (lastWritten tr).map configText = (lastMessage tr).map configText ∧
        lastReloaded tr = lastMessage tr := by
    rw [← Run.file h, ← Run.clusterInfo h]
    refine ⟨fun hd => ⟨hd.1, hd.2.1⟩, fun ⟨hfile, hinfo⟩ => ⟨hfile, hinfo, fun n => ?_⟩⟩
    rw [nodeIsExist, hinfo]
  refine ⟨hiff, fun hidle hlast => hiff.mpr ?_⟩
  obtain ⟨a, i, b, info, rfl, hi, hno, hraised⟩ := hlast
  obtain ⟨hm, hw⟩ := last_append (a := a) hi hno
  refine ⟨by rw [hm, hw], ?_⟩
  obtain ⟨-, hpath⟩ := Machine.Path.split h
  have hawaits : Awaits i.pre.nextHandler info s := by
    refine hpath.keeps (I := Awaits i.pre.nextHandler info) ?_ fun j hj hpre =>
      Item.awaits j hpre (hno j hj) (hraised j hj)
    have hmoved := Item.moved i
    rw [hi] at hmoved
    generalize i.post = s', i.out = acts at hmoved
    cases hmoved with
    | written => exact .inl ⟨_, rfl⟩
  rw [← Run.clusterInfo h, hm]
  rcases hawaits with ⟨l, hl⟩ | ⟨-, hinfo⟩
  · exact absurd (hl.symm.trans hidle) (by simp)
  · exact hinfo

/-- The map of the master alone. -/
def masterMap : ClusterInfo :=
  Table.empty.set (bytes "master") ⟨bytes "10.0.0.1", .int 2527, none⟩

/-- The map of the master alone, and then with `game1`; the second message arrives before the first
reload has been answered. -/
def overlapping : List Event :=
  [.syncClusterInfo masterMap true, .syncClusterInfo firstMap true, .reloaded true, .reloaded true]

theorem last_writer_wins_iff_overlapping : ∃ (tr : List Item) (s : State), machine.Run tr s ∧
    tr.map (·.ev) = overlapping ∧ Describes s (some firstMap) ∧
      nodeIsExist s (bytes "game1") = true := by
  have h : (machine.items machine.init overlapping).map (fun tr =>
      (Machine.last machine.init tr).reloads.isEmpty &&
        tr.all fun i => i.out.all fun a => decide (a = .returned 0 ∨ a = .returned 1)) =
          some true := rfl
  obtain ⟨tr, htr, hidle⟩ := Option.map_eq_some_iff.mp h
  rw [Bool.and_eq_true, List.isEmpty_iff] at hidle
  have hev := Machine.items_ev htr
  have hrun := Machine.items_path htr
  obtain ⟨i₁, l, rfl, -, hev⟩ := List.map_eq_cons_iff.mp hev
  obtain ⟨i₂, l, rfl, he₂, hev⟩ := List.map_eq_cons_iff.mp hev
  have hb : ∀ j ∈ l, j.ev = .reloaded true := by
    intro j hj
    have hmem := List.mem_map_of_mem (f := Machine.Item.ev) hj
    rw [hev] at hmem
    simpa using hmem
  have hlast : LastSucceeds (i₁ :: i₂ :: l) := by
    refine ⟨[i₁], i₂, l, firstMap, rfl, he₂, fun j hj info opened => ?_, fun j hj hmem => ?_⟩
    · rw [hb j hj]
      simp
    · have hout := List.all_eq_true.mp hidle.2 j
        (List.mem_cons_of_mem _ (List.mem_cons_of_mem _ hj))
      have hact := of_decide_eq_true (List.all_eq_true.mp hout _ hmem)
      simp at hact
  have hdesc := (last_writer_wins_iff hrun).2 hidle.1 hlast
  have hlastMessage : lastMessage (i₁ :: i₂ :: l) = some firstMap :=
    (last_append (a := [i₁]) he₂ fun j hj info opened => by rw [hb j hj]; simp).1
  rw [hlastMessage] at hdesc
  refine ⟨_, _, hrun, Machine.items_ev htr, hdesc, ?_⟩
  rw [hdesc.2.2]
  decide +kernel

/-- The map with `game1`, which `clusterd` refuses. -/
def refusedReload : List Event :=
  [.syncClusterInfo masterMap true, .reloaded true, .syncClusterInfo firstMap true,
    .reloaded false]

/-- **A file and a variable of two messages**, and no handler left. -/
theorem file_ahead : ∃ (tr : List Item) (s : State), machine.Run tr s ∧
    tr.map (·.ev) = refusedReload ∧ s.reloads = [] ∧ lastMessage tr = some firstMap ∧
      s.file = some (configText firstMap) ∧ s.clusterInfo = some masterMap ∧
      ¬ Describes s (lastMessage tr) := by
  have h : (machine.items machine.init refusedReload).map (Machine.last machine.init) =
      some ⟨some (configText firstMap), some masterMap, [], 2⟩ := rfl
  obtain ⟨tr, htr, hs⟩ := Option.map_eq_some_iff.mp h
  have hev := Machine.items_ev htr
  have hrun := Machine.items_path htr
  rw [hs] at hrun
  have hlast : lastMessage tr = some firstMap := by
    have hfold : lastMessage tr = (tr.map Machine.Item.ev).foldl (fun last e =>
        match e with
        | .syncClusterInfo info _ => some info
        | .reloaded _ => last) none := by
      rw [List.foldl_map]
      rfl
    rw [hfold, hev]
    rfl
  refine ⟨tr, _, hrun, hev, rfl, hlast, rfl, rfl, fun hdesc => ?_⟩
  have hinfo : some masterMap = some firstMap := hdesc.2.1.trans hlast
  have hget := congrArg (fun t => Table.get t (bytes "game1")) (Option.some.inj hinfo)
  exact absurd hget (by decide +kernel)

end LsServer.Monitor.Received
