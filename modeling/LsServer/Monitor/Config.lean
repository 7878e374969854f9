import LsServer.Lua.Chunk
import LsServer.Monitor.Registration
import Mathlib.Data.List.Sort

/-!
# The cluster configuration file (Common.lua, clusterd.lua)

`updateClusterConfig` writes one assignment for each node, the names in order, and `clusterd` runs
the file as a Lua chunk in an empty environment. `load` stands for that: the globals, or `none`
where the chunk raises or does not end. It agrees with `assignments` on the texts that this reads.

A name and an ip are written as they are. A name and a quoted text without quotes, backslashes and
line breaks come back as they were (`Plain`); otherwise the text says something else.

Source: Common.lua `updateClusterConfig` 14-34; service/clusterd.lua `loadconfig` 92-138,
`command.reload` 140-143; lstrlib.c and lvm.c for the order of strings.

* The names are sorted by their bytes. `strcoll` of the C locale compares them so, with the zeros in
  them.
* `nodeAddress`: a global whose name begins with two underscores is an option of `clusterd` and no
  node.
* `Plain` is the condition of a node: its name is a name of Lua, no reserved word, not `_ENV`, and
  does not begin with `__`; its ip has no quote, backslash or line break. A port is a number, whose
  text is plain.
* `ReadsAssignments` is what is known of `load`: the texts that `Lua.Chunk` reads are run as these
  assignments. `loadAssignments` is such a function.

For a map that is not plain the proof has to look at every text that `load` could be given: either
`assignments` reads it, and then some name or address is another one, or some byte has to be missing
(`statements_cost`).

Results:
* `configText_congr`: the file depends on the map only;
* `roundTrip_iff`: the nodes of a map come back exactly if all names and ips are plain;
* `injected_node`: a node that registers with another one in its ip.

Out of scope: files that cannot be written, which `Register` and `Received` have.
-/

namespace LsServer.Monitor

open LsServer.Lib LsServer.Lua LsServer.Cluster

/-! ## Writing -/

/-- `a <= b` of strings (lvm.c `l_strcmp` in the C locale). -/
def strLe (a b : Bytes) : Prop := a.map UInt8.toNat ≤ b.map UInt8.toNat

instance : DecidableRel strLe := fun _ _ => inferInstanceAs (Decidable (_ ≤ _))

instance : Std.Total strLe := ⟨fun _ _ => le_total _ _⟩

instance : IsTrans Bytes strLe := ⟨fun _ _ _ => le_trans⟩

theorem strLe_antisymm {a b : Bytes} (h : strLe a b) (h' : strLe b a) : a = b :=
  List.map_injective_iff.mpr (fun _ _ => UInt8.toNat_inj.mp) (le_antisymm h h')

/-- `ip..":"..port`. -/
def address (info : NodeInfo) : Bytes := info.ip ++ bytes ":" ++ numberText info.port

/-- `clusterNodeKey`, sorted. -/
def clusterNodeKey (t : ClusterInfo) : List NodeName :=
  (t.entries.map Prod.fst).insertionSort strLe

/-- The line of a node. -/
def configLine (t : ClusterInfo) (nodeName : NodeName) : Bytes :=
  match t.get nodeName with
  | some info => nodeName ++ bytes "=\"" ++ address info ++ bytes "\"\n"
  | none => []

/-- The first line. -/
def configHead : Bytes := bytes "__nowaiting = true\n"

/-- What `Common.updateClusterConfig` writes. -/
def configText (t : ClusterInfo) : Bytes :=
  configHead ++ (clusterNodeKey t).flatMap (configLine t)

/-! ## Reading -/

/-- The globals that are node addresses. -/
def nodeAddress (env : Bytes → Option Value) (name : Bytes) : Option Value :=
  if bytes "__" <+: name then none else env name

/-- `load` runs a chunk of assignments as such. -/
def ReadsAssignments (load : Bytes → Option (Bytes → Option Value)) : Prop :=
  ∀ text as, assignments text = some as → load text = some (globals as)

/-- The file of a map defines its nodes. -/
def RoundTrip (load : Bytes → Option (Bytes → Option Value)) (t : ClusterInfo) : Prop :=
  ∃ env, load (configText t) = some env ∧
    ∀ n, nodeAddress env n = (t.get n).map fun info => .string (address info)

/-- A node whose name and ip mean themselves. -/
def Plain (n : NodeName) (info : NodeInfo) : Prop :=
  isName n = true ∧ ¬ bytes "__" <+: n ∧ Literal info.ip

/-! ## The file and the map -/

theorem mem_clusterNodeKey {t : ClusterInfo} {n : NodeName} :
    n ∈ clusterNodeKey t ↔ t.get n ≠ none := by
  rw [clusterNodeKey, List.mem_insertionSort, List.mem_map]
  constructor
  · rintro ⟨⟨n, info⟩, he, rfl⟩
    rw [Table.mem_entries.mp he]
    simp
  · intro h
    obtain ⟨info, hinfo⟩ := Option.ne_none_iff_exists'.mp h
    exact ⟨(n, info), Table.mem_entries.mpr hinfo, rfl⟩

theorem clusterNodeKey_nodup (t : ClusterInfo) : (clusterNodeKey t).Nodup :=
  (List.perm_insertionSort _ _).nodup_iff.mpr t.entries_nodup

/-- **The file depends on the map only**, not on how it came about. -/
theorem configText_congr {t t' : ClusterInfo} (h : ∀ n, hosts t n = hosts t' n) :
    configText t = configText t' := by
  have hget : ∀ n, t.get n ≠ none ↔ t'.get n ≠ none := by
    intro n
    have hn := h n
    unfold hosts at hn
    cases ht : t.get n <;> cases ht' : t'.get n <;> simp_all
  have hkeys : clusterNodeKey t = clusterNodeKey t' := by
    have hperm : (clusterNodeKey t).Perm (clusterNodeKey t') :=
      (List.perm_ext_iff_of_nodup (clusterNodeKey_nodup t) (clusterNodeKey_nodup t')).mpr
        fun n => by rw [mem_clusterNodeKey, mem_clusterNodeKey, hget]
    exact hperm.eq_of_pairwise (fun _ _ _ _ => strLe_antisymm)
      (List.pairwise_insertionSort strLe _) (List.pairwise_insertionSort strLe _)
  have hline : configLine t = configLine t' := by
    funext n
    have hn := h n
    unfold hosts at hn
    unfold configLine address
    cases ht : t.get n <;> cases ht' : t'.get n <;> simp_all
  rw [configText, configText, hkeys, hline]

/-- The names of a map and the texts behind them. -/
def configPairs (t : ClusterInfo) : List (Bytes × Bytes) :=
  (clusterNodeKey t).map fun n => (n, ((t.get n).map address).getD [])

theorem configText_eq (t : ClusterInfo) : configText t =
    bytes "__nowaiting" ++ bytes " = true\n" ++ (configPairs t).flatMap assignLine := by
  have hlines : (clusterNodeKey t).flatMap (configLine t) =
      (configPairs t).flatMap assignLine := by
    rw [configPairs, List.flatMap_map]
    refine List.flatMap_congr fun n hn => ?_
    obtain ⟨info, hinfo⟩ := Option.ne_none_iff_exists'.mp (mem_clusterNodeKey.mp hn)
    simp [configLine, assignLine, hinfo]
  rw [configText, hlines]
  rfl

theorem mem_configPairs {t : ClusterInfo} {a : Bytes × Bytes} : a ∈ configPairs t ↔
    ∃ info, t.get a.1 = some info ∧ a.2 = address info := by
  unfold configPairs
  rw [List.mem_map]
  constructor
  · rintro ⟨n, hn, rfl⟩
    obtain ⟨info, hinfo⟩ := Option.ne_none_iff_exists'.mp (mem_clusterNodeKey.mp hn)
    exact ⟨info, hinfo, by simp [hinfo]⟩
  · rintro ⟨info, hinfo, ha⟩
    exact ⟨a.1, mem_clusterNodeKey.mpr (by simp [hinfo]), Prod.ext rfl (by simp [hinfo, ha])⟩

theorem isName_nowaiting : isName (bytes "__nowaiting") = true := by decide +kernel

/-- The assignments of the file: the first, and those of the lines. -/
theorem assignments_configText (t : ClusterInfo) : ∃ k, (configPairs t).length ≤ k ∧
    assignments (configText t) =
      (statements k (10 :: (configPairs t).flatMap assignLine)).map
        ((bytes "__nowaiting", .boolean true) :: ·) := by
  have hlen : ∀ as : List (Bytes × Bytes), as.length ≤ (as.flatMap assignLine).length := by
    intro as
    induction as with
    | nil => simp
    | cons a as ih =>
      have ha : 1 ≤ (assignLine a).length := by simp [assignLine, bytes]; omega
      rw [List.flatMap_cons, List.length_append, List.length_cons]
      omega
  refine ⟨18 + ((configPairs t).flatMap assignLine).length, (hlen _).trans (Nat.le_add_left _ _),
    ?_⟩
  have hsize : (configText t).length = 18 + ((configPairs t).flatMap assignLine).length + 1 := by
    rw [configText_eq, List.length_append, List.length_append]
    simp [bytes]
    omega
  rw [assignments, hsize, configText_eq, statements_true isName_nowaiting]

theorem mem_of_globals {as : List (Bytes × Value)} {name : Bytes} {v : Value}
    (h : globals as name = some v) : (name, v) ∈ as := by
  obtain ⟨a, ha, rfl⟩ := Option.map_eq_some_iff.mp h
  have hname := List.find?_some ha
  rw [decide_eq_true_eq] at hname
  exact hname ▸ List.mem_reverse.mp (List.mem_of_find?_eq_some ha)

theorem globals_of_mem {as : List (Bytes × Value)} (hnodup : (as.map Prod.fst).Nodup)
    {name : Bytes} {v : Value} (h : (name, v) ∈ as) : globals as name = some v := by
  have hsome : (as.reverse.find? fun a => a.1 = name).isSome :=
    List.find?_isSome.mpr ⟨(name, v), List.mem_reverse.mpr h, by simp⟩
  obtain ⟨a, ha⟩ := Option.isSome_iff_exists.mp hsome
  have hname := List.find?_some ha
  rw [decide_eq_true_eq] at hname
  have hmem := List.mem_reverse.mp (List.mem_of_find?_eq_some ha)
  have heq : a = (name, v) := List.inj_on_of_nodup_map hnodup hmem h hname
  rw [globals, ha, heq]
  rfl

theorem literal_of_numeral {v : Bytes} (h : Numeral v) : Literal v := by
  intro c hc
  have hne : ∀ d, isnumeral d = false → c ≠ d := by
    rintro d hd rfl
    exact absurd ((h c hc).symm.trans hd) (by simp)
  refine ⟨hne 10 (by decide), ?_⟩
  simp [special, hne 34 (by decide), hne 92 (by decide), hne 13 (by decide)]

/-! ## The round trip -/

theorem roundTrip_of_plain {load : Bytes → Option (Bytes → Option Value)}
    (hload : ReadsAssignments load) {t : ClusterInfo}
    (h : ∀ n info, t.get n = some info → Plain n info) : RoundTrip load t := by
  obtain ⟨k, hk, hread⟩ := assignments_configText t
  have hpairs : ∀ a ∈ configPairs t, isName a.1 = true ∧ Literal a.2 := by
    intro a ha
    obtain ⟨info, hinfo, haddr⟩ := mem_configPairs.mp ha
    obtain ⟨hname, -, hip⟩ := h a.1 info hinfo
    have hcolon : Literal [58] := by decide
    refine ⟨hname, ?_⟩
    rw [haddr]
    exact List.forall_mem_append.mpr ⟨List.forall_mem_append.mpr ⟨hip, hcolon⟩,
      literal_of_numeral (numeral_numberText _)⟩
  rw [statements_lines hpairs hk, Option.map_some] at hread
  refine ⟨_, hload _ _ hread, fun n => ?_⟩
  have hnodup : (((bytes "__nowaiting", Value.boolean true) ::
      (configPairs t).map fun a => (a.1, Value.string a.2)).map Prod.fst).Nodup := by
    have hkeys : ((configPairs t).map fun a => (a.1, Value.string a.2)).map Prod.fst =
        clusterNodeKey t := by
      simp [configPairs, Function.comp_def]
    rw [List.map_cons, hkeys, List.nodup_cons]
    refine ⟨fun hmem => ?_, clusterNodeKey_nodup t⟩
    obtain ⟨info, hinfo⟩ := Option.ne_none_iff_exists'.mp (mem_clusterNodeKey.mp hmem)
    exact (h _ info hinfo).2.1 (by decide)
  unfold nodeAddress
  cases hn : t.get n with
  | some info =>
    rw [if_neg (h n info hn).2.1]
    refine globals_of_mem hnodup (List.mem_cons_of_mem _ (List.mem_map.mpr ?_))
    exact ⟨(n, address info), mem_configPairs.mpr ⟨info, hn, rfl⟩, rfl⟩
  | none =>
    split
    · rfl
    · rename_i hpfx
      rw [Option.map_none]
      by_contra hsome
      obtain ⟨v, hv⟩ := Option.ne_none_iff_exists'.mp hsome
      rcases List.mem_cons.mp (mem_of_globals hv) with hnowaiting | hmem
      · rw [(Prod.mk.inj hnowaiting).1] at hpfx
        exact hpfx (by decide)
      · obtain ⟨a, ha, heq⟩ := List.mem_map.mp hmem
        obtain ⟨info, hinfo, -⟩ := mem_configPairs.mp ha
        rw [(Prod.mk.inj heq).1, hn] at hinfo
        exact absurd hinfo (by simp)

/-- Where the file is read as assignments, the nodes only come back from plain lines. -/
theorem plain_of_roundTrip {load : Bytes → Option (Bytes → Option Value)}
    (hload : ReadsAssignments load) {t : ClusterInfo} {as : List (Bytes × Value)}
    (has : assignments (configText t) = some as) (h : RoundTrip load t) {n : NodeName}
    {info : NodeInfo} (hn : t.get n = some info) : Plain n info := by
  obtain ⟨env, henv, hnodes⟩ := h
  obtain rfl := Option.some.inj ((hload _ _ has).symm.trans henv)
  obtain ⟨k, -, hread⟩ := assignments_configText t
  rw [has] at hread
  obtain ⟨as', has', heq⟩ := Option.map_eq_some_iff.mp hread.symm
  obtain rfl := heq
  obtain ⟨hnames, hcost⟩ := statements_cost has'
  rw [List.count_cons_self, List.length_cons] at hcost
  -- what comes back is assigned by a line
  have hmem : ∀ m info, t.get m = some info → ¬ bytes "__" <+: m ∧
      (m, Value.string (address info)) ∈ as' := by
    intro m info hm
    have hnode := hnodes m
    rw [hm, Option.map_some, nodeAddress] at hnode
    split at hnode
    · exact absurd hnode (by simp)
    · rename_i hpfx
      refine ⟨hpfx, ?_⟩
      rcases List.mem_cons.mp (mem_of_globals hnode) with hnowaiting | hmem
      · exact absurd (Prod.mk.inj hnowaiting).2 (by simp)
      · exact hmem
  obtain ⟨hpfx, hline⟩ := hmem n info hn
  refine ⟨hnames _ hline, hpfx, ?_⟩
  have hlits : ∀ a ∈ configPairs t, Literal a.2 := by
    have hroom : ((configPairs t).flatMap assignLine).count 10 + (as'.map cost).sum ≤
        ((configPairs t).flatMap assignLine).length := by omega
    refine literal_of_cost ?_ (fun a ha => ?_) hroom
    · exact (clusterNodeKey_nodup t).map fun a b hab => (Prod.mk.inj hab).1
    · obtain ⟨info', hinfo', haddr⟩ := mem_configPairs.mp ha
      rw [haddr]
      exact (hmem a.1 info' hinfo').2
  have hlit := hlits (n, address info) (mem_configPairs.mpr ⟨info, hn, rfl⟩)
  exact fun c hc => hlit c (by simp [address, hc])

/-- **When the file of a map comes back**: if all names and ips are plain, and, where the file is
read as assignments, only then. Its bytes depend on the map only. -/
theorem roundTrip_iff {load : Bytes → Option (Bytes → Option Value)}
    (hload : ReadsAssignments load) (t : ClusterInfo) :
    ((∀ n info, t.get n = some info → Plain n info) → RoundTrip load t) ∧
    (assignments (configText t) ≠ none →
      (RoundTrip load t ↔ ∀ n info, t.get n = some info → Plain n info)) ∧
    ∀ t' : ClusterInfo, (∀ n, hosts t n = hosts t' n) → configText t = configText t' := by
  refine ⟨roundTrip_of_plain hload, fun has => ⟨fun h n info hn => ?_, roundTrip_of_plain hload⟩,
    fun t' => configText_congr⟩
  obtain ⟨as, has⟩ := Option.ne_none_iff_exists'.mp has
  exact plain_of_roundTrip hload has h hn

/-- A `load` that knows assignments only. -/
def loadAssignments (text : Bytes) : Option (Bytes → Option Value) :=
  (assignments text).map globals

theorem readsAssignments : ReadsAssignments loadAssignments := by
  intro text as h
  rw [loadAssignments, h]
  rfl

/-- The map after the registration of `game1`. -/
def firstMap : ClusterInfo :=
  (Table.empty.set (bytes "master") ⟨bytes "10.0.0.1", .int 2527, none⟩).set
    (bytes "game1") ⟨bytes "10.0.0.2", .int 2528, some 100⟩

theorem roundTrip_iff_firstMap : RoundTrip loadAssignments firstMap := by
  refine (roundTrip_iff readsAssignments firstMap).1 fun n info hn => ?_
  have hall : ∀ e ∈ firstMap.entries, isName e.1 = true ∧ ¬ bytes "__" <+: e.1 ∧
      Literal e.2.ip := by
    decide +kernel
  exact hall (n, info) (Table.mem_entries.mpr hn)

/-- An ip that ends the quoted text and assigns a second address. -/
def injectingIp : Bytes := bytes "10.0.0.9:80\"\nevil=\"10.6.6.6"

/-- `game1` registers with it. -/
def injection : List Event :=
  [.sync (bytes "game1") injectingIp (bytes "2528"), .reloaded 0 true, .queried 0 true 100,
    .next 0 (some (bytes "master")), .next 0 (some (bytes "game1"))] ++
    firstCall ++ [.resume 0, .next 0 none, .reloaded 0 true]

/-- **A node brings another one**: `sync` returns `true`, and the file defines a node that is not
in the map. -/
theorem injected_node : ∃ (tr : List (Item masterConf)) (s : State),
    (machine masterConf).Run tr s ∧ tr.map (·.ev) = injection ∧
      (∃ i ∈ tr, Act.returned 0 true ∈ i.out) ∧ s.clusterInfo.get (bytes "evil") = none ∧
      (∃ as, assignments (configText s.clusterInfo) = some as ∧
        nodeAddress (globals as) (bytes "evil") = some (.string (bytes "10.6.6.6:2528"))) ∧
      ¬ RoundTrip loadAssignments s.clusterInfo := by
  have h : ((machine masterConf).items (machine masterConf).init injection).map (fun tr =>
      decide (tr.map (·.ev) = injection ∧ (∃ i ∈ tr, Act.returned 0 true ∈ i.out) ∧
        (Machine.last (machine masterConf).init tr).clusterInfo.get (bytes "evil") = none ∧
        ((assignments (configText (Machine.last (machine masterConf).init tr).clusterInfo)).bind
          fun as => nodeAddress (globals as) (bytes "evil")) =
            some (.string (bytes "10.6.6.6:2528")))) = some true := by
    decide +kernel
  obtain ⟨tr, hrun, hP⟩ := Machine.exists_run h
  obtain ⟨hev, hret, hnone, hnode⟩ := of_decide_eq_true hP
  obtain ⟨as, has, hnode⟩ := Option.bind_eq_some_iff.mp hnode
  refine ⟨tr, _, hrun, hev, hret, hnone, ⟨as, has, hnode⟩, ?_⟩
  rintro ⟨env, henv, hback⟩
  obtain rfl := Option.some.inj ((readsAssignments _ _ has).symm.trans henv)
  have hevil := hback (bytes "evil")
  rw [hnode, hnone] at hevil
  exact absurd hevil (by simp)

end LsServer.Monitor
