import LsServer.LuaExt.Dumped

/-!
# The fields that `table.dump` hides (LuaExt.lua)

`dump` asks `next(v)` whether a table has fields. That is the first key, so a table whose first key
is `false` is written as `{}`. Only the table that is dumped is expanded without the question.

`Dumper.visits` are the tables that a depth-first search meets. It goes on from a table whose first
key is `false`, where `dump` does not, but then both have met such a table.

The condition of `dumped_iff` is on the memory before the call and the depth: no table that the
search meets below the argument has `false` as its first key. `visits` stops where `iterDepth` does.
Without `iterDepth` these are the tables that can be reached (`visits_iff`).

`dump` and the search agree step by step as long as no such table is met (`Agree`): what is in the
cache is what has been met. From the first such table on they may differ, and the text already lacks
its fields (`Follows`).

Results:
* `visits_iff`: without `iterDepth` the search goes to all tables that are reached;
* `follows_of_ok`: `dump` meets what the search meets, up to the first such table;
* `dumped_iff`: `dump` writes what it should if and only if it meets no such table.

* `dump_ends`, `dump_ends_uncut`: `dump` ends for every table of a finite memory; without
  `iterDepth` it goes on to all that is reached;
* `dump_hidden`: a table whose only field, under `false`, is not written.
-/

namespace LsServer.LuaExt

open LsServer.Lib LsServer.Lua

variable {d : Dumper} {r : Nat} {name : Bytes} {cache cache' : Cache} {doc : Doc}
  {sub : Value → Bytes → Cache → Except Stop (Doc × Cache)} {es : List (Value × Value)}

/-! ## The tables that are met -/

/-- The table that a field refers to. -/
def tableRef (m : Memory) : Value → Option Nat
  | .object c => if (tableAt m (.object c)).isSome then some c else none
  | _ => none

def tableRefs (m : Memory) (es : List (Value × Value)) : List Nat :=
  es.filterMap fun e => tableRef m e.2

/-- The tables among the fields of table `a`, in the order of `pairs`. -/
def children (m : Memory) (a : Nat) : List Nat :=
  match m.cell a with
  | .table t => tableRefs m t.pairs
  | .other => []

/-- A depth-first search from table `r` that turns back below `iterDepth`. -/
def Dumper.visits (d : Dumper) (r : Nat) : List Nat :=
  dfs (children d.mem) d.tooDeep d.mem.next 1 r [r]

theorem tableRef_eq_some {m : Memory} {v : Value} {c : Nat} :
    tableRef m v = some c ↔ v = .object c ∧ (tableAt m (.object c)).isSome := by
  cases v with
  | object x =>
    rw [tableRef, Option.ite_none_right_eq_some, Value.object.injEq, Option.some.injEq]
    exact ⟨fun ⟨h, hx⟩ => ⟨hx, hx ▸ h⟩, fun ⟨hx, h⟩ => ⟨hx ▸ h, hx⟩⟩
  | _ => simp [tableRef]

theorem tableRef_eq_none {m : Memory} {v : Value} (h : tableAt m v = none) :
    tableRef m v = none := by
  refine Option.eq_none_iff_forall_not_mem.mpr fun c hc => ?_
  obtain ⟨rfl, hsome⟩ := tableRef_eq_some.mp hc
  exact absurd hsome (by rw [h]; simp)

theorem mem_children {m : Memory} {a c : Nat} : c ∈ children m a ↔ Edge (FieldAt m) a c := by
  unfold children
  constructor
  · intro h
    split at h
    · rename_i t ht
      obtain ⟨e, he, hc⟩ := List.mem_filterMap.mp h
      obtain ⟨hobj, hsome⟩ := tableRef_eq_some.mp hc
      exact ⟨e.1, t, ht, LuaTable.mem_pairs.mp (hobj ▸ he), hsome⟩
    · exact absurd h List.not_mem_nil
  · rintro ⟨k, t, ht, hget, hsome⟩
    rw [ht]
    exact List.mem_filterMap.mpr ⟨_, LuaTable.mem_pairs.mpr hget, tableRef_eq_some.mpr ⟨rfl, hsome⟩⟩

/-- **Without `iterDepth`** the search goes to all tables that are reached. -/
theorem visits_iff (hm : d.mem.Sound) (hr : r < d.mem.next) (hdepth : d.iterDepth = none)
    (a : Nat) : a ∈ d.visits r ↔ Reaches (FieldAt d.mem) r a := by
  refine mem_dfs_iff (U := Finset.range d.mem.next) (fun _ _ => mem_children) (fun x hx c hc => ?_)
    (fun depth => by rw [Dumper.tooDeep, hdepth]) (Finset.mem_range.mpr hr)
    (Finset.card_range _).le 1 a
  obtain ⟨k, t, ht, hget, -⟩ := mem_children.mp hc
  exact Finset.mem_range.mpr (hm x (Finset.mem_range.mp hx) t ht k c hget)

/-- The search and the cache know the same tables, and no first key but that of `r` is `false`. -/
structure Agree (d : Dumper) (r : Nat) (cache : Cache) (seen : List Nat) : Prop where
  root : r ∈ seen
  mem : ∀ a, a ∈ seen ↔ (cache.get (.object a)).isSome
  good : ∀ a ∈ seen, a ≠ r → falseFirst d.mem (.object a) = false

/-- Tables `ts` have been met. One of them has the first key `false`, and the search has met such a
table too; or none has, and the search knows the same tables as the cache. -/
def Follows (d : Dumper) (r : Nat) (ts : List Value) (cache' : Cache) (seen' : List Nat) : Prop :=
  ((∀ t ∈ ts, falseFirst d.mem t = false) ∧ Agree d r cache' seen') ∨
  ((∃ t ∈ ts, falseFirst d.mem t = true) ∧
    ∃ a ∈ seen', a ≠ r ∧ falseFirst d.mem (.object a) = true)

variable {seen seen' : List Nat} {ts ts' : List Value} {c : Nat}

theorem Agree.set (h : Agree d r cache seen) {path : Bytes}
    (hc : falseFirst d.mem (.object c) = false) :
    Agree d r (cache.set (.object c) path) (c :: seen) := by
  refine ⟨List.mem_cons_of_mem c h.root, fun a => ?_,
    List.forall_mem_cons.mpr ⟨fun _ => hc, h.good⟩⟩
  rw [List.mem_cons, h.mem, Table.get_set]
  split
  · rename_i hac
    exact ⟨fun _ => rfl, fun _ => .inl (Value.object.inj hac)⟩
  · rename_i hac
    exact or_iff_right fun h => hac (h ▸ rfl)

theorem Agree.not_mem (h : Agree d r cache seen) (hc : cache.get (.object c) = none) :
    c ∉ seen := by
  rw [h.mem, hc]
  simp

theorem Follows.cons {t : Value} (ht : falseFirst d.mem t = false)
    (h : Follows d r ts cache seen) : Follows d r (t :: ts) cache seen := by
  rcases h with ⟨hgood, hagree⟩ | ⟨⟨u, hu, hfalse⟩, hseen⟩
  · exact .inl ⟨List.forall_mem_cons.mpr ⟨ht, hgood⟩, hagree⟩
  · exact .inr ⟨⟨u, List.mem_cons_of_mem t hu, hfalse⟩, hseen⟩

/-- Two parts, one after the other. -/
theorem Follows.append (h : Follows d r ts cache seen) (hsub : seen ⊆ seen')
    (h' : Agree d r cache seen → Follows d r ts' cache' seen') :
    Follows d r (ts ++ ts') cache' seen' := by
  rcases h with ⟨hgood, hagree⟩ | ⟨⟨u, hu, hfalse⟩, a, ha, hne, hbad⟩
  · rcases h' hagree with ⟨hgood', hagree'⟩ | ⟨⟨u, hu, hfalse⟩, hseen⟩
    · exact .inl ⟨List.forall_mem_append.mpr ⟨hgood, hgood'⟩, hagree'⟩
    · exact .inr ⟨⟨u, List.mem_append_right ts hu, hfalse⟩, hseen⟩
  · exact .inr ⟨⟨u, List.mem_append_left ts' hu, hfalse⟩, a, hsub ha, hne, hbad⟩

/-- In the end, a table with such a key has been met by both or by none. -/
theorem Follows.iff (h : Follows d r ts cache seen) :
    (∀ t ∈ ts, falseFirst d.mem t = false) ↔
      ∀ a ∈ seen, a ≠ r → falseFirst d.mem (.object a) = false := by
  rcases h with ⟨hgood, hagree⟩ | ⟨⟨u, hu, hfalse⟩, a, ha, hne, hbad⟩
  · exact ⟨fun _ => hagree.good, fun _ => hgood⟩
  · exact ⟨fun h => absurd (h u hu) (by rw [hfalse]; simp),
      fun h => absurd (h a ha hne) (by rw [hbad]; simp)⟩

variable {visit : Nat → List Nat → List Nat} {m : Memory} {k v : Value}

/-- A field that is no table, or a table that has been met. -/
theorem visitAll_skip (h : ∀ c, tableRef m v = some c → c ∈ seen) :
    visitAll visit (tableRefs m ((k, v) :: es)) seen = visitAll visit (tableRefs m es) seen := by
  rw [tableRefs, List.filterMap_cons]
  cases href : tableRef m v with
  | none => rfl
  | some c =>
    dsimp only
    rw [visitAll, if_pos (h c href)]
    rfl

/-- A table that has not been met. -/
theorem visitAll_new (hv : (tableAt m (.object c)).isSome) (hc : c ∉ seen) :
    visitAll visit (tableRefs m ((k, .object c) :: es)) seen =
      visitAll visit (tableRefs m es) (visit c (c :: seen)) := by
  rw [tableRefs, List.filterMap_cons]
  dsimp only
  rw [tableRef_eq_some.mpr ⟨rfl, hv⟩]
  dsimp only
  rw [visitAll, if_neg hc]
  rfl

/-- The loop meets what the search meets, if the calls in it do. -/
theorem Wrote.follows (h : Wrote d sub name es cache doc cache')
    (hmono : ∀ c seen, seen ⊆ visit c seen)
    (hleaf : ∀ c seen, children d.mem c = [] → visit c seen = seen)
    (hsub : ∀ c name cache body cache' seen, (tableAt d.mem (.object c)).isSome →
      Agree d r cache seen → sub (.object c) name cache = .ok (body, cache') →
      Follows d r (metTables body.marks) cache' (visit c seen))
    (hagree : Agree d r cache seen) :
    Follows d r (metTables doc.marks) cache' (visitAll visit (tableRefs d.mem es) seen) := by
  induction h generalizing seen with
  | done => exact .inl ⟨by simp [Doc.marks, metTables], hagree⟩
  | back hcache _ ih =>
    rw [visitAll_skip fun c hc => ?_]
    · exact ih hagree
    · obtain ⟨rfl, -⟩ := tableRef_eq_some.mp hc
      exact (hagree.mem c).mpr (by rw [hcache]; rfl)
  | leaf _ hv _ ih =>
    rw [visitAll_skip fun c hc => ?_]
    · exact ih hagree
    · rw [tableRef_eq_none hv] at hc
      exact absurd hc (by simp)
  | empty hcache hv hnext _ ih =>
    obtain ⟨c, rfl, ht⟩ := tableAt_eq_some hv
    have hc := hagree.not_mem hcache
    rw [visitAll_new (by rw [hv]; rfl) hc, metTables_empty]
    cases hfalse : falseFirst d.mem (.object c) with
    | true =>
      refine .inr ⟨⟨.object c, List.mem_cons_self .., hfalse⟩, c, ?_, ?_, hfalse⟩
      · exact subset_visitAll hmono _ _ (hmono c _ (List.mem_cons_self ..))
      · exact fun hcr => hc (hcr ▸ hagree.root)
    | false =>
      -- the table has no fields
      obtain ⟨t', ht', hpairs⟩ := (whole_nil hv hnext).mpr hfalse
      have hnil : children d.mem c = [] := by
        rw [children, tableAt_object.mp ht']
        dsimp only
        rw [← show [] = t'.pairs from hpairs]
        rfl
      rw [hleaf c _ hnil]
      exact (ih (hagree.set hfalse)).cons hfalse
  | sub hcache hv hnext hbody _ ih =>
    obtain ⟨c, rfl, ht⟩ := tableAt_eq_some hv
    have hgood := falseFirst_of_truthy hv hnext
    have hsome : (tableAt d.mem (.object c)).isSome := by rw [hv]; rfl
    rw [visitAll_new hsome (hagree.not_mem hcache), metTables_sub]
    have hcall := hsub c _ _ _ _ _ hsome (hagree.set hgood) hbody
    exact (hcall.append (subset_visitAll hmono _ _) ih).cons hgood

/-- A call meets what the search meets. -/
theorem follows_of_ok {n depth : Nat} (hv : (tableAt d.mem (.object c)).isSome)
    (hagree : Agree d r cache seen)
    (h : Doc.of d n (.object c) name depth cache = .ok (doc, cache')) :
    Follows d r (metTables doc.marks) cache'
      (dfs (children d.mem) d.tooDeep n depth c seen) := by
  induction n generalizing c name depth cache doc cache' seen with
  | zero => exact absurd h (by simp [Doc.of])
  | succ n ih =>
    obtain ⟨t, ht⟩ := Option.isSome_iff_exists.mp hv
    have hcell := tableAt_object.mp ht
    rw [Doc.of] at h
    rw [dfs]
    split at h
    · rename_i hdeep
      obtain ⟨rfl, rfl⟩ := Prod.mk.inj (Except.ok.inj h)
      rw [if_pos hdeep]
      exact .inl ⟨by simp [Doc.marks, metTables], hagree⟩
    · rename_i hdeep
      rw [pairs_of_cell hcell] at h
      rw [if_neg hdeep, children, hcell]
      exact (wrote_of_ok h).follows (subset_dfs n (depth + 1))
        (fun c seen hnil => dfs_of_nil hnil n (depth + 1) seen)
        (fun c name cache body cache' seen hv hagree hbody => ih hv hagree hbody) hagree

/-- At first, both know the table that is dumped. -/
theorem agree_init : Agree d r (Table.empty.set (.object r) (bytes ".")) [r] := by
  refine ⟨List.mem_singleton_self r, fun a => ?_, by simp⟩
  rw [List.mem_singleton, Table.get_set, Table.get_empty]
  split
  · rename_i har
    exact iff_of_true (Value.object.inj har) rfl
  · rename_i har
    exact iff_of_false (fun h => har (h ▸ rfl)) (by simp)

/-- **`dump` ends**, and has said what it should, up to first keys `false`. -/
theorem dump_ends (hm : d.mem.Sound) (hr : r < d.mem.next)
    (ht : (tableAt d.mem (.object r)).isSome) : ∃ doc : Doc,
      (∀ n, d.mem.next ≤ n →
        document d n (.object r) = .ok doc ∧ dump d n (.object r) = .ok (doc.written d)) ∧
      (Dumped d r doc ↔
        ∀ a ∈ d.visits r, a ≠ r → falseFirst d.mem (.object a) = false) := by
  obtain ⟨doc, cache', hret⟩ := document_ends hm hr ht
  have hdoc : ∀ n, d.mem.next ≤ n → document d n (.object r) = .ok doc := by
    intro n hn
    rw [document, hret n hn]
    rfl
  have hlast := hret _ (le_refl _)
  have hsaid := printed_of_ok ht ⟨r, rfl, .refl⟩ hlast
  refine ⟨doc, fun n hn => ⟨hdoc n hn, ?_⟩,
    hsaid.dumped.trans (follows_of_ok ht agree_init hlast).iff⟩
  rw [dump_eq_document ht, hdoc n hn]
  rfl

/-- Without `iterDepth`, all tables behind table `r` count. -/
theorem dump_ends_uncut (hm : d.mem.Sound) (hr : r < d.mem.next)
    (ht : (tableAt d.mem (.object r)).isSome) (hdepth : d.iterDepth = none) : ∃ doc : Doc,
      (∀ n, d.mem.next ≤ n →
        document d n (.object r) = .ok doc ∧ dump d n (.object r) = .ok (doc.written d)) ∧
      (Dumped d r doc ↔ ∀ a, Reaches (FieldAt d.mem) r a → a ≠ r →
        falseFirst d.mem (.object a) = false) := by
  obtain ⟨doc, hret, hiff⟩ := dump_ends hm hr ht
  refine ⟨doc, hret, hiff.trans (forall_congr' fun a => ?_)⟩
  rw [visits_iff hm hr hdepth]

/-- **When `dump` says what it should**: it expands every table at most once, writes all fields of a
table that it expands, and refers to a table by the path with which it was met, if and only if no
table but the dumped one is met whose first key is `false`. -/
theorem dumped_iff {d : Dumper} (hm : d.mem.Sound) {r : Nat} (hr : r < d.mem.next)
    (ht : (tableAt d.mem (.object r)).isSome) :
    (∃ doc : Doc,
      (∀ n, d.mem.next ≤ n →
        document d n (.object r) = .ok doc ∧ dump d n (.object r) = .ok (doc.written d)) ∧
      Dumped d r doc) ↔
    ∀ a ∈ d.visits r, a ≠ r → falseFirst d.mem (.object a) = false := by
  obtain ⟨doc, hret, hiff⟩ := dump_ends hm hr ht
  constructor
  · rintro ⟨doc', hret', hdumped⟩
    have hdoc := (hret' _ (le_refl _)).1.symm.trans (hret _ (le_refl _)).1
    rw [Except.ok.inj hdoc] at hdumped
    exact hiff.mp hdumped
  · exact fun h => ⟨doc, hret, hiff.mpr h⟩

/-- A table that refers to itself, and twice to another table. -/
def circular : Memory :=
  ((Heap.empty Object.other).alloc (.table (.of [(.string (bytes "self"), .object 0),
    (.string (bytes "a"), .object 1), (.string (bytes "b"), .object 1)]))).alloc
    (.table (.of [(.number (.int 1), .string (bytes "x"))]))

/-- `circular`, with references written as such. -/
def circularDumper : Dumper := ⟨circular, fun r => bytes "table: " ++ Lua.tostring r, none⟩

theorem dumped_iff_circular :
    (∃ doc : Doc, (∀ n, 2 ≤ n → document circularDumper n (.object 0) = .ok doc ∧
        dump circularDumper n (.object 0) = .ok (doc.written circularDumper)) ∧
      Dumped circularDumper 0 doc) ∧
    dump circularDumper 2 (.object 0) = .ok (bytes ("\x7b\n" ++
      "  b = \x7b\n      [1] = \"x\",\n  \x7d,\n" ++
      "  a \x7b.b\x7d\n  self \x7b.\x7d\n\x7d")) := by
  have hgood : ∀ a ∈ circularDumper.visits 0, a ≠ 0 →
      falseFirst circularDumper.mem (.object a) = false := by
    decide +kernel
  have hm : circularDumper.mem.Sound := by decide +kernel
  exact ⟨(dumped_iff hm (by decide) rfl).mpr hgood, by decide +kernel⟩

/-- A table in another one, with a field whose key is `false`. -/
def hidden : Memory :=
  ((Heap.empty Object.other).alloc (.table (.of [(.string (bytes "a"), .object 1)]))).alloc
    (.table (.of [(.boolean false, .number (.int 1))]))

/-- `hidden`, with references written as such. -/
def hiddenDumper : Dumper := ⟨hidden, fun r => bytes "table: " ++ Lua.tostring r, none⟩

/-- **A field that is not written.** -/
theorem dump_hidden :
    hidden.Sound ∧ dump hiddenDumper 2 (.object 0) = .ok (bytes "\x7b\n  a = \x7b\x7d,\n\x7d") ∧
    ¬ ∃ doc : Doc, (∀ n, 2 ≤ n → document hiddenDumper n (.object 0) = .ok doc ∧
        dump hiddenDumper n (.object 0) = .ok (doc.written hiddenDumper)) ∧
      Dumped hiddenDumper 0 doc := by
  refine ⟨by decide +kernel, by decide +kernel, ?_⟩
  rintro ⟨doc, hret, hdumped⟩
  have hdoc : document hiddenDumper 2 (.object 0) =
      .ok (.empty (.string (bytes "a")) (.object 1) (bytes ".a") .done) := by
    rfl
  have heq := hdoc.symm.trans (hret 2 (le_refl 2)).1
  rw [← Except.ok.inj heq] at hdumped
  obtain ⟨t, ht, hpairs⟩ := hdumped.complete (.object 1, []) (by simp [Doc.opened, Doc.expanded])
  have hfields : t.pairs = [(.boolean false, .number (.int 1))] := by
    rw [← Option.some.inj ht]
    decide +kernel
  exact absurd (hpairs.trans hfields) (by simp)

end LsServer.LuaExt
