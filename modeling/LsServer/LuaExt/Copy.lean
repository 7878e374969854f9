import LsServer.Lib.Loop
import LsServer.Lua.Memory

/-!
# `table.simpleCopy` (LuaExt.lua)

The recursion is a loop with its own stack: a flat array of pairs, the table to copy and the one to
fill, below `tail`. What stood above `tail` stays there until it is overwritten. `pairs` goes
through a table that is not written to in the meantime.

`recursiveCopy` is the copy that the loop stands for.

Source: LuaExt.lua 42-68. The comment at line 41 says that the copy is shallow; the code copies
nested tables too.

* `copyField` is the body of the inner loop: a table gets an empty copy, which is assigned and
  pushed together with it, anything else is assigned.
* `copyLoop` is the outer loop, with fuel, since it does not end for a table that is part of itself.
  `head` is 1 and never changes.
* A key is assigned as it is: a table that is a key is not copied, and a copy has it as a key, too.
* A table that is met twice is copied twice, so what is shared in the source is not in the copy.

`Same m x y` relates a value and its copy: the same leaf, or two tables that have the same keys with
values that are again `Same`.

Results:
* `SameOn.euclid`: two copies of one value are equal;
* `exists_copies`: the recursive copy ends with a table equal to its source.

Out of scope: metatables, which the copy does not get, with a `__pairs` of the source. No table that
the repository copies has one.
-/

namespace LsServer.LuaExt

open LsServer.Lib LsServer.Lua

/-! ## The loop -/

/-- The variables of the loop. -/
structure Copying where
  mem : Memory
  stack : Nat → Value
  tail : Nat

/-- `stack[i] = v`. -/
def store (stack : Nat → Value) (i : Nat) (v : Value) : Nat → Value :=
  fun j => if j = i then v else stack j

/-- The body of the inner loop. -/
def copyField (dest : Value) (s : Copying) (e : Value × Value) : Except Stop Copying :=
  if (tableAt s.mem e.2).isSome then
    let nv := (newtable s.mem).2
    (setindex (newtable s.mem).1 dest e.1 nv).map fun mem =>
      ⟨mem, store (store s.stack (s.tail + 1) e.2) (s.tail + 2) nv, s.tail + 2⟩
  else (setindex s.mem dest e.1 e.2).map fun mem => { s with mem := mem }

/-- The outer loop. -/
def copyLoop : Nat → Copying → Except Stop Memory
  | 0, _ => .error .fuel
  | n + 1, s =>
    -- `head` is always 1
    if 1 ≤ s.tail then do
      let source := s.stack (s.tail - 1)
      let dest := s.stack s.tail
      let entries ← pairs s.mem source
      let s ← entries.foldlM (copyField dest) { s with tail := s.tail - 2 }
      copyLoop n s
    else .ok s.mem

/-- `table.simpleCopy(node)`: the memory afterwards and the result. -/
def simpleCopy (n : Nat) (m : Memory) (node : Value) : Except Stop (Memory × Value) :=
  if (tableAt m node).isNone then .ok (m, node)
  else
    let nt := (newtable m).2
    (copyLoop n ⟨(newtable m).1, store (store (fun _ => .nil) 1 node) 2 nt, 2⟩).map fun mem =>
      (mem, nt)

/-- `newtable[k] = copy(v)`. -/
def assignCopy (copy : Memory → Value → Except Stop (Memory × Value)) (nt : Value) (mem : Memory)
    (e : Value × Value) : Except Stop Memory := do
  let x ← copy mem e.2
  setindex x.1 nt e.1 x.2

/-- The obvious copy. -/
def recursiveCopy : Nat → Memory → Value → Except Stop (Memory × Value)
  | 0, _, _ => .error .fuel
  | n + 1, m, node =>
    match tableAt m node with
    | none => .ok (m, node)
    | some t => do
      let nt := (newtable m).2
      let mem ← t.pairs.foldlM (assignCopy (recursiveCopy n) nt) (newtable m).1
      .ok (mem, nt)

/-! ## Equal tables -/

/-- Equal values of two memories, table by table; the tables of the second one are of `P`. -/
inductive SameOn (P : Nat → Prop) (m m' : Memory) : Value → Value → Prop
  | leaf {v : Value} (h : tableAt m v = none) (h' : tableAt m' v = none) : SameOn P m m' v v
  | table {a b : Nat} {t t' : LuaTable} (h : m.cell a = .table t) (h' : m'.cell b = .table t')
    (hP : P b) (hkeys : ∀ k, t.get k = none ↔ t'.get k = none)
    (hvals : ∀ k v w, t.get k = some v → t'.get k = some w → SameOn P m m' v w) :
    SameOn P m m' (.object a) (.object b)

/-- Structural equality. -/
abbrev Same (m m' : Memory) : Value → Value → Prop := SameOn (fun _ => True) m m'

theorem SameOn.mono {P Q : Nat → Prop} {m m' : Memory} {v w : Value} (h : SameOn P m m' v w)
    (hPQ : ∀ x, P x → Q x) : SameOn Q m m' v w := by
  induction h with
  | leaf h h' => exact .leaf h h'
  | table h h' hP hkeys _ ih => exact .table h h' (hPQ _ hP) hkeys ih

/-- Two copies of one value are equal. -/
theorem SameOn.euclid {P Q : Nat → Prop} {m m₁ m₂ : Memory} {v w₁ w₂ : Value}
    (h : SameOn P m m₁ v w₁) (h' : SameOn Q m m₂ v w₂) : Same m₁ m₂ w₁ w₂ := by
  induction h generalizing w₂ with
  | leaf h h₁ =>
    cases h' with
    | leaf _ h₂ => exact .leaf h₁ h₂
    | table ht => exact absurd h (by simp [tableAt_object.mpr ht])
  | table ht ht₁ _ hkeys hvals ih =>
    cases h' with
    | leaf h => exact absurd h (by simp [tableAt_object.mpr ht])
    | table ht' ht₂ _ hkeys' hvals' =>
      obtain rfl := Object.table.inj (ht.symm.trans ht')
      refine .table ht₁ ht₂ trivial (fun k => (hkeys k).symm.trans (hkeys' k)) ?_
      intro k v w hv hw
      obtain ⟨u, hu⟩ := Option.ne_none_iff_exists'.mp
        (show _ from fun hnone => by rw [(hkeys k).mp hnone] at hv; exact absurd hv (by simp))
      exact ih k u v hu hv (hvals' k u w hu hw)

/-! ## A table that is being copied -/

/-- The fields `es` have got counterparts in `t`, and no others are there. -/
structure Copied (R : Value → Value → Prop) (es : List (Value × Value)) (t : LuaTable) : Prop where
  sound : ∀ k w, t.get k = some w → ∃ v, (k, v) ∈ es ∧ R v w
  complete : ∀ k v, (k, v) ∈ es → ∃ w, t.get k = some w ∧ R v w

theorem copied_nil (R : Value → Value → Prop) : Copied R [] .empty :=
  ⟨fun k w h => absurd h (by simp), fun k v h => absurd h (by simp)⟩

theorem Copied.mono {R R' : Value → Value → Prop} {es : List (Value × Value)} {t : LuaTable}
    (h : Copied R es t) (hR : ∀ k v w, (k, v) ∈ es → R v w → R' v w) : Copied R' es t := by
  constructor
  · intro k w hw
    obtain ⟨v, hv, hvw⟩ := h.sound k w hw
    exact ⟨v, hv, hR k v w hv hvw⟩
  · intro k v hv
    obtain ⟨w, hw, hvw⟩ := h.complete k v hv
    exact ⟨w, hw, hR k v w hv hvw⟩

/-- One field more. -/
theorem Copied.snoc {R : Value → Value → Prop} {es : List (Value × Value)} {t t' : LuaTable}
    (h : Copied R es t) {k v w : Value} (hk : k ∉ es.map Prod.fst) (hR : R v w)
    (hget : ∀ q, t'.get q = if q = k then some w else t.get q) : Copied R (es ++ [(k, v)]) t' := by
  constructor
  · intro q u hu
    rw [hget] at hu
    split at hu
    · rename_i hq
      obtain rfl := Option.some.inj hu
      exact ⟨v, by simp [hq], hR⟩
    · obtain ⟨u', hu', hR'⟩ := h.sound q u hu
      exact ⟨u', List.mem_append_left _ hu', hR'⟩
  · intro q u hu
    rcases List.mem_append.mp hu with hu | hu
    · have hq : q ≠ k := fun hq => hk (List.mem_map.mpr ⟨(q, u), hu, hq⟩)
      rw [hget, if_neg hq]
      exact h.complete q u hu
    · obtain ⟨rfl, rfl⟩ := Prod.mk.inj (List.mem_singleton.mp hu)
      exact ⟨w, by rw [hget, if_pos rfl], hR⟩

theorem Copied.get_eq_none {R : Value → Value → Prop} {es : List (Value × Value)} {t : LuaTable}
    (h : Copied R es t) {k : Value} (hk : k ∉ es.map Prod.fst) : t.get k = none := by
  by_contra hne
  obtain ⟨w, hw⟩ := Option.ne_none_iff_exists'.mp hne
  obtain ⟨v, hv, -⟩ := h.sound k w hw
  exact hk (List.mem_map.mpr ⟨(k, v), hv, rfl⟩)

/-- All fields copied. -/
theorem SameOn.of_copied {P : Nat → Prop} {m m' : Memory} {a b : Nat} {t t' : LuaTable}
    (h : m.cell a = .table t) (h' : m'.cell b = .table t') (hP : P b)
    (hcopied : Copied (SameOn P m m') t.pairs t') : SameOn P m m' (.object a) (.object b) := by
  refine .table h h' hP (fun k => ?_) fun k v w hv hw => ?_
  · constructor
    · intro hnone
      refine hcopied.get_eq_none fun hk => ?_
      obtain ⟨e, he, rfl⟩ := List.mem_map.mp hk
      rw [LuaTable.mem_pairs.mp he] at hnone
      exact absurd hnone (by simp)
    · intro hnone
      by_contra hne
      obtain ⟨v, hv⟩ := Option.ne_none_iff_exists'.mp hne
      obtain ⟨w, hw, -⟩ := hcopied.complete k v (LuaTable.mem_pairs.mpr hv)
      rw [hw] at hnone
      exact absurd hnone (by simp)
  · obtain ⟨v', hv', hsame⟩ := hcopied.sound k w hw
    rw [LuaTable.mem_pairs, hv] at hv'
    obtain rfl := Option.some.inj hv'
    exact hsame

/-! ## The recursive copy -/

/-- What was in `m₀` is in `m`. -/
structure Extends (m₀ m : Memory) : Prop where
  next : m₀.next ≤ m.next
  cell : ∀ x < m₀.next, m.cell x = m₀.cell x

variable {m₀ m : Memory}

theorem Extends.tableAt (h : Extends m₀ m) {v : Value} (hv : InUse m₀ v) :
    tableAt m v = tableAt m₀ v :=
  tableAt_congr fun r hr => h.cell r (hv r hr)

/-- A copy stays one while its tables stay. -/
theorem SameOn.frame {P : Nat → Prop} {m' : Memory} {v w : Value} (h : SameOn P m₀ m v w)
    (hm : m₀.Sound) (hv : InUse m₀ v) (hext : Extends m₀ m')
    (hcell : ∀ x, P x → m'.cell x = m.cell x) : SameOn P m₀ m' v w := by
  induction h with
  | leaf h _ => exact .leaf h ((hext.tableAt hv).trans h)
  | table h h' hP hkeys _ ih =>
    refine .table h ((hcell _ hP).trans h') hP hkeys fun k v w hv' hw => ?_
    exact ih k v w hv' hw (hm.inUse (hv _ rfl) h hv')

theorem SameOn.ne_nil {P : Nat → Prop} {m' : Memory} {v w : Value} (h : SameOn P m m' v w)
    (hv : v ≠ .nil) : w ≠ .nil := by
  cases h with
  | leaf => exact hv
  | table => simp

/-- `n` steps are enough for a copy of `v`, which consists of new tables. -/
def Copies (m₀ : Memory) (n : Nat) (v : Value) : Prop :=
  ∀ m, Extends m₀ m → ∃ m' w, (∀ k, n ≤ k → recursiveCopy k m v = .ok (m', w)) ∧
    Extends m m' ∧ SameOn (fun x => m.next ≤ x ∧ x < m'.next) m₀ m' v w

theorem Copies.mono {n k : Nat} {v : Value} (hle : n ≤ k) (h : Copies m₀ n v) :
    Copies m₀ k v := by
  intro m hext
  obtain ⟨m', w, hret, hrest⟩ := h m hext
  exact ⟨m', w, fun j hj => hret j (hle.trans hj), hrest⟩

theorem copies_leaf {v : Value} (hv : InUse m₀ v) (h : tableAt m₀ v = none) : Copies m₀ 1 v := by
  intro m hext
  have hleaf : tableAt m v = none := (hext.tableAt hv).trans h
  refine ⟨m, v, fun k hk => ?_, ⟨Nat.le_refl _, fun _ _ => rfl⟩, .leaf h hleaf⟩
  obtain ⟨k, rfl⟩ := Nat.exists_eq_add_of_le' hk
  simp only [recursiveCopy, hleaf]

/-- The memory after the fields `es` have been copied to a new table of `m`. -/
structure Filled (m₀ m : Memory) (es : List (Value × Value)) (mem : Memory) : Prop where
  lt : m.next < mem.next
  cell : ∀ x < m.next, mem.cell x = m.cell x
  copied : ∃ t, mem.cell m.next = .table t ∧
    Copied (SameOn (fun x => m.next < x ∧ x < mem.next) m₀ mem) es t

theorem Filled.extends {es : List (Value × Value)} {mem : Memory} (h : Filled m₀ m es mem) :
    Extends m mem :=
  ⟨h.lt.le, h.cell⟩

theorem Extends.trans {m' : Memory} (h : Extends m₀ m) (h' : Extends m m') : Extends m₀ m' :=
  ⟨h.next.trans h'.next, fun x hx => (h'.cell x (hx.trans_le h.next)).trans (h.cell x hx)⟩

/-- One field more is copied. -/
theorem Filled.step (hm : m₀.Sound) (hext : Extends m₀ m) {mem : Memory} {n : Nat}
    {done : List (Value × Value)} {k v : Value} (h : Filled m₀ m done mem)
    (hdone : ∀ q u, (q, u) ∈ done → InUse m₀ u) (hk : k ∉ done.map Prod.fst)
    (hkey : k.isKey = true) (hv : v ≠ .nil) (huse : InUse m₀ v) (hcopies : Copies m₀ n v) :
    ∃ mem', (∀ j, n ≤ j → assignCopy (recursiveCopy j) (.object m.next) mem (k, v) = .ok mem') ∧
      Filled m₀ m (done ++ [(k, v)]) mem' := by
  obtain ⟨t, ht, hcopied⟩ := h.copied
  obtain ⟨m₁, w, hret, hext₁, hsame⟩ := hcopies mem (hext.trans h.extends)
  obtain ⟨t', hset, hget⟩ := setindex_of_cell ((hext₁.cell _ h.lt).trans ht) hkey
    (hsame.ne_nil hv)
  have hne : ∀ x, x ≠ m.next → (m₁.set m.next (.table t')).cell x = m₁.cell x :=
    fun x hx => Heap.cell_set_ne hx
  have hext₂ : Extends m (m₁.set m.next (.table t')) := by
    refine ⟨h.lt.le.trans hext₁.next, fun x hx => ?_⟩
    rw [hne x hx.ne, hext₁.cell x (hx.trans h.lt), h.cell x hx]
  refine ⟨m₁.set m.next (.table t'), fun j hj => ?_, h.lt.trans_le hext₁.next, hext₂.cell, t',
    Heap.cell_set_self _ _ _, Copied.snoc (hcopied.mono fun q u z hq hR => ?_) hk ?_ hget⟩
  · rw [assignCopy, hret j hj]
    exact hset
  · -- what was copied before is not touched
    refine (hR.frame hm (hdone q u hq) (hext.trans hext₂) fun x hx => ?_).mono fun x hx =>
      ⟨hx.1, hx.2.trans_le hext₁.next⟩
    rw [hne x hx.1.ne', hext₁.cell x hx.2]
  · refine (hsame.frame hm huse (hext.trans hext₂) fun x hx => ?_).mono fun x hx =>
      ⟨h.lt.trans_le hx.1, hx.2⟩
    exact hne x (h.lt.trans_le hx.1).ne'

/-- The keys of the fields before one in `pairs`. -/
theorem notMem_of_pairs {t : LuaTable} {done todo : List (Value × Value)} {k v : Value}
    (h : t.pairs = done ++ (k, v) :: todo) : k ∉ done.map Prod.fst := by
  have hnodup := t.pairs_nodup
  rw [h, List.map_append, List.map_cons] at hnodup
  exact fun hk => List.disjoint_of_nodup_append hnodup hk (List.mem_cons_self ..)

/-- A table, when its fields can be copied. -/
theorem copies_table (hm : m₀.Sound) {a n : Nat} (ha : a < m₀.next) {t : LuaTable}
    (ht : m₀.cell a = .table t) (h : ∀ e ∈ t.pairs, Copies m₀ n e.2) :
    Copies m₀ (n + 1) (.object a) := by
  intro m hext
  have hempty : Filled m₀ m [] (newtable m).1 :=
    ⟨Nat.lt_succ_self _, fun x hx => Heap.cell_alloc_ne hx.ne, .empty, Heap.cell_alloc_self _ _,
      copied_nil _⟩
  have hloop : ∃ m', (∀ k, n ≤ k →
      t.pairs.foldlM (assignCopy (recursiveCopy k) (newtable m).2) (newtable m).1 = .ok m') ∧
        Filled m₀ m t.pairs m' := by
    refine foldlM_ok (S := fun k => n ≤ k) hempty fun done e todo mem hes hI => ?_
    obtain ⟨k, v⟩ := e
    have huse : ∀ q u, (q, u) ∈ t.pairs → InUse m₀ u :=
      fun q u hq => hm.inUse ha ht (LuaTable.mem_pairs.mp hq)
    have hmem : (k, v) ∈ t.pairs := by simp [hes]
    obtain ⟨hkey, hv⟩ := t.valid k v (LuaTable.mem_pairs.mp hmem)
    exact hI.step hm hext (fun q u hq => huse q u (by simp [hes, hq])) (notMem_of_pairs hes) hkey
      hv (huse k v hmem) (h _ hmem)
  obtain ⟨m', hret, hfilled⟩ := hloop
  obtain ⟨t', ht', hcopied⟩ := hfilled.copied
  refine ⟨m', .object m.next, fun k hk => ?_, hfilled.extends,
    SameOn.of_copied ht ht' ⟨Nat.le_refl _, hfilled.lt⟩ (hcopied.mono fun _ _ _ _ hR =>
      hR.mono fun x hx => ⟨hx.1.le, hx.2⟩)⟩
  obtain ⟨k, rfl⟩ := Nat.exists_eq_add_of_le' ((Nat.le_add_left 1 n).trans hk)
  have ht₁ : tableAt m (.object a) = some t :=
    (hext.tableAt fun x hx => Value.object.inj hx ▸ ha).trans (tableAt_object.mpr ht)
  simp only [recursiveCopy, ht₁]
  rw [hret k (Nat.le_of_succ_le_succ hk)]
  rfl

/-- **The recursive copy ends** with an equal table. -/
theorem exists_copies (hm : m₀.Sound) {a : Nat} (ha : a < m₀.next)
    (hacc : Acc (fun y x => Edge (FieldAt m₀) x y) a) : ∃ n, Copies m₀ n (.object a) := by
  induction hacc with
  | intro a _ ih =>
    cases ht : tableAt m₀ (.object a) with
    | none => exact ⟨1, copies_leaf (fun x hx => Value.object.inj hx ▸ ha) ht⟩
    | some t =>
      rw [tableAt_object] at ht
      have hfields : ∀ e ∈ t.pairs, ∃ n, Copies m₀ n e.2 := by
        intro e he
        have hget := LuaTable.mem_pairs.mp he
        cases hv : tableAt m₀ e.2 with
        | none => exact ⟨1, copies_leaf (hm.inUse ha ht hget) hv⟩
        | some u =>
          obtain ⟨c, hc, -⟩ := tableAt_eq_some hv
          rw [hc] at hget hv ⊢
          exact ih c ⟨e.1, t, ht, hget, by rw [hv]; rfl⟩ (hm a ha t ht e.1 c hget)
      obtain ⟨n, hn⟩ := exists_bound (Q := fun n (e : Value × Value) => Copies m₀ n e.2)
        (fun _ _ _ hle => Copies.mono hle) hfields
      exact ⟨n + 1, copies_table hm ha ht hn⟩

end LsServer.LuaExt
