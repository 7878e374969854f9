import LsServer.LuaExt.Copy

/-!
# `table.simpleCopy` copies deeply (LuaExt.lua)

The tables that the loop makes are numbered from `m₀.next` on, so old and new tables do not mix. A
`Ghost` remembers for each new table whose copy it is and which fields it has got so far; `Partial`
is what holds of the memory at any time, `Waiting` what holds of memory and stack between two
rounds of the outer loop.

* The source is what is reached from the argument, in a memory that is `Sound`. It may share tables;
  it must not be part of itself, or the loop does not end and the memory fills.
* No table of the old memory is written to, so the tables on the stack are read as they were.
* `Filling` is the inner loop half way: some fields of a table have been copied, the tables among
  them stand on the stack with their counterparts.
* The tables on the stack are a `Pops` of the value graph, so the outer loop ends; how often it
  turns is the number of paths.

`DeepCopy` is what a caller relies on: equal to the source, no table in common with it, no two paths
to one new table, and the old memory as it was.

Results:
* `Partial.alloc`, `Partial.set`: what the two writes of the loop preserve;
* `fill`: the inner loop;
* `copyLoop_ends`: the outer loop, by the tables on the stack;
* `simpleCopy_deep`: the copy is equal to its source and a tree of new tables.
-/

namespace LsServer.LuaExt

open LsServer.Lib LsServer.Lua

/-! ## The new tables -/

/-- What is known about the new tables: whose copy each is, and which fields it has got. -/
structure Ghost where
  origin : Nat → Nat
  copied : Nat → List (Value × Value)

/-- A new table `c` for `a`. -/
def Ghost.alloc (g : Ghost) (c a : Nat) : Ghost :=
  ⟨fun x => if x = c then a else g.origin x, fun x => if x = c then [] else g.copied x⟩

/-- Table `b` gets field `e`. -/
def Ghost.add (g : Ghost) (b : Nat) (e : Value × Value) : Ghost :=
  ⟨g.origin, fun x => if x = b then g.copied b ++ [e] else g.copied x⟩

/-- A value of the source and what stands for it: itself, or the new table for it. -/
inductive Counterpart (m₀ : Memory) (origin : Nat → Nat) (hi : Nat) : Value → Value → Prop
  | leaf {v : Value} (h : tableAt m₀ v = none) (hold : InUse m₀ v) :
    Counterpart m₀ origin hi v v
  | table {c : Nat} (h : (tableAt m₀ (.object (origin c))).isSome) (hlo : m₀.next ≤ c)
    (hhi : c < hi) : Counterpart m₀ origin hi (.object (origin c)) (.object c)

/-- **The new tables while table `r` of the memory `m₀` is copied.** They are those from `m₀.next`
on; each has got counterparts of some fields of its origin, and each but the first, the copy of `r`,
is the value of at most one field. -/
structure Partial (m₀ : Memory) (r : Nat) (g : Ghost) (m : Memory) : Prop where
  lt : m₀.next < m.next
  old : ∀ x < m₀.next, m.cell x = m₀.cell x
  fresh : ∀ x, m₀.next ≤ x → x < m.next → ∃ t, m.cell x = .table t ∧
    Copied (Counterpart m₀ g.origin m.next) (g.copied x) t
  origin : ∀ x, m₀.next ≤ x → x < m.next → Reaches (FieldAt m₀) r (g.origin x) ∧
    (tableAt m₀ (.object (g.origin x))).isSome
  root : g.origin m₀.next = r
  parent : ∀ x y k l z, m₀.next ≤ x → x < m.next → m₀.next ≤ y → y < m.next → FieldAt m x k z →
    FieldAt m y l z → x = y ∧ k = l
  orphan : ∀ x k, m₀.next ≤ x → x < m.next → ¬ FieldAt m x k m₀.next

variable {m₀ m : Memory} {r : Nat} {g : Ghost}

theorem Counterpart.mono {origin origin' : Nat → Nat} {hi hi' : Nat} {v w : Value}
    (h : Counterpart m₀ origin hi v w) (hle : hi ≤ hi')
    (horigin : ∀ x, m₀.next ≤ x → x < hi → origin' x = origin x) :
    Counterpart m₀ origin' hi' v w := by
  cases h with
  | leaf h hold => exact .leaf h hold
  | table h hlo hhi =>
    rw [← horigin _ hlo hhi] at h ⊢
    exact .table h hlo (hhi.trans_le hle)

/-- The fields of a new table that are tables are new tables. -/
theorem Partial.field (h : Partial m₀ r g m) {x z : Nat} {k : Value} (hx : m₀.next ≤ x)
    (hx' : x < m.next) (e : FieldAt m x k z) : m₀.next ≤ z ∧ z < m.next := by
  obtain ⟨t, ht, hk, hz⟩ := e
  obtain ⟨t', ht', hcopied⟩ := h.fresh x hx hx'
  obtain rfl := Object.table.inj (ht.symm.trans ht')
  obtain ⟨v, -, hR⟩ := hcopied.sound k _ hk
  cases hR with
  | leaf hleaf hold =>
    have hold' : tableAt m (.object z) = tableAt m₀ (.object z) := by
      refine tableAt_congr fun x hx => ?_
      obtain rfl := Value.object.inj hx
      exact h.old _ (hold _ rfl)
    rw [hold', hleaf] at hz
    exact absurd hz (by simp)
  | table _ hlo hhi => exact ⟨hlo, hhi⟩

/-- A new table. -/
theorem Partial.alloc (h : Partial m₀ r g m) {a : Nat} (ha : Reaches (FieldAt m₀) r a)
    (ht : (tableAt m₀ (.object a)).isSome) :
    Partial m₀ r (g.alloc m.next a) (newtable m).1 ∧
      ∀ x k, m₀.next ≤ x → x < m.next + 1 → ¬ FieldAt (newtable m).1 x k m.next := by
  have hcell : ∀ x, x < m.next → (newtable m).1.cell x = m.cell x :=
    fun x hx => Heap.cell_alloc_ne (Nat.ne_of_lt hx)
  have hnew : (newtable m).1.cell m.next = .table .empty := Heap.cell_alloc_self _ _
  have horigin : ∀ x, m₀.next ≤ x → x < m.next → (g.alloc m.next a).origin x = g.origin x :=
    fun x _ hx => if_neg (Nat.ne_of_lt hx)
  have hsplit : ∀ x, x < (newtable m).1.next → x < m.next ∨ x = m.next :=
    fun x hx => Nat.lt_succ_iff_lt_or_eq.mp hx
  -- a field of a new table was there before
  have hfield : ∀ x k z, m₀.next ≤ x → x < (newtable m).1.next → FieldAt (newtable m).1 x k z →
      x < m.next ∧ z < m.next ∧ FieldAt m x k z := by
    intro x k z hx hx' e
    obtain ⟨t, ht, hk, hz⟩ := e
    rcases hsplit x hx' with hlt | rfl
    · rw [hcell x hlt] at ht
      obtain ⟨t', ht', hcopied⟩ := h.fresh x hx hlt
      obtain rfl := Object.table.inj (ht.symm.trans ht')
      have hzlt : z < m.next := by
        obtain ⟨v, -, hR⟩ := hcopied.sound k _ hk
        cases hR with
        | leaf _ hold => exact (hold z rfl).trans h.lt
        | table _ _ hhi => exact hhi
      refine ⟨hlt, hzlt, t, ht, hk, ?_⟩
      have hsame : tableAt (newtable m).1 (.object z) = tableAt m (.object z) :=
        tableAt_congr fun y hy => by
          obtain rfl := Value.object.inj hy
          exact hcell _ hzlt
      rwa [← hsame]
    · obtain rfl := Object.table.inj (ht.symm.trans hnew)
      exact absurd hk (by simp)
  refine ⟨⟨h.lt.trans (Nat.lt_succ_self _), fun x hx => ?_, fun x hx hx' => ?_,
    fun x hx hx' => ?_, ?_, fun x y k l z hx hx' hy hy' e e' => ?_, fun x k hx hx' e => ?_⟩,
    fun x k hx hx' e => ?_⟩
  · rw [hcell x (hx.trans h.lt), h.old x hx]
  · rcases hsplit x hx' with hlt | rfl
    · obtain ⟨t, ht, hcopied⟩ := h.fresh x hx hlt
      refine ⟨t, (hcell x hlt).trans ht, ?_⟩
      rw [show (g.alloc m.next a).copied x = g.copied x from if_neg (Nat.ne_of_lt hlt)]
      exact hcopied.mono fun _ v w _ hR => hR.mono (Nat.le_succ _) horigin
    · refine ⟨.empty, hnew, ?_⟩
      rw [show (g.alloc m.next a).copied m.next = [] from if_pos rfl]
      exact copied_nil _
  · rcases hsplit x hx' with hlt | rfl
    · rw [horigin x hx hlt]
      exact h.origin x hx hlt
    · rw [show (g.alloc m.next a).origin m.next = a from if_pos rfl]
      exact ⟨ha, ht⟩
  · rw [horigin _ (Nat.le_refl _) h.lt, h.root]
  · obtain ⟨hlt, -, e⟩ := hfield x k z hx hx' e
    obtain ⟨hlt', -, e'⟩ := hfield y l z hy hy' e'
    exact h.parent x y k l z hx hlt hy hlt' e e'
  · obtain ⟨hlt, -, e⟩ := hfield x k _ hx hx' e
    exact h.orphan x k hx hlt e
  · obtain ⟨-, hlt, -⟩ := hfield x k _ hx hx' e
    exact Nat.lt_irrefl _ hlt

/-- A new table gets a field, whose value is not yet the value of another field. -/
theorem Partial.set (h : Partial m₀ r g m) {b : Nat} (hb : m₀.next ≤ b) (hb' : b < m.next)
    {k v w : Value} (hk : k ∉ (g.copied b).map Prod.fst) (hkey : k.isKey = true) (hw : w ≠ .nil)
    (hR : Counterpart m₀ g.origin m.next v w)
    (hnew : ∀ c, w = .object c → m₀.next ≤ c →
      c ≠ m₀.next ∧ ∀ x l, m₀.next ≤ x → x < m.next → ¬ FieldAt m x l c) :
    ∃ m', setindex m (.object b) k w = .ok m' ∧ m'.next = m.next ∧
      Partial m₀ r (g.add b (k, v)) m' := by
  obtain ⟨t, ht, hcopied⟩ := h.fresh b hb hb'
  obtain ⟨t', hset, hget⟩ := setindex_of_cell ht hkey hw
  have hcell : ∀ x, x ≠ b → (m.set b (.table t')).cell x = m.cell x :=
    fun x hx => Heap.cell_set_ne hx
  have hself : (m.set b (.table t')).cell b = .table t' := Heap.cell_set_self _ _ _
  -- which values are tables has not changed
  have htable : ∀ z, (tableAt (m.set b (.table t')) (.object z)).isSome →
      (tableAt m (.object z)).isSome := by
    intro z hz
    by_cases hzb : z = b
    · rw [hzb, tableAt_object.mpr ht]
      rfl
    · have hsame : tableAt (m.set b (.table t')) (.object z) = tableAt m (.object z) :=
        tableAt_congr fun y hy => by
          obtain rfl := Value.object.inj hy
          exact hcell _ hzb
      rwa [← hsame]
  -- a field is the one that is set, or was there before
  have hfield : ∀ x l z, FieldAt (m.set b (.table t')) x l z →
      (x = b ∧ l = k ∧ w = .object z) ∨ FieldAt m x l z := by
    intro x l z e
    obtain ⟨u, hu, hl, hz⟩ := e
    by_cases hx : x = b
    · subst hx
      obtain rfl := Object.table.inj (hu.symm.trans hself)
      rw [hget] at hl
      split at hl
      · rename_i hlk
        exact .inl ⟨rfl, hlk, Option.some.inj hl⟩
      · exact .inr ⟨t, ht, hl, htable z hz⟩
    · rw [hcell x hx] at hu
      exact .inr ⟨u, hu, hl, htable z hz⟩
  -- then its value is a new table that no field had
  have hfresh : ∀ z x l, w = .object z → FieldAt (m.set b (.table t')) b k z →
      m₀.next ≤ x → x < m.next → ¬ FieldAt m x l z := by
    intro z x l hz e hx hx'
    cases hR with
    | leaf hleaf hold =>
      subst hz
      obtain ⟨-, -, -, hzt⟩ := e
      have hzlt := hold z rfl
      have hsame : tableAt (m.set b (.table t')) (.object z) = tableAt m₀ (.object z) := by
        refine tableAt_congr fun y hy => ?_
        obtain rfl := Value.object.inj hy
        rw [hcell _ (by omega), h.old _ hzlt]
      rw [hsame, hleaf] at hzt
      exact absurd hzt (by simp)
    | table _ hlo _ =>
      obtain rfl := Value.object.inj hz
      exact (hnew _ rfl hlo).2 x l hx hx'
  refine ⟨_, hset, rfl, h.lt, fun x hx => ?_, fun x hx hx' => ?_, h.origin, h.root,
    fun x y k' l z hx hx' hy hy' e e' => ?_, fun x l hx hx' e => ?_⟩
  · rw [hcell x (by omega), h.old x hx]
  · by_cases hxb : x = b
    · subst hxb
      refine ⟨t', hself, ?_⟩
      rw [show (g.add x (k, v)).copied x = g.copied x ++ [(k, v)] from if_pos rfl]
      exact hcopied.snoc hk hR hget
    · obtain ⟨u, hu, hcopied'⟩ := h.fresh x hx hx'
      refine ⟨u, (hcell x hxb).trans hu, ?_⟩
      rw [show (g.add b (k, v)).copied x = g.copied x from if_neg hxb]
      exact hcopied'
  · rcases hfield x k' z e with ⟨rfl, rfl, hz⟩ | e₁ <;>
      rcases hfield y l z e' with ⟨rfl, rfl, hz'⟩ | e₂
    · exact ⟨rfl, rfl⟩
    · exact absurd e₂ (hfresh z y l hz e hy hy')
    · exact absurd e₁ (hfresh z x k' hz' e' hx hx')
    · exact h.parent x y k' l z hx hx' hy hy' e₁ e₂
  · rcases hfield x l _ e with ⟨rfl, rfl, hz⟩ | e
    · exact (hnew _ hz (Nat.le_refl _)).1 rfl
    · exact h.orphan x l hx hx' e

/-! ## The stack -/

/-- The pairs below `tail`, the last one first. -/
inductive Stacked (stack : Nat → Value) : Nat → List (Nat × Nat) → Prop
  | nil : Stacked stack 0 []
  | cons {n a b : Nat} {ps : List (Nat × Nat)} (h : Stacked stack n ps)
    (ha : stack (n + 1) = .object a) (hb : stack (n + 2) = .object b) :
    Stacked stack (n + 2) ((a, b) :: ps)

theorem Stacked.frame {stack stack' : Nat → Value} {n : Nat} {ps : List (Nat × Nat)}
    (h : Stacked stack n ps) (hs : ∀ i, i ≤ n → stack' i = stack i) : Stacked stack' n ps := by
  induction h with
  | nil => exact .nil
  | cons _ ha hb ih =>
    exact .cons (ih fun i hi => hs i (by omega)) ((hs _ (by omega)).trans ha)
      ((hs _ (by omega)).trans hb)

/-- A pair on top, whatever its slots held. -/
theorem Stacked.push {stack : Nat → Value} {n : Nat} {ps : List (Nat × Nat)}
    (h : Stacked stack n ps) (a b : Nat) :
    Stacked (store (store stack (n + 1) (.object a)) (n + 2) (.object b)) (n + 2)
      ((a, b) :: ps) := by
  refine .cons (h.frame fun i hi => ?_) ?_ (if_pos rfl)
  · unfold store
    rw [if_neg (by omega), if_neg (by omega)]
  · unfold store
    rw [if_neg (by omega), if_pos rfl]

/-- **The invariant of the loop.** A new table waits on the stack, without fields; or it is being
filled (`busy`); or it has all its fields. -/
structure Waiting (m₀ : Memory) (r : Nat) (g : Ghost) (s : Copying) (pending : List (Nat × Nat))
    (busy : Nat → Prop) : Prop where
  part : Partial m₀ r g s.mem
  stacked : Stacked s.stack s.tail pending
  nodup : (pending.map Prod.snd).Nodup
  waiting : ∀ p ∈ pending, m₀.next ≤ p.2 ∧ p.2 < s.mem.next ∧ g.origin p.2 = p.1 ∧
    g.copied p.2 = []
  done : ∀ x, m₀.next ≤ x → x < s.mem.next → x ∉ pending.map Prod.snd → ¬ busy x →
    ∃ t, m₀.cell (g.origin x) = .table t ∧ g.copied x = t.pairs

/-- In the inner loop: table `b` has got the fields `es` of `a`, the pairs `cs` are new. -/
structure Filling (m₀ : Memory) (r a b : Nat) (rest : List (Nat × Nat))
    (es : List (Value × Value)) (g : Ghost) (cs : List (Nat × Nat)) (s : Copying) : Prop where
  waits : Waiting m₀ r g s (cs ++ rest) (· = b)
  apart : b ∉ (cs ++ rest).map Prod.snd
  lo : m₀.next ≤ b
  hi : b < s.mem.next
  origin : g.origin b = a
  copied : g.copied b = es
  edges : ∀ c ∈ cs.map Prod.fst, Edge (FieldAt m₀) a c

theorem Partial.extends (h : Partial m₀ r g m) : Extends m₀ m := ⟨h.lt.le, h.old⟩

/-- A field that is no table. -/
theorem Filling.leaf {a b : Nat} {rest cs : List (Nat × Nat)} {es : List (Value × Value)}
    {s : Copying} (h : Filling m₀ r a b rest es g cs s) {k v : Value} (hk : k ∉ es.map Prod.fst)
    (hkey : k.isKey = true) (hv : v ≠ .nil) (huse : InUse m₀ v) (hleaf : tableAt m₀ v = none) :
    ∃ s', copyField (.object b) s (k, v) = .ok s' ∧
      Filling m₀ r a b rest (es ++ [(k, v)]) (g.add b (k, v)) cs s' := by
  have hpart := h.waits.part
  have hsome : ¬ (tableAt s.mem v).isSome := by
    rw [hpart.extends.tableAt huse, hleaf]
    simp
  obtain ⟨m', hset, hnext, hpart'⟩ := hpart.set h.lo h.hi (h.copied ▸ hk) hkey hv
    (.leaf hleaf huse) fun c hc hlo => absurd (huse c hc) (by omega)
  have hother : ∀ x, x ≠ b → (g.add b (k, v)).copied x = g.copied x := fun x hx => if_neg hx
  refine ⟨{ s with mem := m' }, ?_, ⟨hpart', h.waits.stacked, h.waits.nodup, fun p hp => ?_,
    fun x hx hx' hp hb => ?_⟩, h.apart, h.lo, hnext ▸ h.hi, h.origin, ?_, h.edges⟩
  · rw [copyField, if_neg hsome, hset]
    rfl
  · obtain ⟨hlo, hhi, horigin, hcopied⟩ := h.waits.waiting p hp
    have hpb : p.2 ≠ b := fun hpb => h.apart (List.mem_map.mpr ⟨p, hp, hpb⟩)
    exact ⟨hlo, hnext ▸ hhi, horigin, (hother _ hpb).trans hcopied⟩
  · rw [hother x hb]
    exact h.waits.done x hx (hnext ▸ hx') hp hb
  · rw [← h.copied]
    exact if_pos rfl

/-- A field that is a table: its copy is put on the stack. -/
theorem Filling.push {a b c : Nat} {rest cs : List (Nat × Nat)} {es : List (Value × Value)}
    {s : Copying} (h : Filling m₀ r a b rest es g cs s) {k : Value} (hk : k ∉ es.map Prod.fst)
    (hkey : k.isKey = true) (huse : InUse m₀ (.object c)) (he : FieldAt m₀ a k c) :
    ∃ s' g', copyField (.object b) s (k, .object c) = .ok s' ∧
      Filling m₀ r a b rest (es ++ [(k, .object c)]) g' ((c, s.mem.next) :: cs) s' := by
  have hpart := h.waits.part
  have hc : (tableAt m₀ (.object c)).isSome := by
    obtain ⟨-, -, -, hc⟩ := he
    exact hc
  have hsome : (tableAt s.mem (.object c)).isSome := by
    rwa [hpart.extends.tableAt huse]
  have hreach : Reaches (FieldAt m₀) r c := by
    have ha := (hpart.origin b h.lo h.hi).1
    rw [h.origin] at ha
    exact ha.tail ⟨k, he⟩
  obtain ⟨halloc, hunique⟩ := hpart.alloc hreach hc
  have hbnext : b ≠ s.mem.next := h.hi.ne
  have hold : ∀ x, x ≠ s.mem.next → (g.alloc s.mem.next c).origin x = g.origin x ∧
      (g.alloc s.mem.next c).copied x = g.copied x := fun x hx => ⟨if_neg hx, if_neg hx⟩
  have hnewOrigin : (g.alloc s.mem.next c).origin s.mem.next = c := if_pos rfl
  have hR : Counterpart m₀ (g.alloc s.mem.next c).origin (newtable s.mem).1.next (.object c)
      (.object s.mem.next) := by
    have hR' : Counterpart m₀ (g.alloc s.mem.next c).origin (newtable s.mem).1.next
        (.object ((g.alloc s.mem.next c).origin s.mem.next)) (.object s.mem.next) :=
      .table (by rw [hnewOrigin]; exact hc) hpart.lt.le (Nat.lt_succ_self _)
    rwa [hnewOrigin] at hR'
  obtain ⟨m', hset, hnext, hpart'⟩ := halloc.set (b := b) h.lo (h.hi.trans (Nat.lt_succ_self _))
    (by rw [(hold b hbnext).2, h.copied]; exact hk) hkey (by simp) hR fun d hd _ => by
      obtain rfl := Value.object.inj hd
      exact ⟨hpart.lt.ne', hunique⟩
  have hother : ∀ x, x ≠ b → ((g.alloc s.mem.next c).add b (k, .object c)).copied x =
      (g.alloc s.mem.next c).copied x := fun x hx => if_neg hx
  have hgrows : s.mem.next < m'.next := hnext ▸ Nat.lt_succ_self _
  have hgrown : m'.next = s.mem.next + 1 := hnext
  have hpending : ∀ p ∈ cs ++ rest, p.2 < s.mem.next := fun p hp => (h.waits.waiting p hp).2.1
  refine ⟨⟨m', _, s.tail + 2⟩, (g.alloc s.mem.next c).add b (k, .object c), ?_,
    ⟨hpart', h.waits.stacked.push c s.mem.next, ?_, ?_, ?_⟩, ?_, h.lo, h.hi.trans hgrows, ?_, ?_,
    ?_⟩
  · rw [copyField, if_pos hsome]
    dsimp only
    rw [show (newtable s.mem).2 = .object s.mem.next from rfl, hset]
    rfl
  · rw [List.cons_append, List.map_cons, List.nodup_cons]
    refine ⟨fun hmem => ?_, h.waits.nodup⟩
    obtain ⟨p, hp, hpn⟩ := List.mem_map.mp hmem
    exact absurd hpn (hpending p hp).ne
  · intro p hp
    rcases List.mem_cons.mp hp with rfl | hp
    · refine ⟨hpart.lt.le, hgrows, hnewOrigin, ?_⟩
      rw [hother _ hbnext.symm]
      exact if_pos rfl
    · obtain ⟨hlo, hlt, horigin, hcopied⟩ := h.waits.waiting p hp
      have hpb : p.2 ≠ b := fun hpb => h.apart (List.mem_map.mpr ⟨p, hp, hpb⟩)
      refine ⟨hlo, hlt.trans hgrows, (hold _ hlt.ne).1.trans horigin, ?_⟩
      rw [hother _ hpb, (hold _ hlt.ne).2, hcopied]
  · intro x hx hx' hp hb
    rw [List.cons_append, List.map_cons, List.mem_cons, not_or] at hp
    have horigin : ((g.alloc s.mem.next c).add b (k, .object c)).origin x = g.origin x :=
      (hold x hp.1).1
    rw [horigin, hother x hb, (hold x hp.1).2]
    have hxlt : x < s.mem.next := by
      have hxm : x < m'.next := hx'
      omega
    exact h.waits.done x hx hxlt hp.2 hb
  · rw [List.cons_append, List.map_cons, List.mem_cons, not_or]
    exact ⟨hbnext, h.apart⟩
  · exact (hold b hbnext).1.trans h.origin
  · rw [← h.copied, ← (hold b hbnext).2]
    exact if_pos rfl
  · rw [List.map_cons]
    exact List.forall_mem_cons.mpr ⟨⟨k, he⟩, h.edges⟩

/-- The inner loop. -/
theorem fill (hm : m₀.Sound) {a b : Nat} (ha : a < m₀.next) {t : LuaTable}
    (ht : m₀.cell a = .table t) {rest : List (Nat × Nat)} {s : Copying}
    (h : Filling m₀ r a b rest [] g [] s) : ∃ s',
      t.pairs.foldlM (copyField (.object b)) s = .ok s' ∧
        ∃ g cs, Filling m₀ r a b rest t.pairs g cs s' := by
  have hstep : ∀ done e todo s, t.pairs = done ++ e :: todo →
      (∃ g cs, Filling m₀ r a b rest done g cs s) →
      ∃ s', (∀ _ : Unit, True → copyField (.object b) s e = .ok s') ∧
        ∃ g cs, Filling m₀ r a b rest (done ++ [e]) g cs s' := by
    rintro done ⟨k, v⟩ todo s hes ⟨g, cs, hI⟩
    have hget : t.get k = some v := LuaTable.mem_pairs.mp (by simp [hes])
    obtain ⟨hkey, hv⟩ := t.valid k v hget
    have hk := notMem_of_pairs hes
    have huse := hm.inUse ha ht hget
    cases hvt : tableAt m₀ v with
    | none =>
      obtain ⟨s', hret, hfill⟩ := hI.leaf hk hkey hv huse hvt
      exact ⟨s', fun _ _ => hret, _, _, hfill⟩
    | some u =>
      obtain ⟨c, rfl, -⟩ := tableAt_eq_some hvt
      obtain ⟨s', g', hret, hfill⟩ := hI.push hk hkey huse ⟨t, ht, hget, by rw [hvt]; rfl⟩
      exact ⟨s', fun _ _ => hret, _, _, hfill⟩
  obtain ⟨s', hret, hfill⟩ := foldlM_ok
    (I := fun es s => ∃ g cs, Filling m₀ r a b rest es g cs s) ⟨g, [], h⟩ hstep
  exact ⟨s', hret () trivial, hfill⟩

/-- When the loop has ended, all new tables have all their fields. -/
structure Finished (m₀ : Memory) (r : Nat) (g : Ghost) (m : Memory) : Prop where
  part : Partial m₀ r g m
  done : ∀ x, m₀.next ≤ x → x < m.next →
    ∃ t, m₀.cell (g.origin x) = .table t ∧ g.copied x = t.pairs

/-- **The loop ends.** -/
theorem copyLoop_ends (hm : m₀.Sound) (hr : r < m₀.next) {pending : List (Nat × Nat)}
    (hacc : Acc (Pops (FieldAt m₀)) (pending.map Prod.fst)) {s : Copying}
    (h : Waiting m₀ r g s pending fun _ => False) : ∃ n m g',
      (∀ k, n ≤ k → copyLoop k s = .ok m) ∧ Finished m₀ r g' m := by
  generalize hl : pending.map Prod.fst = l at hacc
  induction hacc generalizing pending s g with
  | intro l _ ih =>
    obtain ⟨mem, stack, tail⟩ := s
    obtain ⟨hpart, hstacked, hnodup, hwaiting, hdone⟩ := h
    cases hstacked with
    | nil =>
      refine ⟨1, mem, g, fun k hk => ?_, hpart, fun x hx hx' => hdone x hx hx' (by simp) id⟩
      obtain ⟨k, rfl⟩ := Nat.exists_eq_add_of_le' hk
      rfl
    | @cons n a b rest hrest hsource hdest =>
      obtain ⟨hlo, hhi, horigin, hcopied⟩ := hwaiting (a, b) (List.mem_cons_self ..)
      obtain ⟨hb, hnodup⟩ := List.nodup_cons.mp hnodup
      obtain ⟨hreach, htable⟩ := hpart.origin b hlo hhi
      rw [horigin] at hreach htable
      have ha : a < m₀.next := hm.reaches hr hreach
      obtain ⟨t, ht⟩ := Option.isSome_iff_exists.mp htable
      rw [tableAt_object] at ht
      have hfilling : Filling m₀ r a b rest [] g [] ⟨mem, stack, n⟩ := by
        refine ⟨⟨hpart, hrest, hnodup, fun p hp => hwaiting p (List.mem_cons_of_mem _ hp),
          fun x hx hx' hp hxb => hdone x hx hx' ?_ id⟩, hb, hlo, hhi, horigin, hcopied, by simp⟩
        rw [List.map_cons, List.mem_cons, not_or]
        exact ⟨hxb, hp⟩
      obtain ⟨s', hret, g', cs, hfilled⟩ := fill hm ha ht hfilling
      have hwaits : Waiting m₀ r g' s' (cs ++ rest) fun _ => False := by
        refine ⟨hfilled.waits.part, hfilled.waits.stacked, hfilled.waits.nodup,
          hfilled.waits.waiting, fun x hx hx' hp _ => ?_⟩
        by_cases hxb : x = b
        · subst hxb
          exact ⟨t, by rw [hfilled.origin]; exact ht, hfilled.copied⟩
        · exact hfilled.waits.done x hx hx' hp hxb
      obtain ⟨k, m, g'', hk, hfinished⟩ := ih _
        ⟨a, cs.map Prod.fst, rest.map Prod.fst, hl.symm, rfl, hfilled.edges⟩ hwaits (by simp)
      refine ⟨k + 1, m, g'', fun j hj => ?_, hfinished⟩
      obtain ⟨j, rfl⟩ := Nat.exists_eq_add_of_le' ((Nat.le_add_left 1 k).trans hj)
      have hpairs : pairs mem (.object a) = .ok t.pairs :=
        pairs_of_cell ((hpart.old a ha).trans ht)
      rw [copyLoop, if_pos (Nat.le_add_left 1 (n + 1))]
      change (pairs mem (stack (n + 1)) >>= _) = _
      rw [show stack (n + 1) = .object a from hsource, hpairs]
      change (t.pairs.foldlM (copyField (stack (n + 2))) ⟨mem, stack, n⟩ >>= _) = _
      rw [show stack (n + 2) = .object b from hdest, hret]
      exact hk j (Nat.le_of_succ_le_succ hj)

/-! ## The copy -/

/-- Each new table is equal to its origin. -/
theorem Finished.same (h : Finished m₀ r g m) {x : Nat} (hx : m₀.next ≤ x) (hx' : x < m.next)
    (hacc : Acc (fun y x => Edge (FieldAt m₀) x y) (g.origin x)) :
    Same m₀ m (.object (g.origin x)) (.object x) := by
  generalize ha : g.origin x = a at hacc
  induction hacc generalizing x with
  | intro a _ ih =>
    obtain ⟨t, ht, hall⟩ := h.done x hx hx'
    obtain ⟨t', ht', hcopied⟩ := h.part.fresh x hx hx'
    rw [ha] at ht
    rw [hall] at hcopied
    refine .of_copied ht ht' trivial (hcopied.mono fun k v w hv hR => ?_)
    cases hR with
    | leaf hleaf huse => exact .leaf hleaf ((h.part.extends.tableAt huse).trans hleaf)
    | @table c hc hlo hhi =>
      exact ih _ ⟨k, t, ht, LuaTable.mem_pairs.mp hv, hc⟩ hlo hhi rfl

/-- The tables of the copy are new. -/
theorem Finished.reaches (h : Finished m₀ r g m) {x : Nat}
    (hx : Reaches (FieldAt m) m₀.next x) : m₀.next ≤ x ∧ x < m.next :=
  hx.closed (P := fun x => m₀.next ≤ x ∧ x < m.next) ⟨Nat.le_refl _, h.part.lt⟩
    fun _ _ _ hx e => h.part.field hx.1 hx.2 e

/-- The tables of the source are old, before and after. -/
theorem Finished.old (h : Finished m₀ r g m) (hm : m₀.Sound) (hr : r < m₀.next) {x : Nat}
    (hx : Reaches (FieldAt m) r x) : x < m₀.next := by
  refine hx.closed (P := (· < m₀.next)) hr fun y k z hy e => ?_
  obtain ⟨t, ht, hk, -⟩ := e
  rw [h.part.old y hy] at ht
  exact hm y hy t ht k z hk

/-- **A deep copy.** `m` is the memory before, `m'` the one afterwards. An `m''` in which tables of
the copy have been written to, and new tables been made, has the source as it was. -/
structure DeepCopy (m : Memory) (r : Nat) (m' : Memory) (r' : Nat) : Prop where
  same : Same m m' (.object r) (.object r')
  recursive : ∃ n m'' r'', (∀ k, n ≤ k → recursiveCopy k m (.object r) = .ok (m'', r'')) ∧
    Same m'' m' r'' (.object r')
  unshared : ∀ x, Reaches (FieldAt m') r' x →
    ¬ Reaches (FieldAt m) r x ∧ ¬ Reaches (FieldAt m') r x
  tree : ∀ p q x, Along (FieldAt m') r' p x → Along (FieldAt m') r' q x → p = q
  update : ∀ m'' : Memory, (∀ x < m'.next, ¬ Reaches (FieldAt m') r' x → m''.cell x = m'.cell x) →
    ∀ x, Reaches (FieldAt m) r x → m''.cell x = m.cell x

theorem Finished.deepCopy (h : Finished m₀ r g m) (hm : m₀.Sound) (hr : r < m₀.next)
    (hacyclic : Acyclic (FieldAt m₀) r) : DeepCopy m₀ r m m₀.next := by
  have hacc := acc_of_acyclic (hm.finite hr) hacyclic
  have hsame : Same m₀ m (.object r) (.object m₀.next) := by
    have hroot := h.same (Nat.le_refl _) h.part.lt (h.part.root.symm ▸ hacc)
    rwa [h.part.root] at hroot
  have hnew : ∀ x, x < m₀.next → ¬ Reaches (FieldAt m) m₀.next x :=
    fun x hx hreach => Nat.lt_irrefl x (hx.trans_le (h.reaches hreach).1)
  refine ⟨hsame, ?_, fun x hx => ⟨fun hold => hnew x (hm.reaches hr hold) hx,
    fun hold => hnew x (h.old hm hr hold) hx⟩, fun p q x hp hq => ?_, fun m'' hkept x hx => ?_⟩
  · obtain ⟨n, hn⟩ := exists_copies hm hr hacc
    obtain ⟨m'', w, hret, -, hw⟩ := hn m₀ ⟨Nat.le_refl _, fun _ _ => rfl⟩
    exact ⟨n, m'', w, hret, hw.euclid hsame⟩
  · refine hp.unique (fun x k hx e => ?_) (fun x y k l z hx hy e e' => ?_) hq
    · exact h.part.orphan x k (h.reaches hx).1 (h.reaches hx).2 e
    · exact h.part.parent x y k l z (h.reaches hx).1 (h.reaches hx).2 (h.reaches hy).1
        (h.reaches hy).2 e e'
  · have hlt := hm.reaches hr hx
    rw [hkept x (hlt.trans h.part.lt) (hnew x hlt), h.part.old x hlt]

/-- The state in which the loop begins. -/
theorem waiting_init (m₀ : Memory) {r : Nat} (ht : (tableAt m₀ (.object r)).isSome) :
    Waiting m₀ r ⟨fun _ => r, fun _ => []⟩ ⟨(newtable m₀).1,
      store (store (fun _ => .nil) 1 (.object r)) 2 (newtable m₀).2, 2⟩ [(r, m₀.next)]
      fun _ => False := by
  have hnew : (newtable m₀).1.cell m₀.next = .table .empty := Heap.cell_alloc_self _ _
  have honly : ∀ x, m₀.next ≤ x → x < (newtable m₀).1.next → x = m₀.next :=
    fun x hx hx' => le_antisymm (Nat.le_of_lt_succ hx') hx
  have hfield : ∀ x k z, m₀.next ≤ x → x < (newtable m₀).1.next →
      ¬ FieldAt (newtable m₀).1 x k z := by
    intro x k z hx hx' e
    obtain ⟨t, ht, hk, -⟩ := e
    rw [honly x hx hx'] at ht
    obtain rfl := Object.table.inj (ht.symm.trans hnew)
    exact absurd hk (by simp)
  refine ⟨⟨Nat.lt_succ_self _, fun x hx => Heap.cell_alloc_ne hx.ne, fun x hx hx' => ?_,
    fun x hx hx' => ⟨.refl, ht⟩, rfl, fun x y k l z hx hx' _ _ e => absurd e (hfield x k z hx hx'),
    fun x k hx hx' => hfield x k _ hx hx'⟩, Stacked.nil.push r m₀.next, by simp, ?_,
    fun x hx hx' hp => absurd (honly x hx hx') (by simpa using hp)⟩
  · obtain rfl := honly x hx hx'
    exact ⟨.empty, hnew, copied_nil _⟩
  · rintro p hp
    obtain rfl := List.mem_singleton.mp hp
    exact ⟨Nat.le_refl _, Nat.lt_succ_self _, rfl, rfl⟩

/-- **`simpleCopy` copies every table without cycles deeply.** -/
theorem simpleCopy_deep {m : Memory} (hm : m.Sound) {r : Nat} (hr : r < m.next)
    (ht : (tableAt m (.object r)).isSome) (hacyclic : Acyclic (FieldAt m) r) :
    ∃ n m' r', (∀ k, n ≤ k → simpleCopy k m (.object r) = .ok (m', .object r')) ∧
      DeepCopy m r m' r' := by
  have hacc : Acc (Pops (FieldAt m)) ([(r, m.next)].map Prod.fst) :=
    acc_pops (List.forall_mem_singleton.mpr (acc_of_acyclic (hm.finite hr) hacyclic))
  obtain ⟨n, m', g, hret, hfinished⟩ := copyLoop_ends hm hr hacc (waiting_init m ht)
  refine ⟨n, m', m.next, fun k hk => ?_, hfinished.deepCopy hm hr hacyclic⟩
  obtain ⟨t, ht⟩ := Option.isSome_iff_exists.mp ht
  rw [simpleCopy, ht, if_neg (by simp)]
  dsimp only
  rw [hret k hk]
  rfl

/-- A table with two fields that share a table. -/
def sharing : Memory :=
  ((Heap.empty Object.other).alloc (.table (.of [(.string (bytes "a"), .object 1),
    (.string (bytes "b"), .object 1)]))).alloc
    (.table (.of [(.string (bytes "ip"), .string (bytes "10.0.0.1"))]))

theorem sharing_field {x : Nat} {t : LuaTable} (h : sharing.cell x = .table t) {k : Value} {y : Nat}
    (hk : t.get k = some (.object y)) : x = 0 ∧ y = 1 := by
  have hroot : ∀ e ∈ (LuaTable.of [(.string (bytes "a"), .object 1),
      (.string (bytes "b"), .object 1)]).pairs, e.2 = .object 1 := by
    decide +kernel
  have hleaf : ∀ e ∈ (LuaTable.of [(.string (bytes "ip"), .string (bytes "10.0.0.1"))]).pairs,
      e.2 = .string (bytes "10.0.0.1") := by
    decide +kernel
  rcases x with _ | _ | x
  · obtain rfl := Object.table.inj h
    exact ⟨rfl, Value.object.inj (hroot _ (LuaTable.mem_pairs.mpr hk))⟩
  · obtain rfl := Object.table.inj h
    exact absurd (hleaf _ (LuaTable.mem_pairs.mpr hk)) (by simp)
  · exact absurd h (by simp [sharing, Heap.alloc, Heap.empty])

theorem simpleCopy_deep_sharing :
    (∃ n m' r', (∀ k, n ≤ k → simpleCopy k sharing (.object 0) = .ok (m', .object r')) ∧
      DeepCopy sharing 0 m' r') ∧
    (simpleCopy 4 sharing (.object 0)).map (fun x => (x.2, x.1.next)) = .ok (.object 2, 5) := by
  refine ⟨simpleCopy_deep (by decide +kernel) (by decide) rfl (acyclic_of_lt ?_ 0),
    by decide +kernel⟩
  intro x k y e
  obtain ⟨t, ht, hk, -⟩ := e
  obtain ⟨rfl, rfl⟩ := sharing_field ht hk
  decide

end LsServer.LuaExt
