import LsServer.Lib.Graph
import LsServer.Lib.Table
import LsServer.Lua.Value

/-!
# Tables in memory

A table is a reference (`Value.object`), what it holds is in the memory. A `LuaTable` has no field
that is `nil` and no key that is `nil` or NaN. Tables here have no metatables, so `pairs`, `t[k]`
and `t[k] = v` are the raw operations; `pairs` gives the fields in an order that only the table
knows.

`FieldAt m x k y` says that table `y` is the value of field `k` of table `x`: the edges of the value
graph. Keys that are tables are no edges.

Source: lbaselib.c `luaB_next` 267-276, `luaB_pairs` 284-296; lvm.c `luaV_finishget`,
`luaV_finishset`; ltable.c `luaH_next`, `luaH_newkey`.

* `pairs` is the order in which a table has its fields. A table can have them in any order, so what
  holds for every table does not depend on it. No loop here writes to the table that it goes
  through.
* `next t` is the first key of that order. `false` is a key, and for an `if` as good as none
  (`next_falsy`).
* `newindex` raises (`none`) for `nil` and NaN as keys, and deletes the field where the value is
  `nil`.
* `Stop` are the ways in which a computation over the memory ends without a result: it raises, or
  its fuel is used up.

`Memory.Sound`: every table that a field refers to is in use. Only finitely many are, so a search
through them ends.
-/

namespace LsServer.Lua

open LsServer.Lib

/-- `nil` and NaN are no keys (ltable.c `luaH_newkey`). -/
def Value.isKey : Value → Bool
  | .nil => false
  | .number (.nan _) => false
  | _ => true

/-- The fields of a table. -/
structure LuaTable where
  fields : Table Value Value
  valid : ∀ k v, fields.get k = some v → k.isKey = true ∧ v ≠ .nil

namespace LuaTable

/-- `{}`. -/
def empty : LuaTable := ⟨.empty, fun k v h => absurd h (by simp)⟩

/-- `t[k]`, `none` for `nil`. -/
def get (t : LuaTable) (k : Value) : Option Value := t.fields.get k

/-- What `pairs(t)` goes through. -/
def pairs (t : LuaTable) : List (Value × Value) := t.fields.entries

/-- The key that `next(t)` gives, the first one of `pairs`; `nil` if there is none. -/
def next (t : LuaTable) : Value := (t.pairs.head?.map Prod.fst).getD .nil

theorem valid_del (t : LuaTable) (k q v : Value) (h : (t.fields.del k).get q = some v) :
    q.isKey = true ∧ v ≠ .nil :=
  t.valid q v (Table.get_of_get_del h).2

theorem valid_set (t : LuaTable) {k v : Value} (hk : k.isKey = true) (hv : v ≠ .nil) (q w : Value)
    (h : (t.fields.set k v).get q = some w) : q.isKey = true ∧ w ≠ .nil := by
  rw [Table.get_set] at h
  split at h
  · rename_i hq
    obtain rfl := Option.some.inj h
    exact ⟨hq ▸ hk, hv⟩
  · exact t.valid q w h

/-- `t[k] = v`; `none` where the key raises. -/
def newindex (t : LuaTable) (k v : Value) : Option LuaTable :=
  if hk : k.isKey = true then
    if hv : v = .nil then some ⟨t.fields.del k, t.valid_del k⟩
    else some ⟨t.fields.set k v, t.valid_set hk hv⟩
  else none

/-- A table with these fields. -/
def of (es : List (Value × Value)) : LuaTable :=
  es.foldl (fun t e => (t.newindex e.1 e.2).getD t) .empty

@[simp] theorem get_empty (k : Value) : empty.get k = none := Table.get_empty k

theorem mem_pairs {t : LuaTable} {k v : Value} : (k, v) ∈ t.pairs ↔ t.get k = some v :=
  Table.mem_entries

theorem pairs_nodup (t : LuaTable) : (t.pairs.map Prod.fst).Nodup := t.fields.entries_nodup

/-- `next(t)` is no test for an empty table: a key can be `false`. -/
theorem next_falsy {t : LuaTable} (h : t.next.truthy = false) :
    t.pairs = [] ∨ t.next = .boolean false := by
  cases hpairs : t.pairs with
  | nil => exact .inl rfl
  | cons e es =>
    have hnext : t.next = e.1 := by rw [next, hpairs]; rfl
    have hkey := (t.valid e.1 e.2 (mem_pairs.mp (hpairs ▸ List.mem_cons_self ..))).1
    rw [hnext] at h ⊢
    cases hk : e.1 with
    | nil => exact absurd hkey (by rw [hk]; simp [Value.isKey])
    | boolean b =>
      rw [hk] at h
      exact .inr (by rw [show b = false from h])
    | _ => exact absurd h (by rw [hk]; simp [Value.truthy])

theorem pairs_ne_nil {t : LuaTable} (h : t.next ≠ .nil) : t.pairs ≠ [] :=
  fun hpairs => h (by rw [next, hpairs]; rfl)

theorem newindex_eq_some {t : LuaTable} {k v : Value} (hk : k.isKey = true) (hv : v ≠ .nil) :
    ∃ t', t.newindex k v = some t' ∧ ∀ q, t'.get q = if q = k then some v else t.get q := by
  refine ⟨⟨t.fields.set k v, t.valid_set hk hv⟩, ?_, fun q => Table.get_set t.fields k v q⟩
  rw [newindex, dif_pos hk, dif_neg hv]

end LuaTable

/-- What a reference stands for: a table, or a function, userdata or coroutine. -/
inductive Object
  | table (t : LuaTable)
  | other

abbrev Memory := Heap Object

/-- How a computation stops without a result: it needs more steps, or it raises. -/
inductive Stop
  | fuel
  | raised
  deriving DecidableEq

/-- The table that a value is, `type(v) == "table"`. -/
def tableAt (m : Memory) : Value → Option LuaTable
  | .object r =>
    match m.cell r with
    | .table t => some t
    | .other => none
  | _ => none

/-- `pairs(v)`. -/
def pairs (m : Memory) (v : Value) : Except Stop (List (Value × Value)) :=
  match tableAt m v with
  | some t => .ok t.pairs
  | none => .error .raised

/-- `v[k] = w`. -/
def setindex (m : Memory) : Value → Value → Value → Except Stop Memory
  | .object r, k, w =>
    match (tableAt m (.object r)).bind fun t => t.newindex k w with
    | some t => .ok (m.set r (.table t))
    | none => .error .raised
  | _, _, _ => .error .raised

/-- `{}`, a new table. -/
def newtable (m : Memory) : Memory × Value := (m.alloc (.table .empty), .object m.next)

/-- Table `y` is a field of table `x`. -/
def FieldAt (m : Memory) (x : Nat) (k : Value) (y : Nat) : Prop :=
  ∃ t, m.cell x = .table t ∧ t.get k = some (.object y) ∧ (tableAt m (.object y)).isSome

/-- The references in a memory are in use. -/
def Memory.Sound (m : Memory) : Prop :=
  ∀ r < m.next, ∀ t, m.cell r = .table t → ∀ k x, t.get k = some (.object x) → x < m.next

/-- A reference in `v` is in use. -/
def InUse (m : Memory) (v : Value) : Prop := ∀ x, v = .object x → x < m.next

variable {m : Memory}

theorem tableAt_object {r : Nat} {t : LuaTable} :
    tableAt m (.object r) = some t ↔ m.cell r = .table t := by
  unfold tableAt
  dsimp only
  split <;> simp_all

theorem tableAt_eq_some {v : Value} {t : LuaTable} (h : tableAt m v = some t) :
    ∃ r, v = .object r ∧ m.cell r = .table t := by
  cases v with
  | object r => exact ⟨r, rfl, tableAt_object.mp h⟩
  | _ => exact absurd h (by simp [tableAt])

/-- Whether a value is a table depends on its own cell. -/
theorem tableAt_congr {m' : Memory} {v : Value}
    (h : ∀ r, v = .object r → m'.cell r = m.cell r) : tableAt m' v = tableAt m v := by
  cases v with
  | object r => simp only [tableAt, h r rfl]
  | _ => rfl

theorem pairs_of_cell {r : Nat} {t : LuaTable} (h : m.cell r = .table t) :
    pairs m (.object r) = .ok t.pairs := by
  rw [pairs, tableAt_object.mpr h]

/-- Assigning a field of a table. -/
theorem setindex_of_cell {r : Nat} {t : LuaTable} (h : m.cell r = .table t) {k w : Value}
    (hk : k.isKey = true) (hw : w ≠ .nil) : ∃ t',
      setindex m (.object r) k w = .ok (m.set r (.table t')) ∧
        ∀ q, t'.get q = if q = k then some w else t.get q := by
  obtain ⟨t', ht', hget⟩ := LuaTable.newindex_eq_some (t := t) hk hw
  refine ⟨t', ?_, hget⟩
  rw [setindex, tableAt_object.mpr h, Option.bind_some, ht']

/-- The values of the fields of table `r`. -/
def Memory.values (m : Memory) (r : Nat) : List Value :=
  match m.cell r with
  | .table t => t.pairs.map Prod.snd
  | .other => []

theorem Memory.sound_iff : m.Sound ↔ ∀ r < m.next, ∀ v ∈ m.values r, InUse m v := by
  constructor
  · intro h r hr v hv x hx
    unfold values at hv
    split at hv
    · rename_i t ht
      obtain ⟨e, he, rfl⟩ := List.mem_map.mp hv
      exact h r hr t ht e.1 x (LuaTable.mem_pairs.mp (hx ▸ he))
    · exact absurd hv List.not_mem_nil
  · intro h r hr t ht k x hk
    refine h r hr (.object x) ?_ x rfl
    rw [values, ht]
    exact List.mem_map.mpr ⟨(k, .object x), LuaTable.mem_pairs.mpr hk, rfl⟩

instance (m : Memory) (v : Value) : Decidable (InUse m v) :=
  match v with
  | .object x =>
    decidable_of_iff (x < m.next) ⟨fun h _ hy => Value.object.inj hy ▸ h, fun h => h x rfl⟩
  | .nil | .boolean _ | .number _ | .string _ => isTrue (by simp [InUse])

instance (m : Memory) : Decidable m.Sound :=
  decidable_of_iff (∀ r < m.next, ∀ v ∈ m.values r, InUse m v) Memory.sound_iff.symm

theorem Memory.Sound.inUse (hm : m.Sound) {r : Nat} (hr : r < m.next) {t : LuaTable}
    (ht : m.cell r = .table t) {k v : Value} (hv : t.get k = some v) : InUse m v := by
  rintro x rfl
  exact hm r hr t ht k x hv

/-- In a sound memory the tables in use reach tables in use. -/
theorem Memory.Sound.reaches (hm : m.Sound) {r x : Nat} (hr : r < m.next)
    (h : Reaches (FieldAt m) r x) : x < m.next := by
  refine h.closed (P := (· < m.next)) hr fun x k y hx e => ?_
  obtain ⟨t, ht, hk, -⟩ := e
  exact hm x hx t ht k y hk

theorem Memory.Sound.finite (hm : m.Sound) {r : Nat} (hr : r < m.next) :
    {x | Reaches (FieldAt m) r x}.Finite :=
  (Set.finite_lt_nat m.next).subset fun _ hx => hm.reaches hr hx

end LsServer.Lua
