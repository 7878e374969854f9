import Mathlib.Data.List.AList

/-!
# Tables and heaps

`Table K V` is a finite map with assignment to `nil` as deletion: `get`, `set`, `del`, and the
entries in some order (`entries`), which a traversal reads. It is Mathlib's `AList` at a constant
family, so no two entries share a key. `Heap α` holds the records that tables refer to by number:
`alloc` takes a fresh number, `set` replaces one record.

The `simp` lemmas read every operation back through `get` or `cell`.

* `get` after `set` and `del` is decided by the key (`get_set`, `get_del`). The order of `entries`
  is that of the list underneath, and no result may depend on it: a traversal of a program is given
  an order as an argument, or its lemma is about every permutation.
* A `Heap` is total: a number that was never allocated reads a default. `next` is the number that
  the next `alloc` takes, so numbers below it are the records there are. Nothing is ever freed.

An iteration that assigns to absent keys while it runs is not expressed by `entries`; a model that
needs it has a state for the iteration.
-/

namespace LsServer.Lib

/-- A finite map. -/
def Table (K V : Type) := AList fun _ : K => V

namespace Table

variable {K V : Type} [DecidableEq K]

/-- The table without entries. -/
def empty : Table K V := (∅ : AList fun _ : K => V)

/-- `t[k]`, `none` for `nil`. -/
def get (t : Table K V) (k : K) : Option V := AList.lookup k t

/-- `t[k] = v`. -/
def set (t : Table K V) (k : K) (v : V) : Table K V := AList.insert k v t

/-- `t[k] = nil`. -/
def del (t : Table K V) (k : K) : Table K V := AList.erase k t

/-- The entries, each key once. -/
def entries (t : Table K V) : List (K × V) := (AList.entries t).map fun e => (e.1, e.2)

@[simp] theorem get_empty (k : K) : (empty : Table K V).get k = none :=
  AList.lookup_empty (β := fun _ : K => V) k

theorem get_set (t : Table K V) (k : K) (v : V) (q : K) :
    (t.set k v).get q = if q = k then some v else t.get q := by
  unfold get set
  split
  · rename_i h
    rw [h]
    exact AList.lookup_insert t
  · rename_i h
    exact AList.lookup_insert_ne h

theorem get_del (t : Table K V) (k q : K) :
    (t.del k).get q = if q = k then none else t.get q := by
  unfold get del
  split
  · rename_i h
    rw [h]
    exact AList.lookup_erase k t
  · rename_i h
    exact AList.lookup_erase_ne h

@[simp] theorem get_set_self (t : Table K V) (k : K) (v : V) : (t.set k v).get k = some v := by
  rw [get_set, if_pos rfl]

@[simp] theorem get_del_self (t : Table K V) (k : K) : (t.del k).get k = none := by
  rw [get_del, if_pos rfl]

theorem get_set_ne {t : Table K V} {k q : K} {v : V} (h : q ≠ k) :
    (t.set k v).get q = t.get q := by
  rw [get_set, if_neg h]

theorem get_del_ne {t : Table K V} {k q : K} (h : q ≠ k) : (t.del k).get q = t.get q := by
  rw [get_del, if_neg h]

/-- A value left by a deletion was there before. -/
theorem get_of_get_del {t : Table K V} {k q : K} {v : V} (h : (t.del k).get q = some v) :
    q ≠ k ∧ t.get q = some v := by
  rw [get_del] at h
  split at h
  · exact absurd h (by simp)
  · rename_i hne
    exact ⟨hne, h⟩

/-- Deleting an absent key. -/
@[simp] theorem del_of_get_none {t : Table K V} {k : K} (h : t.get k = none) : t.del k = t := by
  unfold get at h
  unfold del
  have hk : k ∉ (AList.entries t).keys := AList.lookup_eq_none.mp h
  exact AList.ext (List.kerase_of_notMem_keys hk)

/-- The entries are what `get` reads. -/
theorem mem_entries {t : Table K V} {k : K} {v : V} : (k, v) ∈ t.entries ↔ t.get k = some v := by
  have hl : t.get k = some v ↔ (⟨k, v⟩ : Sigma fun _ : K => V) ∈ AList.entries t :=
    AList.mem_lookup_iff
  rw [hl]
  unfold entries
  constructor
  · intro h
    obtain ⟨⟨k', v'⟩, he, heq⟩ := List.mem_map.mp h
    simp only [Prod.mk.injEq] at heq
    obtain ⟨rfl, rfl⟩ := heq
    exact he
  · intro h
    exact List.mem_map.mpr ⟨⟨k, v⟩, h, rfl⟩

omit [DecidableEq K] in
theorem entries_nodup (t : Table K V) : (t.entries.map Prod.fst).Nodup := by
  have h : (t.entries.map Prod.fst) = (AList.entries t).map Sigma.fst := by
    unfold entries
    rw [List.map_map]
    rfl
  rw [h]
  exact (AList.nodupKeys t)

end Table

/-- Numbered records: the numbers below `next` are in use. -/
structure Heap (α : Type) where
  next : Nat
  cell : Nat → α

namespace Heap

variable {α : Type}

/-- The heap whose records all read `d`, none of them in use. -/
def empty (d : α) : Heap α := ⟨0, fun _ => d⟩

/-- Replace record `i`. -/
def set (h : Heap α) (i : Nat) (a : α) : Heap α := ⟨h.next, fun j => if j = i then a else h.cell j⟩

/-- Take the number `h.next` for `a`. -/
def alloc (h : Heap α) (a : α) : Heap α :=
  ⟨h.next + 1, fun j => if j = h.next then a else h.cell j⟩

theorem cell_set (h : Heap α) (i : Nat) (a : α) (j : Nat) :
    (h.set i a).cell j = if j = i then a else h.cell j := rfl

theorem cell_alloc (h : Heap α) (a : α) (j : Nat) :
    (h.alloc a).cell j = if j = h.next then a else h.cell j := rfl

@[simp] theorem cell_set_self (h : Heap α) (i : Nat) (a : α) : (h.set i a).cell i = a :=
  if_pos rfl

@[simp] theorem cell_alloc_self (h : Heap α) (a : α) : (h.alloc a).cell h.next = a :=
  if_pos rfl

theorem cell_set_ne {h : Heap α} {i j : Nat} {a : α} (hne : j ≠ i) :
    (h.set i a).cell j = h.cell j := if_neg hne

/-- What is there is put there. -/
theorem set_cell (h : Heap α) (i : Nat) : h.set i (h.cell i) = h := by
  obtain ⟨next, cell⟩ := h
  unfold set
  congr 1
  funext j
  by_cases hj : j = i
  · rw [if_pos hj, hj]
  · rw [if_neg hj]

theorem cell_alloc_ne {h : Heap α} {j : Nat} {a : α} (hne : j ≠ h.next) :
    (h.alloc a).cell j = h.cell j := if_neg hne

end Heap

end LsServer.Lib
