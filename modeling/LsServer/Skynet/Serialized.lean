import LsServer.Lib.Loop
import LsServer.Skynet.Seri

/-!
# Messages arrive as copies

`Alike` compares values of two memories, table by table, up to a depth; the tables of the second
memory are new ones. What `pack` writes for a value is read as one that is `Alike`, whatever stands
behind it in the buffer: a table that is being read, `Building`, has got the fields so far.

The fields of a table are those that `pack` goes through, `contentsOf`: its own, or those that its
`__pairs` yields. What a `__pairs` yields can be no table at all: a key twice, NaN as a key, `nil`
as a value. Then `unpack` raises, or makes a table of other fields. `Iteration.Proper` says that it
is one.

A copy is a tree: a table that is reached twice is copied twice. So one that is part of itself
cannot be copied, and `pack` refuses it at the depth of `MAX_DEPTH`.

Out of scope: what is written before `pack` fails, and which error it fails with.

Results:
* `WriteBlock.push_contents`, `seri_contents`: the blocks are one buffer;
* `getInteger_wbInteger`: an integer is read as it was written, in every size;
* `wbTable_reads`, `packOne_reads`: a value is read as a copy;
* `seri_copies`: messages arrive as copies, and `unpack` ends for every buffer.
-/

namespace LsServer.Skynet.Seri

open LsServer.Lib LsServer.Lua

/-! ## Blocks -/

namespace WriteBlock

theorem fill_contents {b : WriteBlock} {buf : Bytes}
    (h : b.current.length + buf.length ≤ BLOCK_SIZE) :
    (b.fill buf).contents = b.contents ++ buf := by
  unfold contents fill
  dsimp only
  rw [List.take_of_length_le (by omega), List.append_assoc]

theorem next_contents {b : WriteBlock} (h : b.current.length = BLOCK_SIZE) :
    (b.next h).contents = b.contents := by
  simp [contents, next]

theorem pushAgain_contents {b : WriteBlock} {buf : Bytes} (hroom : b.current.length < BLOCK_SIZE) :
    (b.pushAgain buf).contents = b.contents ++ buf := by
  induction buf using (measure List.length).wf.induction generalizing b with
  | _ buf ih =>
    rw [pushAgain]
    split
    · rename_i h
      exact fill_contents h
    · rename_i h
      have hshort : (buf.drop (BLOCK_SIZE - b.current.length)).length < buf.length := by
        rw [List.length_drop]
        omega
      rw [ih _ hshort (show ([] : Bytes).length < BLOCK_SIZE by decide), next_contents]
      unfold contents fill
      dsimp only
      rw [List.append_assoc, List.append_assoc, List.take_append_drop, List.append_assoc]

/-- **What is pushed stands behind what was.** -/
@[simp] theorem push_contents (b : WriteBlock) (buf : Bytes) :
    (b.push buf).contents = b.contents ++ buf := by
  unfold push
  split
  · rename_i h
    rw [pushAgain_contents (show ([] : Bytes).length < BLOCK_SIZE by decide), next_contents]
  · rename_i h
    exact pushAgain_contents (Nat.lt_of_le_of_ne b.current_length h)

end WriteBlock

/-- **`seri` copies what was pushed.** -/
theorem seri_contents (b : WriteBlock) : seri (b.full ++ [b.current]) b.len = b.contents := by
  obtain ⟨full, current, hfull, hcurrent⟩ := b
  unfold WriteBlock.len WriteBlock.contents
  dsimp only
  induction full with
  | nil =>
    rw [List.nil_append, List.flatten_nil, List.length_nil, Nat.zero_add, List.nil_append, seri]
    split
    · rename_i h
      rw [Nat.le_antisymm hcurrent h, Nat.sub_self, seri, List.append_nil]
    · exact List.take_length
  | cons x full ih =>
    have hx := hfull x (List.mem_cons_self ..)
    have hlen : ((x :: full).flatten).length = BLOCK_SIZE + full.flatten.length := by
      rw [List.flatten_cons, List.length_append, hx]
    rw [List.cons_append, seri, if_pos (by omega), hlen,
      show BLOCK_SIZE + full.flatten.length + current.length - BLOCK_SIZE =
        full.flatten.length + current.length by omega,
      ih fun y hy => hfull y (List.mem_cons_of_mem _ hy), List.flatten_cons, List.append_assoc]

/-! ## Numbers and texts -/

theorem combineType_bits : ∀ t < 8, ∀ c < 32,
    (combineType t c &&& 7).toNat = t ∧ (combineType t c >>> 3).toNat = c := by
  decide +kernel

theorem rbRead_append {a rest : Bytes} {n : Nat} (h : a.length = n) :
    rbRead (a ++ rest) n = some (a, rest) := by
  rw [rbRead, if_neg (by rw [List.length_append]; omega), List.take_left' h, List.drop_left' h]

theorem getBuffer_append {a rest : Bytes} (h : a.length < 2 ^ 31) :
    getBuffer (a ++ rest) a.length = .ok (a, rest) := by
  rw [getBuffer, if_neg (Nat.not_le.mpr h), rbRead_append rfl]

theorem lowBytes_length (n : Nat) (v : Int) : (lowBytes n v).length = n := packLE_length _ _

theorem unpackLE_lowBytes (n : Nat) (v : Int) : (unpackLE (lowBytes n v) : Int) = v % 256 ^ n := by
  have hpos : (0 : Int) < 256 ^ n := by positivity
  have h0 := Int.emod_nonneg v (Int.ne_of_gt hpos)
  have hlt := Int.emod_lt_of_pos v hpos
  rw [lowBytes, unpackLE_packLE ((Int.toNat_lt h0).mpr (by exact_mod_cast hlt)),
    Int.toNat_of_nonneg h0]

theorem unpackLE_lowBytes_of_lt {n : Nat} {v : Int} (h0 : 0 ≤ v) (hlt : v < 256 ^ n) :
    (unpackLE (lowBytes n v) : Int) = v := by
  rw [unpackLE_lowBytes, Int.emod_eq_of_lt h0 hlt]

theorem signed_lowBytes {n : Nat} (hn : n = 4 ∨ n = 8) {v : Int} (hlo : -(256 ^ n / 2) ≤ v)
    (hhi : v < 256 ^ n / 2) : signed n (lowBytes n v) = v := by
  unfold signed
  dsimp only
  rw [unpackLE_lowBytes]
  rcases hn with rfl | rfl <;> norm_num at hlo hhi ⊢ <;> split <;> omega

/-- **An integer is read as it was written**, in the size that was chosen. -/
theorem getInteger_wbInteger {v : Int} (hlo : -2 ^ 63 ≤ v) (hhi : v < 2 ^ 63) (b : WriteBlock) :
    ∃ cookie payload, cookie < 8 ∧ (wbInteger b v).contents =
        b.contents ++ combineType TYPE_NUMBER cookie :: payload ∧
      ∀ rest, getInteger (payload ++ rest) cookie = .ok (v, rest) := by
  unfold wbInteger
  by_cases h0 : v = 0
  · refine ⟨TYPE_NUMBER_ZERO, [], by decide, by simp [h0], fun rest => ?_⟩
    simp [getInteger, h0]
  · rw [if_neg h0]
    by_cases hword : -2 ^ 31 ≤ v ∧ v < 2 ^ 31
    · rw [if_neg (not_not_intro hword)]
      have hdword : ∀ rest,
          getInteger (lowBytes 4 v ++ rest) TYPE_NUMBER_DWORD = .ok (v, rest) := by
        intro rest
        rw [getInteger, if_neg (by decide), if_neg (by decide), if_neg (by decide),
          if_pos rfl, rbRead_append (lowBytes_length 4 v)]
        dsimp only
        rw [signed_lowBytes (.inl rfl) (by omega) (by omega)]
      by_cases hneg : v < 0
      · rw [if_pos hneg]
        exact ⟨TYPE_NUMBER_DWORD, lowBytes 4 v, by decide, by simp, hdword⟩
      · rw [if_neg hneg]
        by_cases hbyte : v < 0x100
        · rw [if_pos hbyte]
          refine ⟨TYPE_NUMBER_BYTE, lowBytes 1 v, by decide, by simp, fun rest => ?_⟩
          rw [getInteger, if_neg (by decide), if_pos rfl, rbRead_append (lowBytes_length 1 v)]
          dsimp only
          rw [unpackLE_lowBytes_of_lt (by omega) (by omega)]
        · rw [if_neg hbyte]
          by_cases hshort : v < 0x10000
          · rw [if_pos hshort]
            refine ⟨TYPE_NUMBER_WORD, lowBytes 2 v, by decide, by simp, fun rest => ?_⟩
            rw [getInteger, if_neg (by decide), if_neg (by decide), if_pos rfl,
              rbRead_append (lowBytes_length 2 v)]
            dsimp only
            rw [unpackLE_lowBytes_of_lt (by omega) (by omega)]
          · rw [if_neg hshort]
            exact ⟨TYPE_NUMBER_DWORD, lowBytes 4 v, by decide, by simp, hdword⟩
    · rw [if_pos hword]
      refine ⟨TYPE_NUMBER_QWORD, lowBytes 8 v, by decide, by simp, fun rest => ?_⟩
      rw [getInteger, if_neg (by decide), if_neg (by decide), if_neg (by decide),
        if_neg (by decide), if_pos rfl, rbRead_append (lowBytes_length 8 v)]
      dsimp only
      rw [signed_lowBytes (.inr rfl) (by omega) (by omega)]

/-! ## Copies -/

/-- The fields of every table, with what they are found at. -/
abbrev Contents := Nat → List (Datum × Datum)

/-- The fields as `pack` goes through them: those of a table, or those that its `__pairs` yields. -/
def contentsOf (metapairs : Nat → Option Iteration) (m : Memory) : Contents := fun r =>
  match metapairs r with
  | some it => it.entries
  | none => (m.cell r).pairs

/-- It yields every key once, as a table has them, and no `nil`. -/
structure Iteration.Proper (it : Iteration) : Prop where
  valid : ∀ e ∈ it.entries, e.1.key = some e.1 ∧ e.2 ≠ .nil
  nodup : (it.entries.map Prod.fst).Nodup

/-- **`v'` in `m'` is a copy of `v`**, to the depth `d`, where `fs` has the fields of the tables.
The tables of the copy are not below `lo`. -/
def Alike (fs : Contents) (m' : Memory) (lo : Nat) : Nat → Datum → Datum → Prop
  | 0, _, _ => False
  | d + 1, v, v' =>
    match v with
    | .table r => ∃ r' l l', v' = .table r' ∧ lo ≤ r' ∧ r' < m'.next ∧
      (fs r).Perm l ∧ (m'.cell r').pairs.Perm l' ∧
      List.Forall₂ (fun e e' => Alike fs m' lo d e.1 e'.1 ∧ Alike fs m' lo d e.2 e'.2) l l'
    | .other .. => False
    | v => v' = v

/-- The tables below `r` are as they were. -/
structure Keeps (r : Nat) (m m' : Memory) : Prop where
  next : m.next ≤ m'.next
  cell : ∀ x < r, m'.cell x = m.cell x

theorem Keeps.trans {r : Nat} {m₁ m₂ m₃ : Memory} (h : Keeps r m₁ m₂) (h' : Keeps r m₂ m₃) :
    Keeps r m₁ m₃ :=
  ⟨Nat.le_trans h.next h'.next, fun x hx => (h'.cell x hx).trans (h.cell x hx)⟩

theorem Keeps.mono {r s : Nat} {m m' : Memory} (h : Keeps r m m') (hle : s ≤ r) : Keeps s m m' :=
  ⟨h.next, fun x hx => h.cell x (Nat.lt_of_lt_of_le hx hle)⟩

variable {fs : Contents} {m' m'' : Memory} {d lo : Nat}

/-- A copy stays one while its tables are left alone. -/
theorem Alike.mono {v v' : Datum} (h : Alike fs m' lo d v v') {lo' : Nat} (hlo : lo' ≤ lo)
    (hnext : m'.next ≤ m''.next)
    (hcell : ∀ x, lo ≤ x → x < m'.next → m''.cell x = m'.cell x) : Alike fs m'' lo' d v v' := by
  induction d generalizing v v' with
  | zero => exact h
  | succ d ih =>
    cases v with
    | table r =>
      obtain ⟨r', l, l', rfl, hle, hlt, hl, hl', hall⟩ := h
      refine ⟨r', l, l', rfl, Nat.le_trans hlo hle, Nat.lt_of_lt_of_le hlt hnext, hl, ?_, ?_⟩
      · rwa [hcell r' hle hlt]
      · exact hall.imp fun e e' he => ⟨ih he.1, ih he.2⟩
    | other => exact h
    | nil | boolean | integer | real | pointer | string => exact h

theorem Alike.grow {v v' : Datum} (h : Alike fs m' lo d v v') (hk : Keeps m'.next m' m'') :
    Alike fs m'' lo d v v' :=
  h.mono (Nat.le_refl _) hk.next fun x _ hx => hk.cell x hx

theorem Alike.nil_iff {v v' : Datum} (h : Alike fs m' lo d v v') : v' = .nil ↔ v = .nil := by
  cases d with
  | zero => exact absurd h not_false
  | succ d =>
    cases v with
    | table r =>
      obtain ⟨r', l, l', rfl, -⟩ := h
      simp
    | other => exact absurd h not_false
    | nil | boolean | integer | real | pointer | string => rw [show v' = _ from h]

/-- The copy of a key is a key, as it is used. -/
theorem Alike.key {v v' : Datum} (h : Alike fs m' lo d v v') (hv : v.key = some v) :
    v'.key = some v' := by
  cases d with
  | zero => exact absurd h not_false
  | succ d =>
    cases v with
    | table r =>
      obtain ⟨r', l, l', rfl, -⟩ := h
      rfl
    | other => exact absurd h not_false
    | nil | boolean | integer | real | pointer | string => rwa [show v' = _ from h]

/-- Copies that are made one after the other are different, unless they are of one value. -/
theorem Alike.ne {v w v' w' : Datum} (h : Alike fs m' lo d v v') {lo' : Nat} (hlo : m'.next ≤ lo')
    (h' : Alike fs m'' lo' d w w') (hne : v ≠ w) : v' ≠ w' := by
  rintro rfl
  cases d with
  | zero => exact absurd h not_false
  | succ d =>
    cases v with
    | table r =>
      obtain ⟨r', l, l', rfl, -, hlt, -⟩ := h
      cases w with
      | table s =>
        obtain ⟨s', k, k', heq, hle, -⟩ := h'
        obtain rfl := Datum.table.inj heq
        omega
      | other => exact absurd h' not_false
      | nil | boolean | integer | real | pointer | string =>
        exact absurd (show Datum.table r' = _ from h') (by simp)
    | other => exact absurd h not_false
    | nil | boolean | integer | real | pointer | string =>
      obtain rfl : v' = _ := h
      cases w with
      | table s =>
        obtain ⟨s', k, k', heq, -⟩ := h'
        exact absurd heq (by simp)
      | other => exact absurd h' not_false
      | nil | boolean | integer | real | pointer | string => exact hne h'

/-! ## A table that is being read -/

namespace Fields

theorem mem_pairs {t : Fields} {k v : Datum} : (k, v) ∈ t.pairs ↔ t.get k = some v :=
  Table.mem_entries

theorem pairs_nodup (t : Fields) : t.pairs.Nodup := t.fields.entries_nodup.of_map _

theorem get_put {t : Fields} {k v : Datum} (hk : k.key = some k) (hv : v ≠ .nil) (q : Datum) :
    (t.put k v hk).get q = if q = k then some v else t.get q := by
  rw [put, dif_neg hv]
  exact Table.get_set t.fields k v q

/-- A new field. -/
theorem pairs_put {t : Fields} {k v : Datum} (hk : k.key = some k) (hv : v ≠ .nil)
    (hnew : t.get k = none) : (t.put k v hk).pairs.Perm (t.pairs ++ [(k, v)]) := by
  have hnot : (k, v) ∉ t.pairs := fun hmem =>
    absurd (hnew.symm.trans (mem_pairs.mp hmem)) (by simp)
  refine (List.perm_ext_iff_of_nodup (pairs_nodup _) ?_).mpr fun ⟨q, w⟩ => ?_
  · exact t.pairs_nodup.append (List.nodup_singleton _) (by simpa using hnot)
  · rw [mem_pairs, get_put hk hv, List.mem_append, mem_pairs, List.mem_singleton, Prod.mk.injEq]
    split
    · rename_i hq
      subst hq
      simp [hnew, eq_comm]
    · rename_i hq
      simp [hq]

/-- `nil` in a place that is free. -/
theorem put_nil {t : Fields} {k : Datum} (hk : k.key = some k) (hnew : t.get k = none) :
    t.put k .nil hk = t := by
  rw [put, dif_pos rfl]
  have hdel : t.fields.del k = t.fields := Table.del_of_get_none hnew
  obtain ⟨fields, valid⟩ := t
  simp only [hdel]

theorem rawset_eq {t : Fields} {k : Datum} (hk : k.key = some k) (v : Datum) :
    t.rawset k v = some (t.put k v hk) := by
  unfold rawset
  split
  · rename_i q h
    obtain rfl := Option.some.inj (hk.symm.trans h)
    rfl
  · rename_i h
    exact absurd (hk.symm.trans h) (by simp)

end Fields

/-- **The table `r` has got copies of the fields `l`**, made of tables behind it. -/
structure Building (fs : Contents) (d r : Nat) (l : List (Datum × Datum)) (m' : Memory) :
    Prop where
  inUse : r < m'.next
  pairs : ∃ l', (m'.cell r).pairs.Perm l' ∧ List.Forall₂ (fun e e' =>
    Alike fs m' (r + 1) d e.1 e'.1 ∧ Alike fs m' (r + 1) d e.2 e'.2) l l'

theorem Building.grow {r : Nat} {l : List (Datum × Datum)} (h : Building fs d r l m')
    (hk : Keeps m'.next m' m'') : Building fs d r l m'' := by
  obtain ⟨hlt, l', hl', hall⟩ := h
  refine ⟨Nat.lt_of_lt_of_le hlt hk.next, l', ?_,
    hall.imp fun e e' he => ⟨he.1.grow hk, he.2.grow hk⟩⟩
  rwa [hk.cell r hlt]

/-- A field is put into the table. -/
theorem Building.put {r : Nat} {l : List (Datum × Datum)} (h : Building fs d r l m')
    {k v k' v' : Datum} (hk : Alike fs m' (r + 1) d k k') (hv : Alike fs m' (r + 1) d v v')
    (hkey : k'.key = some k') (hne : v ≠ .nil) (hnew : (m'.cell r).get k' = none) :
    Building fs d r (l ++ [(k, v)]) (m'.set r ((m'.cell r).put k' v' hkey)) := by
  obtain ⟨hlt, l', hl', hall⟩ := h
  have hset : ∀ {w w'}, Alike fs m' (r + 1) d w w' →
      Alike fs (m'.set r ((m'.cell r).put k' v' hkey)) (r + 1) d w w' := fun hw =>
    hw.mono (Nat.le_refl _) (Nat.le_refl _) fun x hx _ => Heap.cell_set_ne (by omega)
  refine ⟨hlt, l' ++ [(k', v')], ?_, ?_⟩
  · rw [Heap.cell_set_self]
    exact (Fields.pairs_put hkey (fun h0 => hne (hv.nil_iff.mp h0)) hnew).trans
      (hl'.append_right _)
  · refine List.rel_append (hall.imp fun e e' he => ⟨hset he.1, hset he.2⟩) ?_
    exact .cons ⟨hset hk, hset hv⟩ .nil

/-- The key of a new copy is free, if no field has been made of its original. -/
theorem Building.absent {r : Nat} {l : List (Datum × Datum)} (h : Building fs d r l m')
    (hkeeps : Keeps m'.next m' m'') {k k' : Datum} (hlo : m'.next ≤ lo)
    (hk : Alike fs m'' lo d k k') (hnew : ∀ e ∈ l, e.1 ≠ k) : (m''.cell r).get k' = none := by
  by_contra hsome
  obtain ⟨w, hw⟩ := Option.ne_none_iff_exists'.mp hsome
  rw [hkeeps.cell r h.inUse] at hw
  obtain ⟨l', hl', hall⟩ := h.pairs
  have hmem : (k', w) ∈ l' := hl'.subset (Fields.mem_pairs.mpr hw)
  obtain ⟨i, hi, hget⟩ := List.getElem_of_mem hmem
  have hlen : i < l.length := hall.length_eq ▸ hi
  have halike := (List.forall₂_iff_get.mp hall).2 i hlen hi
  refine halike.1.ne hlo hk (hnew _ (List.get_mem l ⟨i, hlen⟩)) ?_
  rw [List.get_eq_getElem, hget]

/-- The bytes `bs` are read as a copy of `v`. -/
def ReadsAs (fs : Contents) (d : Nat) (v : Datum) (bs : Bytes) : Prop :=
  bs ≠ [] ∧ ∀ n, bs.length ≤ n → ∀ m' rest, ∃ v' m'',
    unpackOne n m' (bs ++ rest) = .ok (v', m'', rest) ∧ Keeps m'.next m' m'' ∧
      Alike fs m'' m'.next d v v'

/-- The bytes `bs` are read as a copy of a key and one of its value. -/
def FieldReadsAs (fs : Contents) (d : Nat) (e : Datum × Datum) (bs : Bytes) : Prop :=
  ∃ b₁ b₂, bs = b₁ ++ b₂ ∧ ReadsAs fs d e.1 b₁ ∧ ReadsAs fs d e.2 b₂

/-- The fields of the array, up to the index `n`. -/
def arrayFields (t : Fields) (n : Nat) : List (Datum × Datum) :=
  ((List.range n).map fun i => (Datum.integer (Int64.ofNat (i + 1)), t.rawgeti (i + 1))).filter
    fun e => e.2 ≠ .nil

theorem arrayFields_succ (t : Fields) (n : Nat) : arrayFields t (n + 1) = arrayFields t n ++
    if t.rawgeti (n + 1) = .nil then []
    else [(.integer (Int64.ofNat (n + 1)), t.rawgeti (n + 1))] := by
  rw [arrayFields, List.range_succ, List.map_append, List.filter_append]
  by_cases hnil : t.rawgeti (n + 1) = .nil <;> simp [arrayFields, hnil]

theorem ofNat_inj {a b : Nat} (ha : a < 2 ^ 31) (hb : b < 2 ^ 31)
    (h : Int64.ofNat a = Int64.ofNat b) : a = b := by
  have hint := congrArg Int64.toInt h
  rw [Int64.toInt_ofNat_of_lt (by omega), Int64.toInt_ofNat_of_lt (by omega)] at hint
  exact_mod_cast hint

theorem key_ne_of_mem_arrayFields {t : Fields} {n : Nat} (hn : n + 1 < 2 ^ 31)
    {e : Datum × Datum} (h : e ∈ arrayFields t n) : e.1 ≠ .integer (Int64.ofNat (n + 1)) := by
  obtain ⟨i, hi, rfl⟩ := List.mem_map.mp (List.mem_of_mem_filter h)
  intro heq
  have hlt := List.mem_range.mp hi
  have := ofNat_inj (by omega) hn (Datum.integer.inj heq)
  omega

/-- **The array is read.** -/
theorem unpackArray_reads {t : Fields} {r n k : Nat} {bss : List Bytes} {i : Nat}
    (h : List.Forall₂ (fun i bs => ReadsAs fs d (t.rawgeti (i + 1)) bs) (List.range' i k) bss)
    (hn : ∀ bs ∈ bss, bs.length ≤ n) (hlt : i + k < 2 ^ 31)
    (hb : Building fs d r (arrayFields t i) m') (rest : Bytes) :
    ∃ m'', unpackArray (unpackOne n) r k (i + 1) m' (bss.flatten ++ rest) = .ok (m'', rest) ∧
      Keeps r m' m'' ∧ Building fs d r (arrayFields t (i + k)) m'' := by
  induction k generalizing i bss m' with
  | zero =>
    obtain rfl := List.forall₂_nil_left_iff.mp h
    exact ⟨m', rfl, ⟨Nat.le_refl _, fun _ _ => rfl⟩, hb⟩
  | succ k ih =>
    rw [List.range'_succ] at h
    obtain ⟨bs, bss', ⟨-, hread⟩, hrest, rfl⟩ := List.forall₂_cons_left_iff.mp h
    obtain ⟨v', m1, hread, hkeeps, halike⟩ :=
      hread n (hn bs (List.mem_cons_self ..)) m' (bss'.flatten ++ rest)
    have hstep : unpackArray (unpackOne n) r (k + 1) (i + 1) m' ((bs :: bss').flatten ++ rest) =
        unpackArray (unpackOne n) r k (i + 1 + 1) (m1.set r ((m1.cell r).rawseti (i + 1) v'))
          (bss'.flatten ++ rest) := by
      rw [unpackArray, List.flatten_cons, List.append_assoc, hread]
      rfl
    have hkey : Alike fs m1 m'.next d (.integer (Int64.ofNat (i + 1)))
        (.integer (Int64.ofNat (i + 1))) := by
      cases d with
      | zero => exact absurd halike not_false
      | succ d => exact rfl
    have hfree := hb.absent hkeeps (Nat.le_refl _) hkey fun e he =>
      key_ne_of_mem_arrayFields (by omega) he
    have hr : r + 1 ≤ m'.next := hb.inUse
    have hb1 : Building fs d r (arrayFields t (i + 1))
        (m1.set r ((m1.cell r).rawseti (i + 1) v')) := by
      rw [arrayFields_succ]
      by_cases hnil : t.rawgeti (i + 1) = .nil
      · rw [if_pos hnil, List.append_nil]
        obtain rfl := halike.nil_iff.mpr hnil
        rw [Fields.rawseti, Fields.put_nil _ hfree, Heap.set_cell]
        exact hb.grow hkeeps
      · rw [if_neg hnil]
        exact (hb.grow hkeeps).put (hkey.mono hr (Nat.le_refl _) fun _ _ _ => rfl)
          (halike.mono hr (Nat.le_refl _) fun _ _ _ => rfl) (key_integer _) hnil hfree
    obtain ⟨m2, hok, hkeeps2, hb2⟩ := ih hrest (fun x hx => hn x (List.mem_cons_of_mem _ hx))
      (by omega) hb1
    refine ⟨m2, hstep.trans hok, ?_, ?_⟩
    · have hset : Keeps r m1 (m1.set r ((m1.cell r).rawseti (i + 1) v')) :=
        ⟨Nat.le_refl _, fun x hx => Heap.cell_set_ne (Nat.ne_of_lt hx)⟩
      exact ((hkeeps.mono (by omega)).trans hset).trans hkeeps2
    · rwa [show i + (k + 1) = i + 1 + k by omega]

/-- The end of a table. -/
theorem unpackOne_nil {n : Nat} (hn : 0 < n) (m' : Memory) (rest : Bytes) :
    unpackOne n m' (combineType TYPE_NIL 0 :: rest) = .ok (.nil, m', rest) := by
  cases n with
  | zero => omega
  | succ n => rfl

/-- **The other fields are read.** -/
theorem unpackHash_reads {r n : Nat} (hpos : 0 < n) {l es : List (Datum × Datum)}
    {bss : List Bytes}
    (h : List.Forall₂ (FieldReadsAs fs d) es bss)
    (hn : ∀ bs ∈ bss, bs.length ≤ n)
    (hvalid : ∀ e ∈ es, e.1.key = some e.1 ∧ e.2 ≠ .nil)
    (hnodup : ((l ++ es).map Prod.fst).Nodup) (hb : Building fs d r l m') (rest : Bytes) {f : Nat}
    (hf : es.length < f) :
    ∃ m'', unpackHash (unpackOne n) r f m' (bss.flatten ++ combineType TYPE_NIL 0 :: rest) =
        .ok (m'', rest) ∧ Keeps r m' m'' ∧ Building fs d r (l ++ es) m'' := by
  induction es generalizing l bss m' f with
  | nil =>
    obtain rfl := List.forall₂_nil_left_iff.mp h
    obtain ⟨f, rfl⟩ : ∃ g, f = g + 1 := ⟨f - 1, by simp at hf; omega⟩
    refine ⟨m', ?_, ⟨Nat.le_refl _, fun _ _ => rfl⟩, by rwa [List.append_nil]⟩
    rw [unpackHash, List.flatten_nil, List.nil_append, unpackOne_nil hpos]
    rfl
  | cons e es ih =>
    obtain ⟨k, v⟩ := e
    obtain ⟨bs, bss', ⟨b₁, b₂, rfl, ⟨-, hk⟩, -, hv⟩, hrest, rfl⟩ :=
      List.forall₂_cons_left_iff.mp h
    obtain ⟨f, rfl⟩ : ∃ g, f = g + 1 := ⟨f - 1, by simp at hf; omega⟩
    have hlen := hn _ (List.mem_cons_self ..)
    rw [List.length_append] at hlen
    obtain ⟨k', m1, hreadk, hkeeps1, hk⟩ :=
      hk n (by omega) m' (b₂ ++ (bss'.flatten ++ combineType TYPE_NIL 0 :: rest))
    obtain ⟨v', m2, hreadv, hkeeps2, hv⟩ :=
      hv n (by omega) m1 (bss'.flatten ++ combineType TYPE_NIL 0 :: rest)
    obtain ⟨hkey, hne⟩ := hvalid _ (List.mem_cons_self ..)
    have hkey' := hk.key hkey
    have hknil : k' ≠ .nil := fun h0 => by
      rw [hk.nil_iff.mp h0] at hkey
      exact absurd hkey (by simp [Datum.key])
    have hkeeps : Keeps m'.next m' m2 := hkeeps1.trans (hkeeps2.mono hkeeps1.next)
    have hk2 : Alike fs m2 m'.next d k k' := hk.grow hkeeps2
    have hr : r + 1 ≤ m'.next := hb.inUse
    have hfree : (m2.cell r).get k' = none := by
      refine hb.absent hkeeps (Nat.le_refl _) hk2 fun e he heq => ?_
      rw [List.map_append] at hnodup
      exact List.disjoint_of_nodup_append hnodup (List.mem_map_of_mem he)
        (heq ▸ List.mem_cons_self ..)
    have hb2 : Building fs d r (l ++ [(k, v)]) (m2.set r ((m2.cell r).put k' v' hkey')) :=
      (hb.grow hkeeps).put (hk2.mono hr (Nat.le_refl _) fun _ _ _ => rfl)
        (hv.mono (Nat.le_trans hr hkeeps1.next) (Nat.le_refl _) fun _ _ _ => rfl) hkey' hne hfree
    obtain ⟨m3, hok, hkeeps3, hb3⟩ := ih hrest (fun x hx => hn x (List.mem_cons_of_mem _ hx))
      (fun x hx => hvalid x (List.mem_cons_of_mem _ hx)) (by simpa using hnodup) hb2
      (by simpa using hf)
    refine ⟨m3, ?_, ?_, by simpa using hb3⟩
    · rw [unpackHash, List.flatten_cons, List.append_assoc, List.append_assoc, hreadk]
      simp only [bind, Except.bind, if_neg hknil, hreadv, Fields.rawset_eq hkey']
      exact hok
    · have hset : Keeps r m2 (m2.set r ((m2.cell r).put k' v' hkey')) :=
        ⟨Nat.le_refl _, fun x hx => Heap.cell_set_ne (Nat.ne_of_lt hx)⟩
      exact ((hkeeps.mono (by omega)).trans hset).trans hkeeps3

/-! ## A value is read as a copy -/

/-- A value without tables, from its type, its cookie and what stands behind them. -/
theorem readsAs_scalar {t c : Nat} {payload : Bytes} {v : Datum} (ht : t < 8) (hc : c < 32)
    (h : ∀ one m' rest, pushValue one m' (payload ++ rest) t c = .ok (v, m', rest))
    (halike : ∀ m'' lo, Alike fs m'' lo (d + 1) v v) :
    ReadsAs fs (d + 1) v (combineType t c :: payload) := by
  refine ⟨List.cons_ne_nil _ _, fun n hn m' rest => ⟨v, m', ?_,
    ⟨Nat.le_refl _, fun _ _ => rfl⟩, halike _ _⟩⟩
  cases n with
  | zero => exact absurd hn (by simp)
  | succ n =>
    obtain ⟨htype, hcookie⟩ := combineType_bits t ht c hc
    rw [List.cons_append, unpackOne, htype, hcookie, h]

/-- **A text is read as it was written.** -/
theorem wbString_reads {str : Bytes} (hstr : str.length < 2 ^ 31) (b : WriteBlock) :
    ∃ bs, (wbString b str).contents = b.contents ++ bs ∧ ReadsAs fs (d + 1) (.string str) bs := by
  unfold wbString
  by_cases hshort : str.length < MAX_COOKIE
  · rw [if_pos hshort]
    refine ⟨combineType TYPE_SHORT_STRING str.length :: str, ?_,
      readsAs_scalar (by decide) hshort (fun one m' rest => ?_) fun _ _ => rfl⟩
    · by_cases h0 : 0 < str.length
      · simp [h0]
      · rw [if_neg h0]
        simp [List.length_eq_zero_iff.mp (Nat.eq_zero_of_not_pos h0)]
    · simp only [pushValue, TYPE_SHORT_STRING, TYPE_NIL, TYPE_BOOLEAN, TYPE_NUMBER, TYPE_USERDATA,
        getBuffer_append hstr]
      rfl
  · rw [if_neg hshort]
    have hpush : ∀ (c k : Nat), c < 32 → str.length < 256 ^ k →
        (∀ rest, longLength (packLE k str.length ++ rest) c = .ok (str.length, rest)) →
        ReadsAs fs (d + 1) (.string str)
          (combineType TYPE_LONG_STRING c :: (packLE k str.length ++ str)) := by
      intro c k hc hlt hlen
      refine readsAs_scalar (by decide) hc (fun one m' rest => ?_) fun _ _ => rfl
      simp only [pushValue, TYPE_LONG_STRING, TYPE_SHORT_STRING, TYPE_NIL, TYPE_BOOLEAN,
        TYPE_NUMBER, TYPE_USERDATA, List.append_assoc, hlen, bind, Except.bind,
        getBuffer_append hstr]
      rfl
    by_cases hword : str.length < 0x10000
    · rw [if_pos hword]
      refine ⟨_, ?_, hpush 2 2 (by decide) (by simpa using hword) fun rest => ?_⟩
      · simp
      · rw [longLength, if_pos rfl, rbRead_append (packLE_length 2 _)]
        dsimp only
        rw [unpackLE_packLE (by simpa using hword)]
    · rw [if_neg hword]
      refine ⟨_, ?_, hpush 4 4 (by decide) (by omega) fun rest => ?_⟩
      · simp
      · rw [longLength, if_neg (by decide), if_neg (by decide), rbRead_append (packLE_length 4 _)]
        dsimp only
        rw [unpackLE_packLE (by omega)]

/-- **The size of an array is read as it was written.** -/
theorem arraySize_reads {size : Nat} (hsize : size < 2 ^ 31) (b : WriteBlock) :
    ∃ cookie payload, cookie < 32 ∧
      (wbArraySize size b).contents = b.contents ++ combineType TYPE_TABLE cookie :: payload ∧
      ∀ rest, arraySize (payload ++ rest) cookie = .ok ((size : Int), rest) := by
  unfold wbArraySize
  by_cases hlarge : MAX_COOKIE - 1 ≤ size
  · obtain ⟨c, payload, hc, hcontents, hget⟩ := getInteger_wbInteger (v := size) (by omega)
      (by omega) (b.push [combineType TYPE_TABLE (MAX_COOKIE - 1)])
    refine ⟨MAX_COOKIE - 1, combineType TYPE_NUMBER c :: payload, by decide, ?_, fun rest => ?_⟩
    · rw [if_pos hlarge, hcontents]
      simp
    · obtain ⟨htype, hcookie⟩ := combineType_bits TYPE_NUMBER (by decide) c (by omega)
      have hreal : c ≠ TYPE_NUMBER_REAL := Nat.ne_of_lt hc
      unfold arraySize
      rw [if_pos rfl, List.cons_append]
      simp only [htype, hcookie, ne_eq, not_true_eq_false, hreal, or_self, if_false, hget]
      simp only [bind, Except.bind, toInt32]
      rw [signed_lowBytes (.inl rfl) (by omega) (by omega)]
  · refine ⟨size, [], ?_, ?_, fun rest => ?_⟩
    · unfold MAX_COOKIE at hlarge
      omega
    · rw [if_neg hlarge, WriteBlock.push_contents]
    · have hne : size ≠ MAX_COOKIE - 1 := by omega
      unfold arraySize
      rw [if_neg hne]
      rfl

theorem mem_arrayFields {t : Fields} {n : Nat} {e : Datum × Datum} (hn : n < 2 ^ 31) :
    e ∈ arrayFields t n ↔ e ∈ t.pairs ∧ inArray n e.1 = true := by
  obtain ⟨k, v⟩ := e
  rw [Fields.mem_pairs]
  have hget : ∀ i, t.rawgeti (i + 1) = v → v ≠ .nil →
      t.get (.integer (Int64.ofNat (i + 1))) = some v := by
    intro i hv hne
    unfold Fields.rawgeti at hv
    cases hg : t.get (.integer (Int64.ofNat (i + 1))) with
    | none =>
      rw [hg] at hv
      exact absurd hv.symm hne
    | some w =>
      rw [hg] at hv
      rw [← hv]
      rfl
  constructor
  · intro h
    obtain ⟨hmem, hne⟩ := List.mem_filter.mp h
    obtain ⟨i, hi, heq⟩ := List.mem_map.mp hmem
    obtain ⟨rfl, hv⟩ := Prod.mk.inj heq
    have hlt := List.mem_range.mp hi
    refine ⟨hget i hv (of_decide_eq_true hne), ?_⟩
    simp only [inArray, Int64.toInt_ofNat_of_lt (show i + 1 < 2 ^ 63 by omega)]
    simp
    omega
  · rintro ⟨hg, hin⟩
    cases k with
    | integer x =>
      simp only [inArray, Bool.and_eq_true, decide_eq_true_eq] at hin
      have hx : Int64.ofNat (x.toInt.toNat - 1 + 1) = x := by
        rw [show x.toInt.toNat - 1 + 1 = x.toInt.toNat by omega]
        exact Int64.toInt_inj.mp (by
          rw [Int64.toInt_ofNat_of_lt (by omega)]
          omega)
      have hne := (t.valid _ _ hg).2
      refine List.mem_filter.mpr ⟨List.mem_map.mpr ⟨x.toInt.toNat - 1,
        List.mem_range.mpr (by omega), ?_⟩, by simpa using hne⟩
      rw [hx, Fields.rawgeti, hx, hg]
      rfl
    | nil | boolean | real | pointer | string | table | other =>
      exact absurd hin (by simp [inArray])

theorem arrayFields_nodup {t : Fields} {n : Nat} (hn : n < 2 ^ 31) : (arrayFields t n).Nodup := by
  refine List.Nodup.filter _ ((List.nodup_map_iff_inj_on List.nodup_range).mpr ?_)
  intro i hi j hj heq
  have hi' := List.mem_range.mp hi
  have hj' := List.mem_range.mp hj
  have := ofNat_inj (by omega) (by omega) (Datum.integer.inj (Prod.mk.inj heq).1)
  omega

/-- **A table is its array and its other fields.** -/
theorem pairs_perm (t : Fields) {n : Nat} (hn : n < 2 ^ 31) : t.pairs.Perm
    (arrayFields t n ++ t.pairs.filter fun e => !inArray n e.1) := by
  have harray : (t.pairs.filter fun e => inArray n e.1).Perm (arrayFields t n) := by
    refine (List.perm_ext_iff_of_nodup (t.pairs_nodup.filter _) (arrayFields_nodup hn)).mpr
      fun e => ?_
    rw [mem_arrayFields hn, List.mem_filter]
  exact (List.filter_append_perm _ _).symm.trans (harray.append_right _)

/-- **The fields of a table are read as copies**, into a new table. -/
theorem unpackTable_reads {t : Fields} {size : Nat} (hsize : size < 2 ^ 31) {cookie n : Nat}
    {payload : Bytes} {es : List (Datum × Datum)} {array hash : List Bytes} (hpos : 0 < n)
    (hcookie : ∀ rest, arraySize (payload ++ rest) cookie = .ok ((size : Int), rest))
    (harray : List.Forall₂ (fun i bs => ReadsAs fs d (t.rawgeti (i + 1)) bs) (List.range size)
      array)
    (hhash : List.Forall₂ (FieldReadsAs fs d) es hash)
    (hvalid : ∀ e ∈ es, e.1.key = some e.1 ∧ e.2 ≠ .nil)
    (hnodup : ((arrayFields t size ++ es).map Prod.fst).Nodup)
    (hn : ∀ bs ∈ array ++ hash, bs.length ≤ n) (m' : Memory) (rest : Bytes) :
    ∃ m'', unpackTable (unpackOne n) m' (payload ++ (array.flatten ++ (hash.flatten ++
        combineType TYPE_NIL 0 :: rest))) cookie = .ok (.table m'.next, m'', rest) ∧
      Keeps m'.next m' m'' ∧ Building fs d m'.next (arrayFields t size ++ es) m'' := by
  have hstart : Building fs d m'.next (arrayFields t 0) (m'.alloc .empty) := by
    refine ⟨Nat.lt_succ_self _, [], ?_, .nil⟩
    rw [Heap.cell_alloc_self]
    exact List.Perm.refl _
  rw [List.range_eq_range'] at harray
  obtain ⟨m1, hread1, hkeeps1, hb1⟩ := unpackArray_reads harray
    (fun bs hbs => hn bs (List.mem_append_left _ hbs)) (by omega) hstart
    (hash.flatten ++ combineType TYPE_NIL 0 :: rest)
  rw [Nat.zero_add] at hb1
  have hfuel : es.length < (hash.flatten ++ combineType TYPE_NIL 0 :: rest).length + 1 := by
    have hle : hash.length ≤ hash.flatten.length := by
      have hone := List.length_le_sum_of_one_le (hash.map List.length)
        (List.forall_mem_map.mpr (forall_mem_of_forall₂ hhash ?_))
      · rwa [List.length_map, ← List.length_flatten] at hone
      · rintro e bs ⟨b₁, b₂, rfl, ⟨hne, -⟩, -⟩
        rw [List.length_append]
        have hlen := List.length_pos_iff.mpr hne
        omega
    rw [hhash.length_eq, List.length_append]
    omega
  obtain ⟨m2, hread2, hkeeps2, hb2⟩ := unpackHash_reads hpos hhash
    (fun bs hbs => hn bs (List.mem_append_right _ hbs)) hvalid hnodup hb1 rest hfuel
  refine ⟨m2, ?_, ?_, hb2⟩
  · unfold unpackTable
    simp only [hcookie, bind, Except.bind, Int.toNat_natCast, hread1, hread2]
  · have halloc : Keeps m'.next m' (m'.alloc .empty) :=
      ⟨Nat.le_succ _, fun x hx => Heap.cell_alloc_ne (Nat.ne_of_lt hx)⟩
    exact (halloc.trans hkeeps1).trans hkeeps2

/-- A table is read as a copy if what is written are its array and its other fields. -/
theorem readsAs_table {t : Fields} {size : Nat} (hsize : size < 2 ^ 31) {cookie r : Nat}
    {payload : Bytes} {es : List (Datum × Datum)} {array hash : List Bytes} (hc : cookie < 32)
    (hcookie : ∀ rest, arraySize (payload ++ rest) cookie = .ok ((size : Int), rest))
    (harray : List.Forall₂ (fun i bs => ReadsAs fs d (t.rawgeti (i + 1)) bs) (List.range size)
      array)
    (hhash : List.Forall₂ (FieldReadsAs fs d) es hash)
    (hvalid : ∀ e ∈ es, e.1.key = some e.1 ∧ e.2 ≠ .nil)
    (hnodup : ((arrayFields t size ++ es).map Prod.fst).Nodup)
    (hperm : (fs r).Perm (arrayFields t size ++ es)) :
    ReadsAs fs (d + 1) (.table r) (combineType TYPE_TABLE cookie :: (payload ++
      (array.flatten ++ (hash.flatten ++ [combineType TYPE_NIL 0])))) := by
  refine ⟨List.cons_ne_nil _ _, fun n hn m' rest => ?_⟩
  obtain ⟨n, rfl⟩ : ∃ k, n = k + 1 := ⟨n - 1, by
    rw [List.length_cons] at hn
    omega⟩
  have hlen : payload.length + (array.flatten.length + (hash.flatten.length + 1)) ≤ n := by
    simpa using hn
  have hle : ∀ bs ∈ array ++ hash, bs.length ≤ n := by
    intro bs hbs
    rcases List.mem_append.mp hbs with hbs | hbs
    · have := (List.sublist_flatten_of_mem hbs).length_le
      omega
    · have := (List.sublist_flatten_of_mem hbs).length_le
      omega
  obtain ⟨m'', hok, hkeeps, hb⟩ := unpackTable_reads hsize (n := n) (by omega) hcookie harray
    hhash hvalid hnodup hle m' rest
  obtain ⟨htype, hbits⟩ := combineType_bits TYPE_TABLE (by decide) cookie hc
  refine ⟨.table m'.next, m'', ?_, hkeeps, ?_⟩
  · rw [List.cons_append, unpackOne, htype, hbits]
    unfold pushValue
    rw [if_neg (by decide), if_neg (by decide), if_neg (by decide), if_neg (by decide),
      if_neg (by decide), if_neg (by decide), if_pos rfl]
    simp only [List.append_assoc, List.singleton_append]
    exact hok
  · obtain ⟨hlt, l', hl', hall⟩ := hb
    exact ⟨m'.next, _, l', rfl, Nat.le_refl _, hlt, hperm, hl', hall.imp fun e e' he =>
      ⟨he.1.mono (Nat.le_succ _) (Nat.le_refl _) fun _ _ _ => rfl,
        he.2.mono (Nat.le_succ _) (Nat.le_refl _) fun _ _ _ => rfl⟩⟩

section tables

variable {rawlen : Fields → Nat} {metapairs : Nat → Option Iteration} {m : Memory}
variable {one : Datum → WriteBlock → Except Failure WriteBlock}

/-- Fields are read as copies if their keys and values are. -/
theorem wbField_reads (hone : ∀ {v b b'}, one v b = .ok b' →
      ∃ bs, b'.contents = b.contents ++ bs ∧ ReadsAs fs d v bs)
    {es : List (Datum × Datum)} {b b' : WriteBlock} (h : es.foldlM (wbField one) b = .ok b') :
    ∃ hash, b'.contents = b.contents ++ hash.flatten ∧
      List.Forall₂ (FieldReadsAs fs d) es hash := by
  refine foldlM_appends h fun e _ c c' hfield => ?_
  obtain ⟨c₁, hkey, hvalue⟩ := bind_eq_ok.mp hfield
  obtain ⟨bk, hbk, hk⟩ := hone hkey
  obtain ⟨bv, hbv, hv⟩ := hone hvalue
  exact ⟨bk ++ bv, by rw [hbv, hbk, List.append_assoc], bk, bv, rfl, hk, hv⟩

/-- **A table is read as a copy**, if its keys and values are. -/
theorem wbTable_reads (hproper : ∀ r it, metapairs r = some it → it.Proper)
    (hone : ∀ {v b b'}, one v b = .ok b' →
      ∃ bs, b'.contents = b.contents ++ bs ∧ ReadsAs (contentsOf metapairs m) d v bs)
    {r : Nat} {b b' : WriteBlock} (h : wbTable rawlen metapairs m one r b = .ok b') :
    ∃ bs, b'.contents = b.contents ++ bs ∧
      ReadsAs (contentsOf metapairs m) (d + 1) (.table r) bs := by
  unfold wbTable at h
  cases hmeta : metapairs r with
  | some it =>
    rw [hmeta] at h
    obtain ⟨b₁, hfold, hend⟩ := bind_eq_ok.mp h
    cases hfail : it.failure with
    | some msg =>
      rw [hfail] at hend
      exact absurd hend (by simp)
    | none =>
      rw [hfail] at hend
      obtain rfl := Except.ok.inj hend
      obtain ⟨hash, hb₁, hhash⟩ := wbField_reads hone hfold
      have hproper := hproper r it hmeta
      refine ⟨_, ?_, readsAs_table (t := .empty) (show 0 < 2 ^ 31 by decide)
        (show 0 < 32 by decide) (show ∀ rest, arraySize ([] ++ rest) 0 = .ok ((0 : Nat), rest) from
          fun _ => rfl) .nil hhash hproper.valid hproper.nodup ?_⟩
      · rw [wbNil, WriteBlock.push_contents, hb₁, WriteBlock.push_contents]
        simp
      · unfold contentsOf
        rw [hmeta]
        exact List.Perm.refl _
  | none =>
    rw [hmeta] at h
    obtain ⟨b₁, harray, hhash⟩ := bind_eq_ok.mp h
    unfold wbTableArray at harray
    dsimp only at harray
    by_cases hsize : rawlen (m.cell r) < 2 ^ 31
    · rw [if_pos hsize] at harray
      obtain ⟨array, hb₁, harray⟩ := foldlM_appends harray (R := fun i bs =>
        ReadsAs (contentsOf metapairs m) d ((m.cell r).rawgeti (i + 1)) bs) fun _ _ _ _ h => hone h
      obtain ⟨b₂, hfold, hend⟩ := bind_eq_ok.mp hhash
      obtain rfl := Except.ok.inj hend
      obtain ⟨hash, hb₂, hhash⟩ := wbField_reads hone hfold
      obtain ⟨cookie, payload, hc, hhead, hread⟩ := arraySize_reads hsize b
      have hperm := pairs_perm (m.cell r) hsize
      refine ⟨_, ?_, readsAs_table hsize hc hread harray hhash (fun e he =>
        (m.cell r).valid e.1 e.2 (Fields.mem_pairs.mp (List.mem_of_mem_filter he)))
        ((hperm.map Prod.fst).nodup (m.cell r).fields.entries_nodup) ?_⟩
      · rw [wbNil, WriteBlock.push_contents, hb₂, hb₁, hhead]
        simp only [List.append_assoc, List.cons_append]
      · unfold contentsOf
        rwa [hmeta]
    · rw [if_neg hsize] at harray
      exact absurd harray (by simp)

end tables

/-- **A value is read as a copy.** -/
theorem packOne_reads {rawlen : Fields → Nat} {metapairs : Nat → Option Iteration}
    (hproper : ∀ r it, metapairs r = some it → it.Proper) {m : Memory} {d : Nat} {v : Datum}
    {b b' : WriteBlock} (h : packOne rawlen metapairs m d v b = .ok b') :
    ∃ bs, b'.contents = b.contents ++ bs ∧ ReadsAs (contentsOf metapairs m) d v bs := by
  induction d generalizing v b b' with
  | zero => exact absurd h (by simp [packOne])
  | succ d ih =>
    have hscalar : ∀ {t c : Nat} {q : Bytes}, t < 8 → c < 32 →
        (∀ one m' rest, pushValue one m' (q ++ rest) t c = .ok (v, m', rest)) →
        (∀ m'' lo, Alike (contentsOf metapairs m) m'' lo (d + 1) v v) →
        b'.contents = b.contents ++ combineType t c :: q →
        ∃ bs, b'.contents = b.contents ++ bs ∧
          ReadsAs (contentsOf metapairs m) (d + 1) v bs :=
      fun ht hc hpush halike hb => ⟨_, hb, readsAs_scalar ht hc hpush halike⟩
    cases v with
    | nil =>
      obtain rfl := Except.ok.inj h
      refine hscalar (t := TYPE_NIL) (c := 0) (q := []) (by decide) (by decide)
        (fun _ _ _ => rfl) (fun _ _ => rfl) (by simp [wbNil])
    | boolean x =>
      obtain rfl := Except.ok.inj h
      cases x with
      | false =>
        exact hscalar (t := TYPE_BOOLEAN) (c := 0) (q := []) (by decide) (by decide)
          (fun _ _ _ => rfl) (fun _ _ => rfl) (by simp [wbBoolean])
      | true =>
        exact hscalar (t := TYPE_BOOLEAN) (c := 1) (q := []) (by decide) (by decide)
          (fun _ _ _ => rfl) (fun _ _ => rfl) (by simp [wbBoolean])
    | integer x =>
      obtain rfl := Except.ok.inj h
      obtain ⟨c, payload, hc, hcontents, hget⟩ :=
        getInteger_wbInteger (Int64.le_toInt x) (Int64.toInt_lt x) b
      refine hscalar (by decide) (by omega) (fun one m' rest => ?_) (fun _ _ => rfl) hcontents
      have hreal : c ≠ TYPE_NUMBER_REAL := Nat.ne_of_lt hc
      unfold pushValue
      rw [if_neg (by decide), if_neg (by decide), if_pos rfl, if_neg hreal, hget]
      simp only [bind, Except.bind, Int64.ofInt_toInt]
    | real bits =>
      obtain rfl := Except.ok.inj h
      refine hscalar (t := TYPE_NUMBER) (c := TYPE_NUMBER_REAL) (q := packLE 8 bits.toNat)
        (by decide) (by decide) (fun one m' rest => ?_) (fun _ _ => rfl) (by simp [wbReal])
      unfold pushValue getReal
      rw [if_neg (by decide), if_neg (by decide), if_pos rfl, if_pos rfl,
        rbRead_append (packLE_length 8 _)]
      simp only [bind, Except.bind, unpackLE_packLE (show bits.toNat < 256 ^ 8 from bits.toNat_lt),
        UInt64.ofNat_toNat]
    | pointer p =>
      obtain rfl := Except.ok.inj h
      refine hscalar (t := TYPE_USERDATA) (c := 0) (q := packLE 8 p.toNat)
        (by decide) (by decide) (fun one m' rest => ?_) (fun _ _ => rfl) ?_
      · unfold pushValue getPointer
        rw [if_neg (by decide), if_neg (by decide), if_neg (by decide), if_pos rfl,
          rbRead_append (packLE_length 8 _)]
        simp only [bind, Except.bind, unpackLE_packLE (show p.toNat < 256 ^ 8 from p.toNat_lt),
          UInt64.ofNat_toNat]
      · have htype : TYPE_USERDATA.toUInt8 = combineType TYPE_USERDATA 0 := by decide
        rw [wbPointer, WriteBlock.push_contents, WriteBlock.push_contents, htype,
          List.append_assoc]
        rfl
    | string s =>
      rw [packOne] at h
      by_cases hs : s.length < 2 ^ 31
      · rw [if_pos hs] at h
        obtain rfl := Except.ok.inj h
        exact wbString_reads hs b
      · rw [if_neg hs] at h
        exact absurd h (by simp)
    | other type id => exact absurd h (by simp [packOne])
    | table r => exact wbTable_reads hproper ih h

/-! ## Every buffer ends -/

/-- A reading that does not stop for want of depth, and leaves fewer than `k` bytes. -/
structure Ends {α : Type} (k : Nat) (rest : α → Bytes) (x : Except Failure α) : Prop where
  fuel : x ≠ .error .fuel
  rest : ∀ a, x = .ok a → (rest a).length < k

section ends

variable {α β : Type} {rest : α → Bytes} {rest' : β → Bytes} {j k n : Nat}

theorem Ends.ok {a : α} (h : (rest a).length < k) : Ends k rest (.ok a) :=
  ⟨by simp, fun b hb => Except.ok.inj hb ▸ h⟩

theorem Ends.raised (msg : Bytes) : Ends k rest (.error (.raised msg)) := ⟨by simp, by simp⟩

theorem Ends.mono {x : Except Failure α} (h : Ends k rest x) (hle : k ≤ j) : Ends j rest x :=
  ⟨h.fuel, fun a ha => Nat.lt_of_lt_of_le (h.rest a ha) hle⟩

/-- One reading after the other. -/
theorem Ends.bind {x : Except Failure α} {f : α → Except Failure β} (h : Ends k rest x)
    (hf : ∀ a, (rest a).length < k → Ends j rest' (f a)) : Ends j rest' (x >>= f) := by
  cases x with
  | error e => exact ⟨fun heq => h.fuel (by cases heq; rfl), fun a ha => absurd ha (by
      simp [Bind.bind, Except.bind])⟩
  | ok a => exact hf a (h.rest a rfl)

theorem rbRead_length {rb a b : Bytes} {sz : Nat} (h : rbRead rb sz = some (a, b)) :
    b.length < rb.length + 1 := by
  unfold rbRead at h
  split at h
  · exact absurd h (by simp)
  · obtain ⟨-, rfl⟩ := Prod.mk.inj (Option.some.inj h)
    rw [List.length_drop]
    omega

/-- A number of bytes is read, and used. -/
theorem ends_rbRead {rb : Bytes} {sz line : Nat} {g : Bytes → α} :
    Ends (rb.length + 1) (fun x : α × Bytes => x.2) (match rbRead rb sz with
      | none => invalidStream rb line
      | some (n, rb) => .ok (g n, rb)) := by
  cases h : rbRead rb sz with
  | none => exact .raised _
  | some x => exact .ok (rbRead_length h)

theorem ends_getInteger (rb : Bytes) (cookie : Nat) :
    Ends (rb.length + 1) Prod.snd (getInteger rb cookie) := by
  unfold getInteger
  by_cases h0 : cookie = TYPE_NUMBER_ZERO
  · rw [if_pos h0]
    exact .ok (Nat.lt_succ_self _)
  · rw [if_neg h0]
    by_cases h1 : cookie = TYPE_NUMBER_BYTE
    · rw [if_pos h1]
      exact ends_rbRead
    · rw [if_neg h1]
      by_cases h2 : cookie = TYPE_NUMBER_WORD
      · rw [if_pos h2]
        exact ends_rbRead
      · rw [if_neg h2]
        by_cases h4 : cookie = TYPE_NUMBER_DWORD
        · rw [if_pos h4]
          exact ends_rbRead
        · rw [if_neg h4]
          by_cases h8 : cookie = TYPE_NUMBER_QWORD
          · rw [if_pos h8]
            exact ends_rbRead
          · rw [if_neg h8]
            exact .raised _

theorem ends_getBuffer (rb : Bytes) (len : Nat) :
    Ends (rb.length + 1) Prod.snd (getBuffer rb len) := by
  unfold getBuffer
  by_cases hlen : 2 ^ 31 ≤ len
  · rw [if_pos hlen]
    exact .raised _
  · rw [if_neg hlen]
    cases h : rbRead rb len with
    | none => exact .raised _
    | some x => exact .ok (rbRead_length h)

theorem ends_longLength (rb : Bytes) (cookie : Nat) :
    Ends (rb.length + 1) Prod.snd (longLength rb cookie) := by
  unfold longLength
  by_cases h2 : cookie = 2
  · rw [if_pos h2]
    exact ends_rbRead
  · rw [if_neg h2]
    by_cases h4 : cookie ≠ 4
    · rw [if_pos h4]
      exact .raised _
    · rw [if_neg h4]
      exact ends_rbRead

theorem ends_arraySize (rb : Bytes) (cookie : Nat) :
    Ends (rb.length + 1) Prod.snd (arraySize rb cookie) := by
  unfold arraySize
  by_cases h : cookie = MAX_COOKIE - 1
  · rw [if_pos h]
    cases rb with
    | nil => exact .raised _
    | cons type rb =>
      dsimp only
      split
      · exact .raised _
      · refine (ends_getInteger rb _).bind fun a ha => .ok ?_
        exact Nat.lt_succ_of_lt ha
  · rw [if_neg h]
    exact .ok (Nat.lt_succ_self _)

/-- The rest behind a value. -/
def restOf (x : Datum × Memory × Bytes) : Bytes := x.2.2

/-- `one` reads values of buffers that are shorter than `n`. -/
def ReadsBelow (n : Nat) (one : Reads) : Prop :=
  ∀ m rb, rb.length < n → Ends rb.length restOf (one m rb)

theorem ends_unpackArray {one : Reads} (hone : ReadsBelow n one) (r k i : Nat) (m : Memory)
    {rb : Bytes} (hn : rb.length < n) :
    Ends (rb.length + 1) Prod.snd (unpackArray one r k i m rb) := by
  induction k generalizing i m rb with
  | zero => exact .ok (Nat.lt_succ_self _)
  | succ k ih =>
    refine (hone m rb hn).bind fun a (ha : a.2.2.length < rb.length) => ?_
    exact (ih (i + 1) _ (Nat.lt_trans ha hn)).mono (by omega)

theorem ends_unpackHash {one : Reads} (hone : ReadsBelow n one) (r : Nat) {f : Nat} (m : Memory)
    {rb : Bytes} (hn : rb.length < n) (hf : rb.length < f) :
    Ends (rb.length + 1) Prod.snd (unpackHash one r f m rb) := by
  induction f generalizing m rb with
  | zero => omega
  | succ f ih =>
    refine (hone m rb hn).bind ?_
    rintro ⟨k, m₁, rb₁⟩ ha
    change rb₁.length < rb.length at ha
    dsimp only
    split
    · exact .ok (Nat.lt_succ_of_lt ha)
    · refine (hone m₁ rb₁ (by omega)).bind ?_
      rintro ⟨v, m₂, rb₂⟩ hb
      change rb₂.length < rb₁.length at hb
      dsimp only
      split
      · exact (ih _ (by omega) (by omega)).mono (by omega)
      · exact .raised _

theorem ends_unpackTable {one : Reads} (hone : ReadsBelow n one) (m : Memory) {rb : Bytes}
    (cookie : Nat) (hn : rb.length < n) :
    Ends (rb.length + 1) restOf (unpackTable one m rb cookie) := by
  refine (ends_arraySize rb cookie).bind fun a ha => ?_
  refine (ends_unpackArray hone _ _ _ _ (show a.2.length < n by omega)).bind fun b hb => ?_
  refine (ends_unpackHash hone _ _ (show b.2.length < n by omega) (Nat.lt_succ_self _)).bind
    fun c hc => ?_
  exact .ok (show c.2.length < rb.length + 1 by omega)

theorem ends_pushValue {one : Reads} (hone : ReadsBelow n one) (m : Memory) {rb : Bytes}
    (type cookie : Nat) (hn : rb.length < n) :
    Ends (rb.length + 1) restOf (pushValue one m rb type cookie) := by
  unfold pushValue
  by_cases h0 : type = TYPE_NIL
  · rw [if_pos h0]
    exact .ok (Nat.lt_succ_self _)
  · rw [if_neg h0]
    by_cases h1 : type = TYPE_BOOLEAN
    · rw [if_pos h1]
      exact .ok (Nat.lt_succ_self _)
    · rw [if_neg h1]
      by_cases h2 : type = TYPE_NUMBER
      · rw [if_pos h2]
        by_cases hreal : cookie = TYPE_NUMBER_REAL
        · rw [if_pos hreal]
          exact ends_rbRead.bind fun a ha => .ok ha
        · rw [if_neg hreal]
          exact (ends_getInteger rb cookie).bind fun a ha => .ok ha
      · rw [if_neg h2]
        by_cases h3 : type = TYPE_USERDATA
        · rw [if_pos h3]
          exact ends_rbRead.bind fun a ha => .ok ha
        · rw [if_neg h3]
          by_cases h4 : type = TYPE_SHORT_STRING
          · rw [if_pos h4]
            exact (ends_getBuffer rb cookie).bind fun a ha => .ok ha
          · rw [if_neg h4]
            by_cases h5 : type = TYPE_LONG_STRING
            · rw [if_pos h5]
              refine (ends_longLength rb cookie).bind fun a ha => ?_
              exact ((ends_getBuffer a.2 a.1).mono (by omega)).bind fun b hb => .ok hb
            · rw [if_neg h5]
              by_cases h6 : type = TYPE_TABLE
              · rw [if_pos h6]
                exact ends_unpackTable hone m cookie hn
              · rw [if_neg h6]
                exact .raised _

/-- **`unpack_one` needs no more depth than there are bytes.** -/
theorem unpackOne_ends (n : Nat) : ReadsBelow n (unpackOne n) := by
  induction n with
  | zero => exact fun m rb hn => absurd hn (Nat.not_lt_zero _)
  | succ n ih =>
    intro m rb hn
    cases rb with
    | nil => exact .raised _
    | cons type rb => exact ends_pushValue ih m _ _ (by simpa using hn)

theorem unpackAll_ends {n k : Nat} (m : Memory) {rb : Bytes} (hn : rb.length ≤ n)
    (hk : rb.length ≤ k) : unpackAll n k m rb ≠ .error .fuel := by
  induction k generalizing m rb with
  | zero =>
    obtain rfl := List.length_eq_zero_iff.mp (Nat.le_zero.mp hk)
    simp [unpackAll]
  | succ k ih =>
    cases rb with
    | nil => simp [unpackAll]
    | cons type rb =>
      rw [List.length_cons] at hn hk
      have hpush := ends_pushValue (unpackOne_ends n) m (type &&& 7).toNat (type >>> 3).toNat
        (show rb.length < n by omega)
      rw [unpackAll]
      cases hone : pushValue (unpackOne n) m rb (type &&& 7).toNat (type >>> 3).toNat with
      | error e =>
        intro h
        obtain rfl := Except.error.inj (show Except.error e = Except.error Failure.fuel from h)
        exact hpush.fuel hone
      | ok x =>
        obtain ⟨v, m₁, rb₁⟩ := x
        have hlt : rb₁.length < rb.length + 1 := hpush.rest _ hone
        intro h
        have hrest : unpackAll n k m₁ rb₁ ≠ .error .fuel := ih m₁ (by omega) (by omega)
        change (unpackAll n k m₁ rb₁ >>= fun y => Except.ok (v :: y.1, y.2)) = _ at h
        cases hall : unpackAll n k m₁ rb₁ with
        | error e =>
          rw [hall] at h
          obtain rfl := Except.error.inj (show Except.error e = Except.error Failure.fuel from h)
          exact hrest hall
        | ok y =>
          rw [hall] at h
          exact absurd h (by simp [Bind.bind, Except.bind])

end ends

/-! ## Messages -/

/-- **All values of a buffer are read as copies.** -/
theorem unpackAll_reads {n k : Nat} {vs : List Datum} {bss : List Bytes}
    (h : List.Forall₂ (ReadsAs fs d) vs bss) (hn : ∀ bs ∈ bss, bs.length ≤ n)
    (hk : bss.length ≤ k) (m' : Memory) : ∃ vs' m'',
      unpackAll n k m' bss.flatten = .ok (vs', m'') ∧ Keeps m'.next m' m'' ∧
        List.Forall₂ (Alike fs m'' m'.next d) vs vs' := by
  induction h generalizing k m' with
  | nil => exact ⟨[], m', by simp [unpackAll], ⟨Nat.le_refl _, fun _ _ => rfl⟩, .nil⟩
  | @cons v bs vs bss hv _ ih =>
    obtain ⟨hne, hread⟩ := hv
    obtain ⟨k, rfl⟩ : ∃ j, k = j + 1 := ⟨k - 1, by
      rw [List.length_cons] at hk
      omega⟩
    obtain ⟨type, rb, rfl⟩ := List.exists_cons_of_ne_nil hne
    obtain ⟨v', m₁, hone, hkeeps, halike⟩ :=
      hread (n + 1) (Nat.le_succ_of_le (hn _ (List.mem_cons_self ..))) m' bss.flatten
    obtain ⟨vs', m₂, hall, hkeeps', halikes⟩ := ih (fun x hx => hn x (List.mem_cons_of_mem _ hx))
      (k := k) (by simpa using hk) m₁
    refine ⟨v' :: vs', m₂, ?_, hkeeps.trans (hkeeps'.mono hkeeps.next),
      .cons (halike.grow hkeeps') (halikes.imp fun w w' hw =>
        hw.mono hkeeps.next (Nat.le_refl _) fun _ _ _ => rfl)⟩
    rw [List.cons_append, unpackOne] at hone
    rw [List.flatten_cons, List.cons_append, unpackAll, hone]
    simp only [Bind.bind, Except.bind, hall]

/-- Table `s` is a key or a value in table `r`. -/
def PartOf (fs : Contents) (r s : Nat) : Prop :=
  ∃ e ∈ fs r, e.1 = .table s ∨ e.2 = .table s

/-- What is part of a copied table has been copied. -/
theorem Alike.part {r s : Nat} {v' : Datum} (h : Alike fs m' lo (d + 1) (.table r) v')
    (hs : PartOf fs r s) : ∃ w', Alike fs m' lo d (.table s) w' := by
  obtain ⟨r', l, l', rfl, -, -, hl, -, hall⟩ := h
  obtain ⟨e, he, hs⟩ := hs
  obtain ⟨i, hi, hget⟩ := List.getElem_of_mem (hl.subset he)
  have halike := (List.forall₂_iff_get.mp hall).2 i hi (hall.length_eq ▸ hi)
  rw [List.get_eq_getElem, hget] at halike
  rcases hs with hs | hs
  · exact ⟨_, hs ▸ halike.1⟩
  · exact ⟨_, hs ▸ halike.2⟩

/-- **A table that is part of itself is not copied.** -/
theorem Alike.acyclic {r s : Nat} {v' : Datum} (h : Alike fs m' lo d (.table r) v')
    (hs : Relation.ReflTransGen (PartOf fs) r s) : ¬Relation.TransGen (PartOf fs) s s := by
  intro hcycle
  induction d generalizing r v' with
  | zero => exact h
  | succ d ih =>
    -- the next table on the way to `s`, or around the cycle
    obtain ⟨q, hq, hqs⟩ : ∃ q, PartOf fs r q ∧ Relation.ReflTransGen (PartOf fs) q s := by
      rcases Relation.ReflTransGen.cases_head hs with rfl | ⟨q, hq, hqs⟩
      · obtain ⟨q, hq, hqr⟩ := Relation.TransGen.head'_iff.mp hcycle
        exact ⟨q, hq, hqr⟩
      · exact ⟨q, hq, hqs⟩
    obtain ⟨w', hw'⟩ := h.part hq
    exact ih hw' hqs

/-- **Messages arrive as copies.** What is packed is unpacked, in any other memory, as copies of the
values in new tables, in their order; nothing else in that memory changes. The fields of a table are
those that `pairs` goes through. No table that is packed is part of itself. And `unpack` ends for
every buffer, with values or with an error. -/
theorem seri_copies {rawlen : Fields → Nat} {metapairs : Nat → Option Iteration}
    (hproper : ∀ r it, metapairs r = some it → it.Proper) {m : Memory} {vs : List Datum}
    {buffer : Bytes} (h : pack rawlen metapairs m vs = .ok buffer) :
    (∀ m' : Memory, ∃ vs' m'', unpack m' buffer = .ok (vs', m'') ∧ Keeps m'.next m' m'' ∧
      List.Forall₂ (Alike (contentsOf metapairs m) m'' m'.next (MAX_DEPTH + 1)) vs vs') ∧
    (∀ r s, .table r ∈ vs → Relation.ReflTransGen (PartOf (contentsOf metapairs m)) r s →
      ¬Relation.TransGen (PartOf (contentsOf metapairs m)) s s) ∧
    ∀ (m' : Memory) (stream : Bytes), unpack m' stream ≠ .error .fuel := by
  obtain ⟨b, hfold, hseri⟩ := bind_eq_ok.mp h
  obtain ⟨bss, hb, hreads⟩ := foldlM_appends hfold
    (R := ReadsAs (contentsOf metapairs m) (MAX_DEPTH + 1)) fun _ _ _ _ hok =>
      packOne_reads hproper hok
  have hbuffer : buffer = bss.flatten := by
    split at hseri
    · rw [← Except.ok.inj hseri, seri_contents, hb]
      rfl
    · exact absurd hseri (by simp)
  have hcopies : ∀ m' : Memory, ∃ vs' m'', unpack m' buffer = .ok (vs', m'') ∧
      Keeps m'.next m' m'' ∧
      List.Forall₂ (Alike (contentsOf metapairs m) m'' m'.next (MAX_DEPTH + 1)) vs vs' := by
    intro m'
    subst hbuffer
    refine unpackAll_reads hreads (fun bs hbs => (List.sublist_flatten_of_mem hbs).length_le)
      ?_ m'
    have hone := List.length_le_sum_of_one_le (bss.map List.length)
      (List.forall_mem_map.mpr (forall_mem_of_forall₂ hreads fun v bs hv =>
        List.length_pos_iff.mpr hv.1))
    rwa [List.length_map, ← List.length_flatten] at hone
  refine ⟨hcopies, fun r s hr hs => ?_, fun m' stream =>
    unpackAll_ends m' (Nat.le_refl _) (Nat.le_refl _)⟩
  obtain ⟨vs', m'', -, -, hall⟩ := hcopies m
  obtain ⟨i, hi, hget⟩ := List.getElem_of_mem hr
  have halike := (List.forall₂_iff_get.mp hall).2 i hi (hall.length_eq ▸ hi)
  rw [List.get_eq_getElem, hget] at halike
  exact halike.acyclic hs

/-- The border that a search from the front finds. -/
def border (t : Fields) : Nat :=
  ((List.range 100).takeWhile fun i => t.rawgeti (i + 1) ≠ .nil).length

/-- `{ 7, "abc", k = { [true] = -5 } }`. -/
def sample : Memory :=
  let t := (Fields.empty.rawseti 1 (.integer 7)).rawseti 2 (.string (bytes "abc"))
  ((Heap.empty .empty).alloc (t.put (.string (bytes "k")) (.table 1) rfl)).alloc
    (Fields.empty.put (.boolean true) (.integer (-5)) rfl)

/-- The inner table has a `__pairs` that yields `1, "one"`. -/
def samplePairs (r : Nat) : Option Iteration :=
  if r = 1 then some ⟨[(.integer 1, .string (bytes "one"))], none⟩ else none

theorem seri_copies_sample : ∃ buffer vs' m'',
    pack border samplePairs sample
      [.table 0, .integer 300, .string (List.replicate 200 65)] = .ok buffer ∧
    unpack (Heap.empty .empty) buffer = .ok (vs', m'') ∧
    List.Forall₂ (Alike (contentsOf samplePairs sample) m'' 0 (MAX_DEPTH + 1))
      [.table 0, .integer 300, .string (List.replicate 200 65)] vs' := by
  have hproper : ∀ r it, samplePairs r = some it → it.Proper := by
    intro r it h
    unfold samplePairs at h
    split at h
    · obtain rfl := Option.some.inj h
      exact ⟨by simp [Datum.key], by simp⟩
    · exact absurd h (by simp)
  have hpacked : (pack border samplePairs sample
      [.table 0, .integer 300, .string (List.replicate 200 65)]).isOk = true := by
    decide +kernel
  obtain ⟨buffer, hok⟩ := isOk_iff.mp hpacked
  obtain ⟨hcopies, -⟩ := seri_copies hproper hok
  obtain ⟨vs', m'', hunpack, -, hall⟩ := hcopies (Heap.empty .empty)
  exact ⟨buffer, vs', m'', hok, hunpack, hall⟩

end LsServer.Skynet.Seri
