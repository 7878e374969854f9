import LsServer.Lib.Search
import LsServer.LuaExt.Dump

/-!
# What `table.dump` says (LuaExt.lua)

`Dumped` is what a document should say: it expands each table at most once, with all its fields, and
refers to a table by the path with which it was met. `{}` expands a table without fields.

* `Doc.marks` lists what a document does to the cache, in the order of the text: it adds a path, or
  refers to one (`Mark`). `replay` runs such a list.
* `printed_of_ok` is by induction on the fuel and, inside, on the fields that the loop has gone
  through. It needs that the paths of `Wrote` are those of the table around.
* A table written as `{}` has no fields, or its first key is `false` (`falseFirst`). This is the one
  thing that keeps a text from being `Dumped`.

`Ends` says that a computation ends with fuel that depends on the tables not yet met. `iterDepth`
only cuts the recursion.

Results:
* `replay_back`, `replay_nodup`: what a cache does that is read and written along a document;
* `printed_of_ok`: what a call says; only fields of tables whose first key is `false` are missing;
* `document_ends`: the recursion ends, since every call has met one table more.

Out of scope: whether two different tables can have one path, such as `a.b` as a key and `b` in `a`.
A reference is by path, and `Named` asks that the path is one under which that table was opened.
-/

namespace LsServer.LuaExt

open LsServer.Lib LsServer.Lua

namespace Doc

/-- The fields that are written. -/
def fields : Doc → List (Value × Value)
  | cut _ | done => []
  | back k t _ rest | empty k t _ rest | sub k t _ _ rest => (k, t) :: rest.fields
  | leaf k v rest => (k, v) :: rest.fields

/-- Table `t` with the fields that its text writes, unless it is cut off. -/
def opened (t : Value) : Doc → List (Value × List (Value × Value))
  | cut _ => []
  | doc => [(t, doc.fields)]

/-- The tables below that are expanded, with the fields that are written for them. -/
def expanded : Doc → List (Value × List (Value × Value))
  | cut _ | done => []
  | back _ _ _ rest | leaf _ _ rest => rest.expanded
  | empty _ t _ rest => (t, []) :: rest.expanded
  | sub _ t _ body rest => body.opened t ++ body.expanded ++ rest.expanded

/-- A path is the one of the table above and the key. -/
def Named (d : Dumper) (name : Bytes) : Doc → Prop
  | cut _ | done => True
  | back _ _ _ rest | leaf _ _ rest => rest.Named d name
  | empty k _ path rest => path = d.newKey name k ∧ rest.Named d name
  | sub k _ path body rest => path = d.newKey name k ∧ body.Named d path ∧ rest.Named d name

end Doc

/-- A table is met for the first time, or referred to. -/
inductive Mark
  | met (t : Value) (path : Bytes)
  | back (t : Value) (path : Bytes)

/-- In the order of the text. -/
def Doc.marks : Doc → List Mark
  | .cut _ | .done => []
  | .back _ t path rest => .back t path :: rest.marks
  | .leaf _ _ rest => rest.marks
  | .empty _ t path rest => .met t path :: rest.marks
  | .sub _ t path body rest => .met t path :: (body.marks ++ rest.marks)

/-- The tables that are met. -/
def metTables (ms : List Mark) : List Value :=
  ms.filterMap fun mark => match mark with | .met t _ => some t | .back _ _ => none

/-- The fields written for a table are its fields. -/
def Whole (m : Memory) (x : Value × List (Value × Value)) : Prop :=
  ∃ t, tableAt m x.1 = some t ∧ x.2 = t.pairs

/-- A table that is reached from table `r`. -/
def ReachedFrom (d : Dumper) (r : Nat) (v : Value) : Prop :=
  ∃ a, v = .object a ∧ Reaches (FieldAt d.mem) r a

/-- **What a document should say about table `r`.** -/
structure Dumped (d : Dumper) (r : Nat) (doc : Doc) : Prop where
  once : ((doc.opened (.object r) ++ doc.expanded).map Prod.fst).Nodup
  reached : ∀ x ∈ doc.opened (.object r) ++ doc.expanded, ReachedFrom d r x.1
  complete : ∀ x ∈ doc.opened (.object r) ++ doc.expanded, Whole d.mem x
  named : doc.Named d []
  metOnce : (metTables (.met (.object r) (bytes ".") :: doc.marks)).Nodup
  backs : ∀ a t path b, .met (.object r) (bytes ".") :: doc.marks = a ++ .back t path :: b →
    .met t path ∈ a

/-! ## The cache along a text -/

/-- The marks agree with the cache. -/
def replay : Cache → List Mark → Option Cache
  | cache, [] => some cache
  | cache, .met t path :: ms => if cache.get t = none then replay (cache.set t path) ms else none
  | cache, .back t path :: ms => if cache.get t = some path then replay cache ms else none

variable {cache cache' : Cache} {ms ms' : List Mark}

theorem replay_append {cache'' : Cache} (h : replay cache ms = some cache')
    (h' : replay cache' ms' = some cache'') : replay cache (ms ++ ms') = some cache'' := by
  induction ms generalizing cache with
  | nil =>
    obtain rfl := Option.some.inj h
    exact h'
  | cons mark ms ih =>
    cases mark with
    | met t path =>
      obtain ⟨hnone, h⟩ := Option.ite_none_right_eq_some.mp h
      rw [List.cons_append, replay, if_pos hnone]
      exact ih h
    | back t path =>
      obtain ⟨hsome, h⟩ := Option.ite_none_right_eq_some.mp h
      rw [List.cons_append, replay, if_pos hsome]
      exact ih h

/-- **Every table is met once**, and was not known before. -/
theorem replay_nodup (h : replay cache ms = some cache') :
    (metTables ms).Nodup ∧ ∀ t ∈ metTables ms, cache.get t = none := by
  induction ms generalizing cache with
  | nil => exact ⟨List.nodup_nil, by simp [metTables]⟩
  | cons mark ms ih =>
    cases mark with
    | met u path =>
      obtain ⟨hnone, h⟩ := Option.ite_none_right_eq_some.mp h
      obtain ⟨hnodup, hfresh⟩ := ih h
      refine ⟨List.nodup_cons.mpr ⟨fun hmem => ?_, hnodup⟩, List.forall_mem_cons.mpr
        ⟨hnone, fun t ht => ?_⟩⟩
      · have hu := hfresh u hmem
        rw [Table.get_set_self] at hu
        exact absurd hu (by simp)
      · have ht' := hfresh t ht
        rw [Table.get_set] at ht'
        split at ht'
        · exact absurd ht' (by simp)
        · exact ht'
    | back u path =>
      obtain ⟨-, h⟩ := Option.ite_none_right_eq_some.mp h
      exact ih h

/-- **A reference is the path with which its table was met.** -/
theorem replay_back (h : replay cache ms = some cache') {a b : List Mark} {t : Value} {path : Bytes}
    (hms : ms = a ++ .back t path :: b) : cache.get t = some path ∨ .met t path ∈ a := by
  induction ms generalizing cache a with
  | nil => exact absurd hms (by simp)
  | cons mark ms ih =>
    cases a with
    | nil =>
      obtain ⟨rfl, -⟩ := List.cons.inj hms
      exact .inl (Option.ite_none_right_eq_some.mp h).1
    | cons mark' a =>
      obtain ⟨rfl, hrest⟩ := List.cons.inj hms
      cases mark with
      | met u path' =>
        obtain ⟨-, h⟩ := Option.ite_none_right_eq_some.mp h
        rcases ih h hrest with hget | hmem
        · rw [Table.get_set] at hget
          split at hget
          · rename_i htu
            obtain rfl := Option.some.inj hget
            exact .inr (htu ▸ List.mem_cons_self ..)
          · exact .inl hget
        · exact .inr (List.mem_cons_of_mem _ hmem)
      | back u path' =>
        obtain ⟨-, h⟩ := Option.ite_none_right_eq_some.mp h
        exact (ih h hrest).imp id (List.mem_cons_of_mem _)

theorem metTables_empty (k t : Value) (path : Bytes) (rest : Doc) :
    metTables (Doc.empty k t path rest).marks = t :: metTables rest.marks := rfl

theorem metTables_sub (k t : Value) (path : Bytes) (body rest : Doc) :
    metTables (Doc.sub k t path body rest).marks =
      t :: (metTables body.marks ++ metTables rest.marks) := by
  simp [Doc.marks, metTables]

/-- Only tables that are met are expanded. -/
theorem Doc.expanded_sublist (doc : Doc) :
    (doc.expanded.map Prod.fst).Sublist (metTables doc.marks) := by
  have hopened : ∀ (t : Value) (body : Doc), ((body.opened t).map Prod.fst).Sublist [t] := by
    intro t body
    cases body with
    | cut => exact List.nil_sublist _
    | _ => exact List.Sublist.refl _
  induction doc with
  | cut | done => exact List.nil_sublist _
  | back _ _ _ _ ih | leaf _ _ _ ih => exact ih
  | empty _ t _ _ ih => exact ih.cons_cons t
  | sub k t path body rest ihbody ihrest =>
    rw [Doc.expanded, metTables_sub, List.map_append, List.map_append]
    exact ((hopened t body).append ihbody).append ihrest

/-! ## What has been said -/

variable {d : Dumper} {r : Nat} {name : Bytes}

/-- The first key of table `v` is `false`. -/
def falseFirst (m : Memory) (v : Value) : Bool :=
  (tableAt m v).any fun t => t.next = .boolean false

/-- What is written while the cache goes from `cache` to `cache'`. -/
structure Printed (d : Dumper) (r : Nat) (name : Bytes) (cache : Cache) (doc : Doc)
    (cache' : Cache) : Prop where
  named : doc.Named d name
  replays : replay cache doc.marks = some cache'
  reached : ∀ t ∈ metTables doc.marks, ReachedFrom d r t
  complete : (∀ x ∈ doc.expanded, Whole d.mem x) ↔
    ∀ t ∈ metTables doc.marks, falseFirst d.mem t = false

theorem falseFirst_of_truthy {m : Memory} {v : Value} {t : LuaTable} (hv : tableAt m v = some t)
    (hnext : t.next.truthy = true) : falseFirst m v = false := by
  rw [falseFirst, hv, Option.any_some, decide_eq_false_iff_not]
  intro hfalse
  exact absurd hnext (by rw [hfalse]; simp [Value.truthy])

/-- `{}` leaves out the fields of a table whose first key is `false`, and no others. -/
theorem whole_nil {m : Memory} {v : Value} {t : LuaTable} (hv : tableAt m v = some t)
    (hnext : t.next.truthy = false) : Whole m (v, []) ↔ falseFirst m v = false := by
  rw [falseFirst, hv, Option.any_some, decide_eq_false_iff_not]
  constructor
  · rintro ⟨t', ht', hpairs⟩ hfalse
    obtain rfl := Option.some.inj (hv.symm.trans ht')
    exact LuaTable.pairs_ne_nil (by rw [hfalse]; simp) hpairs.symm
  · intro hne
    exact ⟨t, hv, ((LuaTable.next_falsy hnext).resolve_right hne).symm⟩

variable {sub : Value → Bytes → Cache → Except Stop (Doc × Cache)} {es : List (Value × Value)}
  {doc : Doc}

theorem Wrote.fields (h : Wrote d sub name es cache doc cache') : doc.fields = es := by
  induction h with
  | done => rfl
  | back _ _ ih => exact congrArg (List.cons _) ih
  | leaf _ _ _ ih => exact congrArg (List.cons _) ih
  | empty _ _ _ _ ih => exact congrArg (List.cons _) ih
  | sub _ _ _ _ _ ih => exact congrArg (List.cons _) ih

theorem Wrote.opened (h : Wrote d sub name es cache doc cache') (t : Value) :
    doc.opened t = [(t, es)] := by
  rw [← h.fields]
  cases h <;> rfl

/-- A call has said what it should about table `v`, up to first keys `false`. -/
def Said (d : Dumper) (r : Nat) (v : Value) (name : Bytes) (cache : Cache) (doc : Doc)
    (cache' : Cache) : Prop :=
  Printed d r name cache doc cache' ∧ ∀ x ∈ doc.opened v, Whole d.mem x

/-- The loop has said what it should, if the calls in it have. -/
theorem Wrote.printed (h : Wrote d sub name es cache doc cache')
    (hsub : ∀ v name cache body cache', (tableAt d.mem v).isSome → ReachedFrom d r v →
      sub v name cache = .ok (body, cache') → Said d r v name cache body cache')
    (hes : ∀ e ∈ es, (tableAt d.mem e.2).isSome → ReachedFrom d r e.2) :
    Printed d r name cache doc cache' := by
  induction h with
  | done => exact ⟨trivial, rfl, by simp [Doc.marks, metTables], by simp [Doc.marks, metTables,
      Doc.expanded]⟩
  | back hcache _ ih =>
    have hrest := ih (List.forall_mem_cons.mp hes).2
    refine ⟨hrest.named, ?_, hrest.reached, hrest.complete⟩
    rw [Doc.marks, replay, if_pos hcache]
    exact hrest.replays
  | leaf _ _ _ ih =>
    have hrest := ih (List.forall_mem_cons.mp hes).2
    exact ⟨hrest.named, hrest.replays, hrest.reached, hrest.complete⟩
  | empty hcache hv hnext _ ih =>
    obtain ⟨he, hes⟩ := List.forall_mem_cons.mp hes
    have hrest := ih hes
    refine ⟨⟨rfl, hrest.named⟩, ?_,
      List.forall_mem_cons.mpr ⟨he (by rw [hv]; rfl), hrest.reached⟩, ?_⟩
    · rw [Doc.marks, replay, if_pos hcache]
      exact hrest.replays
    · rw [metTables_empty, Doc.expanded, List.forall_mem_cons, List.forall_mem_cons,
        whole_nil hv hnext, hrest.complete]
  | sub hcache hv hnext hbody _ ih =>
    obtain ⟨he, hes⟩ := List.forall_mem_cons.mp hes
    have hreach := he (by rw [hv]; rfl)
    have hrest := ih hes
    obtain ⟨hprinted, hopened⟩ := hsub _ _ _ _ _ (by rw [hv]; rfl) hreach hbody
    refine ⟨⟨rfl, hprinted.named, hrest.named⟩, ?_, ?_, ?_⟩
    · rw [Doc.marks, replay, if_pos hcache]
      exact replay_append hprinted.replays hrest.replays
    · rw [metTables_sub]
      exact List.forall_mem_cons.mpr ⟨hreach,
        List.forall_mem_append.mpr ⟨hprinted.reached, hrest.reached⟩⟩
    · rw [metTables_sub, Doc.expanded, List.forall_mem_append, List.forall_mem_append,
        List.forall_mem_cons, List.forall_mem_append, hprinted.complete, hrest.complete]
      exact ⟨fun h => ⟨falseFirst_of_truthy hv hnext, h.1.2, h.2⟩,
        fun h => ⟨⟨hopened, h.2.1⟩, h.2.2⟩⟩

/-- **What a call says.** -/
theorem printed_of_ok {n depth : Nat} {v : Value} (hv : (tableAt d.mem v).isSome)
    (hreach : ReachedFrom d r v) (h : Doc.of d n v name depth cache = .ok (doc, cache')) :
    Said d r v name cache doc cache' := by
  induction n generalizing v name depth cache doc cache' with
  | zero => exact absurd h (by simp [Doc.of])
  | succ n ih =>
    obtain ⟨t, ht⟩ := Option.isSome_iff_exists.mp hv
    rw [Doc.of] at h
    split at h
    · obtain ⟨rfl, rfl⟩ := Prod.mk.inj (Except.ok.inj h)
      exact ⟨⟨trivial, rfl, by simp [Doc.marks, metTables], by simp [Doc.marks, metTables,
        Doc.expanded]⟩, by simp [Doc.opened]⟩
    · obtain ⟨a, rfl, ha⟩ := hreach
      rw [pairs_of_cell (tableAt_object.mp ht)] at h
      have hwrote := wrote_of_ok h
      refine ⟨hwrote.printed (fun v name cache body cache' hv hreach h => ih hv hreach h)
        fun e he hsome => ?_, ?_⟩
      · obtain ⟨t', ht'⟩ := Option.isSome_iff_exists.mp hsome
        obtain ⟨c, hc, -⟩ := tableAt_eq_some ht'
        exact ⟨c, hc, ha.tail ⟨e.1, t, tableAt_object.mp ht, LuaTable.mem_pairs.mp (hc ▸ he),
          hc ▸ hsome⟩⟩
      · rw [hwrote.opened]
        exact List.forall_mem_singleton.mpr ⟨t, ht, rfl⟩

/-- **What the call for table `r` says**: all that it should, if no first key is `false`. -/
theorem Said.dumped
    (h : Said d r (.object r) [] (Table.empty.set (.object r) (bytes ".")) doc cache') :
    Dumped d r doc ↔ ∀ t ∈ metTables doc.marks, falseFirst d.mem t = false := by
  obtain ⟨hprinted, hopened⟩ := h
  have hreplay : replay .empty (.met (.object r) (bytes ".") :: doc.marks) = some cache' := by
    rw [replay, if_pos (Table.get_empty _)]
    exact hprinted.replays
  have hnodup := (replay_nodup hreplay).1
  -- the text of the table stands where the one of a field would
  have hsub := (Doc.sub .nil (.object r) (bytes ".") doc .done).expanded_sublist
  simp only [Doc.expanded, Doc.marks, List.append_nil] at hsub
  have hreached : ∀ v ∈ metTables (.met (.object r) (bytes ".") :: doc.marks), ReachedFrom d r v :=
    List.forall_mem_cons.mpr ⟨⟨r, rfl, .refl⟩, hprinted.reached⟩
  refine ⟨fun h => hprinted.complete.mp fun x hx => h.complete x (List.mem_append_right _ hx),
    fun h => ⟨hnodup.sublist hsub, fun x hx => ?_, ?_, hprinted.named, hnodup,
      fun a t path b hmarks => ?_⟩⟩
  · exact hreached _ (hsub.subset (List.mem_map.mpr ⟨x, hx, rfl⟩))
  · exact List.forall_mem_append.mpr ⟨hopened, hprinted.complete.mpr h⟩
  · exact (replay_back hreplay hmarks).resolve_left (by simp)

/-! ## The recursion ends -/

/-- How many tables have not been met. -/
def unmet (m : Memory) (cache : Cache) : Nat :=
  left (Finset.range m.next) fun a => (cache.get (.object a)).isSome

theorem isSome_get_set {v : Value} {path : Bytes} {a : Nat}
    (h : (cache.get (.object a)).isSome) : ((cache.set v path).get (.object a)).isSome := by
  rw [Table.get_set]
  split
  · rfl
  · exact h

/-- Meeting a table. -/
theorem unmet_set {m : Memory} {a : Nat} (ha : a < m.next) (h : cache.get (.object a) = none)
    (path : Bytes) : unmet m (cache.set (.object a) path) < unmet m cache := by
  refine left_lt (fun _ => isSome_get_set) (Finset.mem_range.mpr ha) (by rw [h]; rfl) ?_
  rw [Table.get_set_self]
  rfl

/-- `run n` ends with the same document for all `n ≥ N`, and no table is forgotten. -/
def Ends (d : Dumper) (N : Nat) (cache : Cache) (run : Nat → Except Stop (Doc × Cache)) : Prop :=
  ∃ doc cache', (∀ n, N ≤ n → run n = .ok (doc, cache')) ∧ unmet d.mem cache' ≤ unmet d.mem cache

theorem Ends.map {N : Nat} {cache₁ : Cache} {run run' : Nat → Except Stop (Doc × Cache)}
    (h : Ends d N cache₁ run) (hle : unmet d.mem cache₁ ≤ unmet d.mem cache) (wrap : Doc → Doc)
    (hrun : ∀ n, N ≤ n → run' n = (run n).map fun x => (wrap x.1, x.2)) : Ends d N cache run' := by
  obtain ⟨doc, cache', hret, hunmet⟩ := h
  refine ⟨wrap doc, cache', fun n hn => ?_, hunmet.trans hle⟩
  rw [hrun n hn, hret n hn]
  rfl

/-- The loop over fields ends, if the calls in it end that have met a table more. -/
theorem ofFields_ends {N : Nat} {sub : Nat → Value → Bytes → Cache → Except Stop (Doc × Cache)}
    (name : Bytes)
    (hsub : ∀ v name cache, (tableAt d.mem v).isSome → InUse d.mem v → unmet d.mem cache < N →
      Ends d N cache fun n => sub n v name cache)
    (hes : ∀ e ∈ es, InUse d.mem e.2) (hunmet : unmet d.mem cache ≤ N) :
    Ends d N cache fun n => Doc.ofFields d (sub n) name es cache := by
  induction es generalizing cache with
  | nil => exact ⟨.done, cache, fun _ _ => rfl, le_refl _⟩
  | cons e es ih =>
    obtain ⟨k, v⟩ := e
    obtain ⟨he, hrest⟩ := List.forall_mem_cons.mp hes
    cases hcache : cache.get v with
    | some path =>
      refine (ih hrest hunmet).map (le_refl _) (.back k v path) fun n _ => ?_
      simp only [Doc.ofFields, hcache]
    | none =>
      cases hv : tableAt d.mem v with
      | none =>
        refine (ih hrest hunmet).map (le_refl _) (.leaf k v) fun n _ => ?_
        simp only [Doc.ofFields, hcache, hv]
      | some t =>
        obtain ⟨c, rfl, -⟩ := tableAt_eq_some hv
        have hlt := unmet_set (he c rfl) hcache (d.newKey name k)
        cases hnext : t.next.truthy with
        | false =>
          refine (ih hrest (hlt.le.trans hunmet)).map hlt.le
            (.empty k (.object c) (d.newKey name k)) fun n _ => ?_
          simp only [Doc.ofFields, hcache, hv, hnext, Bool.false_eq_true, if_false]
        | true =>
          obtain ⟨body, cache₁, hbody, hle⟩ := hsub (.object c) (d.newKey name k)
            (cache.set (.object c) (d.newKey name k)) (by rw [hv]; rfl) he (hlt.trans_le hunmet)
          have hle := hle.trans hlt.le
          refine (ih hrest (hle.trans hunmet)).map hle
            (.sub k (.object c) (d.newKey name k) body) fun n hn => ?_
          simp only [Doc.ofFields, hcache, hv, hnext, if_true, hbody n hn]
          rfl

/-- A call ends: each call below has met one table more. -/
theorem of_ends (hm : d.mem.Sound) (N depth : Nat) {v : Value} (hv : (tableAt d.mem v).isSome)
    (huse : InUse d.mem v) (name : Bytes) (hunmet : unmet d.mem cache < N) :
    Ends d N cache fun n => Doc.of d n v name depth cache := by
  induction N generalizing depth v name cache with
  | zero => exact absurd hunmet (Nat.not_lt_zero _)
  | succ N ih =>
    obtain ⟨t, ht⟩ := Option.isSome_iff_exists.mp hv
    obtain ⟨a, rfl, ha⟩ := tableAt_eq_some ht
    have hsucc : ∀ n, N + 1 ≤ n → ∃ k, n = k + 1 ∧ N ≤ k := by
      intro n hn
      obtain ⟨k, rfl⟩ := Nat.exists_eq_add_of_le' ((Nat.le_add_left 1 N).trans hn)
      exact ⟨k, rfl, Nat.le_of_succ_le_succ hn⟩
    cases hdeep : d.tooDeep depth with
    | true =>
      refine ⟨.cut (.object a), cache, fun n hn => ?_, le_refl _⟩
      obtain ⟨k, rfl, -⟩ := hsucc n hn
      simp only [Doc.of, hdeep, if_true]
    | false =>
      have hcall : ∀ v name cache, (tableAt d.mem v).isSome → InUse d.mem v →
          unmet d.mem cache < N → Ends d N cache fun n => Doc.of d n v name (depth + 1) cache :=
        fun v name cache hv huse hlt => ih (depth + 1) hv huse name hlt
      obtain ⟨doc, cache', hret, hle⟩ := ofFields_ends name hcall
        (fun e he => hm.inUse (huse a rfl) ha (LuaTable.mem_pairs.mp he))
        (Nat.le_of_lt_succ hunmet)
      refine ⟨doc, cache', fun n hn => ?_, hle⟩
      obtain ⟨k, rfl, hk⟩ := hsucc n hn
      simp only [Doc.of, hdeep, Bool.false_eq_true, if_false, pairs_of_cell ha]
      exact hret k hk

/-- **The recursion ends.** -/
theorem document_ends (hm : d.mem.Sound) (hr : r < d.mem.next)
    (ht : (tableAt d.mem (.object r)).isSome) : ∃ doc cache', ∀ n, d.mem.next ≤ n →
      Doc.of d n (.object r) [] 1 (Table.empty.set (.object r) (bytes ".")) =
        .ok (doc, cache') := by
  have hunmet : unmet d.mem (Table.empty.set (.object r) (bytes ".")) < d.mem.next := by
    refine (unmet_set hr (Table.get_empty _) _).trans_le ?_
    exact (Finset.card_filter_le _ _).trans (Finset.card_range _).le
  obtain ⟨doc, cache', hret, -⟩ := of_ends hm d.mem.next 1 ht
    (fun x hx => Value.object.inj hx ▸ hr) [] hunmet
  exact ⟨doc, cache', hret⟩

end LsServer.LuaExt
