import LsServer.Lua.Memory

/-!
# `table.dump` (LuaExt.lua)

`dump` writes a table as text, each table it meets at most once: `cache` has the path of every table
it has met, and a table that is met again is written as its path. A table below `iterDepth` is
written as its address. A table whose `next` is falsy is written as `{}`: an empty one, but also one
whose first key is `false`.

A `Doc` is what such a text says. `document` is the same recursion with documents in place of texts.

Source: LuaExt.lua 2-39, `table.dump(t, iterDepth)` with its local function `_dump`.

* A `Dumper` has what the text depends on besides the table: the memory, `iterDepth`, and what
  `tostring` gives for an object (`address`).
* `cache` is asked before the type of a value, so a string or a number is looked up as well; it
  never is a key there, since only tables are put in.
* `dumpTable` has fuel: it ends for every finite memory, by `Dumped.document_ends`.
* A `Doc` is the content of a table, field by field: a reference (`back`), no table (`leaf`), a
  table written as `{}` (`empty`), or a table with a document of its own (`sub`); or it says that
  the table is too deep (`cut`).

The text has no escapes: a string with a quote or a line break is written as it is. The results are
about what is expanded and what is referred to, not about reading the text back.

Results:
* `dump_eq_document`: `dump` writes the document, for every table, and raises or runs out of steps
  where `document` does;
* `wrote_of_ok`: what the loop can have written.
-/

namespace LsServer.LuaExt

open LsServer.Lib LsServer.Lua

/-! ## The text -/

/-- The memory, the texts of references (`tostring`), and the argument `iterDepth`. -/
structure Dumper where
  mem : Memory
  address : Nat → Bytes
  iterDepth : Option LuaNumber

/-- `tostring(v)`. -/
def Dumper.tostring (d : Dumper) : Value → Bytes
  | .nil => bytes "nil"
  | .boolean b => if b then bytes "true" else bytes "false"
  | .number n => numberText n
  | .string s => s
  | .object r => d.address r

/-- `key`. -/
def Dumper.key (d : Dumper) : Value → Bytes
  | .number n => bytes "[" ++ numberText n ++ bytes "]"
  | k => d.tostring k

/-- `new_key`. -/
def Dumper.newKey (d : Dumper) (name : Bytes) (k : Value) : Bytes := name ++ bytes "." ++ d.key k

/-- A value that is no table. -/
def Dumper.scalar (d : Dumper) : Value → Bytes
  | .string s => bytes "\"" ++ s ++ bytes "\""
  | v => d.tostring v

/-- `iterDepth and depth > iterDepth`. -/
def Dumper.tooDeep (d : Dumper) (depth : Nat) : Bool :=
  match d.iterDepth with
  | none => false
  | some (.int n) => n < depth
  | some (.float _ v) => v < ofInt depth
  | some (.nan _) => false

/-- The paths of the tables that have been met. -/
abbrev Cache := Table Value Bytes

/-- `space ..  string.rep(" ", 4)`. -/
def indent (space : Bytes) : Bytes := space ++ bytes "    "

/-- `table.concat(temp, "\n")`. -/
def concatLines (temp : List Bytes) : Bytes := (bytes "\n").intercalate temp

/-- The body of the loop; `dump` stands for `_dump` at the next depth. -/
def dumpField (d : Dumper)
    (dump : Value → Bytes → Bytes → Cache → Except Stop (Bytes × Cache)) (space name : Bytes)
    (x : List Bytes × Cache) (e : Value × Value) : Except Stop (List Bytes × Cache) :=
  let key := d.key e.1
  match x.2.get e.2 with
  | some path => .ok (x.1 ++ [space ++ key ++ bytes " \x7b" ++ path ++ bytes "\x7d"], x.2)
  | none =>
    match tableAt d.mem e.2 with
    | some t =>
      let newKey := d.newKey name e.1
      let cache := x.2.set e.2 newKey
      if t.next.truthy then
        (dump e.2 (indent space) newKey cache).map fun y =>
          (x.1 ++ [space ++ key ++ bytes " = \x7b\n" ++ y.1 ++ bytes "\n" ++ space ++
            bytes "\x7d,"], y.2)
      else .ok (x.1 ++ [space ++ key ++ bytes " = \x7b\x7d,"], cache)
    | none => .ok (x.1 ++ [space ++ key ++ bytes " = " ++ d.scalar e.2 ++ bytes ","], x.2)

/-- `_dump(t, space, name, depth)`: the text and the cache. -/
def dumpTable (d : Dumper) : Nat → Value → Bytes → Bytes → Nat → Cache →
    Except Stop (Bytes × Cache)
  | 0, _, _, _, _, _ => .error .fuel
  | n + 1, t, space, name, depth, cache =>
    if d.tooDeep depth then .ok (space ++ d.tostring t ++ bytes "(max depth).", cache)
    else do
      let entries ← pairs d.mem t
      let x ← entries.foldlM (dumpField d (fun t space name cache =>
        dumpTable d n t space name (depth + 1) cache) space name) ([], cache)
      .ok (concatLines x.1, x.2)

/-- `table.dump(t, iterDepth)`. -/
def dump (d : Dumper) (n : Nat) (t : Value) : Except Stop Bytes :=
  if (tableAt d.mem t).isNone then .ok (d.tostring t)
  else
    (dumpTable d n t (bytes "  ") [] 1 (Table.empty.set t (bytes "."))).map fun x =>
      bytes "\x7b\n" ++ x.1 ++ bytes "\n\x7d"

/-! ## Documents -/

/-- What the text of a table says: that it is cut off, or its fields line by line. A field is a
reference to a table met before, no table, a table without fields, or a table with a text of its
own; the paths are those that the tables have or get in the cache. -/
inductive Doc
  | cut (t : Value)
  | done
  | back (k t : Value) (path : Bytes) (rest : Doc)
  | leaf (k v : Value) (rest : Doc)
  | empty (k t : Value) (path : Bytes) (rest : Doc)
  | sub (k t : Value) (path : Bytes) (body rest : Doc)

namespace Doc

/-- The lines. -/
def lines (d : Dumper) (space : Bytes) : Doc → List Bytes
  | cut t => [space ++ d.tostring t ++ bytes "(max depth)."]
  | done => []
  | back k _ path rest =>
    (space ++ d.key k ++ bytes " \x7b" ++ path ++ bytes "\x7d") :: rest.lines d space
  | leaf k v rest =>
    (space ++ d.key k ++ bytes " = " ++ d.scalar v ++ bytes ",") :: rest.lines d space
  | empty k _ _ rest => (space ++ d.key k ++ bytes " = \x7b\x7d,") :: rest.lines d space
  | sub k _ _ body rest =>
    (space ++ d.key k ++ bytes " = \x7b\n" ++ concatLines (body.lines d (indent space)) ++
      bytes "\n" ++ space ++ bytes "\x7d,") :: rest.lines d space

/-- The text. -/
def text (d : Dumper) (space : Bytes) (doc : Doc) : Bytes := concatLines (doc.lines d space)

/-- The text in its braces. -/
def written (d : Dumper) (doc : Doc) : Bytes :=
  bytes "\x7b\n" ++ doc.text d (bytes "  ") ++ bytes "\n\x7d"

/-- The document of fields; `sub` gives the one of a table at the next depth. -/
def ofFields (d : Dumper) (sub : Value → Bytes → Cache → Except Stop (Doc × Cache))
    (name : Bytes) : List (Value × Value) → Cache → Except Stop (Doc × Cache)
  | [], cache => .ok (done, cache)
  | (k, v) :: es, cache =>
    match cache.get v with
    | some path => (ofFields d sub name es cache).map fun x => (back k v path x.1, x.2)
    | none =>
      match tableAt d.mem v with
      | some t =>
        let path := d.newKey name k
        if t.next.truthy then do
          let body ← sub v path (cache.set v path)
          (ofFields d sub name es body.2).map fun x => (Doc.sub k v path body.1 x.1, x.2)
        else
          (ofFields d sub name es (cache.set v path)).map fun x => (empty k v path x.1, x.2)
      | none => (ofFields d sub name es cache).map fun x => (leaf k v x.1, x.2)

/-- The document of a table at `depth`. -/
def of (d : Dumper) : Nat → Value → Bytes → Nat → Cache → Except Stop (Doc × Cache)
  | 0, _, _, _, _ => .error .fuel
  | n + 1, t, name, depth, cache =>
    if d.tooDeep depth then .ok (cut t, cache)
    else do
      let entries ← pairs d.mem t
      ofFields d (fun t name cache => of d n t name (depth + 1) cache) name entries cache

end Doc

/-- The document of the table that is dumped. -/
def document (d : Dumper) (n : Nat) (t : Value) : Except Stop Doc :=
  (Doc.of d n t [] 1 (Table.empty.set t (bytes "."))).map Prod.fst

variable {d : Dumper} {name : Bytes}

/-- The loop writes the lines of its fields, if the calls in it write their documents. -/
theorem foldlM_dumpField {dump : Value → Bytes → Bytes → Cache → Except Stop (Bytes × Cache)}
    {sub : Value → Bytes → Cache → Except Stop (Doc × Cache)}
    (h : ∀ t space name cache, dump t space name cache =
      (sub t name cache).map fun x => (x.1.text d space, x.2))
    (space : Bytes) (es : List (Value × Value)) (temp : List Bytes) (cache : Cache) :
    es.foldlM (dumpField d dump space name) (temp, cache) =
      (Doc.ofFields d sub name es cache).map fun x => (temp ++ x.1.lines d space, x.2) := by
  -- a line, and the lines of the document behind it
  have hline : ∀ (line : Bytes) (wrap : Doc → Doc) (r : Except Stop (Doc × Cache)),
      (∀ doc, (wrap doc).lines d space = line :: doc.lines d space) → ∀ temp : List Bytes,
      (r.map fun x => (temp ++ [line] ++ x.1.lines d space, x.2)) =
        (r.map fun x => (wrap x.1, x.2)).map fun x => (temp ++ x.1.lines d space, x.2) := by
    intro line wrap r hwrap temp
    cases r with
    | error => rfl
    | ok x =>
      simp only [Except.map, hwrap, List.append_assoc]
      rfl
  induction es generalizing temp cache with
  | nil => simp [Doc.ofFields, Except.map, Doc.lines, pure, Except.pure]
  | cons e es ih =>
    obtain ⟨k, v⟩ := e
    rw [List.foldlM_cons]
    cases hcache : cache.get v with
    | some path =>
      simp only [dumpField, Doc.ofFields, hcache]
      exact (ih _ _).trans (hline _ _ _ (fun _ => rfl) temp)
    | none =>
      cases hv : tableAt d.mem v with
      | none =>
        simp only [dumpField, Doc.ofFields, hcache, hv]
        exact (ih _ _).trans (hline _ _ _ (fun _ => rfl) temp)
      | some t =>
        cases hnext : t.next.truthy with
        | false =>
          simp only [dumpField, Doc.ofFields, hcache, hv, hnext, Bool.false_eq_true, if_false]
          exact (ih _ _).trans (hline _ _ _ (fun _ => rfl) temp)
        | true =>
          simp only [dumpField, Doc.ofFields, hcache, hv, hnext, if_true, h]
          cases sub v (d.newKey name k) (cache.set v (d.newKey name k)) with
          | error => rfl
          | ok body => exact (ih _ _).trans (hline _ _ _ (fun _ => rfl) temp)

/-- `_dump` writes the document. -/
theorem dumpTable_eq (d : Dumper) (n : Nat) (t : Value) (space name : Bytes) (depth : Nat)
    (cache : Cache) : dumpTable d n t space name depth cache =
      (Doc.of d n t name depth cache).map fun x => (x.1.text d space, x.2) := by
  induction n generalizing t space name depth cache with
  | zero => rfl
  | succ n ih =>
    rw [dumpTable, Doc.of]
    split
    · simp [Except.map, Doc.text, Doc.lines, concatLines]
    · cases pairs d.mem t with
      | error => rfl
      | ok entries =>
        change (entries.foldlM (dumpField d _ space name) ([], cache) >>= _) =
          (Doc.ofFields d _ name entries cache).map _
        rw [foldlM_dumpField fun t space name cache => ih t space name (depth + 1) cache]
        cases Doc.ofFields d _ name entries cache with
        | error => rfl
        | ok x => rfl

/-- **`dump` writes the document** of a table. -/
theorem dump_eq_document {n : Nat} {t : Value} (ht : (tableAt d.mem t).isSome) :
    dump d n t = (document d n t).map (Doc.written d) := by
  rw [dump, if_neg (by rw [Option.isNone_iff_eq_none]; exact Option.isSome_iff_ne_none.mp ht),
    document, dumpTable_eq]
  cases Doc.of d n t [] 1 (Table.empty.set t (bytes ".")) with
  | error => rfl
  | ok x => rfl

/-! ## The loop, line by line -/

/-- The fields `es` are written as the document, while the cache goes from the first to the second
one. -/
inductive Wrote (d : Dumper) (sub : Value → Bytes → Cache → Except Stop (Doc × Cache))
    (name : Bytes) : List (Value × Value) → Cache → Doc → Cache → Prop
  | done {cache : Cache} : Wrote d sub name [] cache .done cache
  | back {k v : Value} {es : List (Value × Value)} {cache cache' : Cache} {rest : Doc}
      {path : Bytes} (hcache : cache.get v = some path)
      (hrest : Wrote d sub name es cache rest cache') :
      Wrote d sub name ((k, v) :: es) cache (.back k v path rest) cache'
  | leaf {k v : Value} {es : List (Value × Value)} {cache cache' : Cache} {rest : Doc}
      (hcache : cache.get v = none) (hv : tableAt d.mem v = none)
      (hrest : Wrote d sub name es cache rest cache') :
      Wrote d sub name ((k, v) :: es) cache (.leaf k v rest) cache'
  | empty {k v : Value} {es : List (Value × Value)} {cache cache' : Cache} {rest : Doc}
      {t : LuaTable} (hcache : cache.get v = none) (hv : tableAt d.mem v = some t)
      (hnext : t.next.truthy = false)
      (hrest : Wrote d sub name es (cache.set v (d.newKey name k)) rest cache') :
      Wrote d sub name ((k, v) :: es) cache (.empty k v (d.newKey name k) rest) cache'
  | sub {k v : Value} {es : List (Value × Value)} {cache cache₁ cache' : Cache} {body rest : Doc}
      {t : LuaTable} (hcache : cache.get v = none) (hv : tableAt d.mem v = some t)
      (hnext : t.next.truthy = true)
      (hbody : sub v (d.newKey name k) (cache.set v (d.newKey name k)) = .ok (body, cache₁))
      (hrest : Wrote d sub name es cache₁ rest cache') :
      Wrote d sub name ((k, v) :: es) cache (.sub k v (d.newKey name k) body rest) cache'

theorem map_eq_ok {α β : Type} {f : α → β} {r : Except Stop α} {y : β} (h : r.map f = .ok y) :
    ∃ x, r = .ok x ∧ f x = y := by
  cases r with
  | error => exact absurd h (by simp [Except.map])
  | ok x => exact ⟨x, rfl, Except.ok.inj h⟩

theorem wrote_of_ok {sub : Value → Bytes → Cache → Except Stop (Doc × Cache)}
    {es : List (Value × Value)} {cache cache' : Cache} {doc : Doc}
    (h : Doc.ofFields d sub name es cache = .ok (doc, cache')) :
    Wrote d sub name es cache doc cache' := by
  induction es generalizing cache cache' doc with
  | nil =>
    obtain ⟨rfl, rfl⟩ := Prod.mk.inj (Except.ok.inj h)
    exact .done
  | cons e es ih =>
    obtain ⟨k, v⟩ := e
    rw [Doc.ofFields] at h
    split at h
    · rename_i hcache
      obtain ⟨x, hx, hdoc⟩ := map_eq_ok h
      obtain ⟨rfl, rfl⟩ := Prod.mk.inj hdoc
      exact .back hcache (ih hx)
    · rename_i hcache
      split at h
      · rename_i hv
        dsimp only at h
        split at h
        · rename_i hnext
          cases hbody : sub v (d.newKey name k) (cache.set v (d.newKey name k)) with
          | error =>
            rw [hbody] at h
            exact absurd h (by simp [Bind.bind, Except.bind])
          | ok body =>
            rw [hbody] at h
            obtain ⟨x, hx, hdoc⟩ := map_eq_ok h
            obtain ⟨rfl, rfl⟩ := Prod.mk.inj hdoc
            exact .sub hcache hv hnext hbody (ih hx)
        · rename_i hnext
          obtain ⟨x, hx, hdoc⟩ := map_eq_ok h
          obtain ⟨rfl, rfl⟩ := Prod.mk.inj hdoc
          exact .empty hcache hv (Bool.eq_false_iff.mpr hnext) (ih hx)
      · rename_i hv
        obtain ⟨x, hx, hdoc⟩ := map_eq_ok h
        obtain ⟨rfl, rfl⟩ := Prod.mk.inj hdoc
        exact .leaf hcache hv (ih hx)

end LsServer.LuaExt
