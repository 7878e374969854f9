import LsServer.Lib.Table
import LsServer.Lua.Strings

/-!
# Messages as bytes (lua-seri.c)

`pack` writes values, with the tables in them, into a chain of blocks, which `seri` copies into one
buffer; `unpack` reads the buffer and builds new tables. A table is written as its array, its other
fields and a `nil`; deeper tables than `MAX_DEPTH`, functions and the like cannot be written. A
table with a `__pairs` is written as what that yields, without an array.

Source: lua-seri.c 55-352 for `pack`, 353-620 for `unpack`; ltable.c `luaH_newkey` for the keys.

A real is its eight bytes, so it is copied bit by bit; `luaV_flttointeger` makes an integer of a key
that is one. `rawlen` is any length that Lua may choose. What a `__pairs` does is Lua code: here it
is what it yields (`Iteration`), the same whenever it is asked, and it leaves the memory alone.
Tables of `unpack` have no metatables, in the code as well.

A failure is an error with its text, `fuel` where the recursion was not deep enough, or `undefined`
where the code converts a length to an `int` that cannot hold it: a text, an array or a message of
2^31 bytes and more.

Out of scope: memory and C stack that run out (`lua_checkstack`, `luaL_checkstack`, the table that
`lua_createtable` allocates for a size that nothing stands behind), and the arguments `nil`, `NULL`
and a length of 0, for which `luaseri_unpack` returns at once or raises.
-/

namespace LsServer.Skynet.Seri

open LsServer.Lib LsServer.Lua

/-! ## Values and tables -/

/-- A value; `other` is a function, a full userdata or a coroutine. -/
inductive Datum
  | nil
  | boolean (b : Bool)
  | integer (n : Int64)
  | real (bits : UInt64)
  | pointer (p : UInt64)
  | string (s : Bytes)
  | table (r : Nat)
  | other (type : Bytes) (id : Nat)
  deriving DecidableEq

/-- The double with these bits is no number. -/
def isNaN (bits : UInt64) : Bool :=
  bits.toNat / 2 ^ 52 % 2 ^ 11 = 2047 && bits.toNat % 2 ^ 52 ≠ 0

/-- The key that is used for a value: `nil` and NaN are none, and a real that is an integer is the
integer (ltable.c `luaH_newkey`). -/
def Datum.key : Datum → Option Datum
  | .nil => none
  | .real bits =>
    if isNaN bits then none
    else
      match (doubleValue bits.toNat).bind toInteger with
      | some n => some (.integer (Int64.ofInt n))
      | none => some (.real bits)
  | v => some v

theorem key_key {k q : Datum} (h : k.key = some q) : q.key = some q := by
  cases k with
  | nil => exact absurd h (by simp [Datum.key])
  | real bits =>
    unfold Datum.key at h
    dsimp only at h
    split at h
    · exact absurd h (by simp)
    · rename_i hnan
      split at h
      · obtain rfl := Option.some.inj h
        rfl
      · rename_i hnone
        obtain rfl := Option.some.inj h
        unfold Datum.key
        dsimp only
        rw [if_neg hnan, hnone]
  | boolean | integer | pointer | string | table | other =>
    obtain rfl := Option.some.inj h
    rfl

theorem key_integer (n : Int64) : (Datum.integer n).key = some (.integer n) := rfl

/-- The fields of a table. -/
structure Fields where
  fields : Table Datum Datum
  valid : ∀ k v, fields.get k = some v → k.key = some k ∧ v ≠ .nil

namespace Fields

/-- `{}`. -/
def empty : Fields := ⟨.empty, fun k v h => absurd h (by simp)⟩

/-- `t[k]`, `none` for `nil`. -/
def get (t : Fields) (k : Datum) : Option Datum := t.fields.get k

/-- What `lua_next` goes through. -/
def pairs (t : Fields) : List (Datum × Datum) := t.fields.entries

theorem valid_del (t : Fields) (k q v : Datum) (h : (t.fields.del k).get q = some v) :
    q.key = some q ∧ v ≠ .nil :=
  t.valid q v (Table.get_of_get_del h).2

theorem valid_set (t : Fields) {k v : Datum} (hk : k.key = some k) (hv : v ≠ .nil) (q w : Datum)
    (h : (t.fields.set k v).get q = some w) : q.key = some q ∧ w ≠ .nil := by
  rw [Table.get_set] at h
  split at h
  · rename_i hq
    obtain rfl := Option.some.inj h
    exact ⟨hq ▸ hk, hv⟩
  · exact t.valid q w h

/-- `t[k] = v` for a key as it is used. -/
def put (t : Fields) (k v : Datum) (hk : k.key = some k) : Fields :=
  if hv : v = .nil then ⟨t.fields.del k, t.valid_del k⟩
  else ⟨t.fields.set k v, t.valid_set hk hv⟩

/-- `lua_rawset`; `none` where it raises. -/
def rawset (t : Fields) (k v : Datum) : Option Fields :=
  match h : k.key with
  | some q => some (t.put q v (key_key h))
  | none => none

/-- `lua_rawseti`. -/
def rawseti (t : Fields) (i : Nat) (v : Datum) : Fields :=
  t.put (.integer (Int64.ofNat i)) v (key_integer _)

/-- `lua_rawgeti`. -/
def rawgeti (t : Fields) (i : Nat) : Datum := (t.get (.integer (Int64.ofNat i))).getD .nil

end Fields

abbrev Memory := Heap Fields

/-- How a call stops without a result. -/
inductive Failure
  | fuel
  | raised (msg : Bytes)
  | undefined
  deriving DecidableEq

/-- What the iterator of a `__pairs` yields, and the error it ends with, if it does. -/
structure Iteration where
  entries : List (Datum × Datum)
  failure : Option Bytes

/-! ## Write blocks -/

def BLOCK_SIZE : Nat := 128

/-- The blocks before the current one, and what is in that one. -/
structure WriteBlock where
  full : List Bytes
  current : Bytes
  full_length : ∀ b ∈ full, b.length = BLOCK_SIZE
  current_length : current.length ≤ BLOCK_SIZE

namespace WriteBlock

/-- `wb_init`. -/
def init : WriteBlock := ⟨[], [], by simp, by decide⟩

/-- `b->len`. -/
def len (b : WriteBlock) : Nat := b.full.flatten.length + b.current.length

/-- What was pushed. -/
def contents (b : WriteBlock) : Bytes := b.full.flatten ++ b.current

/-- `b->current = b->current->next = blk_alloc()`. -/
def next (b : WriteBlock) (h : b.current.length = BLOCK_SIZE) : WriteBlock :=
  ⟨b.full ++ [b.current], [], fun x hx => (List.mem_append.mp hx).elim (b.full_length x) fun hx =>
    List.mem_singleton.mp hx ▸ h, by decide⟩

/-- Copies as much as there is room for. -/
def fill (b : WriteBlock) (buf : Bytes) : WriteBlock :=
  ⟨b.full, b.current ++ buf.take (BLOCK_SIZE - b.current.length), b.full_length, by
    rw [List.length_append, List.length_take]
    have hlen := b.current_length
    omega⟩

/-- `wb_push` from behind `_again` on. -/
def pushAgain (b : WriteBlock) (buf : Bytes) : WriteBlock :=
  if h : b.current.length + buf.length ≤ BLOCK_SIZE then b.fill buf
  else if hroom : b.current.length < BLOCK_SIZE then
    pushAgain ((b.fill buf).next (by
      simp only [fill, List.length_append, List.length_take]
      omega)) (buf.drop (BLOCK_SIZE - b.current.length))
  else b
termination_by buf.length
decreasing_by
  rw [List.length_drop]
  omega

/-- `wb_push`. -/
def push (b : WriteBlock) (buf : Bytes) : WriteBlock :=
  if h : b.current.length = BLOCK_SIZE then (b.next h).pushAgain buf else b.pushAgain buf

end WriteBlock

/-- The loop of `seri` over the blocks. -/
def seri : List Bytes → Nat → Bytes
  | b :: bs, len => if BLOCK_SIZE ≤ len then b ++ seri bs (len - BLOCK_SIZE) else b.take len
  | [], _ => []

/-! ## Packing -/

def TYPE_NIL : Nat := 0
def TYPE_BOOLEAN : Nat := 1
def TYPE_NUMBER : Nat := 2
def TYPE_NUMBER_ZERO : Nat := 0
def TYPE_NUMBER_BYTE : Nat := 1
def TYPE_NUMBER_WORD : Nat := 2
def TYPE_NUMBER_DWORD : Nat := 4
def TYPE_NUMBER_QWORD : Nat := 6
def TYPE_NUMBER_REAL : Nat := 8
def TYPE_USERDATA : Nat := 3
def TYPE_SHORT_STRING : Nat := 4
def TYPE_LONG_STRING : Nat := 5
def TYPE_TABLE : Nat := 6
def MAX_COOKIE : Nat := 32
def MAX_DEPTH : Nat := 32

/-- `COMBINE_TYPE`. -/
def combineType (t v : Nat) : UInt8 := (t ||| v <<< 3).toUInt8

/-- The low bytes of a number, as they are in memory. -/
def lowBytes (n : Nat) (v : Int) : Bytes := packLE n (v % 256 ^ n).toNat

def wbNil (b : WriteBlock) : WriteBlock := b.push [combineType TYPE_NIL 0]

def wbBoolean (b : WriteBlock) (boolean : Bool) : WriteBlock :=
  b.push [combineType TYPE_BOOLEAN (if boolean then 1 else 0)]

def wbInteger (b : WriteBlock) (v : Int) : WriteBlock :=
  if v = 0 then b.push [combineType TYPE_NUMBER TYPE_NUMBER_ZERO]
  else if ¬(-2 ^ 31 ≤ v ∧ v < 2 ^ 31) then
    (b.push [combineType TYPE_NUMBER TYPE_NUMBER_QWORD]).push (lowBytes 8 v)
  else if v < 0 then
    (b.push [combineType TYPE_NUMBER TYPE_NUMBER_DWORD]).push (lowBytes 4 v)
  else if v < 0x100 then
    (b.push [combineType TYPE_NUMBER TYPE_NUMBER_BYTE]).push (lowBytes 1 v)
  else if v < 0x10000 then
    (b.push [combineType TYPE_NUMBER TYPE_NUMBER_WORD]).push (lowBytes 2 v)
  else (b.push [combineType TYPE_NUMBER TYPE_NUMBER_DWORD]).push (lowBytes 4 v)

def wbReal (b : WriteBlock) (bits : UInt64) : WriteBlock :=
  (b.push [combineType TYPE_NUMBER TYPE_NUMBER_REAL]).push (packLE 8 bits.toNat)

def wbPointer (b : WriteBlock) (p : UInt64) : WriteBlock :=
  (b.push [TYPE_USERDATA.toUInt8]).push (packLE 8 p.toNat)

def wbString (b : WriteBlock) (str : Bytes) : WriteBlock :=
  if str.length < MAX_COOKIE then
    let b := b.push [combineType TYPE_SHORT_STRING str.length]
    if 0 < str.length then b.push str else b
  else if str.length < 0x10000 then
    ((b.push [combineType TYPE_LONG_STRING 2]).push (packLE 2 str.length)).push str
  else ((b.push [combineType TYPE_LONG_STRING 4]).push (packLE 4 str.length)).push str

section packing

variable (rawlen : Fields → Nat) (metapairs : Nat → Option Iteration) (m : Memory)

/-- The size of an array. -/
def wbArraySize (size : Nat) (b : WriteBlock) : WriteBlock :=
  if MAX_COOKIE - 1 ≤ size then
    wbInteger (b.push [combineType TYPE_TABLE (MAX_COOKIE - 1)]) size
  else b.push [combineType TYPE_TABLE size]

/-- `wb_table_array`, where `one` packs an element. -/
def wbTableArray (one : Datum → WriteBlock → Except Failure WriteBlock) (t : Fields)
    (b : WriteBlock) : Except Failure WriteBlock :=
  let size := rawlen t
  if size < 2 ^ 31 then
    (List.range size).foldlM (fun b i => one (t.rawgeti (i + 1)) b) (wbArraySize size b)
  else .error .undefined

/-- The two `pack_one` of a field. -/
def wbField (one : Datum → WriteBlock → Except Failure WriteBlock) (b : WriteBlock)
    (e : Datum × Datum) : Except Failure WriteBlock := do
  let b ← one e.1 b
  one e.2 b

/-- The key is in the array. -/
def inArray (size : Nat) : Datum → Bool
  | .integer x => 0 < x.toInt && x.toInt ≤ size
  | _ => false

/-- `wb_table_hash`. -/
def wbTableHash (one : Datum → WriteBlock → Except Failure WriteBlock) (t : Fields)
    (b : WriteBlock) : Except Failure WriteBlock := do
  let b ← (t.pairs.filter fun e => !inArray (rawlen t) e.1).foldlM (wbField one) b
  .ok (wbNil b)

/-- `wb_table_metapairs`. -/
def wbTableMetapairs (one : Datum → WriteBlock → Except Failure WriteBlock) (it : Iteration)
    (b : WriteBlock) : Except Failure WriteBlock := do
  let b ← it.entries.foldlM (wbField one) (b.push [combineType TYPE_TABLE 0])
  match it.failure with
  | some msg => .error (.raised msg)
  | none => .ok (wbNil b)

/-- `wb_table` of the table `r`. -/
def wbTable (one : Datum → WriteBlock → Except Failure WriteBlock) (r : Nat) (b : WriteBlock) :
    Except Failure WriteBlock :=
  match metapairs r with
  | some it => wbTableMetapairs one it b
  | none => do
    let b ← wbTableArray rawlen one (m.cell r) b
    wbTableHash rawlen one (m.cell r) b

/-- `pack_one` where `n` more levels are allowed. -/
def packOne : Nat → Datum → WriteBlock → Except Failure WriteBlock
  | 0, _, _ => .error (.raised (bytes "serialize can't pack too depth table"))
  | n + 1, v, b =>
    match v with
    | .nil => .ok (wbNil b)
    | .boolean x => .ok (wbBoolean b x)
    | .integer x => .ok (wbInteger b x.toInt)
    | .real bits => .ok (wbReal b bits)
    | .pointer p => .ok (wbPointer b p)
    | .string s => if s.length < 2 ^ 31 then .ok (wbString b s) else .error .undefined
    | .table r => wbTable rawlen metapairs m (packOne n) r b
    | .other type _ =>
      .error (.raised (bytes "Unsupport type " ++ type ++ bytes " to serialize"))

/-- `luaseri_pack`. -/
def pack (vs : List Datum) : Except Failure Bytes := do
  let b ← vs.foldlM (fun b v => packOne rawlen metapairs m (MAX_DEPTH + 1) v b) .init
  if b.len < 2 ^ 31 then .ok (seri (b.full ++ [b.current]) b.len) else .error .undefined

end packing

/-! ## Unpacking -/

/-- `rb_read`; the block is what is left of the buffer. -/
def rbRead (rb : Bytes) (sz : Nat) : Option (Bytes × Bytes) :=
  if rb.length < sz then none else some (rb.take sz, rb.drop sz)

/-- `invalid_stream`. -/
def invalidStream {α : Type} (rb : Bytes) (line : Nat) : Except Failure α :=
  .error (.raised (bytes "Invalid serialize stream " ++ tostring rb.length ++ bytes " (line:" ++
    tostring line ++ bytes ")"))

/-- A number of `n` bytes with a sign. -/
def signed (n : Nat) (b : Bytes) : Int :=
  let v : Int := unpackLE b
  if v < 256 ^ n / 2 then v else v - 256 ^ n

/-- `get_integer`. -/
def getInteger (rb : Bytes) (cookie : Nat) : Except Failure (Int × Bytes) :=
  if cookie = TYPE_NUMBER_ZERO then .ok (0, rb)
  else if cookie = TYPE_NUMBER_BYTE then
    match rbRead rb 1 with
    | none => invalidStream rb 378
    | some (n, rb) => .ok (unpackLE n, rb)
  else if cookie = TYPE_NUMBER_WORD then
    match rbRead rb 2 with
    | none => invalidStream rb 386
    | some (n, rb) => .ok (unpackLE n, rb)
  else if cookie = TYPE_NUMBER_DWORD then
    match rbRead rb 4 with
    | none => invalidStream rb 394
    | some (n, rb) => .ok (signed 4 n, rb)
  else if cookie = TYPE_NUMBER_QWORD then
    match rbRead rb 8 with
    | none => invalidStream rb 402
    | some (n, rb) => .ok (signed 8 n, rb)
  else invalidStream rb 407

/-- `get_real`. -/
def getReal (rb : Bytes) : Except Failure (UInt64 × Bytes) :=
  match rbRead rb 8 with
  | none => invalidStream rb 417
  | some (n, rb) => .ok (UInt64.ofNat (unpackLE n), rb)

/-- `get_pointer`. -/
def getPointer (rb : Bytes) : Except Failure (UInt64 × Bytes) :=
  match rbRead rb 8 with
  | none => invalidStream rb 427
  | some (n, rb) => .ok (UInt64.ofNat (unpackLE n), rb)

/-- `get_buffer`. A length from 2^31 on is a negative `int`, which `rb_read` lets pass, and then a
`size_t` that `lua_pushlstring` refuses (lstring.c 267-271). -/
def getBuffer (rb : Bytes) (len : Nat) : Except Failure (Bytes × Bytes) :=
  if 2 ^ 31 ≤ len then .error (.raised (bytes "memory allocation error: block too big"))
  else
    match rbRead rb len with
    | none => invalidStream rb 437
    | some x => .ok x

/-- What reads a value. -/
abbrev Reads := Memory → Bytes → Except Failure (Datum × Memory × Bytes)

/-- The first loop of `unpack_table`: `k` elements from the index `i` on. -/
def unpackArray (one : Reads) (r : Nat) :
    Nat → Nat → Memory → Bytes → Except Failure (Memory × Bytes)
  | 0, _, m, rb => .ok (m, rb)
  | k + 1, i, m, rb => do
    let (v, m, rb) ← one m rb
    unpackArray one r k (i + 1) (m.set r ((m.cell r).rawseti i v)) rb

/-- The second one. -/
def unpackHash (one : Reads) (r : Nat) : Nat → Memory → Bytes → Except Failure (Memory × Bytes)
  | 0, _, _ => .error .fuel
  | n + 1, m, rb => do
    let (k, m, rb) ← one m rb
    if k = .nil then .ok (m, rb)
    else
      let (v, m, rb) ← one m rb
      match (m.cell r).rawset k v with
      | some t => unpackHash one r n (m.set r t) rb
      | none => .error (.raised (bytes "table index is NaN"))

/-- An `int` of a `lua_Integer`. -/
def toInt32 (n : Int) : Int := signed 4 (lowBytes 4 n)

/-- The size of an array: the cookie, or a number behind it. -/
def arraySize (rb : Bytes) (cookie : Nat) : Except Failure (Int × Bytes) :=
  if cookie = MAX_COOKIE - 1 then
    match rb with
    | [] => invalidStream rb 450
    | type :: rb =>
      let cookie := (type >>> 3).toNat
      if (type &&& 7).toNat ≠ TYPE_NUMBER ∨ cookie = TYPE_NUMBER_REAL then invalidStream rb 455
      else do
        let (n, rb) ← getInteger rb cookie
        .ok (toInt32 n, rb)
  else .ok (cookie, rb)

/-- `unpack_table`. -/
def unpackTable (one : Reads) (m : Memory) (rb : Bytes) (cookie : Nat) :
    Except Failure (Datum × Memory × Bytes) := do
  let (size, rb) ← arraySize rb cookie
  let r := m.next
  let (m, rb) ← unpackArray one r size.toNat 1 (m.alloc .empty) rb
  let (m, rb) ← unpackHash one r (rb.length + 1) m rb
  .ok (.table r, m, rb)

/-- The length of a long string. -/
def longLength (rb : Bytes) (cookie : Nat) : Except Failure (Nat × Bytes) :=
  if cookie = 2 then
    match rbRead rb 2 with
    | none => invalidStream rb 503
    | some (n, rb) => .ok (unpackLE n, rb)
  else if cookie ≠ 4 then invalidStream rb 510
  else
    match rbRead rb 4 with
    | none => invalidStream rb 514
    | some (n, rb) => .ok (unpackLE n, rb)

/-- `push_value`. -/
def pushValue (one : Reads) (m : Memory) (rb : Bytes) (type cookie : Nat) :
    Except Failure (Datum × Memory × Bytes) :=
  if type = TYPE_NIL then .ok (.nil, m, rb)
  else if type = TYPE_BOOLEAN then .ok (.boolean (cookie ≠ 0), m, rb)
  else if type = TYPE_NUMBER then
    if cookie = TYPE_NUMBER_REAL then do
      let (bits, rb) ← getReal rb
      .ok (.real bits, m, rb)
    else do
      let (n, rb) ← getInteger rb cookie
      .ok (.integer (Int64.ofInt n), m, rb)
  else if type = TYPE_USERDATA then do
    let (p, rb) ← getPointer rb
    .ok (.pointer p, m, rb)
  else if type = TYPE_SHORT_STRING then do
    let (s, rb) ← getBuffer rb cookie
    .ok (.string s, m, rb)
  else if type = TYPE_LONG_STRING then do
    let (len, rb) ← longLength rb cookie
    let (s, rb) ← getBuffer rb len
    .ok (.string s, m, rb)
  else if type = TYPE_TABLE then unpackTable one m rb cookie
  else invalidStream rb 527

/-- `unpack_one`, to the depth `n`. -/
def unpackOne : Nat → Reads
  | 0, _, _ => .error .fuel
  | _ + 1, _, [] => invalidStream [] 538
  | n + 1, m, type :: rb =>
    pushValue (unpackOne n) m rb (type &&& 7).toNat (type >>> 3).toNat

/-- The loop of `luaseri_unpack`. -/
def unpackAll (n : Nat) : Nat → Memory → Bytes → Except Failure (List Datum × Memory)
  | _, m, [] => .ok ([], m)
  | 0, _, _ :: _ => .error .fuel
  | k + 1, m, type :: rb => do
    let (v, m, rb) ← pushValue (unpackOne n) m rb (type &&& 7).toNat (type >>> 3).toNat
    let (vs, m) ← unpackAll n k m rb
    .ok (v :: vs, m)

/-- `luaseri_unpack`. -/
def unpack (m : Memory) (buffer : Bytes) : Except Failure (List Datum × Memory) :=
  unpackAll buffer.length buffer.length m buffer

end LsServer.Skynet.Seri
