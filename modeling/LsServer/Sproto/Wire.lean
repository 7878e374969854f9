import LsServer.Lua.Strings

/-!
# Records on the wire (sproto.c)

`sproto_encode` writes a record as a count, a word for each field, and the data of the fields that
do not fit in a word. A word is even for a field: zero where its data follows, else twice its value
plus two. An odd word skips tags that have no field. `sproto_decode` reads the words and the data in
step, and says how many bytes it took, so a text can stand behind a record.

A record is the list of its fields with their tags. What a field means is left to the types. In C
the test against a size near `2 ^ 32` wraps; such a size is taken for what it says here.

Source: lualib-src/sproto/sproto.c `fill_size` 678-684, `encode_integer` 687-695, `encode_uint64`
698-710, `encode_object` 736-750, `sproto_encode` 944-1056, `expand64` 1083-1089, `sproto_decode`
1164-1275.

* `Field.inline n` stands for a field in a word, `Field.data b` for one with its bytes behind the
  words, behind their length in four bytes. Booleans and small integers are inline; other integers
  have 4 or 8 bytes of data; strings, records and arrays of records are data.
* `Record.Writable`: the tags ascend and fit, and so do the fields. `core.encode` writes the fields
  of a type in the order of their tags.
* `decodeRecord` returns the fields and the length it has taken, or `none` where `sproto_decode`
  returns -1.
* `writeInt` takes the smallest of three sizes: a word, four bytes, eight bytes. `readInt` extends
  the sign of four bytes (`expand64`).

Results:
* `decodeRecord_encodeRecord`: a record is read back, whatever stands behind it;
* `readInt_writeInt`: integers of 64 bits come back.

Out of scope: arrays of integers and booleans, maps, fixed-point numbers and doubles. No type of the
repository has them.
-/

namespace LsServer.Sproto

open LsServer.Lua

/-- A field: its value in a word, or its data. -/
inductive Field
  | inline (value : Nat)
  | data (b : Bytes)
  deriving DecidableEq

/-- The word of a field. -/
def Field.word : Field → Nat
  | .inline value => (value + 1) * 2
  | .data _ => 0

/-- The data of a field, with its size. -/
def Field.tail : Field → Bytes
  | .inline _ => []
  | .data b => packLE 4 b.length ++ b

/-- A field as `sproto_encode` writes it. -/
def Field.Fits : Field → Prop
  | .inline value => value < 0x7fff
  | .data b => b.length < 2 ^ 32

/-- The fields of a record with their tags. -/
abbrev Record := List (Nat × Field)

/-- The words of a record, from the tag `next` on. -/
def recordWords : Nat → Record → List Nat
  | _, [] => []
  | next, (tag, f) :: r =>
    -- skip tag
    (if tag = next then [] else [(tag - next - 1) * 2 + 1]) ++ f.word :: recordWords (tag + 1) r

/-- The data of a record. -/
def recordData (r : Record) : Bytes := r.flatMap fun x => x.2.tail

/-- `sproto_encode`, once the fields are known. -/
def encodeRecord (r : Record) : Bytes :=
  let words := recordWords 0 r
  packLE 2 words.length ++ words.flatMap (packLE 2) ++ recordData r

/-- The data at the front of the text, and the rest. -/
def readData (s : Bytes) : Option (Bytes × Bytes) :=
  let size := unpackLE (s.take 4)
  if s.length < size + 4 then none else some ((s.drop 4).take size, s.drop (size + 4))

/-- The loop of `sproto_decode` over the words, from the tag `next` on. -/
def decodeWords : Nat → List Nat → Bytes → Option (Record × Bytes)
  | _, [], s => some ([], s)
  | next, w :: ws, s =>
    if w % 2 = 1 then decodeWords (next + w / 2 + 1) ws s
    else if w = 0 then do
      let (b, s) ← readData s
      let (r, s) ← decodeWords (next + 1) ws s
      some ((next, .data b) :: r, s)
    else do
      let (r, s) ← decodeWords (next + 1) ws s
      some ((next, .inline (w / 2 - 1)) :: r, s)

/-- `n` words at the front of a text. -/
def readWords : Nat → Bytes → List Nat
  | 0, _ => []
  | n + 1, s => unpackLE (s.take 2) :: readWords n (s.drop 2)

/-- `sproto_decode`: the record, and the text behind it. -/
def decodeRecord (s : Bytes) : Option (Record × Bytes) :=
  if s.length < 2 then none
  else
    let fn := unpackLE (s.take 2)
    let t := s.drop 2
    if t.length < fn * 2 then none else decodeWords 0 (readWords fn t) (t.drop (fn * 2))

/-! ## Round trip -/

/-- The tags of a record go up, from `next` on. -/
def Ascending : Nat → Record → Prop
  | _, [] => True
  | next, (tag, _) :: r => next ≤ tag ∧ Ascending (tag + 1) r

/-- A record that can be written: its tags go up and stay below `2 ^ 15`, its fields fit. -/
structure Record.Writable (r : Record) : Prop where
  ascending : Ascending 0 r
  small : ∀ x ∈ r, x.1 < 2 ^ 15
  fits : ∀ x ∈ r, x.2.Fits

theorem readData_tail {b : Bytes} (h : b.length < 2 ^ 32) (s : Bytes) :
    readData (packLE 4 b.length ++ b ++ s) = some (b, s) := by
  have hsize : unpackLE ((packLE 4 b.length ++ b ++ s).take 4) = b.length := by
    rw [List.append_assoc, List.take_left' (packLE_length _ _), unpackLE_packLE h]
  have hdrop : (packLE 4 b.length ++ b ++ s).drop 4 = b ++ s := by
    rw [List.append_assoc, List.drop_left' (packLE_length _ _)]
  unfold readData
  simp only [hsize]
  rw [if_neg (by simp only [List.length_append, packLE_length]; omega), hdrop, List.take_left,
    Nat.add_comm, ← List.drop_drop, hdrop, List.drop_left]

theorem decodeWords_recordWords {r : Record} {next : Nat} (hasc : Ascending next r)
    (hfits : ∀ x ∈ r, x.2.Fits) (s : Bytes) :
    decodeWords next (recordWords next r) (recordData r ++ s) = some (r, s) := by
  induction r generalizing next with
  | nil => rfl
  | cons x r ih =>
    obtain ⟨tag, f⟩ := x
    obtain ⟨hle, hasc⟩ := hasc
    have hrest := ih hasc fun x hx => hfits x (by simp [hx])
    have hdata : recordData ((tag, f) :: r) ++ s = f.tail ++ (recordData r ++ s) := by
      simp [recordData]
    -- the word of the field itself
    have hfield : decodeWords tag (f.word :: recordWords (tag + 1) r)
        (recordData ((tag, f) :: r) ++ s) = some ((tag, f) :: r, s) := by
      have hfit := hfits (tag, f) (by simp)
      rw [hdata]
      cases f with
      | inline value =>
        have hword : (Field.inline value).word = (value + 1) * 2 := rfl
        rw [hword, decodeWords, if_neg (by omega), if_neg (by omega)]
        rw [show (Field.inline value).tail = [] from rfl, List.nil_append, hrest]
        simp
      | data b =>
        rw [show (Field.data b).word = 0 from rfl, decodeWords, if_neg (by decide), if_pos rfl]
        rw [show (Field.data b).tail = packLE 4 b.length ++ b from rfl, readData_tail hfit]
        simp [hrest]
    rw [recordWords]
    split
    · rename_i htag
      subst htag
      exact hfield
    · rename_i htag
      rw [List.singleton_append, decodeWords, if_pos (by omega),
        show next + ((tag - next - 1) * 2 + 1) / 2 + 1 = tag by omega]
      exact hfield

theorem readWords_flatMap {ws : List Nat} (h : ∀ w ∈ ws, w < 2 ^ 16) (s : Bytes) :
    readWords ws.length (ws.flatMap (packLE 2) ++ s) = ws := by
  induction ws with
  | nil => rfl
  | cons w ws ih =>
    rw [List.flatMap_cons, List.append_assoc, List.length_cons, readWords,
      List.take_left' (packLE_length _ _), List.drop_left' (packLE_length _ _),
      unpackLE_packLE (h w (by simp)), ih fun w hw => h w (by simp [hw])]

/-- The words of a record fit, and are not too many. -/
theorem recordWords_bound {r : Record} {next : Nat} (hasc : Ascending next r)
    (hsmall : ∀ x ∈ r, x.1 < 2 ^ 15) (hfits : ∀ x ∈ r, x.2.Fits) :
    (∀ w ∈ recordWords next r, w < 2 ^ 16) ∧
      (recordWords next r).length + next ≤ max next (2 ^ 15) := by
  induction r generalizing next with
  | nil => simp [recordWords]
  | cons x r ih =>
    obtain ⟨tag, f⟩ := x
    obtain ⟨hle, hasc⟩ := hasc
    have htag : tag < 2 ^ 15 := hsmall (tag, f) (by simp)
    have hfit : f.Fits := hfits (tag, f) (by simp)
    obtain ⟨hwords, hlen⟩ := ih hasc (fun x hx => hsmall x (by simp [hx]))
      fun x hx => hfits x (by simp [hx])
    have hword : f.word < 2 ^ 16 := by
      cases f with
      | inline value =>
        have hvalue : value < 0x7fff := hfit
        have hw : (Field.inline value).word = (value + 1) * 2 := rfl
        omega
      | data b => exact Nat.two_pow_pos 16
    rw [recordWords]
    constructor
    · intro w hw
      rcases List.mem_append.mp hw with hw | hw
      · split at hw
        · exact absurd hw (by simp)
        · obtain rfl := List.mem_singleton.mp hw
          omega
      · rcases List.mem_cons.mp hw with rfl | hw
        · exact hword
        · exact hwords w hw
    · rw [List.length_append, List.length_cons]
      split
      · rw [List.length_nil]
        omega
      · rw [List.length_singleton]
        omega

/-- **A record comes back**, with the text behind it. -/
theorem decodeRecord_encodeRecord {r : Record} (h : r.Writable) (s : Bytes) :
    decodeRecord (encodeRecord r ++ s) = some (r, s) := by
  obtain ⟨hwords, hcount⟩ := recordWords_bound h.ascending h.small h.fits
  obtain ⟨words, hw⟩ : ∃ words, recordWords 0 r = words := ⟨_, rfl⟩
  rw [hw] at hwords hcount
  have hflat : (words.flatMap (packLE 2)).length = words.length * 2 := by
    simp only [List.length_flatMap, packLE_length, List.map_const', List.sum_replicate,
      Nat.nsmul_eq_mul]
  have heq : encodeRecord r ++ s =
      packLE 2 words.length ++ (words.flatMap (packLE 2) ++ (recordData r ++ s)) := by
    simp [encodeRecord, hw]
  have htake : unpackLE ((encodeRecord r ++ s).take 2) = words.length := by
    rw [heq, List.take_left' (packLE_length _ _), unpackLE_packLE (by omega)]
  have hdrop : (encodeRecord r ++ s).drop 2 =
      words.flatMap (packLE 2) ++ (recordData r ++ s) := by
    rw [heq, List.drop_left' (packLE_length _ _)]
  have hlen : ¬ (encodeRecord r ++ s).length < 2 := by
    rw [heq, List.length_append, packLE_length]
    omega
  unfold decodeRecord
  simp only [htake, hdrop]
  rw [if_neg hlen, if_neg (by rw [List.length_append]; omega), readWords_flatMap hwords,
    List.drop_left' hflat, ← hw, decodeWords_recordWords h.ascending h.fits]

/-! ## Integers -/

/-- An integer of 64 bits as a field (`encode_one`). -/
def writeInt (v : Int) : Field :=
  if -2 ^ 31 ≤ v ∧ v < 2 ^ 31 then
    let u := (v % 2 ^ 32).toNat
    if u < 0x7fff then .inline u else .data (packLE 4 u)
  else .data (packLE 8 (v % 2 ^ 64).toNat)

/-- `u` with its upper half below zero. -/
def signed (bits u : Nat) : Int := if u < 2 ^ (bits - 1) then u else (u : Int) - 2 ^ bits

/-- A field as an integer; `none` where `sproto_decode` fails. -/
def readInt : Field → Option Int
  | .inline value => some value
  | .data b =>
    if b.length = 4 then some (signed 32 (unpackLE b))
    else if b.length = 8 then some (signed 64 (unpackLE b))
    else none

/-- The integers of 64 bits. -/
def IsInt64 (v : Int) : Prop := -2 ^ 63 ≤ v ∧ v < 2 ^ 63

/-- **An integer comes back.** -/
theorem readInt_writeInt {v : Int} (h : IsInt64 v) : readInt (writeInt v) = some v := by
  obtain ⟨hlow, hhigh⟩ := h
  unfold writeInt
  split
  · dsimp only
    split
    · rw [readInt, Int.toNat_of_nonneg (by omega)]
      congr 1
      omega
    · have hu : unpackLE (packLE 4 (v % 2 ^ 32).toNat) = (v % 2 ^ 32).toNat :=
        unpackLE_packLE (by omega)
      rw [readInt, if_pos (packLE_length _ _), hu, signed]
      congr 1
      split <;> omega
  · have hu : unpackLE (packLE 8 (v % 2 ^ 64).toNat) = (v % 2 ^ 64).toNat :=
      unpackLE_packLE (by omega)
    rw [readInt, if_neg (by rw [packLE_length]; decide), if_pos (packLE_length _ _), hu, signed]
    congr 1
    split <;> omega

theorem writeInt_fits (v : Int) : (writeInt v).Fits := by
  unfold writeInt
  split
  · dsimp only
    split
    · assumption
    · rw [Field.Fits, packLE_length]
      decide
  · rw [Field.Fits, packLE_length]
    decide

theorem signed_isInt64 {bits u : Nat} (hpos : 0 < bits) (hbits : bits ≤ 64) (hu : u < 2 ^ bits) :
    IsInt64 (signed bits u) := by
  have hdouble : 2 ^ bits = 2 * 2 ^ (bits - 1) := by
    rw [← Nat.pow_succ']
    congr 1
    omega
  have hle : 2 ^ (bits - 1) ≤ 2 ^ 63 := Nat.pow_le_pow_right (by decide) (by omega)
  have hcast : (2 : Int) ^ bits = ((2 ^ bits : Nat) : Int) := by push_cast; rfl
  unfold signed IsInt64
  rw [hcast]
  split <;> omega

/-- The words in a record of the wire are words of 16 bits. -/
theorem readWords_lt (n : Nat) (s : Bytes) : ∀ w ∈ readWords n s, w < 2 ^ 16 := by
  induction n generalizing s with
  | zero => simp [readWords]
  | succ n ih =>
    intro w hw
    rcases List.mem_cons.mp hw with rfl | hw
    · have hlt := unpackBE_lt (s.take 2).reverse
      have hlen : (s.take 2).reverse.length ≤ 2 := by simp
      exact hlt.trans_le (Nat.pow_le_pow_right (by decide) hlen)
    · exact ih _ w hw

theorem decodeWords_inline {ws : List Nat} {next : Nat} {s t : Bytes} {r : Record}
    (hws : ∀ w ∈ ws, w < 2 ^ 16) (h : decodeWords next ws s = some (r, t)) :
    ∀ tag value, (tag, Field.inline value) ∈ r → value < 2 ^ 15 := by
  induction ws generalizing next s t r with
  | nil =>
    obtain rfl : [] = r := congrArg Prod.fst (Option.some.inj h)
    simp
  | cons w ws ih =>
    have hw : w < 2 ^ 16 := hws w (by simp)
    have hws : ∀ w ∈ ws, w < 2 ^ 16 := fun w hw => hws w (by simp [hw])
    rw [decodeWords] at h
    split at h
    · exact ih hws h
    · split at h
      · simp only [Option.bind_eq_bind, Option.bind_eq_some_iff, Option.some.injEq,
          Prod.mk.injEq] at h
        obtain ⟨⟨b, s⟩, -, ⟨r, t⟩, hr, rfl, rfl⟩ := h
        intro tag value hmem
        exact ih hws hr tag value (by simpa using hmem)
      · simp only [Option.bind_eq_bind, Option.bind_eq_some_iff, Option.some.injEq,
          Prod.mk.injEq] at h
        obtain ⟨⟨r, t⟩, hr, rfl, rfl⟩ := h
        intro tag value hmem
        rcases List.mem_cons.mp hmem with heq | hmem
        · obtain ⟨-, hvalue⟩ := Prod.mk.inj heq
          obtain rfl := Field.inline.inj hvalue
          omega
        · exact ih hws hr tag value hmem

/-- **What is read as an integer has 64 bits.** -/
theorem readInt_isInt64 {s t : Bytes} {r : Record} {tag : Nat} {f : Field} {v : Int}
    (h : decodeRecord s = some (r, t)) (hmem : (tag, f) ∈ r) (hv : readInt f = some v) :
    IsInt64 v := by
  unfold decodeRecord at h
  split at h
  · exact absurd h (by simp)
  · dsimp only at h
    split at h
    · exact absurd h (by simp)
    · cases f with
      | inline value =>
        have hlt := decodeWords_inline (readWords_lt _ _) h tag value hmem
        obtain rfl : (value : Int) = v := Option.some.inj hv
        constructor <;> omega
      | data b =>
        have hlt : unpackLE b < 256 ^ b.length := by
          have := unpackBE_lt b.reverse
          rwa [List.length_reverse] at this
        simp only [readInt] at hv
        split at hv
        · rename_i hlen
          obtain rfl := Option.some.inj hv
          rw [hlen] at hlt
          exact signed_isInt64 (by decide) (by decide) hlt
        · split at hv
          · rename_i hlen
            obtain rfl := Option.some.inj hv
            rw [hlen] at hlt
            exact signed_isInt64 (by decide) (by decide) hlt
          · exact absurd hv (by simp)

/-! ## Sizes -/

theorem length_le_recordData {r : Record} {tag : Nat} {b : Bytes} (h : (tag, .data b) ∈ r) :
    b.length ≤ (recordData r).length := by
  induction r with
  | nil => exact absurd h (by simp)
  | cons x r ih =>
    rw [recordData, List.flatMap_cons, List.length_append]
    rcases List.mem_cons.mp h with rfl | h
    · rw [Field.tail, List.length_append]
      omega
    · have hle := ih h
      rw [recordData] at hle
      omega

/-- The data of a field is no longer than the record. -/
theorem length_le_encodeRecord {r : Record} (tag : Nat) {b : Bytes} (h : (tag, .data b) ∈ r) :
    b.length ≤ (encodeRecord r).length := by
  have hle := length_le_recordData h
  simp only [encodeRecord, List.length_append]
  omega

end LsServer.Sproto
