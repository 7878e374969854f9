import LsServer.Lua.Value
import Mathlib.Algebra.Order.BigOperators.Group.List

/-!
# Chunks of assignments (llex.c, lparser.c)

A Lua chunk is a program. `assignments` reads those that consist of assignments of a string literal
or `true` to a global variable, with white space, semicolons and short comments in between; it
returns `none` for any other text, whether that is a chunk or not. In a string literal the escapes
`\\z`, `\\u` and the one with a carriage return are left out.

Source: llex.c `readhexaesc` 335-340, `readdecesc` 369-379, `read_string` 382-442, `llex` 445-562;
lparser.c `singlevar` 463-475, `restassign` 1375-1403, `exprstat` 1795-1810, `mainfunc` 1924-1939.

* `skip` passes white space, semicolons and comments that end with the line. A comment with `[`
  behind the dashes may be a long one, and such a text is not read.
* A name is a letter or `_` and then letters, digits and `_`. The reserved words are none, nor is
  `_ENV`: that is the upvalue of the chunk and no global variable (`mainfunc`), so an assignment to
  it replaces the environment.
* `readEscape` knows the escapes of one character, `\x` with two digits and `\` with up to three
  decimal digits.
* `true` is the only value besides strings, as in `__nowaiting = true`.

Results:
* `statements_cost`: such a text is as long as what it assigns, and a byte longer for every line
  break and for every byte of a string that has to be escaped;
* `literal_of_cost`: if lines that assign strings leave no room for more, none of these bytes is in
  a string;
* `statements_lines`: lines that assign strings without such bytes are read as these assignments.

`globals` runs the assignments in their order, so of two to one name the last one counts. What the
texts do that `assignments` does not read is left open; a module that needs them takes `load` as a
parameter that agrees with `assignments` where that reads something.
-/

namespace LsServer.Lua

/-- `lislalpha` (lctype.c). -/
def islalpha (c : UInt8) : Bool := (97 ≤ c && c ≤ 122) || (65 ≤ c && c ≤ 90) || c == 95

/-- `lislalnum`. -/
def islalnum (c : UInt8) : Bool := islalpha c || isdigit c

/-- The reserved words (`luaX_tokens`). -/
def reserved : List Bytes :=
  [bytes "and", bytes "break", bytes "do", bytes "else", bytes "elseif", bytes "end",
   bytes "false", bytes "for", bytes "function", bytes "goto", bytes "if", bytes "in",
   bytes "local", bytes "nil", bytes "not", bytes "or", bytes "repeat", bytes "return",
   bytes "then", bytes "true", bytes "until", bytes "while"]

/-- A name that stands for a global (lparser.c `singlevar`). `_ENV` does not: it is the upvalue of
the chunk, and where it is assigned the globals are no longer those of the environment. -/
def isName (s : Bytes) : Bool :=
  (s.head?.any islalpha) && s.all islalnum && s ∉ reserved && s ≠ bytes "_ENV"

/-! ## Reading -/

/-- Behind white space and short comments; behind semicolons too, between statements. -/
def skip (semicolons : Bool) : Nat → Bytes → Bytes
  | 0, text => text
  | n + 1, text =>
    match text with
    | [] => []
    | c :: rest =>
      if isspace c ∨ (semicolons = true ∧ c = 59) then skip semicolons n rest
      else if c = 45 ∧ rest.head? = some 45 ∧ (rest.drop 1).head? ≠ some 91 then
        skip semicolons n (rest.dropWhile fun c => c ≠ 10 ∧ c ≠ 13)
      else text

def readName (text : Bytes) : Option (Bytes × Bytes) :=
  let name := text.takeWhile islalnum
  if isName name then some (name, text.drop name.length) else none

/-- What is behind a backslash: the byte it stands for. -/
def readEscape : Bytes → Option (UInt8 × Bytes)
  | [] => none
  | c :: text =>
    if isdigit c then
      let ds := (c :: text.take 2).takeWhile isdigit
      let v := ds.foldl (fun a c => a * 10 + hexavalue c) 0
      if v < 256 then some (v.toUInt8, (c :: text).drop ds.length) else none
    else
      match c, text with
      | 120, h :: l :: text =>
        if isxdigit h ∧ isxdigit l then some ((hexavalue h * 16 + hexavalue l).toUInt8, text)
        else none
      | 97, _ => some (7, text)
      | 98, _ => some (8, text)
      | 102, _ => some (12, text)
      | 110, _ => some (10, text)
      | 114, _ => some (13, text)
      | 116, _ => some (9, text)
      | 118, _ => some (11, text)
      | 92, _ => some (92, text)
      | 34, _ => some (34, text)
      | 39, _ => some (39, text)
      | 10, _ => some (10, text)
      | _, _ => none

/-- `read_string`, behind the quote that opens it. -/
def readString : Nat → Bytes → Option (Bytes × Bytes)
  | n + 1, c :: text =>
    if c = 34 then some ([], text)
    else if c = 92 then do
      let (b, text) ← readEscape text
      let (v, text) ← readString n text
      some (b :: v, text)
    else if c = 10 ∨ c = 13 then none
    else do
      let (v, text) ← readString n text
      some (c :: v, text)
  | _, _ => none

def readValue (text : Bytes) : Option (Value × Bytes) :=
  match text with
  | 34 :: text => (readString text.length text).map fun x => (.string x.1, x.2)
  | _ =>
    if text.takeWhile islalnum = bytes "true" then some (.boolean true, text.drop 4) else none

/-- One assignment. -/
def statement (text : Bytes) : Option ((Bytes × Value) × Bytes) := do
  let (name, text) ← readName text
  match skip false text.length text with
  | 61 :: text =>
    let (v, text) ← readValue (skip false text.length text)
    some ((name, v), text)
  | _ => none

/-- That many assignments at most, to the end of the text. -/
def statements : Nat → Bytes → Option (List (Bytes × Value))
  | 0, text => if skip true text.length text = [] then some [] else none
  | n + 1, text =>
    match skip true text.length text with
    | [] => some []
    | c :: text => do
      let (a, text) ← statement (c :: text)
      let as ← statements n text
      some (a :: as)

/-- The assignments of the chunk. -/
def assignments (text : Bytes) : Option (List (Bytes × Value)) := statements text.length text

/-- A global after the assignments: the last one counts. -/
def globals (as : List (Bytes × Value)) (name : Bytes) : Option Value :=
  (as.reverse.find? fun a => a.1 = name).map Prod.snd

example : assignments (bytes "__nowaiting = true\ngame1=\"10.0.0.2:2528\"\n") =
    some [(bytes "__nowaiting", .boolean true), (bytes "game1", .string (bytes "10.0.0.2:2528"))]
    := by
  decide +kernel

example : assignments (bytes "_ENV=\"10.0.0.2:2528\"\n") = none := by
  decide +kernel

/-! ## What is read -/

theorem skip_suffix (semicolons : Bool) (n : Nat) (text : Bytes) :
    ∃ raw, text = raw ++ skip semicolons n text := by
  induction n generalizing text with
  | zero => exact ⟨[], rfl⟩
  | succ n ih =>
    cases text with
    | nil => exact ⟨[], rfl⟩
    | cons c rest =>
      rw [skip]
      split
      · obtain ⟨raw, h⟩ := ih rest
        exact ⟨c :: raw, by rw [List.cons_append, ← h]⟩
      · split
        · obtain ⟨raw, h⟩ := ih (rest.dropWhile fun c => c ≠ 10 ∧ c ≠ 13)
          refine ⟨c :: (rest.takeWhile (fun c => c ≠ 10 ∧ c ≠ 13) ++ raw), ?_⟩
          rw [List.cons_append, List.append_assoc, ← h, List.takeWhile_append_dropWhile]
        · exact ⟨[], rfl⟩

/-- The bytes of a string that have to be escaped, other than line feeds. -/
def special (c : UInt8) : Bool := c = 34 || c = 92 || c = 13

theorem count_lf_of_digits {ds : Bytes} (h : ∀ c ∈ ds, isdigit c = true) : ds.count 10 = 0 :=
  List.count_eq_zero.mpr fun hmem => absurd (h 10 hmem) (by decide)

theorem readEscape_suffix {text rest : Bytes} {b : UInt8} (h : readEscape text = some (b, rest)) :
    ∃ raw, text = raw ++ rest ∧ raw.count 10 + (if special b then 1 else 0) ≤ raw.length := by
  cases text with
  | nil => exact absurd h (by simp [readEscape])
  | cons c text =>
    have hone : ∀ {b' : UInt8}, some (b', text) = some (b, rest) → (c = 10 → special b' = false) →
        ∃ raw, c :: text = raw ++ rest ∧
          raw.count 10 + (if special b then 1 else 0) ≤ raw.length := by
      intro b' heq hb
      obtain ⟨rfl, rfl⟩ := Prod.mk.inj (Option.some.inj heq)
      refine ⟨[c], rfl, ?_⟩
      by_cases hc : c = 10
      · simp [hc, hb hc]
      · rw [List.count_singleton, if_neg (by simpa using hc)]
        split <;> simp
    simp only [readEscape] at h
    split at h
    · rename_i hdigit
      split at h
      · obtain ⟨rfl, rfl⟩ := Prod.mk.inj (Option.some.inj h)
        have hpfx : (c :: text.take 2).takeWhile isdigit <+: c :: text :=
          (List.takeWhile_prefix _).trans (List.take_prefix 3 (c :: text))
        obtain ⟨t, ht⟩ := hpfx
        have hall : ∀ d ∈ (c :: text.take 2).takeWhile isdigit, isdigit d = true :=
          fun d hd => List.mem_takeWhile_imp hd
        have hne : (c :: text.take 2).takeWhile isdigit ≠ [] := by
          rw [List.takeWhile_cons, if_pos hdigit]
          simp
        have hpos := List.length_pos_of_ne_nil hne
        generalize (c :: text.take 2).takeWhile isdigit = ds at *
        refine ⟨ds, ?_, ?_⟩
        · rw [← ht, List.drop_left]
        · rw [count_lf_of_digits hall]
          split <;> omega
      · exact absurd h (by simp)
    · split at h
      · split at h
        · rename_i hi lo text' _ hx
          obtain ⟨-, rfl⟩ := Prod.mk.inj (Option.some.inj h)
          have hne : ∀ x : UInt8, isxdigit x = true → x ≠ 10 := by
            rintro x hx rfl
            exact absurd hx (by decide)
          refine ⟨[120, hi, lo], rfl, ?_⟩
          have hcount : List.count (10 : UInt8) [120, hi, lo] = 0 := by
            simp [hne hi hx.1, hne lo hx.2]
          rw [hcount]
          split <;> simp
        · exact absurd h (by simp)
      all_goals first
        | exact hone h (by decide)
        | exact absurd h (by simp)

/-- **What a string literal takes**, with the quote that closes it. -/
theorem readString_cost {n : Nat} {text v rest : Bytes}
    (h : readString n text = some (v, rest)) :
    ∃ raw, text = raw ++ rest ∧
      v.length + 1 + raw.count 10 + v.countP special ≤ raw.length := by
  induction n generalizing text v with
  | zero => exact absurd h (by simp [readString])
  | succ n ih =>
    cases text with
    | nil => exact absurd h (by simp [readString])
    | cons c text =>
      rw [readString] at h
      split at h
      · rename_i hc
        obtain ⟨rfl, rfl⟩ := Prod.mk.inj (Option.some.inj h)
        exact ⟨[c], rfl, by simp [hc]⟩
      · rename_i hquote
        split at h
        · rename_i hc
          obtain ⟨⟨b, text'⟩, hb, h⟩ := Option.bind_eq_some_iff.mp h
          obtain ⟨⟨v', text''⟩, hv, h⟩ := Option.bind_eq_some_iff.mp h
          obtain ⟨rfl, rfl⟩ := Prod.mk.inj (Option.some.inj h)
          obtain ⟨raw₁, rfl, h₁⟩ := readEscape_suffix hb
          obtain ⟨raw₂, rfl, h₂⟩ := ih hv
          refine ⟨c :: (raw₁ ++ raw₂), by simp, ?_⟩
          have hcount : (c :: (raw₁ ++ raw₂)).count 10 = raw₁.count 10 + raw₂.count 10 := by
            rw [List.count_cons_of_ne (by rw [hc]; decide), List.count_append]
          rw [hcount, List.countP_cons]
          simp only [List.length_cons, List.length_append]
          omega
        · rename_i hback
          split at h
          · exact absurd h (by simp)
          · rename_i hbreak
            obtain ⟨⟨v', text''⟩, hv, h⟩ := Option.bind_eq_some_iff.mp h
            obtain ⟨rfl, rfl⟩ := Prod.mk.inj (Option.some.inj h)
            obtain ⟨raw, rfl, hraw⟩ := ih hv
            rw [not_or] at hbreak
            refine ⟨c :: raw, rfl, ?_⟩
            have hspecial : special c = false := by
              simp [special, hquote, hback, hbreak.2]
            rw [List.count_cons_of_ne hbreak.1, List.countP_cons, hspecial]
            simp only [List.length_cons, Bool.false_eq_true, if_false]
            omega

theorem readName_suffix {text name rest : Bytes} (h : readName text = some (name, rest)) :
    text = name ++ rest ∧ isName name = true ∧ name.count 10 = 0 := by
  simp only [readName, Option.ite_none_right_eq_some] at h
  obtain ⟨hname, h⟩ := h
  obtain ⟨rfl, rfl⟩ := Prod.mk.inj (Option.some.inj h)
  have hall : ∀ c ∈ text.takeWhile islalnum, islalnum c = true :=
    fun c hc => List.mem_takeWhile_imp hc
  obtain ⟨t, ht⟩ := List.takeWhile_prefix (l := text) islalnum
  generalize text.takeWhile islalnum = name at *
  refine ⟨?_, hname, List.count_eq_zero.mpr fun hmem => absurd (hall 10 hmem) (by decide)⟩
  rw [← ht, List.drop_left]

/-- What an assignment takes at least. -/
def cost (a : Bytes × Value) : Nat :=
  match a.2 with
  | .string v => a.1.length + 3 + v.length + v.countP special
  | _ => 0

theorem readValue_cost {text rest : Bytes} {v : Value} (h : readValue text = some (v, rest)) :
    ∃ raw, text = raw ++ rest ∧ raw.count 10 + cost ([], v) ≤ raw.length + 1 := by
  unfold readValue at h
  split at h
  · obtain ⟨⟨v', rest'⟩, hv, heq⟩ := Option.map_eq_some_iff.mp h
    obtain ⟨rfl, rfl⟩ := Prod.mk.inj heq
    obtain ⟨raw, rfl, hraw⟩ := readString_cost hv
    refine ⟨34 :: raw, rfl, ?_⟩
    rw [List.count_cons_of_ne (by decide)]
    simp only [cost, List.length_nil, List.length_cons]
    omega
  · split at h
    · obtain ⟨rfl, rfl⟩ := Prod.mk.inj (Option.some.inj h)
      refine ⟨text.take 4, (List.take_append_drop 4 text).symm, ?_⟩
      have hle := List.count_le_length (a := (10 : UInt8)) (l := text.take 4)
      simp only [cost]
      omega
    · exact absurd h (by simp)

theorem statement_cost {text rest : Bytes} {a : Bytes × Value}
    (h : statement text = some (a, rest)) :
    isName a.1 = true ∧ ∃ raw, text = raw ++ rest ∧ raw.count 10 + cost a ≤ raw.length := by
  obtain ⟨⟨name, text₁⟩, hread, h⟩ := Option.bind_eq_some_iff.mp h
  obtain ⟨htext, hn, hcount⟩ := readName_suffix hread
  obtain ⟨ws, hws⟩ := skip_suffix false text₁.length text₁
  dsimp only at h
  split at h
  · rename_i text₂ heq
    obtain ⟨⟨v, text₃⟩, hv, h⟩ := Option.bind_eq_some_iff.mp h
    obtain ⟨rfl, rfl⟩ := Prod.mk.inj (Option.some.inj h)
    obtain ⟨ws', hws'⟩ := skip_suffix false text₂.length text₂
    obtain ⟨raw, hraw, hcost⟩ := readValue_cost hv
    rw [hraw] at hws'
    rw [heq] at hws
    refine ⟨hn, name ++ ws ++ 61 :: (ws' ++ raw), ?_, ?_⟩
    · rw [htext, hws, hws']
      simp
    · have h₁ := List.count_le_length (a := (10 : UInt8)) (l := ws)
      have h₂ := List.count_le_length (a := (10 : UInt8)) (l := ws')
      have hlf : (name ++ ws ++ 61 :: (ws' ++ raw)).count 10 =
          ws.count 10 + ws'.count 10 + raw.count 10 := by
        rw [List.count_append, List.count_append, List.count_cons_of_ne (by decide),
          List.count_append, hcount]
        omega
      have hc : cost (name, v) ≤ name.length + cost ([], v) := by
        unfold cost
        cases v <;> simp
        omega
      rw [hlf]
      simp only [List.length_append, List.length_cons]
      omega
  · exact absurd h (by simp)

/-- **What the assignments of a chunk take.** -/
theorem statements_cost {n : Nat} {text : Bytes} {as : List (Bytes × Value)}
    (h : statements n text = some as) : (∀ a ∈ as, isName a.1 = true) ∧
      text.count 10 + (as.map cost).sum ≤ text.length := by
  induction n generalizing text as with
  | zero =>
    obtain ⟨-, h⟩ := Option.ite_none_right_eq_some.mp h
    obtain rfl := Option.some.inj h
    exact ⟨by simp, by simpa using List.count_le_length⟩
  | succ n ih =>
    obtain ⟨ws, hws⟩ := skip_suffix true text.length text
    rw [statements] at h
    split at h
    · obtain rfl := Option.some.inj h
      exact ⟨by simp, by simpa using List.count_le_length⟩
    · rename_i heq
      rw [heq] at hws
      obtain ⟨⟨a, rest⟩, ha, h⟩ := Option.bind_eq_some_iff.mp h
      obtain ⟨as', has, h⟩ := Option.bind_eq_some_iff.mp h
      obtain rfl := Option.some.inj h
      obtain ⟨hname, raw, hraw, hcost⟩ := statement_cost ha
      obtain ⟨hnames, hrest⟩ := ih has
      refine ⟨List.forall_mem_cons.mpr ⟨hname, hnames⟩, ?_⟩
      have hle := List.count_le_length (a := (10 : UInt8)) (l := ws)
      rw [hws, hraw, List.count_append, List.count_append, List.map_cons, List.sum_cons]
      simp only [List.length_append]
      omega

/-! ## Reading back -/

/-- The line that assigns a string. -/
def assignLine (a : Bytes × Bytes) : Bytes := a.1 ++ bytes "=\"" ++ a.2 ++ bytes "\"\n"

/-- A string that is a literal as it is. -/
def Literal (v : Bytes) : Prop := ∀ c ∈ v, c ≠ 10 ∧ special c = false

instance (v : Bytes) : Decidable (Literal v) :=
  List.decidableBAll (fun c => c ≠ 10 ∧ special c = false) v

/-- Lines of which every assignment is among `as`, and which have no room for more. -/
theorem literal_of_cost {lines : List (Bytes × Bytes)} {as : List (Bytes × Value)}
    (hnodup : lines.Nodup) (hmem : ∀ a ∈ lines, (a.1, Value.string a.2) ∈ as)
    (h : (lines.flatMap assignLine).count 10 + (as.map cost).sum ≤
      (lines.flatMap assignLine).length) : ∀ a ∈ lines, Literal a.2 := by
  have hsub : ((lines.map fun a => (a.1, Value.string a.2)).map cost).sum ≤
      (as.map cost).sum := by
    have hnodup' : (lines.map fun a => (a.1, Value.string a.2)).Nodup := by
      refine hnodup.map fun a b hab => ?_
      obtain ⟨h₁, h₂⟩ := Prod.mk.inj hab
      exact Prod.ext h₁ (Value.string.inj h₂)
    have hincl : (lines.map fun a => (a.1, Value.string a.2)) ⊆ as := fun x hx => by
      obtain ⟨a, ha, rfl⟩ := List.mem_map.mp hx
      exact hmem a ha
    obtain ⟨l, hperm, hl⟩ := hnodup'.subperm hincl
    rw [← (hperm.map cost).sum_eq]
    exact (hl.map cost).sum_le_sum fun _ _ => Nat.zero_le _
  -- a line has one byte that its assignment does not need: its end
  have hroom : (lines.flatMap assignLine).count 10 +
      ((lines.map fun a => (a.1, Value.string a.2)).map cost).sum =
        (lines.flatMap assignLine).length +
          (lines.map fun a => a.1.count 10 + (a.2.count 10 + a.2.countP special)).sum := by
    clear h hmem hnodup hsub
    induction lines with
    | nil => rfl
    | cons a lines ih =>
      have hcount : (assignLine a).count 10 = a.1.count 10 + a.2.count 10 + 1 := by
        simp [assignLine, bytes, List.count_append]
        omega
      have hlength : (assignLine a).length = a.1.length + a.2.length + 4 := by
        simp [assignLine, bytes]
        omega
      rw [List.flatMap_cons, List.count_append, List.length_append, hcount, hlength]
      simp only [List.map_cons, List.sum_cons, cost] at ih ⊢
      omega
  intro a ha c hc
  have hle : a.1.count 10 + (a.2.count 10 + a.2.countP special) ≤
      (lines.map fun a => a.1.count 10 + (a.2.count 10 + a.2.countP special)).sum :=
    List.single_le_sum (by simp) _ (List.mem_map_of_mem ha)
  have hlf : a.2.count 10 = 0 := by omega
  have hspecial : a.2.countP special = 0 := by omega
  refine ⟨?_, ?_⟩
  · rintro rfl
    exact List.count_eq_zero.mp hlf hc
  · simpa using List.countP_eq_zero.mp hspecial c hc

theorem skip_stop {semicolons : Bool} {c : UInt8} (hspace : isspace c = false) (h59 : c ≠ 59)
    (h45 : c ≠ 45) (n : Nat) (rest : Bytes) : skip semicolons n (c :: rest) = c :: rest := by
  cases n with
  | zero => rfl
  | succ n => simp [skip, hspace, h59, h45]

theorem readString_literal {v : Bytes} (h : Literal v) {n : Nat} (hn : v.length < n)
    (rest : Bytes) : readString n (v ++ 34 :: rest) = some (v, rest) := by
  induction v generalizing n with
  | nil =>
    obtain ⟨n, rfl⟩ : ∃ k, n = k + 1 := ⟨n - 1, by omega⟩
    rfl
  | cons c v ih =>
    obtain ⟨n, rfl⟩ : ∃ k, n = k + 1 := ⟨n - 1, by omega⟩
    obtain ⟨⟨h10, hspecial⟩, hv⟩ := List.forall_mem_cons.mp h
    simp only [special, Bool.or_eq_false_iff, decide_eq_false_iff_not] at hspecial
    rw [List.cons_append, readString, if_neg hspecial.1.1, if_neg hspecial.1.2,
      if_neg (by simp [h10, hspecial.2]), ih hv (by simpa using hn)]
    rfl

theorem isName_iff {name : Bytes} : isName name = true ↔
    (∃ c rest, name = c :: rest ∧ islalpha c = true) ∧ (∀ c ∈ name, islalnum c = true) ∧
      name ∉ reserved ∧ name ≠ bytes "_ENV" := by
  cases name with
  | nil => simp [isName]
  | cons c rest => simp [isName, and_assoc]

theorem readName_append {name : Bytes} (h : isName name = true) {c : UInt8}
    (hc : islalnum c = false) (rest : Bytes) :
    readName (name ++ c :: rest) = some (name, c :: rest) := by
  have htake : (name ++ c :: rest).takeWhile islalnum = name := by
    rw [List.takeWhile_append_of_pos (isName_iff.mp h).2.1, List.takeWhile_cons,
      if_neg (by simp [hc]), List.append_nil]
  simp only [readName]
  rw [htake, if_pos h, List.drop_left]

theorem statement_line {name v : Bytes} (hname : isName name = true) (hv : Literal v)
    (rest : Bytes) :
    statement (assignLine (name, v) ++ rest) = some ((name, .string v), 10 :: rest) := by
  have htext : assignLine (name, v) ++ rest = name ++ 61 :: 34 :: (v ++ 34 :: 10 :: rest) := by
    simp [assignLine, bytes]
  rw [htext, statement, readName_append hname (by decide)]
  simp only [Option.bind_eq_bind, Option.bind_some]
  rw [skip_stop (by decide) (by decide) (by decide)]
  simp only []
  rw [skip_stop (by decide) (by decide) (by decide), readValue,
    readString_literal hv (by simp)]
  rfl

theorem statement_true {name : Bytes} (hname : isName name = true) (rest : Bytes) :
    statement (name ++ bytes " = true\n" ++ rest) = some ((name, .boolean true), 10 :: rest) := by
  have htext : name ++ bytes " = true\n" ++ rest =
      name ++ 32 :: 61 :: 32 :: 116 :: 114 :: 117 :: 101 :: 10 :: rest := by
    simp [bytes]
  rw [htext, statement, readName_append hname (by decide)]
  simp [skip, readValue, bytes, isspace, List.takeWhile, islalnum, islalpha, isdigit]

theorem isspace_of_islalpha {c : UInt8} (h : islalpha c = true) : isspace c = false := by
  simp only [islalpha, Bool.or_eq_true, Bool.and_eq_true, decide_eq_true_eq,
    beq_iff_eq, UInt8.le_iff_toNat_le, ← UInt8.toNat_inj] at h
  simp only [isspace, Bool.or_eq_false_iff, Bool.and_eq_false_iff, decide_eq_false_iff_not,
    beq_eq_false_iff_ne, UInt8.le_iff_toNat_le, ← UInt8.toNat_inj, ne_eq]
  simp only [UInt8.reduceToNat] at h ⊢
  omega

/-- The head of a name is no white space. -/
theorem skip_name {semicolons : Bool} {name : Bytes} (h : isName name = true) (n : Nat)
    (rest : Bytes) : skip semicolons n (name ++ rest) = name ++ rest := by
  obtain ⟨c, name, rfl, hc⟩ := (isName_iff.mp h).1
  have hne : ∀ d : UInt8, islalpha d = false → c ≠ d := by
    rintro d hd rfl
    exact absurd (hc.symm.trans hd) (by simp)
  exact skip_stop (isspace_of_islalpha hc) (hne 59 (by decide)) (hne 45 (by decide)) n _

/-- **Lines that assign strings are read back.** -/
theorem statements_lines {as : List (Bytes × Bytes)}
    (h : ∀ a ∈ as, isName a.1 = true ∧ Literal a.2) {n : Nat} (hn : as.length ≤ n) :
    statements n (10 :: as.flatMap assignLine) = some (as.map fun a => (a.1, .string a.2)) := by
  induction as generalizing n with
  | nil => cases n <;> rfl
  | cons a as ih =>
    obtain ⟨n, rfl⟩ : ∃ k, n = k + 1 := ⟨n - 1, by simp at hn; omega⟩
    obtain ⟨⟨hname, hv⟩, has⟩ := List.forall_mem_cons.mp h
    have hskip : skip true (10 :: (a :: as).flatMap assignLine).length
        (10 :: (a :: as).flatMap assignLine) = assignLine a ++ as.flatMap assignLine := by
      rw [List.length_cons, skip, if_pos (by decide), List.flatMap_cons, assignLine,
        List.append_assoc, List.append_assoc, List.append_assoc, skip_name hname]
    obtain ⟨c, rest, hc, -⟩ := (isName_iff.mp hname).1
    have hcons : ∃ d ds, assignLine a ++ as.flatMap assignLine = d :: ds :=
      ⟨c, _, by rw [assignLine, hc]; rfl⟩
    obtain ⟨d, ds, hds⟩ := hcons
    rw [statements, hskip, hds]
    simp only []
    rw [← hds, statement_line hname hv]
    simp only [Option.bind_eq_bind, Option.bind_some]
    rw [ih has (by simpa using hn)]
    rfl

theorem statements_true {name : Bytes} (hname : isName name = true) (n : Nat) (rest : Bytes) :
    statements (n + 1) (name ++ bytes " = true\n" ++ rest) =
      (statements n (10 :: rest)).map ((name, .boolean true) :: ·) := by
  obtain ⟨c, tail, hc, -⟩ := (isName_iff.mp hname).1
  obtain ⟨d, ds, hds⟩ : ∃ d ds, name ++ bytes " = true\n" ++ rest = d :: ds :=
    ⟨c, _, by rw [hc]; rfl⟩
  rw [statements, List.append_assoc, skip_name hname, ← List.append_assoc, hds]
  simp only []
  rw [← hds, statement_true hname]
  simp only [Option.bind_eq_bind, Option.bind_some]
  cases statements n (10 :: rest) <;> rfl

end LsServer.Lua
