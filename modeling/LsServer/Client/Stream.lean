import LsServer.Client.Login

/-!
# Messages of a stream (ClientCommon.lua, lua-client.c)

`readpackage` and `readline` are the same loop with another `unpack_f`: it looks for a message in
what is left of the stream, receives more, and looks again. What `recv` gives next is a list; a call
that comes to its end still waits (`Reading.waiting`).

An `unpack` that finds a message finds the same one when more bytes follow (`Framing.stable`). So
the cuts between the received strings make no difference.

Source: ClientCommon.lua `unpack_package` 70-81, `unpack_line` 83-89, `unpack_f` 91-118;
lua-client.c `lrecv` 101-120.

* `Recv` is one call of `recv`: some bytes, a call that would block (`nil` in Lua), or an error. No
  bytes mean that the server has closed, and the call raises.
* A call looks at what is left first, and receives only if that has no message. It keeps what it has
  received.
* `Open` asks of a list that nothing in it is a close or an error; then a call returns or still
  waits.

`readline` and `readpackage` have a `last` of their own. A client that uses both on one socket loses
what the one has read too far; `ClientLogic` uses one of them on each.

Results:
* `Framing.unpackF`: a call returns the first message of the stream and leaves the others;
* `reassembly`: packages and lines come out as they went in.

Out of scope: `usleep` between two tries.
-/

namespace LsServer.Client

open LsServer.Lua

/-- What the system call `recv` does: it gives at most `CACHE_SIZE` bytes, none if the server has
closed; it would block; it fails. -/
inductive Recv
  | bytes (b : Bytes)
  | again
  | failed
  deriving DecidableEq

/-- `lrecv`: `nil` or a string; `none` where it raises. -/
def lrecv : Recv → Option (Option Bytes)
  | .bytes b => some (some b)
  | .again => some none
  | .failed => none

/-- `try_recv` after its first look: the `result` and the new `last`; `none` where it raises. -/
def tryRecv (f : Bytes → Option (Bytes × Bytes)) (last : Bytes) (r : Recv) :
    Option (Option Bytes × Bytes) :=
  match lrecv r with
  | none => none
  | some none => some (none, last)
  | some (some r) =>
    if r = [] then none
    else
      match f (last ++ r) with
      | some (result, last) => some (some result, last)
      | none => some (none, last ++ r)

/-- How a call ends: with a message, what is left, and what is still to be received; with an error;
not yet. -/
inductive Reading
  | returned (result last : Bytes) (rs : List Recv)
  | raised
  | waiting (last : Bytes)
  deriving DecidableEq

/-- The function that `unpack_f` returns. -/
def unpackF (f : Bytes → Option (Bytes × Bytes)) (last : Bytes) (rs : List Recv) : Reading :=
  match f last with
  | some (result, last) => .returned result last rs
  | none =>
    match rs with
    | [] => .waiting last
    | r :: rs =>
      match tryRecv f last r with
      | none => .raised
      | some (some result, last) => .returned result last rs
      | some (none, last) => unpackF f last rs

/-- That many successive calls: the messages, what is left, what is still to be received. -/
def reads (f : Bytes → Option (Bytes × Bytes)) :
    Nat → Bytes → List Recv → Option (List Bytes × Bytes × List Recv)
  | 0, last, rs => some ([], last, rs)
  | n + 1, last, rs =>
    match unpackF f last rs with
    | .returned result last rs => (reads f n last rs).map fun x => (result :: x.1, x.2)
    | _ => none

/-! ## Received strings -/

/-- The strings that are received are not empty, and nothing fails. -/
def Open (rs : List Recv) : Prop := ∀ r ∈ rs, r ≠ .failed ∧ r ≠ .bytes []

instance (rs : List Recv) : Decidable (Open rs) := inferInstanceAs (Decidable (∀ r ∈ rs, _))

/-- The bytes that are received. -/
def received : List Recv → Bytes
  | [] => []
  | .bytes b :: rs => b ++ received rs
  | _ :: rs => received rs

theorem Open.tail {r : Recv} {rs : List Recv} (h : Open (r :: rs)) : Open rs :=
  fun x hx => h x (List.mem_cons_of_mem _ hx)

/-- `f` takes a message off the front of a stream, where `encode` has put it. -/
structure Framing (f : Bytes → Option (Bytes × Bytes)) (encode : Bytes → Bytes)
    (Fits : Bytes → Prop) : Prop where
  read : ∀ {b : Bytes} (rest : Bytes), Fits b → f (encode b ++ rest) = some (b, rest)
  stable : ∀ {text b rest : Bytes} (more : Bytes), f text = some (b, rest) →
    f (text ++ more) = some (b, rest ++ more)
  nil : f [] = none

variable {f : Bytes → Option (Bytes × Bytes)} {encode : Bytes → Bytes} {Fits : Bytes → Prop}

/-- **One call** returns the first message of what is left and what is received, however that is
cut. -/
theorem Framing.unpackF (h : Framing f encode Fits) {last b rest : Bytes} {rs : List Recv}
    (hopen : Open rs) (hf : f (last ++ received rs) = some (b, rest)) :
    ∃ last' rs', unpackF f last rs = .returned b last' rs' ∧ Open rs' ∧
      last' ++ received rs' = rest := by
  induction rs generalizing last with
  | nil =>
    rw [received, List.append_nil] at hf
    exact ⟨rest, [], by rw [Client.unpackF, hf], hopen, List.append_nil _⟩
  | cons r rs ih =>
    rw [Client.unpackF]
    cases hlast : f last with
    | some x =>
      obtain ⟨result, left⟩ := x
      have hlater := h.stable (received (r :: rs)) hlast
      obtain ⟨rfl, rfl⟩ := Prod.mk.inj (Option.some.inj (hlater.symm.trans hf))
      exact ⟨left, r :: rs, rfl, hopen, rfl⟩
    | none =>
      obtain ⟨hfailed, hclosed⟩ := hopen r (List.mem_cons_self ..)
      cases r with
      | failed => exact absurd rfl hfailed
      | again => exact ih hopen.tail hf
      | bytes text =>
        have hne : text ≠ [] := fun hnil => hclosed (by rw [hnil])
        rw [received, ← List.append_assoc] at hf
        simp only [tryRecv, lrecv, if_neg hne]
        cases hnext : f (last ++ text) with
        | none => exact ih hopen.tail hf
        | some x =>
          obtain ⟨result, left⟩ := x
          have hlater := h.stable (received rs) hnext
          obtain ⟨rfl, rfl⟩ := Prod.mk.inj (Option.some.inj (hlater.symm.trans hf))
          exact ⟨left, rs, rfl, hopen.tail, rfl⟩

/-- Without bytes a call waits. -/
theorem Framing.waiting (h : Framing f encode Fits) {rs : List Recv} (hopen : Open rs)
    (hrs : received rs = []) : Client.unpackF f [] rs = .waiting [] := by
  induction rs with
  | nil => rw [Client.unpackF, h.nil]
  | cons r rs ih =>
    obtain ⟨hfailed, hclosed⟩ := hopen r (List.mem_cons_self ..)
    rw [Client.unpackF, h.nil]
    cases r with
    | failed => exact absurd rfl hfailed
    | again => exact ih hopen.tail hrs
    | bytes text =>
      rw [received] at hrs
      exact absurd (by rw [(List.append_eq_nil_iff.mp hrs).1]) hclosed

/-- **Successive calls** return the messages of the stream. -/
theorem Framing.reads (h : Framing f encode Fits) {bodies : List Bytes}
    (hfits : ∀ b ∈ bodies, Fits b) (last : Bytes) {rs : List Recv} (hopen : Open rs)
    (hrs : last ++ received rs = (bodies.map encode).flatten) :
    ∃ rest, reads f bodies.length last rs = some (bodies, [], rest) ∧ Open rest ∧
      received rest = [] := by
  induction bodies generalizing last rs with
  | nil =>
    obtain ⟨rfl, hnil⟩ := List.append_eq_nil_iff.mp hrs
    exact ⟨rs, rfl, hopen, hnil⟩
  | cons b bodies ih =>
    rw [List.map_cons, List.flatten_cons] at hrs
    have hf := h.read (bodies.map encode).flatten (hfits b (by simp))
    rw [← hrs] at hf
    obtain ⟨last', rs', hcall, hopen', hrest⟩ := h.unpackF hopen hf
    obtain ⟨rest, hreads, hrest', hnil⟩ :=
      ih (fun x hx => hfits x (by simp [hx])) last' hopen' hrest
    refine ⟨rest, ?_, hrest', hnil⟩
    rw [List.length_cons, Client.reads, hcall]
    dsimp only
    rw [hreads]
    rfl

/-! ## Packages and lines -/

/-- A body behind its length. -/
def package (body : Bytes) : Bytes := packBE 2 body.length ++ body

theorem framing_package :
    Framing unpackPackage package fun body => body.length ≤ 65535 where
  read := fun rest hbody => unpackPackage_frame (Nat.lt_succ_of_le hbody) rest
  stable := by
    intro text body rest more h
    match text with
    | [] | [_] => exact absurd h (by simp [unpackPackage])
    | hi :: lo :: text =>
      simp only [unpackPackage, Option.ite_none_left_eq_some] at h
      obtain ⟨hlen, h⟩ := h
      obtain ⟨rfl, rfl⟩ := Prod.mk.inj (Option.some.inj h)
      have hle := Nat.le_of_not_lt hlen
      simp only [List.cons_append, unpackPackage]
      rw [if_neg (by rw [List.length_append]; omega), List.take_append_of_le_length hle,
        List.drop_append_of_le_length hle]
  nil := rfl

theorem framing_line : Framing unpackLine (fun line => line ++ [10]) fun line => 10 ∉ line where
  read := by
    intro line rest hline
    rw [List.append_assoc]
    exact unpackLine_append hline rest
  stable := by
    intro text
    induction text with
    | nil => simp [unpackLine]
    | cons c text ih =>
      intro line rest more h
      rw [unpackLine] at h
      rw [List.cons_append, unpackLine]
      split at h
      · rename_i hc
        obtain ⟨rfl, rfl⟩ := Prod.mk.inj (Option.some.inj h)
        rw [if_pos hc]
      · rename_i hc
        obtain ⟨⟨line, left⟩, hx, heq⟩ := Option.map_eq_some_iff.mp h
        obtain ⟨rfl, rfl⟩ := Prod.mk.inj heq
        rw [if_neg hc, ih more hx]
        rfl
  nil := rfl

/-- **Reassembly**: packages of at most 65535 bytes, and lines, come out of successive calls as
they went in, however the stream is cut; then the reader waits. -/
theorem reassembly (rs : List Recv) (hopen : Open rs) :
    (∀ bodies : List Bytes, (∀ b ∈ bodies, b.length ≤ 65535) →
      received rs = (bodies.map package).flatten →
      ∃ rest, reads unpackPackage bodies.length [] rs = some (bodies, [], rest) ∧
        unpackF unpackPackage [] rest = .waiting []) ∧
    ∀ lines : List Bytes, (∀ line ∈ lines, 10 ∉ line) →
      received rs = (lines.map fun line => line ++ [10]).flatten →
      ∃ rest, reads unpackLine lines.length [] rs = some (lines, [], rest) ∧
        unpackF unpackLine [] rest = .waiting [] := by
  constructor
  · intro bodies hbodies hrs
    obtain ⟨rest, hreads, hrest, hnil⟩ := framing_package.reads hbodies [] hopen hrs
    exact ⟨rest, hreads, framing_package.waiting hrest hnil⟩
  · intro lines hlines hrs
    obtain ⟨rest, hreads, hrest, hnil⟩ := framing_line.reads hlines [] hopen hrs
    exact ⟨rest, hreads, framing_line.waiting hrest hnil⟩

/-- An empty package and one of two bytes, cut inside both lengths. -/
def cutPackages : List Recv :=
  [.again, .bytes [0], .bytes [0, 0], .again, .again, .bytes [2, 97], .bytes [98]]

/-- An empty line and one of two bytes, in two strings. -/
def cutLines : List Recv := [.bytes [10, 97], .again, .bytes [98, 10]]

theorem reassembly_cut :
    (∃ rest, reads unpackPackage 2 [] cutPackages = some ([[], [97, 98]], [], rest) ∧
      unpackF unpackPackage [] rest = .waiting []) ∧
    ∃ rest, reads unpackLine 2 [] cutLines = some ([[], [97, 98]], [], rest) ∧
      unpackF unpackLine [] rest = .waiting [] :=
  ⟨(reassembly cutPackages (by decide)).1 [[], [97, 98]] (by decide) (by decide),
    (reassembly cutLines (by decide)).2 [[], [97, 98]] (by decide) (by decide)⟩

end LsServer.Client
