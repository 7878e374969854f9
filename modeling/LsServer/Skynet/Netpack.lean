import LsServer.Client.Stream
import LsServer.Lib.Frames
import LsServer.Lib.Ring

/-!
# Packages of many sockets (lua-netpack.c)

`filter` gets what a socket has received, a piece of its stream, and finds the packages that are
complete with it. What is left waits in a hash table, as an `Uncomplete` under the socket. A single
package is given at once; several go into the queue, from which `pop` takes them.

The table is refined to the rest that each socket has: `Queue.pending`. So a piece is one step of
the stream, and no other socket has a part in it.

Source: lualib-src/lua-netpack.c, `find_uncomplete` 94-115, `expand_queue` 135-149, `push_data`
152-168, `save_uncomplete` 171-181, `push_more` 190-216, `close_uncomplete` 219-226, `filter_data_`
229-308, `lfilter` 339-391, `lpop` 401-414.

* `Uncomplete` is a record with what has arrived of a package; where only the first byte of the
  length is there, `read` is -1 and `header` has it.
* A record is taken out of the hash table when a piece of its socket comes, and a new one is made of
  what is left.
* `fillSize` and `filterData` are `none` where an `assert` of the source fails. No state that can be
  reached has such a record (`Queue.Sound`).
* The ring of the queue grows by 1024 cells when it is full.

`Queue.pending fd` is the text that the record of `fd` stands for, so the bytes that came in behind
the last complete package.

Results:
* `filterData_spec`: a piece gives the frames of the rest and the piece, and leaves their rest;
* `closeUncomplete_spec`: a socket that is closed has no record.

Out of scope: `lclear`, `lpack`, `ltostring`, and a queue that is not there yet, which is an empty
one.
-/

namespace LsServer.Skynet

open LsServer.Lib LsServer.Lua

/-- `QUEUESIZE`. -/
def queueSize : Nat := 1024

/-- `HASHSIZE`. -/
def hashSize : Nat := 4096

/-- `struct uncomplete` and the part of its buffer that is filled. `read` is `-1` when only the
first byte of the size is there, the `header`. -/
structure Uncomplete where
  id : Nat
  size : Nat
  buffer : Bytes
  read : Int
  header : UInt8

/-- `struct queue`. A `netpack` is the socket and the package. -/
structure Queue where
  hash : Nat → List Uncomplete
  ring : RingBuffer (Nat × Bytes)

/-- What `filter` gives after the queue: nothing, `"data"` with a package, `"more"`. -/
inductive Filtered
  | nothing
  | data (fd : Nat) (msg : Bytes)
  | more
  deriving DecidableEq

/-- A new queue of `get_queue`. -/
def Queue.init : Queue := ⟨fun _ => [], .empty queueSize (by decide) (0, [])⟩

/-- `hash_fd`. -/
def hashFd (fd : Nat) : Nat := (fd / 2 ^ 24 + fd / 2 ^ 12 + fd) % hashSize

/-- The loop of `find_uncomplete`: the first one of `fd`, and the chain without it. -/
def unlink (fd : Nat) : List Uncomplete → Option (Uncomplete × List Uncomplete)
  | [] => none
  | uc :: chain =>
    if uc.id = fd then some (uc, chain)
    else (unlink fd chain).map fun x => (x.1, uc :: x.2)

/-- `q->hash[h] = chain`. -/
def Queue.setHash (q : Queue) (h : Nat) (chain : List Uncomplete) : Queue :=
  { q with hash := fun i => if i = h then chain else q.hash i }

/-- `find_uncomplete`. -/
def findUncomplete (q : Queue) (fd : Nat) : Option (Uncomplete × Queue) :=
  (unlink fd (q.hash (hashFd fd))).map fun x => (x.1, q.setHash (hashFd fd) x.2)

/-- `save_uncomplete`, with what is written into the record afterwards. -/
def saveUncomplete (q : Queue) (uc : Uncomplete) : Queue :=
  q.setHash (hashFd uc.id) (uc :: q.hash (hashFd uc.id))

/-- `push_data`; `expand_queue` makes room for `QUEUESIZE` more. -/
def pushData (q : Queue) (fd : Nat) (msg : Bytes) : Queue :=
  { q with
    ring := q.ring.push (fun cap => cap + queueSize)
      (fun _ _ => Nat.lt_add_of_pos_right (by decide)) (fd, msg) }

/-- `read_size`. -/
def readSize (hi lo : UInt8) : Nat := hi.toNat * 256 + lo.toNat

/-- `push_more`. It is not called without bytes. -/
def pushMore (q : Queue) (fd : Nat) (buffer : Bytes) : Queue :=
  match buffer with
  | [] => q
  | [b] => saveUncomplete q ⟨fd, 0, [], -1, b⟩
  | hi :: lo :: buffer =>
    let packSize := readSize hi lo
    if buffer.length < packSize then saveUncomplete q ⟨fd, packSize, buffer, buffer.length, 0⟩
    else
      let q := pushData q fd (buffer.take packSize)
      let buffer := buffer.drop packSize
      if 0 < buffer.length then pushMore q fd buffer else q
termination_by buffer.length
decreasing_by simp only [List.length_cons, List.length_drop]; omega

/-- `close_uncomplete`. -/
def closeUncomplete (q : Queue) (fd : Nat) : Queue :=
  match findUncomplete q fd with
  | some (_, q) => q
  | none => q

/-- The first step of "fill uncomplete": the second byte of the size; `none` where `assert` fails or
there is no byte. -/
def fillSize (uc : Uncomplete) (buffer : Bytes) : Option (Uncomplete × Bytes) :=
  if uc.read < 0 then
    if uc.read = -1 then
      match buffer with
      | [] => none
      | b :: buffer =>
        some ({ uc with size := readSize uc.header b, buffer := [], read := 0 }, buffer)
    else none
  else some (uc, buffer)

/-- `memcpy(uc->pack.buffer + uc->read, buffer, size)`. -/
def Uncomplete.copied (uc : Uncomplete) (buffer : Bytes) : Bytes :=
  uc.buffer.take uc.read.toNat ++ buffer

/-- The rest of "fill uncomplete". -/
def fill (q : Queue) (fd : Nat) (uc : Uncomplete) (buffer : Bytes) : Filtered × Queue :=
  let need := uc.size - uc.read.toNat
  if buffer.length < need then
    (.nothing, saveUncomplete q { uc with
      buffer := uc.copied buffer
      read := uc.read + buffer.length })
  else
    let msg := uc.copied (buffer.take need)
    let buffer := buffer.drop need
    if buffer.length = 0 then (.data fd msg, q)
    -- more data
    else (.more, pushMore (pushData q fd msg) fd buffer)

/-- `filter_data_`; `none` where an `assert` fails or it reads behind the end. -/
def filterData (q : Queue) (fd : Nat) (buffer : Bytes) : Option (Filtered × Queue) :=
  match findUncomplete q fd with
  | some (uc, q) => (fillSize uc buffer).map fun x => fill q fd x.1 x.2
  | none =>
    match buffer with
    | [] => none
    | [b] => some (.nothing, saveUncomplete q ⟨fd, 0, [], -1, b⟩)
    | hi :: lo :: buffer =>
      let packSize := readSize hi lo
      if buffer.length < packSize then
        some (.nothing, saveUncomplete q ⟨fd, packSize, buffer, buffer.length, 0⟩)
      -- just one package
      else if buffer.length = packSize then some (.data fd buffer, q)
      -- more data
      else some (.more, pushMore (pushData q fd (buffer.take packSize)) fd (buffer.drop packSize))

/-- `lpop`. -/
def popQueue (q : Queue) : Option ((Nat × Bytes) × Queue) :=
  q.ring.pop.map fun x => (x.1, { q with ring := x.2 })

/-! ## The stream of a socket -/

/-- Packages, as the client reads them. -/
def packages : Reader UInt8 Bytes where
  read := Client.unpackPackage
  stable := fun more => Client.framing_package.stable more
  shrinks := by
    intro text rest b h
    match text with
    | [] | [_] => exact absurd h (by simp [Client.unpackPackage])
    | hi :: lo :: text =>
      simp only [Client.unpackPackage, Option.ite_none_left_eq_some] at h
      obtain ⟨-, rfl⟩ := Prod.mk.inj (Option.some.inj h.2)
      simp only [List.length_drop, List.length_cons]
      omega

theorem read_single (b : UInt8) : packages.read [b] = none := rfl

theorem read_short {hi lo : UInt8} {text : Bytes} (h : text.length < readSize hi lo) :
    packages.read (hi :: lo :: text) = none := if_pos h

theorem read_full {hi lo : UInt8} {text : Bytes} (h : readSize hi lo ≤ text.length) :
    packages.read (hi :: lo :: text) =
      some (text.take (readSize hi lo), text.drop (readSize hi lo)) :=
  if_neg (Nat.not_lt.mpr h)

/-- The bytes of an incomplete package. -/
def Uncomplete.pending (uc : Uncomplete) : Bytes :=
  if uc.read < 0 then [uc.header] else packBE 2 uc.size ++ uc.buffer

/-- What a saved record satisfies: the buffer is filled up to `read`, and not to its end. -/
def Uncomplete.Filled (uc : Uncomplete) : Prop :=
  uc.read = -1 ∨ uc.read = uc.buffer.length ∧ uc.buffer.length < uc.size ∧ uc.size < 65536

/-- The record of a socket. -/
def Queue.uncomplete (q : Queue) (fd : Nat) : Option Uncomplete :=
  (q.hash (hashFd fd)).find? fun uc => uc.id = fd

/-- **The rest of a socket's stream.** -/
def Queue.pending (q : Queue) (fd : Nat) : Bytes :=
  match q.uncomplete fd with
  | some uc => uc.pending
  | none => []

/-- **The invariant**: records are filled, and a chain has one of each socket. -/
structure Queue.Sound (q : Queue) : Prop where
  filled : ∀ h, ∀ uc ∈ q.hash h, uc.Filled
  nodup : ∀ h, ((q.hash h).map Uncomplete.id).Nodup

/-! ## The hash table -/

theorem Queue.Sound.of_hash {q q' : Queue} (hq : q.Sound) (h : q'.hash = q.hash) : q'.Sound :=
  ⟨fun i => by rw [h]; exact hq.filled i, fun i => by rw [h]; exact hq.nodup i⟩

theorem uncomplete_of_hash {q q' : Queue} (h : q'.hash = q.hash) (fd : Nat) :
    q'.uncomplete fd = q.uncomplete fd := by
  rw [Queue.uncomplete, h]
  rfl

theorem pending_of_hash {q q' : Queue} (h : q'.hash = q.hash) (fd : Nat) :
    q'.pending fd = q.pending fd := by
  rw [Queue.pending, uncomplete_of_hash h]
  rfl

theorem find?_setHash (q : Queue) (h : Nat) (chain : List Uncomplete) (fd : Nat) :
    (q.setHash h chain).uncomplete fd =
      if hashFd fd = h then chain.find? fun uc => uc.id = fd else q.uncomplete fd := by
  unfold Queue.uncomplete Queue.setHash
  split
  · rename_i heq
    simp only [heq, if_true]
  · rename_i hne
    simp only [if_neg hne]

theorem Queue.Sound.setHash {q : Queue} (hq : q.Sound) {h : Nat} {chain : List Uncomplete}
    (hfilled : ∀ uc ∈ chain, uc.Filled) (hnodup : (chain.map Uncomplete.id).Nodup) :
    (q.setHash h chain).Sound where
  filled := by
    intro i uc huc
    simp only [Queue.setHash] at huc
    split at huc
    · exact hfilled uc huc
    · exact hq.filled i uc huc
  nodup := by
    intro i
    simp only [Queue.setHash]
    split
    · exact hnodup
    · exact hq.nodup i

/-- Unlinking finds the record of a socket and leaves the others. -/
theorem unlink_spec (fd : Nat) (chain : List Uncomplete) :
    (unlink fd chain = none ∧ chain.find? (fun uc => uc.id = fd) = none) ∨
    ∃ uc rest, unlink fd chain = some (uc, rest) ∧
      chain.find? (fun uc => uc.id = fd) = some uc ∧ uc ∈ chain ∧ uc.id = fd ∧
      rest.Sublist chain ∧ ((chain.map Uncomplete.id).Nodup → fd ∉ rest.map Uncomplete.id) ∧
      ∀ x, x ≠ fd → rest.find? (fun uc => uc.id = x) = chain.find? fun uc => uc.id = x := by
  induction chain with
  | nil => exact Or.inl ⟨rfl, rfl⟩
  | cons c chain ih =>
    by_cases hc : c.id = fd
    · refine Or.inr ⟨c, chain, by simp [unlink, hc], by simp [hc], List.mem_cons_self .., hc,
        List.sublist_cons_self .., fun hnodup => ?_, fun x hx => ?_⟩
      · rw [List.map_cons, List.nodup_cons, hc] at hnodup
        exact hnodup.1
      · rw [List.find?_cons_of_neg (by simpa [hc] using Ne.symm hx)]
    · rcases ih with ⟨hnone, hfind⟩ | ⟨uc, rest, hsome, hfind, hmem, hid, hsub, hnot, hother⟩
      · exact Or.inl ⟨by simp [unlink, hc, hnone], by simpa [hc] using hfind⟩
      · refine Or.inr ⟨uc, c :: rest, by simp [unlink, hc, hsome], by simpa [hc] using hfind,
          List.mem_cons_of_mem _ hmem, hid, hsub.cons_cons c, fun hnodup => ?_, fun x hx => ?_⟩
        · rw [List.map_cons, List.nodup_cons] at hnodup
          rw [List.map_cons, List.mem_cons, not_or]
          exact ⟨Ne.symm hc, hnot hnodup.2⟩
        · rw [List.find?_cons, List.find?_cons, hother x hx]

/-- `find_uncomplete` gives the record of the socket and takes it out of the table. -/
theorem findUncomplete_spec {q : Queue} (hq : q.Sound) (fd : Nat) :
    (findUncomplete q fd = none ∧ q.uncomplete fd = none) ∨
    ∃ uc q', findUncomplete q fd = some (uc, q') ∧ q.uncomplete fd = some uc ∧ uc.Filled ∧
      uc.id = fd ∧ q'.Sound ∧ q'.ring = q.ring ∧
      ∀ x, q'.uncomplete x = if x = fd then none else q.uncomplete x := by
  rcases unlink_spec fd (q.hash (hashFd fd)) with
    ⟨hnone, hfind⟩ | ⟨uc, rest, hsome, hfind, hmem, hid, hsub, hnot, hother⟩
  · exact Or.inl ⟨by rw [findUncomplete, hnone]; rfl, hfind⟩
  · have hnodup := hq.nodup (hashFd fd)
    refine Or.inr ⟨uc, q.setHash (hashFd fd) rest, by rw [findUncomplete, hsome]; rfl, hfind,
      hq.filled _ _ hmem, hid, hq.setHash (fun x hx => hq.filled _ _ (hsub.subset hx))
        (hnodup.sublist (hsub.map _)), rfl, fun x => ?_⟩
    rw [find?_setHash]
    by_cases hx : x = fd
    · rw [if_pos (by rw [hx]), if_pos hx, List.find?_eq_none]
      intro y hy
      have hne : y.id ≠ fd := fun h => hnot hnodup (h ▸ List.mem_map_of_mem hy)
      simpa [hx] using hne
    · rw [if_neg hx]
      split
      · rename_i heq
        rw [hother x hx, Queue.uncomplete, heq]
      · rfl

/-- `save_uncomplete` of a socket that has no record. -/
theorem saveUncomplete_spec {q : Queue} (hq : q.Sound) {uc : Uncomplete} (huc : uc.Filled)
    (hnone : q.uncomplete uc.id = none) :
    (saveUncomplete q uc).Sound ∧
      ∀ x, (saveUncomplete q uc).uncomplete x = if x = uc.id then some uc else q.uncomplete x := by
  unfold saveUncomplete
  constructor
  · refine hq.setHash ?_ ?_
    · exact List.forall_mem_cons.mpr ⟨huc, hq.filled _⟩
    · rw [List.map_cons, List.nodup_cons]
      refine ⟨fun hmem => ?_, hq.nodup _⟩
      obtain ⟨y, hy, hid⟩ := List.mem_map.mp hmem
      exact absurd hid (by simpa using List.find?_eq_none.mp hnone y hy)
  · intro x
    rw [find?_setHash]
    by_cases hx : x = uc.id
    · rw [if_pos (by rw [hx]), if_pos hx, List.find?_cons_of_pos (by simp [hx])]
    · rw [if_neg hx]
      split
      · rename_i heq
        rw [List.find?_cons_of_neg (by simpa using Ne.symm hx), Queue.uncomplete, heq]
      · rfl

/-! ## The size of a package -/

theorem packBE_readSize (hi lo : UInt8) : packBE 2 (readSize hi lo) = [hi, lo] := by
  have h := packBE_unpackBE [hi, lo]
  simpa [unpackBE, readSize] using h

theorem exists_packBE {n : Nat} (h : n < 65536) :
    ∃ hi lo, packBE 2 n = [hi, lo] ∧ readSize hi lo = n := by
  refine ⟨_, _, rfl, ?_⟩
  have hread := unpackBE_packBE_of_lt (n := 2) (v := n) h
  simpa [unpackBE, packBE, readSize] using hread

theorem readSize_lt (hi lo : UInt8) : readSize hi lo < 65536 := by
  have hhi := hi.toNat_lt
  have hlo := lo.toNat_lt
  unfold readSize
  omega

/-! ## A piece of a stream -/

/-- `q'` is `q` after packages of `fd` have been put into the queue, with this rest. -/
structure Queue.Fed (q q' : Queue) (fd : Nat) (msgs : List Bytes) (rest : Bytes) : Prop where
  sound : q'.Sound
  ring : q'.ring.toList = q.ring.toList ++ msgs.map fun msg => (fd, msg)
  pending : q'.pending fd = rest
  other : ∀ x, x ≠ fd → q'.uncomplete x = q.uncomplete x

theorem pending_of_none {q : Queue} {fd : Nat} (h : q.uncomplete fd = none) :
    q.pending fd = [] := by
  rw [Queue.pending, h]

theorem fed_refl {q : Queue} (hq : q.Sound) {fd : Nat} (h : q.uncomplete fd = none) :
    q.Fed q fd [] [] :=
  ⟨hq, by simp, pending_of_none h, fun _ _ => rfl⟩

theorem fed_saveUncomplete {q : Queue} (hq : q.Sound) {u : Uncomplete} (hu : u.Filled)
    (hnone : q.uncomplete u.id = none) :
    q.Fed (saveUncomplete q u) u.id [] u.pending := by
  obtain ⟨hsound, hget⟩ := saveUncomplete_spec hq hu hnone
  exact ⟨hsound, by simp [saveUncomplete, Queue.setHash], by rw [Queue.pending, hget, if_pos rfl],
    fun x hx => by rw [hget, if_neg hx]⟩

theorem Queue.Sound.pushData {q : Queue} (hq : q.Sound) (fd : Nat) (msg : Bytes) :
    (pushData q fd msg).Sound :=
  hq.of_hash rfl

theorem fed_pushData {q q' : Queue} {fd : Nat} {msg rest : Bytes} {msgs : List Bytes}
    (h : (pushData q fd msg).Fed q' fd msgs rest) : q.Fed q' fd (msg :: msgs) rest where
  sound := h.sound
  ring := by
    rw [h.ring, pushData, RingBuffer.toList_push, List.append_assoc]
    rfl
  pending := h.pending
  other := h.other

/-- The record of a package whose size is there. -/
theorem fed_short {q : Queue} (hq : q.Sound) {fd : Nat} (hnone : q.uncomplete fd = none)
    {hi lo : UInt8} {text : Bytes} (hlt : text.length < readSize hi lo) :
    q.Fed (saveUncomplete q ⟨fd, readSize hi lo, text, text.length, 0⟩) fd []
      (hi :: lo :: text) := by
  have huc : Uncomplete.Filled ⟨fd, readSize hi lo, text, text.length, 0⟩ :=
    Or.inr ⟨rfl, hlt, readSize_lt hi lo⟩
  have h := fed_saveUncomplete hq huc hnone
  have hpending : Uncomplete.pending ⟨fd, readSize hi lo, text, text.length, 0⟩ =
      hi :: lo :: text := by
    simp [Uncomplete.pending, packBE_readSize]
  rwa [hpending] at h

/-- The record of a package with half its size. -/
theorem fed_single {q : Queue} (hq : q.Sound) {fd : Nat} (hnone : q.uncomplete fd = none)
    (b : UInt8) : q.Fed (saveUncomplete q ⟨fd, 0, [], -1, b⟩) fd [] [b] :=
  fed_saveUncomplete hq (u := ⟨fd, 0, [], -1, b⟩) (Or.inl rfl) hnone

/-- **`push_more`** puts all packages of a stream into the queue and saves the rest. -/
theorem pushMore_spec {q : Queue} (hq : q.Sound) {fd : Nat} (hnone : q.uncomplete fd = none)
    (buffer : Bytes) :
    q.Fed (pushMore q fd buffer) fd (packages.frames buffer).1 (packages.frames buffer).2 := by
  fun_induction pushMore q fd buffer with
  | case1 q =>
    rw [Reader.frames_nil]
    exact fed_refl hq hnone
  | case2 q b =>
    rw [Reader.frames_none (read_single b)]
    exact fed_single hq hnone b
  | case3 q hi lo text packSize hlt =>
    rw [Reader.frames_none (read_short hlt)]
    exact fed_short hq hnone hlt
  | case4 q hi lo text packSize hle q' rest hpos ih =>
    rw [Reader.frames_some (read_full (Nat.le_of_not_lt hle))]
    exact fed_pushData (ih (hq.pushData fd _) hnone)
  | case5 q hi lo text packSize hle q' rest hpos =>
    have hrest : rest = [] := List.length_eq_zero_iff.mp (by omega)
    rw [Reader.frames_some (read_full (Nat.le_of_not_lt hle)), show text.drop _ = [] from hrest,
      Reader.frames_nil]
    have hrefl : q'.Fed q' fd [] [] := fed_refl (hq.pushData fd _) hnone
    exact fed_pushData hrefl

theorem pushMore_pushData {q : Queue} (hq : q.Sound) {fd : Nat} (hnone : q.uncomplete fd = none)
    (msg buffer : Bytes) :
    q.Fed (pushMore (pushData q fd msg) fd buffer) fd
      (msg :: (packages.frames buffer).1) (packages.frames buffer).2 :=
  fed_pushData (pushMore_spec (hq.pushData fd msg) hnone buffer)

/-- What `filter` says of the packages that a piece completes, and what it leaves. -/
inductive Filters (q : Queue) (fd : Nat) (fr : List Bytes × Bytes) : Filtered × Queue → Prop
  | nothing {q' : Queue} (hmsgs : fr.1 = []) (h : q.Fed q' fd [] fr.2) :
    Filters q fd fr (.nothing, q')
  | data {q' : Queue} {msg : Bytes} (hmsgs : fr.1 = [msg]) (h : q.Fed q' fd [] fr.2) :
    Filters q fd fr (.data fd msg, q')
  | more {q' : Queue} (h : q.Fed q' fd fr.1 fr.2) : Filters q fd fr (.more, q')

/-- A piece that starts a package. -/
theorem filterData_start {q : Queue} (hq : q.Sound) {fd : Nat} (hnone : q.uncomplete fd = none)
    (hfind : findUncomplete q fd = none) {buffer : Bytes} (hne : buffer ≠ []) :
    ∃ x, filterData q fd buffer = some x ∧ Filters q fd (packages.frames buffer) x := by
  unfold filterData
  rw [hfind]
  match buffer with
  | [] => exact absurd rfl hne
  | [b] =>
    refine ⟨_, rfl, ?_⟩
    rw [Reader.frames_none (read_single b)]
    exact .nothing rfl (fed_single hq hnone b)
  | hi :: lo :: text =>
    dsimp only
    by_cases hlt : text.length < readSize hi lo
    · rw [if_pos hlt]
      refine ⟨_, rfl, ?_⟩
      rw [Reader.frames_none (read_short hlt)]
      exact .nothing rfl (fed_short hq hnone hlt)
    · rw [if_neg hlt]
      have hfull := read_full (Nat.le_of_not_lt hlt)
      by_cases heq : text.length = readSize hi lo
      · rw [if_pos heq]
        refine ⟨_, rfl, ?_⟩
        rw [Reader.frames_some hfull, ← heq, List.take_length, List.drop_length, Reader.frames_nil]
        exact .data rfl (fed_refl hq hnone)
      · rw [if_neg heq]
        refine ⟨_, rfl, ?_⟩
        rw [Reader.frames_some hfull]
        exact .more (pushMore_pushData hq hnone _ _)

/-- A piece that goes on with a package whose size is there. -/
theorem fill_spec {q : Queue} (hq : q.Sound) {u : Uncomplete}
    (hnone : q.uncomplete u.id = none) (hread : u.read = u.buffer.length)
    (hle : u.buffer.length ≤ u.size) (hsize : u.size < 65536) (buffer : Bytes) :
    Filters q u.id (packages.frames (packBE 2 u.size ++ u.buffer ++ buffer))
      (fill q u.id u buffer) := by
  obtain ⟨hi, lo, hpack, hrs⟩ := exists_packBE hsize
  have htext : packBE 2 u.size ++ u.buffer ++ buffer = hi :: lo :: (u.buffer ++ buffer) := by
    rw [hpack]
    rfl
  have hcopied : ∀ b, u.copied b = u.buffer ++ b := by
    intro b
    rw [Uncomplete.copied, hread, Int.toNat_natCast, List.take_length]
  rw [htext]
  unfold fill
  simp only [hcopied, hread, Int.toNat_natCast]
  by_cases hlt : buffer.length < u.size - u.buffer.length
  · rw [if_pos hlt]
    have hshort : (u.buffer ++ buffer).length < readSize hi lo := by
      rw [hrs, List.length_append]
      omega
    rw [Reader.frames_none (read_short hshort)]
    have h := fed_saveUncomplete hq (u := { u with
      buffer := u.buffer ++ buffer
      read := u.buffer.length + buffer.length })
      (Or.inr ⟨by simp, by rw [← hrs]; exact hshort, hsize⟩) hnone
    have hpending : Uncomplete.pending { u with
        buffer := u.buffer ++ buffer
        read := u.buffer.length + buffer.length } = hi :: lo :: (u.buffer ++ buffer) := by
      rw [Uncomplete.pending, if_neg (by dsimp only; omega), hpack]
      rfl
    rw [hpending] at h
    exact .nothing rfl h
  · rw [if_neg hlt]
    have hfull : readSize hi lo ≤ (u.buffer ++ buffer).length := by
      rw [hrs, List.length_append]
      omega
    have htake : (u.buffer ++ buffer).take (readSize hi lo) =
        u.buffer ++ buffer.take (u.size - u.buffer.length) := by
      rw [hrs, List.take_append, List.take_of_length_le hle]
    have hdrop : (u.buffer ++ buffer).drop (readSize hi lo) =
        buffer.drop (u.size - u.buffer.length) := by
      rw [hrs, List.drop_append, List.drop_of_length_le hle, List.nil_append]
    rw [Reader.frames_some (read_full hfull), htake, hdrop]
    by_cases hzero : (buffer.drop (u.size - u.buffer.length)).length = 0
    · rw [if_pos hzero, List.length_eq_zero_iff.mp hzero, Reader.frames_nil]
      exact .data rfl (fed_refl hq hnone)
    · rw [if_neg hzero]
      exact .more (pushMore_pushData hq hnone _ _)

/-- **`filter_data` takes the packages of a stream**: no `assert` fails, and a piece gives the
frames of the rest and the piece. -/
theorem filterData_spec {q : Queue} (hq : q.Sound) (fd : Nat) {buffer : Bytes}
    (hne : buffer ≠ []) :
    ∃ x, filterData q fd buffer = some x ∧
      Filters q fd (packages.frames (q.pending fd ++ buffer)) x := by
  rcases findUncomplete_spec hq fd with
    ⟨hfind, hnone⟩ | ⟨uc, q', hfind, hget, hfilled, hid, hq', hring, hother⟩
  · rw [pending_of_none hnone, List.nil_append]
    exact filterData_start hq hnone hfind hne
  · subst hid
    have hnone : q'.uncomplete uc.id = none := by rw [hother, if_pos rfl]
    have hpending : q.pending uc.id = uc.pending := by rw [Queue.pending, hget]
    -- the record is out of the table, so what is fed to `q'` is fed to `q`
    have hfed : ∀ {q'' msgs rest}, q'.Fed q'' uc.id msgs rest → q.Fed q'' uc.id msgs rest :=
      fun h => ⟨h.sound, by rw [h.ring, hring], h.pending,
        fun x hx => by rw [h.other x hx, hother, if_neg hx]⟩
    have hfilters : ∀ {fr x}, Filters q' uc.id fr x → Filters q uc.id fr x := by
      intro fr x h
      cases h with
      | nothing hmsgs h => exact .nothing hmsgs (hfed h)
      | data hmsgs h => exact .data hmsgs (hfed h)
      | more h => exact .more (hfed h)
    unfold filterData
    rw [hfind, hpending]
    dsimp only
    unfold fillSize Uncomplete.pending
    rcases hfilled with hread | ⟨hread, hlt, hsize⟩
    · rw [if_pos (by omega), if_pos hread, if_pos (by omega)]
      match buffer with
      | [] => exact absurd rfl hne
      | b :: buffer =>
        refine ⟨_, rfl, hfilters ?_⟩
        have h := fill_spec
          (u := { uc with size := readSize uc.header b, buffer := [], read := 0 }) hq' hnone rfl
          (Nat.zero_le _) (readSize_lt _ _) buffer
        rw [packBE_readSize] at h
        exact h
    · rw [if_neg (by omega), if_neg (by omega)]
      exact ⟨_, rfl, hfilters (fill_spec hq' hnone hread hlt.le hsize buffer)⟩

/-- **A socket that is closed has no record**, and the others keep theirs. -/
theorem closeUncomplete_spec {q : Queue} (hq : q.Sound) (fd : Nat) :
    (closeUncomplete q fd).Sound ∧ (closeUncomplete q fd).ring = q.ring ∧
      ∀ x, (closeUncomplete q fd).uncomplete x = if x = fd then none else q.uncomplete x := by
  unfold closeUncomplete
  rcases findUncomplete_spec hq fd with
    ⟨hfind, hnone⟩ | ⟨uc, q', hfind, -, -, -, hq', hring, hother⟩
  · rw [hfind]
    refine ⟨hq, rfl, fun x => ?_⟩
    by_cases hx : x = fd
    · rw [if_pos hx, hx, hnone]
    · rw [if_neg hx]
  · rw [hfind]
    exact ⟨hq', hring, hother⟩

end LsServer.Skynet
