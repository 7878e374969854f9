import LsServer.Lib.Fragments
import LsServer.Skynet.Netpack

/-!
# Cluster messages on the wire (lua-cluster.c)

A request names a service, by its handle or its name, and a session; a push has the session 0 where
it fits into one package. What does not fit is sent as a head, with the size, and parts. Responses
are alike, but have no address. `append` and `concat` put the parts together in a Lua table whose
first entry is the size.

The packages of a message are the frames of a parcel: `requestFrame` and `responseFrame` are the
bytes of a frame, `requestCut` and `responseCut` say what fits.

Source: lualib-src/lua-cluster.c 22-40 for the constants and the header, `packreq_number` to
`lpackpush` 84-215, `unpack_uint32` to `lunpackrequest` 243-392, `lpackresponse` 418-485,
`lunpackresponse` 495-530, `lappend` and `lconcat` 540-589.

* `Addr` is a handle of 32 bits or a name of 1 to 255 bytes (`Addr.Valid`); `packrequest` raises for
  other names.
* The type byte of a request says whether it is a request or a push, whole or in parts, and by
  number or by name. A message of `MULTI_PART` bytes (32 KB) and more goes in parts of that size.
  The comments of the source say that one of exactly that size does not; the code compares with `<`.
* `newSession` counts to 2^31 - 1 and starts again at 1.
* A package of the wire has two bytes of length in front, so it is a frame of a stream in the sense
  of `Lib.Frames`.

`unpackrequest` and `unpackresponse` raise (`none`) on a package that is too short or of an unknown
type. `Unpacked` and `Reply` are the results that clusteragent.lua and clustersender.lua get.

Results:
* `packrequest_eq`, `packresponse_eq`: what is packed are the frames of the parcel;
* `unpackrequest_frame`, `unpackresponse_frame`: a frame is read back;
* `concat_pieces`: the parts together are the message.

Out of scope: `lisname`, the reserved types, trace packages, and messages of 2^32 bytes and more,
whose size does not fit into the head.
-/

namespace LsServer.Cluster

open LsServer.Lua LsServer.Lib.Fragments

/-- `MULTI_PART`. -/
def MULTI_PART : Nat := 0x8000

/-- An address: a number or a string. -/
inductive Addr
  | handle (n : Nat)
  | name (s : Bytes)
  deriving DecidableEq

/-- `fill_uint32`. -/
def fillUint32 (n : Nat) : Bytes := packLE 4 n

/-- `fill_header`, and what stands behind it. -/
def fillHeader (body : Bytes) : Bytes := packBE 2 body.length ++ body

/-! ## Requests -/

/-- `packreq_number`: the first package, and whether parts follow. -/
def packreqNumber (addr session : Nat) (msg : Bytes) (isPush : Bool) : Bytes × Bool :=
  if msg.length < MULTI_PART then
    (fillHeader (0 :: (fillUint32 addr ++ fillUint32 (if isPush then 0 else session) ++ msg)),
      false)
  else
    (fillHeader ((if isPush then 0x41 else 1) ::
      (fillUint32 addr ++ fillUint32 session ++ fillUint32 msg.length)), true)

/-- `packreq_string`. -/
def packreqString (name : Bytes) (session : Nat) (msg : Bytes) (isPush : Bool) :
    Option (Bytes × Bool) :=
  if name.length < 1 ∨ 255 < name.length then none
  else if msg.length < MULTI_PART then
    some (fillHeader (0x80 :: name.length.toUInt8 ::
      (name ++ fillUint32 (if isPush then 0 else session) ++ msg)), false)
  else
    some (fillHeader ((if isPush then 0xc1 else 0x81) :: name.length.toUInt8 ::
      (name ++ fillUint32 session ++ fillUint32 msg.length)), true)

/-- The loop of `packreq_multi`. -/
def packreqParts (session : Nat) : Nat → Bytes → List Bytes
  | 0, _ => []
  | part + 1, msg =>
    let s := if MULTI_PART < msg.length then MULTI_PART else msg.length
    fillHeader ((if MULTI_PART < msg.length then 2 else 3) ::
      (fillUint32 session ++ msg.take s)) :: packreqParts session part (msg.drop s)

/-- `packreq_multi`. -/
def packreqMulti (session : Nat) (msg : Bytes) : List Bytes :=
  packreqParts session ((msg.length - 1) / MULTI_PART + 1) msg

/-- The session after this one. -/
def newSession (session : Nat) : Nat := if 2 ^ 31 - 1 < session + 1 then 1 else session + 1

/-- `packrequest`: the request, the new session and the parts; `none` where it raises. -/
def packrequest (addr : Addr) (session : Nat) (msg : Bytes) (isPush : Bool) :
    Option (Bytes × Nat × Option (List Bytes)) := do
  if session = 0 then none
  else
    let (request, multipak) ← match addr with
      | .handle n => some (packreqNumber n session msg isPush)
      | .name s => packreqString s session msg isPush
    some (request, newSession session, if multipak then some (packreqMulti session msg) else none)

/-- What `unpackrequest` returns: a request; the head of a large one; a part; a trace. -/
inductive Unpacked
  | request (addr : Addr) (session : Nat) (msg : Bytes) (isPush : Bool)
  | head (addr : Addr) (session size : Nat) (isPush : Bool)
  | part (session : Nat) (msg : Bytes) (padding : Bool)
  | trace (tag : Bytes)
  deriving DecidableEq

/-- `unpack_uint32` of the four bytes at `i`. -/
def unpackUint32 (buf : Bytes) (i : Nat) : Nat := unpackLE ((buf.drop i).take 4)

/-- `unpackreq_number`. -/
def unpackreqNumber (buf : Bytes) : Option Unpacked :=
  if buf.length < 9 then none
  else
    let session := unpackUint32 buf 5
    some (.request (.handle (unpackUint32 buf 1)) session (buf.drop 9) (session == 0))

/-- `unpackmreq_number`. -/
def unpackmreqNumber (buf : Bytes) (isPush : Bool) : Option Unpacked :=
  if buf.length ≠ 13 then none
  else some (.head (.handle (unpackUint32 buf 1)) (unpackUint32 buf 5) (unpackUint32 buf 9) isPush)

/-- `unpackmreq_part`. -/
def unpackmreqPart (buf : Bytes) : Option Unpacked :=
  if buf.length < 5 then none
  else some (.part (unpackUint32 buf 1) (buf.drop 5) (buf.head? == some 2))

/-- `unpackreq_string`. -/
def unpackreqString (buf : Bytes) : Option Unpacked :=
  if buf.length < 2 then none
  else
    let namesz := (buf.getD 1 0).toNat
    if buf.length < namesz + 6 then none
    else
      let session := unpackUint32 buf (namesz + 2)
      some (.request (.name ((buf.drop 2).take namesz)) session (buf.drop (namesz + 6))
        (session == 0))

/-- `unpackmreq_string`. -/
def unpackmreqString (buf : Bytes) (isPush : Bool) : Option Unpacked :=
  if buf.length < 2 then none
  else
    let namesz := (buf.getD 1 0).toNat
    if buf.length < namesz + 10 then none
    else some (.head (.name ((buf.drop 2).take namesz)) (unpackUint32 buf (namesz + 2))
      (unpackUint32 buf (namesz + 6)) isPush)

/-- `unpackrequest`; `none` where it raises. -/
def unpackrequest (msg : Bytes) : Option Unpacked :=
  match msg.head? with
  | none => none
  | some type =>
    if type = 0 then unpackreqNumber msg
    else if type = 1 then unpackmreqNumber msg false
    else if type = 0x41 then unpackmreqNumber msg true
    else if type = 2 ∨ type = 3 then unpackmreqPart msg
    else if type = 4 then some (.trace (msg.drop 1))
    else if type = 0x80 then unpackreqString msg
    else if type = 0x81 then unpackmreqString msg false
    else if type = 0xc1 then unpackmreqString msg true
    else none

/-! ## Responses -/

/-- The loop of `packresponse`. -/
def packrespParts (session : Nat) : Nat → Bytes → List Bytes
  | 0, _ => []
  | part + 1, msg =>
    let s := if MULTI_PART < msg.length then MULTI_PART else msg.length
    fillHeader (fillUint32 session ++ (if MULTI_PART < msg.length then 3 else 4) :: msg.take s) ::
      packrespParts session part (msg.drop s)

/-- `packresponse`: a package, or a table of them. -/
def packresponse (session : Nat) (ok : Bool) (msg : Bytes) : Bytes ⊕ List Bytes :=
  if ok ∧ MULTI_PART < msg.length then
    .inr (fillHeader (fillUint32 session ++ 2 :: fillUint32 msg.length) ::
      packrespParts session ((msg.length - 1) / MULTI_PART + 1) msg)
  else
    let msg := if ok then msg else msg.take MULTI_PART
    .inl (fillHeader (fillUint32 session ++ (if ok then 1 else 0) :: msg))

/-- What `append` adds to a table: a size, or a string. -/
inductive Piece
  | size (n : Nat)
  | data (b : Bytes)
  deriving DecidableEq

/-- What `unpackresponse` returns. -/
structure Reply where
  session : Nat
  ok : Bool
  data : Piece
  padding : Bool
  deriving DecidableEq

/-- `unpackresponse`; `none` where it returns nothing. -/
def unpackresponse (buf : Bytes) : Option Reply :=
  if buf.length < 5 then none
  else
    let session := unpackUint32 buf 0
    let type := buf.getD 4 0
    if type = 0 then some ⟨session, false, .data (buf.drop 5), false⟩
    else if type = 1 ∨ type = 4 then some ⟨session, true, .data (buf.drop 5), false⟩
    else if type = 2 then
      if buf.length ≠ 9 then none else some ⟨session, true, .size (unpackUint32 buf 5), true⟩
    else if type = 3 then some ⟨session, true, .data (buf.drop 5), true⟩
    else none

/-- The strings at the front of a table. -/
def strings : List Piece → List Bytes
  | .data b :: ps => b :: strings ps
  | _ => []

/-- `concat`; `none` where it returns nothing. -/
def concat : List Piece → Option Bytes
  | .size sz :: ps => if (strings ps).flatten.length = sz then some (strings ps).flatten else none
  | _ => none

/-! ## Frames -/

/-- What can be written as an address. -/
def Addr.Valid : Addr → Prop
  | .handle n => n < 2 ^ 32
  | .name s => 1 ≤ s.length ∧ s.length ≤ 255

/-- An address on the wire. -/
def Addr.wire : Addr → Bytes
  | .handle n => fillUint32 n
  | .name s => s.length.toUInt8 :: s

/-- The first byte of a request, or of the head of a large one. -/
def requestType (addr : Addr) (large isPush : Bool) : UInt8 :=
  match addr with
  | .handle _ => if large then (if isPush then 0x41 else 1) else 0
  | .name _ => if large then (if isPush then 0xc1 else 0x81) else 0x80

/-- The label of a request: the address, and whether it is a push. -/
abbrev Label := Addr × Bool

abbrev RequestParcel := Parcel Nat Label UInt8

def requestCut : Cut Nat Label UInt8 where
  small := fun p => p.body.length < MULTI_PART
  size := MULTI_PART
  size_pos := by decide

/-- A request, or a push, that is sent in this session. -/
def requestParcel (addr : Addr) (session : Nat) (msg : Bytes) (isPush : Bool) : RequestParcel :=
  ⟨if isPush ∧ msg.length < MULTI_PART then 0 else session, (addr, isPush), msg⟩

/-- The package of a frame. -/
def requestFrame : Frame Nat Label UInt8 → Bytes
  | .whole p =>
    requestType p.label.1 false p.label.2 :: (p.label.1.wire ++ (fillUint32 p.id ++ p.body))
  | .head session (addr, isPush) size =>
    requestType addr true isPush :: (addr.wire ++ (fillUint32 session ++ fillUint32 size))
  | .part session b last => (if last then 3 else 2) :: (fillUint32 session ++ b)

abbrev ResponseParcel := Parcel Nat Bool UInt8

/-- The label of a response says whether it is one, or an error. -/
def responseCut : Cut Nat Bool UInt8 where
  small := fun p => !p.label || p.body.length ≤ MULTI_PART
  size := MULTI_PART
  size_pos := by decide

/-- A response; an error is cut off. -/
def responseParcel (session : Nat) (ok : Bool) (msg : Bytes) : ResponseParcel :=
  ⟨session, ok, if ok then msg else msg.take MULTI_PART⟩

def responseFrame : Frame Nat Bool UInt8 → Bytes
  | .whole p => fillUint32 p.id ++ (if p.label then 1 else 0) :: p.body
  | .head session _ size => fillUint32 session ++ 2 :: fillUint32 size
  | .part session b last => fillUint32 session ++ (if last then 4 else 3) :: b

/-- The loop that writes parts writes the pieces of the message. -/
theorem parts_chunks {ι α : Type} (id : ι) (write : Frame ι α UInt8 → Bytes)
    (loop : Nat → Bytes → List Bytes) (hzero : ∀ msg, loop 0 msg = [])
    (hlast : ∀ part msg, msg.length ≤ MULTI_PART →
      loop (part + 1) msg = write (.part id msg true) :: loop part [])
    (hmore : ∀ part msg, MULTI_PART < msg.length → loop (part + 1) msg =
      write (.part id (msg.take MULTI_PART) false) :: loop part (msg.drop MULTI_PART))
    {msg : Bytes} (hmsg : msg ≠ []) :
    loop ((msg.length - 1) / MULTI_PART + 1) msg =
      (parts id (chunks MULTI_PART msg)).map write := by
  induction msg using (measure List.length).wf.induction with
  | _ msg ih =>
    have hpos : 0 < msg.length := List.length_pos_iff.mpr hmsg
    by_cases hlt : MULTI_PART < msg.length
    · have hdrop : (msg.drop MULTI_PART).length = msg.length - MULTI_PART := List.length_drop
      have hne : msg.drop MULTI_PART ≠ [] := by
        rw [← List.length_pos_iff, hdrop]
        omega
      have hdiv : (msg.length - 1) / MULTI_PART =
          ((msg.drop MULTI_PART).length - 1) / MULTI_PART + 1 := by
        rw [hdrop, ← Nat.add_div_right _ (by decide)]
        congr 1
        omega
      have hsmaller : (msg.drop MULTI_PART).length < msg.length := by
        rw [hdrop]
        exact Nat.sub_lt hpos (by decide)
      rw [chunks, if_pos ⟨by decide, hlt⟩, parts_cons _ _ (chunks_ne_nil _ _), List.map_cons,
        hmore _ _ hlt, hdiv, ih _ hsmaller hne]
    · have hdiv : (msg.length - 1) / MULTI_PART = 0 := Nat.div_eq_of_lt (by omega)
      rw [chunks, if_neg (fun h => hlt h.2), hlast _ _ (by omega), hdiv, hzero]
      rfl

theorem packreqMulti_eq {session : Nat} {msg : Bytes} (hmsg : msg ≠ []) :
    packreqMulti session msg = (parts session (chunks MULTI_PART msg) : List
      (Frame Nat Label UInt8)).map (fillHeader ∘ requestFrame) := by
  refine parts_chunks session _ (packreqParts session) (fun _ => rfl) (fun part msg hle => ?_)
    (fun part msg hlt => ?_) hmsg
  · have hlt : ¬MULTI_PART < msg.length := by omega
    simp [packreqParts, hlt, requestFrame]
  · simp [packreqParts, hlt, requestFrame]

/-- The first package of a request. -/
def firstPackage (addr : Addr) (session : Nat) (msg : Bytes) (isPush : Bool) : Bytes :=
  requestType addr (!decide (msg.length < MULTI_PART)) isPush :: (addr.wire ++
    (fillUint32 (requestParcel addr session msg isPush).id ++
      if msg.length < MULTI_PART then msg else fillUint32 msg.length))

theorem packreqNumber_eq (n session : Nat) (msg : Bytes) (isPush : Bool) :
    packreqNumber n session msg isPush =
      (fillHeader (firstPackage (.handle n) session msg isPush),
        !decide (msg.length < MULTI_PART)) := by
  unfold packreqNumber firstPackage
  by_cases hsmall : msg.length < MULTI_PART <;>
    simp [hsmall, requestType, Addr.wire, requestParcel]

theorem packreqString_eq {name : Bytes} (h : (Addr.name name).Valid) (session : Nat) (msg : Bytes)
    (isPush : Bool) : packreqString name session msg isPush =
      some (fillHeader (firstPackage (.name name) session msg isPush),
        !decide (msg.length < MULTI_PART)) := by
  obtain ⟨h1, h2⟩ := h
  unfold packreqString firstPackage
  rw [if_neg (by omega)]
  by_cases hsmall : msg.length < MULTI_PART <;>
    simp [hsmall, requestType, Addr.wire, requestParcel]

theorem frames_request (addr : Addr) (session : Nat) (msg : Bytes) (isPush : Bool) :
    (requestCut.frames (requestParcel addr session msg isPush)).map (fillHeader ∘ requestFrame) =
      fillHeader (firstPackage addr session msg isPush) ::
        if msg.length < MULTI_PART then [] else packreqMulti session msg := by
  by_cases hsmall : msg.length < MULTI_PART
  · simp [Cut.frames, requestCut, requestParcel, hsmall, firstPackage, requestFrame]
  · have hmsg : msg ≠ [] := by
      rintro rfl
      exact hsmall (by decide)
    rw [if_neg hsmall, packreqMulti_eq hmsg]
    simp [Cut.frames, requestCut, requestParcel, hsmall, firstPackage, requestFrame]

/-- **A request is packed as the frames of its parcel.** -/
theorem packrequest_eq {addr : Addr} {session : Nat} {msg : Bytes} {isPush : Bool}
    (haddr : addr.Valid) (hsession : session ≠ 0) : packrequest addr session msg isPush =
      some (fillHeader (firstPackage addr session msg isPush), newSession session,
        if msg.length < MULTI_PART then none else some (packreqMulti session msg)) := by
  unfold packrequest
  rw [if_neg hsession]
  cases addr with
  | handle n => by_cases hsmall : msg.length < MULTI_PART <;> simp [packreqNumber_eq, hsmall]
  | name s =>
    by_cases hsmall : msg.length < MULTI_PART <;> simp [packreqString_eq haddr, hsmall]

theorem packrespParts_eq {session : Nat} {msg : Bytes} (hmsg : msg ≠ []) :
    packrespParts session ((msg.length - 1) / MULTI_PART + 1) msg =
      (parts session (chunks MULTI_PART msg) : List (Frame Nat Bool UInt8)).map
        (fillHeader ∘ responseFrame) := by
  refine parts_chunks session _ (packrespParts session) (fun _ => rfl) (fun part msg hle => ?_)
    (fun part msg hlt => ?_) hmsg
  · have hlt : ¬MULTI_PART < msg.length := by omega
    simp [packrespParts, hlt, responseFrame]
  · simp [packrespParts, hlt, responseFrame]

/-- **A response is packed as the frames of its parcel.** -/
theorem packresponse_eq (session : Nat) (ok : Bool) (msg : Bytes) :
    packresponse session ok msg =
      if responseCut.small (responseParcel session ok msg) then
        .inl (fillHeader (responseFrame (.whole (responseParcel session ok msg))))
      else .inr ((responseCut.frames (responseParcel session ok msg)).map
        (fillHeader ∘ responseFrame)) := by
  unfold packresponse
  cases ok with
  | false => simp [responseCut, responseParcel, responseFrame]
  | true =>
    by_cases hlt : MULTI_PART < msg.length
    · have hmsg : msg ≠ [] := by
        rintro rfl
        exact absurd hlt (by decide)
      have hle : ¬msg.length ≤ MULTI_PART := by omega
      simp [responseCut, responseParcel, responseFrame, Cut.frames, hlt, hle,
        packrespParts_eq hmsg]
    · have hle : msg.length ≤ MULTI_PART := by omega
      simp [responseCut, responseParcel, responseFrame, hlt, hle]

/-! ## Reading back -/

theorem fillUint32_length (n : Nat) : (fillUint32 n).length = 4 := packLE_length 4 n

/-- A number is read where it was written. -/
theorem unpackUint32_append {a b : Bytes} {n i : Nat} (ha : a.length = i) (hn : n < 2 ^ 32) :
    unpackUint32 (a ++ (fillUint32 n ++ b)) i = n := by
  unfold unpackUint32
  rw [List.drop_left' ha, List.take_left' (fillUint32_length n)]
  exact unpackLE_packLE hn

/-- The same for one at the end. -/
theorem unpackUint32_end {a : Bytes} {n i : Nat} (ha : a.length = i) (hn : n < 2 ^ 32) :
    unpackUint32 (a ++ fillUint32 n) i = n := by
  have h := unpackUint32_append (b := []) ha hn
  rwa [List.append_nil] at h

section numbers

variable {n session size : Nat} (hn : n < 2 ^ 32) (hs : session < 2 ^ 32) (hz : size < 2 ^ 32)
  (type : UInt8)
include hn hs

theorem unpackreqNumber_append (msg : Bytes) :
    unpackreqNumber (type :: (fillUint32 n ++ (fillUint32 session ++ msg))) =
      some (.request (.handle n) session msg (session == 0)) := by
  have haddr := unpackUint32_append (a := [type]) (b := fillUint32 session ++ msg) (i := 1) rfl hn
  have hsess := unpackUint32_append (a := type :: fillUint32 n) (b := msg) (i := 5)
    (by simp [fillUint32_length]) hs
  have hdrop : (type :: (fillUint32 n ++ (fillUint32 session ++ msg))).drop 9 = msg := by
    rw [← List.append_assoc, ← List.cons_append]
    exact List.drop_left' (by simp [fillUint32_length])
  have hlen : ¬(type :: (fillUint32 n ++ (fillUint32 session ++ msg))).length < 9 := by
    simp [fillUint32_length]
    omega
  unfold unpackreqNumber
  rw [if_neg hlen, hdrop]
  simp only [List.cons_append, List.nil_append] at haddr hsess
  rw [haddr, hsess]

include hz in
theorem unpackmreqNumber_append (isPush : Bool) :
    unpackmreqNumber (type :: (fillUint32 n ++ (fillUint32 session ++ fillUint32 size))) isPush =
      some (.head (.handle n) session size isPush) := by
  have haddr := unpackUint32_append (a := [type]) (b := fillUint32 session ++ fillUint32 size)
    (i := 1) rfl hn
  have hsess := unpackUint32_append (a := type :: fillUint32 n) (b := fillUint32 size) (i := 5)
    (by simp [fillUint32_length]) hs
  have hsize := unpackUint32_end (a := type :: (fillUint32 n ++ fillUint32 session)) (i := 9)
    (by simp [fillUint32_length]) hz
  unfold unpackmreqNumber
  rw [if_neg (by simp [fillUint32_length])]
  simp only [List.cons_append, List.nil_append, List.append_assoc] at haddr hsess hsize
  rw [haddr, hsess, hsize]

end numbers

section names

variable {name : Bytes} {session size : Nat} (hname : name.length ≤ 255) (hs : session < 2 ^ 32)
  (hz : size < 2 ^ 32) (type : UInt8)

include hname in
theorem namesz_toNat : name.length.toUInt8.toNat = name.length := by
  simp only [Nat.toUInt8_eq, UInt8.toNat_ofNat']
  omega

include hname hs

theorem unpackreqString_append (msg : Bytes) :
    unpackreqString (type :: name.length.toUInt8 :: (name ++ (fillUint32 session ++ msg))) =
      some (.request (.name name) session msg (session == 0)) := by
  have hsess := unpackUint32_append (a := type :: name.length.toUInt8 :: name) (b := msg)
    (i := name.length + 2) rfl hs
  have hdrop : (type :: name.length.toUInt8 :: (name ++ (fillUint32 session ++ msg))).drop
      (name.length + 6) = msg := by
    rw [← List.append_assoc, ← List.cons_append, ← List.cons_append]
    exact List.drop_left' (by simp [fillUint32_length])
  unfold unpackreqString
  rw [if_neg (by simp)]
  simp only [List.getD_cons_succ, List.getD_cons_zero, namesz_toNat hname]
  rw [if_neg (by simp [fillUint32_length]), hdrop]
  simp only [List.cons_append] at hsess
  rw [hsess]
  simp

include hz in
theorem unpackmreqString_append (isPush : Bool) :
    unpackmreqString (type :: name.length.toUInt8 ::
        (name ++ (fillUint32 session ++ fillUint32 size))) isPush =
      some (.head (.name name) session size isPush) := by
  have hsess := unpackUint32_append (a := type :: name.length.toUInt8 :: name)
    (b := fillUint32 size) (i := name.length + 2) rfl hs
  have hsize := unpackUint32_end (a := type :: name.length.toUInt8 :: (name ++ fillUint32 session))
    (i := name.length + 6) (by simp [fillUint32_length]) hz
  unfold unpackmreqString
  rw [if_neg (by simp)]
  simp only [List.getD_cons_succ, List.getD_cons_zero, namesz_toNat hname]
  rw [if_neg (by simp [fillUint32_length])]
  simp only [List.cons_append, List.append_assoc] at hsess hsize
  rw [hsess, hsize]
  simp

end names

theorem unpackmreqPart_append {session : Nat} (hs : session < 2 ^ 32) (type : UInt8) (b : Bytes) :
    unpackmreqPart (type :: (fillUint32 session ++ b)) = some (.part session b (type == 2)) := by
  have hsess := unpackUint32_append (a := [type]) (b := b) (i := 1) rfl hs
  have hdrop : (type :: (fillUint32 session ++ b)).drop 5 = b := by
    rw [← List.cons_append]
    exact List.drop_left' (by simp [fillUint32_length])
  unfold unpackmreqPart
  rw [if_neg (by simp [fillUint32_length]), hdrop]
  simp only [List.cons_append, List.nil_append] at hsess
  rw [hsess]
  rfl

/-- What a frame of a request can carry. -/
def RequestFits : Frame Nat Label UInt8 → Prop
  | .whole p => p.id < 2 ^ 32 ∧ p.label.1.Valid ∧ p.label.2 = (p.id == 0)
  | .head session label size => session < 2 ^ 32 ∧ label.1.Valid ∧ size < 2 ^ 32
  | .part session _ _ => session < 2 ^ 32

/-- What is read of a frame. -/
def unpacked : Frame Nat Label UInt8 → Unpacked
  | .whole p => .request p.label.1 p.id p.body p.label.2
  | .head session label size => .head label.1 session size label.2
  | .part session b last => .part session b !last

/-- **A frame of a request is read back.** -/
theorem unpackrequest_frame {f : Frame Nat Label UInt8} (h : RequestFits f) :
    unpackrequest (requestFrame f) = some (unpacked f) := by
  cases f with
  | whole p =>
    obtain ⟨session, ⟨addr, isPush⟩, msg⟩ := p
    obtain ⟨hs, ha, hpush⟩ := h
    dsimp only at hs ha hpush
    subst hpush
    cases addr with
    | handle n => exact unpackreqNumber_append ha hs 0 msg
    | name s => exact unpackreqString_append ha.2 hs 0x80 msg
  | head session label size =>
    obtain ⟨addr, isPush⟩ := label
    obtain ⟨hs, ha, hz⟩ := h
    cases addr with
    | handle n =>
      cases isPush with
      | false => exact unpackmreqNumber_append ha hs hz 1 false
      | true => exact unpackmreqNumber_append ha hs hz 0x41 true
    | name s =>
      cases isPush with
      | false => exact unpackmreqString_append ha.2 hs hz 0x81 false
      | true => exact unpackmreqString_append ha.2 hs hz 0xc1 true
  | part session b last =>
    cases last with
    | false => exact unpackmreqPart_append h 2 b
    | true => exact unpackmreqPart_append h 3 b

/-- What a frame of a response can carry. -/
def ResponseFits : Frame Nat Bool UInt8 → Prop
  | .whole p => p.id < 2 ^ 32
  | .head session ok size => session < 2 ^ 32 ∧ ok = true ∧ size < 2 ^ 32
  | .part session _ _ => session < 2 ^ 32

/-- What is read of a frame. -/
def replyOf : Frame Nat Bool UInt8 → Reply
  | .whole p => ⟨p.id, p.label, .data p.body, false⟩
  | .head session ok size => ⟨session, ok, .size size, true⟩
  | .part session b last => ⟨session, true, .data b, !last⟩

/-- **A frame of a response is read back.** -/
theorem unpackresponse_frame {f : Frame Nat Bool UInt8} (h : ResponseFits f) :
    unpackresponse (responseFrame f) = some (replyOf f) := by
  -- the session, the type and the rest of a package
  have hread : ∀ (session : Nat) (type : UInt8) (b : Bytes), session < 2 ^ 32 →
      unpackUint32 (fillUint32 session ++ type :: b) 0 = session ∧
        (fillUint32 session ++ type :: b).getD 4 0 = type ∧
        (fillUint32 session ++ type :: b).drop 5 = b ∧
        ¬(fillUint32 session ++ type :: b).length < 5 := by
    intro session type b hs
    refine ⟨unpackUint32_append (a := []) rfl hs, ?_, ?_, ?_⟩
    · rw [List.getD_eq_getElem?_getD, List.getElem?_append_right (by simp [fillUint32_length])]
      simp [fillUint32_length]
    · rw [← List.singleton_append, ← List.append_assoc]
      exact List.drop_left' (by simp [fillUint32_length])
    · simp [fillUint32_length]
      omega
  cases f with
  | whole p =>
    obtain ⟨session, ok, msg⟩ := p
    obtain ⟨hsess, htype, hdrop, hlen⟩ := hread session (if ok then 1 else 0) msg h
    simp only [responseFrame, unpackresponse, if_neg hlen, hsess, htype, hdrop]
    cases ok <;> rfl
  | head session ok size =>
    obtain ⟨hs, rfl, hz⟩ := h
    obtain ⟨hsess, htype, -, -⟩ := hread session 2 (fillUint32 size) hs
    have hsize : unpackUint32 (fillUint32 session ++ 2 :: fillUint32 size) 5 = size := by
      have hend := unpackUint32_end (a := fillUint32 session ++ [2]) (i := 5)
        (by simp [fillUint32_length]) hz
      rwa [List.append_assoc] at hend
    have hnine : (fillUint32 session ++ 2 :: fillUint32 size).length = 9 := by
      simp [fillUint32_length]
    simp only [responseFrame, unpackresponse, hsess, htype, hnine, hsize]
    rfl
  | part session b last =>
    obtain ⟨hsess, htype, hdrop, hlen⟩ := hread session (if last then 4 else 3) b h
    simp only [responseFrame, unpackresponse, if_neg hlen, hsess, htype, hdrop]
    cases last <;> rfl

/-- The table of a large message whose pieces are `got`. -/
def pieces (size : Nat) (got : List Bytes) : List Piece := .size size :: got.map .data

theorem strings_map (got : List Bytes) : strings (got.map .data) = got := by
  induction got with
  | nil => rfl
  | cons b got ih => rw [List.map_cons, strings, ih]

/-- **The pieces together are the message.** -/
theorem concat_pieces {size : Nat} {got : List Bytes} (h : got.flatten.length = size) :
    concat (pieces size got) = some got.flatten := by
  rw [pieces, concat, strings_map, if_pos h]

/-- A package is what the gate cuts out. -/
theorem packages_fillHeader {body : Bytes} (h : body.length < 2 ^ 16) :
    Skynet.packages.read (fillHeader body) = some (body, []) := by
  have hread := Client.framing_package.read [] (show body.length ≤ 65535 by omega)
  rwa [List.append_nil] at hread

end LsServer.Cluster
