import LsServer.Lib.Table
import LsServer.Sproto.Pack
import LsServer.Sproto.Wire

/-!
# Messages and hosts (Protocol.sproto, sproto.lua)

The two protocols of `Protocol.sproto` and the package type, as `core.encode` and `core.decode` see
them; the request and the response of a protocol have the same fields. A message is a Lua table with
the fields of both protocols, of which `core.encode` writes those of its type. A `Host` remembers
the protocol of every session it waits for.

`core.encode` and `core.pack` raise past a buffer of 8 MB. That limit is left out: what comes near
it is far too long for a frame of the gate.

Source: src/common/protocol/Protocol.sproto for the types and the tags; lualib/sproto.lua
`sproto:host` 41-49, `queryproto` 90-110, `gen_response` 183-196, `host:dispatch` 198-229,
`host:attach` 231-250; sproto.c `encode_array_object` 857-884, `decode_array_object` 1059-1080.

* `Header` is the package type: the tag of a protocol where it is a request, and a session where it
  has one.
* `Dispatched` is what `host:dispatch` returns: a request with the function that makes its response,
  or a response for a session. It raises for a session that nobody waits for, and for an unknown
  tag.
* `genResponse` writes the header with the session and then the result, and packs both.
* `Message.Valid` asks that its integers are of 64 bits. That its texts are not too long for a
  length of four bytes is asked of what is written, as a bound of its length.

A field that is `nil` in Lua is not written, and is `nil` after reading. So the two protocols share
one type of messages, and only the tag tells them apart.

Results:
* `decodeHeader_encodeHeader`, `decodeMessage_encodeMessage`: what is written is read back;
* `Host.dispatch_genResponse`: a response reaches the one who waits for its session.
-/

namespace LsServer.Sproto

open LsServer.Lib LsServer.Lua

/-- `.package`. -/
structure Header where
  type : Option Int
  session : Option Int
  deriving DecidableEq

/-- `.ErrorMessage`. -/
structure ErrorMessage where
  errorCode : Option Int
  errorMessage : Option Bytes
  deriving DecidableEq

/-- `.MessageContent`. -/
structure MessageContent where
  message : Option Bytes
  error : Option ErrorMessage
  deriving DecidableEq

/-- A message: `content` of `GateMessage`, `str` of `Hello_Agent`. -/
structure Message where
  content : Option (List MessageContent)
  str : Option Bytes
  deriving DecidableEq

/-- The protocols with their tags. -/
inductive Proto
  | gateMessage
  | helloAgent
  deriving DecidableEq

def Proto.tag : Proto → Nat
  | .gateMessage => 0
  | .helloAgent => 1

/-- `queryproto` of a number, which C cuts to 32 bits. -/
def queryproto (type : Int) : Option Proto :=
  if type % 2 ^ 32 = 0 then some .gateMessage
  else if type % 2 ^ 32 = 1 then some .helloAgent
  else none

/-! ## Types -/

/-- A field that is left out where it is `nil`. -/
def optField (tag : Nat) (f : Option Field) : Record := (f.map fun f => (tag, f)).toList

/-- The field with this tag. -/
def Record.get (r : Record) (tag : Nat) : Option Field :=
  (r.find? fun x => x.1 = tag).map Prod.snd

/-- A field of type `integer`; the outer `none` where `core.decode` raises. -/
def intField (r : Record) (tag : Nat) : Option (Option Int) :=
  match r.get tag with
  | none => some none
  | some f => (readInt f).map some

/-- A field of type `string` or `binary`, or the data of a struct or an array. -/
def dataField (r : Record) (tag : Nat) : Option (Option Bytes) :=
  match r.get tag with
  | none => some none
  | some (.data b) => some (some b)
  | some (.inline _) => none

def headerRecord (h : Header) : Record :=
  optField 0 (h.type.map writeInt) ++ optField 1 (h.session.map writeInt)

def errorRecord (e : ErrorMessage) : Record :=
  optField 0 (e.errorCode.map writeInt) ++ optField 1 (e.errorMessage.map .data)

def contentRecord (m : MessageContent) : Record :=
  optField 0 (m.message.map .data) ++
    optField 1 (m.error.map fun e => .data (encodeRecord (errorRecord e)))

/-- The data of an array (`encode_array_object`). -/
def writeElements (l : List Bytes) : Bytes := l.flatMap fun b => packLE 4 b.length ++ b

def messageRecord : Proto → Message → Record
  | .gateMessage, m => optField 0 (m.content.map fun l =>
    .data (writeElements (l.map fun e => encodeRecord (contentRecord e))))
  | .helloAgent, m => optField 0 (m.str.map .data)

/-- `core.encode` of the package type. -/
def encodeHeader (h : Header) : Bytes := encodeRecord (headerRecord h)

/-- `core.encode` of the request or the response of a protocol. -/
def encodeMessage (proto : Proto) (m : Message) : Bytes := encodeRecord (messageRecord proto m)

/-- `core.decode` of the package type, with the text behind it. -/
def decodeHeader (s : Bytes) : Option (Header × Bytes) := do
  let (r, s) ← decodeRecord s
  let type ← intField r 0
  let session ← intField r 1
  some (⟨type, session⟩, s)

/-- A struct takes all its data. -/
def decodeStruct (b : Bytes) : Option Record :=
  match decodeRecord b with
  | some (r, []) => some r
  | _ => none

def decodeError (b : Bytes) : Option ErrorMessage := do
  let r ← decodeStruct b
  let errorCode ← intField r 0
  let errorMessage ← dataField r 1
  some ⟨errorCode, errorMessage⟩

def decodeContent (b : Bytes) : Option MessageContent := do
  let r ← decodeStruct b
  let message ← dataField r 0
  match ← dataField r 1 with
  | none => some ⟨message, none⟩
  | some e => (decodeError e).map fun e => ⟨message, some e⟩

/-- The elements of an array (`decode_array_object`); every round takes a byte at least. -/
def readElements : Nat → Bytes → Option (List Bytes)
  | _, [] => some []
  | 0, _ => none
  | fuel + 1, s => do
    let (b, s) ← readData s
    let l ← readElements fuel s
    some (b :: l)

/-- `core.decode` of the request or the response of a protocol. -/
def decodeMessage (proto : Proto) (s : Bytes) : Option Message := do
  let (r, _) ← decodeRecord s
  match proto, ← dataField r 0 with
  | _, none => some ⟨none, none⟩
  | .gateMessage, some b => do
    let l ← readElements b.length b
    let content ← l.mapM decodeContent
    some ⟨some content, none⟩
  | .helloAgent, some b => some ⟨none, some b⟩

/-! ## Round trips -/

theorem get_zero (f g : Option Field) : Record.get (optField 0 f ++ optField 1 g) 0 = f := by
  cases f <;> cases g <;> rfl

theorem get_one (f g : Option Field) : Record.get (optField 0 f ++ optField 1 g) 1 = g := by
  cases f <;> cases g <;> rfl

theorem mem_optField {tag : Nat} {f : Option Field} {x : Nat × Field} :
    x ∈ optField tag f ↔ x.1 = tag ∧ x.2 ∈ f := by
  obtain ⟨t, g⟩ := x
  cases f with
  | none => simp [optField]
  | some f => simp [optField, eq_comm]

/-- Two fields can be written if each of them can. -/
theorem writable_pair {f g : Option Field} (hf : ∀ x ∈ f, x.Fits) (hg : ∀ x ∈ g, x.Fits) :
    Record.Writable (optField 0 f ++ optField 1 g) where
  ascending := by cases f <;> cases g <;> simp [optField, Ascending]
  small x hx := by
    rcases List.mem_append.mp hx with hx | hx
    · rw [(mem_optField.mp hx).1]
      decide
    · rw [(mem_optField.mp hx).1]
      decide
  fits x hx := by
    rcases List.mem_append.mp hx with hx | hx
    · exact hf x.2 (mem_optField.mp hx).2
    · exact hg x.2 (mem_optField.mp hx).2

theorem fits_writeInt {v : Option Int} : ∀ x ∈ v.map writeInt, x.Fits := by
  intro x hx
  obtain ⟨w, -, rfl⟩ := Option.mem_map.mp hx
  exact writeInt_fits w

theorem fits_data {b : Option Bytes} (h : ∀ x ∈ b, x.length < 2 ^ 32) :
    ∀ x ∈ b.map Field.data, x.Fits := by
  intro x hx
  obtain ⟨c, hc, rfl⟩ := Option.mem_map.mp hx
  exact h c hc

theorem intField_map {r : Record} {tag : Nat} {v : Option Int} (hget : r.get tag = v.map writeInt)
    (hv : ∀ x ∈ v, IsInt64 x) : intField r tag = some v := by
  unfold intField
  rw [hget]
  cases v with
  | none => rfl
  | some x => simp [readInt_writeInt (hv x rfl)]

theorem dataField_map {r : Record} {tag : Nat} {b : Option Bytes}
    (hget : r.get tag = b.map Field.data) : dataField r tag = some b := by
  unfold dataField
  rw [hget]
  cases b <;> rfl

/-- The numbers of a header are integers of Lua. -/
structure Header.Valid (h : Header) : Prop where
  type : ∀ v ∈ h.type, IsInt64 v
  session : ∀ v ∈ h.session, IsInt64 v

/-- **A header comes back**, with the text behind it. -/
theorem decodeHeader_encodeHeader {h : Header} (hv : h.Valid) (s : Bytes) :
    decodeHeader (encodeHeader h ++ s) = some (h, s) := by
  have hrecord := decodeRecord_encodeRecord
    (writable_pair (fits_writeInt (v := h.type)) (fits_writeInt (v := h.session))) s
  have htype := intField_map (get_zero (h.type.map writeInt) (h.session.map writeInt)) hv.type
  have hsession := intField_map (get_one (h.type.map writeInt) (h.session.map writeInt)) hv.session
  simp only [decodeHeader, encodeHeader, headerRecord, hrecord, htype, hsession,
    Option.bind_eq_bind, Option.bind_some]

theorem decodeStruct_encodeRecord {r : Record} (h : r.Writable) :
    decodeStruct (encodeRecord r) = some r := by
  have hrecord := decodeRecord_encodeRecord h []
  rw [List.append_nil] at hrecord
  simp only [decodeStruct, hrecord]

theorem decodeError_errorRecord {e : ErrorMessage} (hcode : ∀ v ∈ e.errorCode, IsInt64 v)
    (hlen : (encodeRecord (errorRecord e)).length < 2 ^ 32) :
    decodeError (encodeRecord (errorRecord e)) = some e := by
  have hfits : ∀ b ∈ e.errorMessage, b.length < 2 ^ 32 := by
    intro b hb
    refine (length_le_encodeRecord 1 ?_).trans_lt hlen
    simp [errorRecord, mem_optField, Option.mem_def.mp hb]
  have hstruct := decodeStruct_encodeRecord
    (writable_pair (fits_writeInt (v := e.errorCode)) (fits_data hfits))
  have herror := intField_map (get_zero (e.errorCode.map writeInt) (e.errorMessage.map .data)) hcode
  have hmessage := dataField_map (get_one (e.errorCode.map writeInt) (e.errorMessage.map .data))
  simp only [decodeError, errorRecord, hstruct, herror, hmessage, Option.bind_eq_bind,
    Option.bind_some]

/-- The numbers of a message are integers of Lua. -/
def MessageContent.Valid (m : MessageContent) : Prop :=
  ∀ e ∈ m.error, ∀ v ∈ e.errorCode, IsInt64 v

theorem decodeContent_contentRecord {m : MessageContent} (hv : m.Valid)
    (hlen : (encodeRecord (contentRecord m)).length < 2 ^ 32) :
    decodeContent (encodeRecord (contentRecord m)) = some m := by
  obtain ⟨message, error⟩ := m
  obtain ⟨b, hb⟩ : ∃ b, error.map (fun e => encodeRecord (errorRecord e)) = b := ⟨_, rfl⟩
  have hrecord : contentRecord ⟨message, error⟩ =
      optField 0 (message.map .data) ++ optField 1 (b.map .data) := by
    rw [← hb, contentRecord, Option.map_map]
    rfl
  rw [hrecord] at hlen ⊢
  have hfits : ∀ tag x, (tag, Field.data x) ∈ optField 0 (message.map Field.data) ++
      optField 1 (b.map Field.data) → x.length < 2 ^ 32 :=
    fun tag x hx => (length_le_encodeRecord tag hx).trans_lt hlen
  have hmessageLen : ∀ x ∈ message, x.length < 2 ^ 32 :=
    fun x hx => hfits 0 x (by simp [mem_optField, Option.mem_def.mp hx])
  have hbLen : ∀ x ∈ b, x.length < 2 ^ 32 :=
    fun x hx => hfits 1 x (by simp [mem_optField, Option.mem_def.mp hx])
  have hstruct := decodeStruct_encodeRecord
    (writable_pair (fits_data hmessageLen) (fits_data hbLen))
  have hmessage := dataField_map (get_zero (message.map .data) (b.map .data))
  have herror := dataField_map (get_one (message.map .data) (b.map .data))
  simp only [decodeContent, hstruct, hmessage, herror, Option.bind_eq_bind, Option.bind_some]
  cases error with
  | none =>
    obtain rfl : none = b := hb
    rfl
  | some e =>
    obtain rfl : some (encodeRecord (errorRecord e)) = b := hb
    simp only [decodeError_errorRecord (hv e rfl) (hbLen _ rfl), Option.map_some]

theorem mapM_decodeContent {l : List MessageContent}
    (h : ∀ e ∈ l, decodeContent (encodeRecord (contentRecord e)) = some e) :
    (l.map fun e => encodeRecord (contentRecord e)).mapM decodeContent = some l := by
  induction l with
  | nil => rfl
  | cons e l ih =>
    rw [List.map_cons, List.mapM_cons, h e (by simp), ih fun e he => h e (by simp [he])]
    rfl

theorem length_le_writeElements {l : List Bytes} {b : Bytes} (h : b ∈ l) :
    b.length ≤ (writeElements l).length := by
  induction l with
  | nil => exact absurd h (by simp)
  | cons c l ih =>
    rw [writeElements, List.flatMap_cons, List.length_append, List.length_append]
    rcases List.mem_cons.mp h with rfl | h
    · omega
    · have hle := ih h
      rw [writeElements] at hle
      omega

/-- A sub-message is no longer than the message that carries it. -/
theorem length_le_encodeMessage {l : List MessageContent} {e : MessageContent} {b : Bytes}
    (he : e ∈ l) (hb : e.message = some b) :
    b.length ≤ (encodeMessage .gateMessage ⟨some l, none⟩).length := by
  calc b.length ≤ (encodeRecord (contentRecord e)).length :=
        length_le_encodeRecord 0 (by simp [contentRecord, mem_optField, hb])
    _ ≤ (writeElements (l.map fun e => encodeRecord (contentRecord e))).length :=
        length_le_writeElements (List.mem_map_of_mem he)
    _ ≤ (encodeMessage .gateMessage ⟨some l, none⟩).length :=
        length_le_encodeRecord 0 (by simp [messageRecord, mem_optField])

theorem readElements_writeElements {l : List Bytes} {fuel : Nat}
    (hl : ∀ b ∈ l, b.length < 2 ^ 32) (hfuel : (writeElements l).length ≤ fuel) :
    readElements fuel (writeElements l) = some l := by
  induction l generalizing fuel with
  | nil => simp [writeElements, readElements]
  | cons b l ih =>
    have hcons : writeElements (b :: l) = packLE 4 b.length ++ b ++ writeElements l := by
      simp [writeElements]
    have hread := readData_tail (hl b (by simp)) (writeElements l)
    rw [hcons, List.length_append, List.length_append, packLE_length] at hfuel
    have hrest : readElements (fuel - 1) (writeElements l) = some l :=
      ih (fun c hc => hl c (by simp [hc])) (by omega)
    obtain ⟨fuel, rfl⟩ : ∃ k, fuel = k + 1 := ⟨fuel - 1, by omega⟩
    rw [Nat.add_sub_cancel] at hrest
    have hpos : 0 < (packLE 4 b.length ++ b ++ writeElements l).length := by
      rw [List.length_append, List.length_append, packLE_length]
      omega
    rw [hcons]
    obtain ⟨c, t, ht⟩ := List.exists_cons_of_length_pos hpos
    rw [ht] at hread ⊢
    simp only [readElements, hread, hrest, Option.bind_eq_bind, Option.bind_some]

/-- The fields of a message that its type has. -/
def Message.fields (proto : Proto) (m : Message) : Message :=
  match proto with
  | .gateMessage => ⟨m.content, none⟩
  | .helloAgent => ⟨none, m.str⟩

/-- The numbers of a message are integers of Lua. -/
def Message.Valid (m : Message) : Prop := ∀ l ∈ m.content, ∀ e ∈ l, e.Valid

/-- The data of the only field of a message. -/
def messageData (proto : Proto) (m : Message) : Option Bytes :=
  match proto with
  | .gateMessage => m.content.map fun l =>
    writeElements (l.map fun e => encodeRecord (contentRecord e))
  | .helloAgent => m.str

theorem messageRecord_eq (proto : Proto) (m : Message) : messageRecord proto m =
    optField 0 ((messageData proto m).map .data) ++ optField 1 none := by
  cases proto with
  | gateMessage => simp [messageRecord, messageData, optField, Option.map_map, Function.comp_def]
  | helloAgent => simp [messageRecord, messageData, optField]

/-- **A message comes back**, with the fields of its type; what stands behind it is not read. -/
theorem decodeMessage_encodeMessage {proto : Proto} {m : Message} (hv : m.Valid)
    (hlen : (encodeMessage proto m).length < 2 ^ 32) (s : Bytes) :
    decodeMessage proto (encodeMessage proto m ++ s) = some (m.fields proto) := by
  have hfits : ∀ b ∈ messageData proto m, b.length < 2 ^ 32 := by
    intro b hb
    refine (length_le_encodeRecord 0 ?_).trans_lt hlen
    simp [messageRecord_eq, mem_optField, Option.mem_def.mp hb]
  have hrecord : decodeRecord (encodeMessage proto m ++ s) = some (messageRecord proto m, s) := by
    rw [encodeMessage, messageRecord_eq]
    exact decodeRecord_encodeRecord (writable_pair (fits_data hfits) (by simp)) s
  have hdata : dataField (messageRecord proto m) 0 = some (messageData proto m) :=
    dataField_map (by rw [messageRecord_eq, get_zero])
  simp only [decodeMessage, hrecord, hdata, Option.bind_eq_bind, Option.bind_some]
  cases proto with
  | helloAgent =>
    obtain ⟨content, str⟩ := m
    cases str <;> rfl
  | gateMessage =>
    obtain ⟨content, str⟩ := m
    cases content with
    | none => rfl
    | some l =>
      have hb := hfits _ rfl
      have helem : ∀ b ∈ l.map (fun e => encodeRecord (contentRecord e)), b.length < 2 ^ 32 :=
        fun b hmem => (length_le_writeElements hmem).trans_lt hb
      have hcontent : (l.map fun e => encodeRecord (contentRecord e)).mapM decodeContent =
          some l :=
        mapM_decodeContent fun e he =>
          decodeContent_contentRecord (hv l rfl e he) (helem _ (List.mem_map_of_mem he))
      simp only [messageData, Option.map_some, readElements_writeElements helem le_rfl,
        Option.bind_some, hcontent, Message.fields]

/-! ## Hosts -/

/-- A host: the protocol of each session it waits for. -/
structure Host where
  sessions : Table Int Proto

/-- A host that waits for nothing. -/
def Host.init : Host := ⟨.empty⟩

/-- What `host:dispatch` returns. A request that has a session comes with a responder. -/
inductive Dispatched
  | request (proto : Proto) (message : Message) (session : Option Int)
  | response (session : Int) (message : Message)
  deriving DecidableEq

/-- `host:dispatch`; `none` where it raises. -/
def Host.dispatch (host : Host) (s : Bytes) : Option (Host × Dispatched) := do
  let bin ← unpack s
  let (header, content) ← decodeHeader bin
  match header.type with
  | some type => do
    let proto ← queryproto type
    let message ← decodeMessage proto content
    some (host, .request proto message header.session)
  | none => do
    let session ← header.session
    let proto ← host.sessions.get session
    let message ← decodeMessage proto content
    some (⟨host.sessions.del session⟩, .response session message)

/-- `gen_response`. -/
def genResponse (proto : Proto) (session : Int) (args : Message) : Bytes :=
  pack (encodeHeader ⟨none, some session⟩ ++ encodeMessage proto args)

/-- The sender of `host:attach`. -/
def Host.send (host : Host) (proto : Proto) (args : Message) (session : Option Int) :
    Host × Bytes :=
  (match session with
    | some session => ⟨host.sessions.set session proto⟩
    | none => host,
    pack (encodeHeader ⟨some proto.tag, session⟩ ++ encodeMessage proto args))

/-- A request that was read has a session of 64 bits. -/
theorem decodeHeader_session {s t : Bytes} {h : Header} {v : Int}
    (hdec : decodeHeader s = some (h, t)) (hv : h.session = some v) : IsInt64 v := by
  simp only [decodeHeader, Option.bind_eq_bind, Option.bind_eq_some_iff, Option.some.injEq,
    Prod.mk.injEq] at hdec
  obtain ⟨⟨r, t⟩, hr, type, -, session, hsession, rfl, -⟩ := hdec
  obtain rfl : session = some v := hv
  unfold intField at hsession
  split at hsession
  · exact absurd hsession (by simp)
  · rename_i f hf
    obtain ⟨w, hw, hwv⟩ := Option.map_eq_some_iff.mp hsession
    obtain rfl := Option.some.inj hwv
    obtain ⟨⟨tag, g⟩, hfind, rfl⟩ := Option.map_eq_some_iff.mp hf
    exact readInt_isInt64 hr (List.mem_of_find?_eq_some hfind) hw

theorem length_le_genResponse (proto : Proto) (session : Int) (args : Message) :
    (encodeMessage proto args).length ≤ 8 * (genResponse proto session args).length := by
  have hle := length_le_pack (encodeHeader ⟨none, some session⟩ ++ encodeMessage proto args)
  rw [List.length_append] at hle
  rw [genResponse]
  omega

/-- **A response reaches the one who waits for its session.** -/
theorem Host.dispatch_genResponse {host : Host} {proto : Proto} {session : Int} {args : Message}
    (hwait : host.sessions.get session = some proto) (hsession : IsInt64 session)
    (hv : args.Valid) (hlen : (genResponse proto session args).length < 2 ^ 29) :
    host.dispatch (genResponse proto session args) =
      some (⟨host.sessions.del session⟩, .response session (args.fields proto)) := by
  obtain ⟨k, hk⟩ := unpack_pack (encodeHeader ⟨none, some session⟩ ++ encodeMessage proto args)
  have hheader : Header.Valid ⟨none, some session⟩ := ⟨by simp, by simpa using hsession⟩
  have hmessage : (encodeMessage proto args).length < 2 ^ 32 := by
    have hle := length_le_genResponse proto session args
    omega
  rw [List.append_assoc] at hk
  simp only [Host.dispatch, genResponse, hk, decodeHeader_encodeHeader hheader,
    decodeMessage_encodeMessage hv hmessage, hwait, Option.bind_eq_bind, Option.bind_some]

end LsServer.Sproto
