import LsServer.Crypt.Des
import LsServer.Lua.Strings
import LsServer.Sproto.Protocol

/-!
# The client's messages (ClientCommon.lua)

`c2sRequest` and `makeSprotoPack` write a request and encrypt it, `sendpack` puts a session number
behind it and a length in front. `printRecvSproto` takes a response apart: the body, the status
byte, and the four bytes of the session.

Source: tool/script/client/logic/ClientCommon.lua, `c2sRequest` 24-27, `printRecvSproto` 29-44,
`makeSprotoPack` 46-51, `sendpack` 53-59, `unpack_package` 70-81.

* `ClientCommon` has the two counters of sessions: `sprotoSession` for the messages of sproto, and
  `session` for the packages. A package has four bytes behind the ciphertext for the latter.
* `sendpack` raises from 2^32 requests on, and for a text that is too long for two bytes of length.
* `recvSproto` is `printRecvSproto` up to its loop, `printContent` the loop over the sub-messages.

The byte of the status is read and not looked at (`success`), so an error of the gate, whose body is
empty, raises in `desdecode`.

Results: `unpackPackage_frame`, `recvSproto_response`.
-/

namespace LsServer.Client

open LsServer.Lib LsServer.Lua LsServer.Crypt LsServer.Sproto

/-- The numbers of `clientInfo`, `G_Scrypt` and `_S2C_Push`. -/
structure ClientCommon where
  session : Int
  sprotoSession : Int
  secret : Bytes
  push : Host

/-- `ClientCommon:c2sRequest`. -/
def c2sRequest (c : ClientCommon) (proto : Proto) (args : Message) : ClientCommon × Bytes :=
  let session := c.sprotoSession + 1
  let (push, s) := c.push.send proto args (some session)
  ({ c with sprotoSession := session, push := push }, s)

/-- `ClientCommon:makeSprotoPack`; `none` where it raises. -/
def makeSprotoPack (c : ClientCommon) (msg : Bytes) : Option (ClientCommon × Bytes) :=
  let req : Message := ⟨some [⟨some msg, none⟩], none⟩
  let (c, s) := c2sRequest c .gateMessage req
  (desencode c.secret s).map fun e => (c, e)

/-- `string.pack(">I4", n)`; `none` where it raises. -/
def packI4 (n : Int) : Option Bytes :=
  if 0 ≤ n ∧ n < 2 ^ 32 then some (packBE 4 n.toNat) else none

/-- `ClientCommon:sendpack`: the client and what goes to the socket; `none` where it raises. -/
def sendpack (c : ClientCommon) (msg : Bytes) : Option (ClientCommon × Bytes) := do
  let session := c.session + 1
  let trailer ← packI4 session
  let package ← packS2 (msg ++ trailer)
  some ({ c with session := session }, package)

/-- `unpack_package`: the first package of the text, and the rest; `none` where it is not
complete. -/
def unpackPackage : Bytes → Option (Bytes × Bytes)
  | a :: b :: text =>
    let s := a.toNat * 256 + b.toNat
    if text.length < s then none else some (text.take s, text.drop s)
  | _ => none

/-- `string.byte(s, i)`. -/
def byte (s : Bytes) (i : Int) : Option UInt8 := (sub s i i).head?

/-- What `printRecvSproto` finds in a package. -/
structure Received where
  success : Option UInt8
  gsession : Bytes
  message : Dispatched
  deriving DecidableEq

/-- `ClientCommon:printRecvSproto` up to the loop over the content; `none` where it raises. -/
def recvSproto (c : ClientCommon) (rawMsg : Bytes) : Option (ClientCommon × Received) := do
  let success := byte rawMsg (-5)
  let gsession := sub rawMsg (-4) (-1)
  let protoMsg := sub rawMsg 1 (rawMsg.length - 5)
  let protoMsg ← desdecode c.secret protoMsg
  let (push, d) ← c.push.dispatch protoMsg
  some ({ c with push := push }, ⟨success, gsession, d⟩)

/-- The loop of `printRecvSproto` over the content: what it prints. -/
def printContent : Host → List MessageContent → Option (Host × List Dispatched)
  | push, [] => some (push, [])
  | push, v :: l => do
    let s ← v.message
    let (push, d) ← push.dispatch s
    let (push, ds) ← printContent push l
    some (push, d :: ds)

/-! ## Packages -/

/-- **A package is read back**, whatever follows it. -/
theorem unpackPackage_frame {s : Bytes} (h : s.length < 2 ^ 16) (rest : Bytes) :
    unpackPackage (packBE 2 s.length ++ s ++ rest) = some (s, rest) := by
  obtain ⟨a, b, hab⟩ : ∃ a b, packBE 2 s.length = [a, b] := ⟨_, _, rfl⟩
  have hsize : a.toNat * 256 + b.toNat = s.length := by
    have hread := unpackBE_packBE_of_lt (n := 2) (v := s.length) h
    rw [hab] at hread
    simpa [unpackBE] using hread
  rw [hab, List.append_assoc, List.cons_append, List.cons_append, List.nil_append, unpackPackage]
  simp only [hsize]
  rw [if_neg (by rw [List.length_append]; omega), List.take_left, List.drop_left]

/-! ## Slices -/

/-- The last `k` bytes. -/
theorem sub_neg {s : Bytes} {k : Nat} (hpos : 0 < k) (hk : k ≤ s.length) :
    sub s (-(k : Int)) (-1) = s.drop (s.length - k) := by
  have hfirst : posrelatI (-(k : Int)) s.length = s.length - k + 1 := by
    unfold posrelatI
    rw [if_neg (by omega), if_neg (by omega), if_neg (by omega)]
    omega
  have hlast : getendpos (-1) s.length = s.length := by
    unfold getendpos
    rw [if_neg (by omega), if_neg (by omega), if_neg (by omega)]
    omega
  unfold sub
  simp only [hfirst, hlast]
  rw [if_pos (by omega), Nat.add_sub_cancel]
  exact List.take_of_length_le (by rw [List.length_drop]; omega)

/-- The byte in front of the last four. -/
theorem byte_neg_five {s t : Bytes} (b : UInt8) (ht : t.length = 4) :
    byte (s ++ b :: t) (-5) = some b := by
  have hlen : (s ++ b :: t).length = s.length + 5 := by simp [ht]
  have hfirst : posrelatI (-5) (s ++ b :: t).length = s.length + 1 := by
    rw [hlen]
    unfold posrelatI
    rw [if_neg (by decide), if_neg (by decide), if_neg (by omega)]
    omega
  have hlast : getendpos (-5) (s ++ b :: t).length = s.length + 1 := by
    rw [hlen]
    unfold getendpos
    rw [if_neg (by omega), if_neg (by decide), if_neg (by omega)]
    omega
  unfold byte sub
  simp only [hfirst, hlast]
  rw [if_pos le_rfl, Nat.add_sub_cancel, List.drop_left, Nat.sub_self]
  rfl

/-- **A response is taken apart** into its body, its status and its session. -/
theorem recvSproto_response (c : ClientCommon) (body t : Bytes) (b : UInt8) (ht : t.length = 4) :
    recvSproto c (body ++ b :: t) = (desdecode c.secret body).bind fun protoMsg =>
      (c.push.dispatch protoMsg).map fun x => ({ c with push := x.1 }, ⟨some b, t, x.2⟩) := by
  have hlen : (body ++ b :: t).length = body.length + 5 := by simp [ht]
  have hsession : sub (body ++ b :: t) (-4) (-1) = t := by
    have h := sub_neg (s := body ++ b :: t) (k := 4) (by decide) (by omega)
    rw [hlen, show body.length + 5 - 4 = (body ++ [b]).length by simp,
      show body ++ b :: t = body ++ [b] ++ t by simp, List.drop_left] at h
    rw [show body ++ b :: t = body ++ [b] ++ t by simp]
    exact h
  have hbody : sub (body ++ b :: t) 1 (((body ++ b :: t).length : Int) - 5) = body := by
    rw [hlen, show ((body.length + 5 : Nat) : Int) - 5 = (body.length : Int) by omega, sub_one,
      List.take_left]
  simp only [recvSproto, byte_neg_five b ht, hsession, hbody, Option.bind_eq_bind,
    Option.map_eq_bind, Function.comp_def]

end LsServer.Client
