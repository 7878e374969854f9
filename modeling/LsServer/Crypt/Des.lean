import LsServer.Crypt.Dh

/-!
# `crypt.desencode`, `crypt.desdecode` (lua-crypt.c)

DES over blocks of eight bytes, with the padding of ISO 7816-4: one byte `0x80` and then zeros up
to the end of the block. A block is two words, most significant byte first. `desIP` and `desFP` are
the macros of the permutations, both made of the exchange `swapBits`; `desRound` is one round with
the halves exchanged, so sixteen of them are the sixteen rounds of `des_crypt`.

Source: lualib-src/lua-crypt.c: the boxes and tables 20-187, the macros 190-247, `des_main_ks`
252-316, `des_crypt` 321-342, `padding_add_iso7816_4` 380-383, `padding_remove_iso7816_4` 386-400,
`des_key` 452-459, `ldesencode` 462-485, `ldesdecode` 488-517.

* Words are 32 bits, so shifts and masks are those of C.
* `swapBits` exchanges some bits of two words under a mask and a shift. It undoes itself, and so
  `desFP` undoes `desIP` (`desFP_desIP`).
* A round exchanges the halves; the proof runs the sixteen rounds backwards
  (`foldl_desRound_reverse`) and needs nothing about the boxes or the subkeys.
* `desencode` pads every text, also one that is a number of blocks, so its result is never empty.
  `desdecode` raises (`none`) for an empty text, for one that is no number of blocks, and where the
  last block has no `0x80` with only zeros behind it.
* A key has eight bytes, or both raise.

Results:
* `desCrypt_reverse`: with the subkeys in the other order, `des_crypt` undoes itself;
* `desdecode_desencode`: what `desencode` wrote reads back.
-/

namespace LsServer.Crypt

open LsServer.Lua

/-! ## Tables -/

/-- The table `SB1`. -/
def desSB1 : List UInt32 :=
  [0x01010400, 0x00000000, 0x00010000, 0x01010404, 0x01010004, 0x00010404, 0x00000004, 0x00010000,
   0x00000400, 0x01010400, 0x01010404, 0x00000400, 0x01000404, 0x01010004, 0x01000000, 0x00000004,
   0x00000404, 0x01000400, 0x01000400, 0x00010400, 0x00010400, 0x01010000, 0x01010000, 0x01000404,
   0x00010004, 0x01000004, 0x01000004, 0x00010004, 0x00000000, 0x00000404, 0x00010404, 0x01000000,
   0x00010000, 0x01010404, 0x00000004, 0x01010000, 0x01010400, 0x01000000, 0x01000000, 0x00000400,
   0x01010004, 0x00010000, 0x00010400, 0x01000004, 0x00000400, 0x00000004, 0x01000404, 0x00010404,
   0x01010404, 0x00010004, 0x01010000, 0x01000404, 0x01000004, 0x00000404, 0x00010404, 0x01010400,
   0x00000404, 0x01000400, 0x01000400, 0x00000000, 0x00010004, 0x00010400, 0x00000000, 0x01010004]

/-- The table `SB2`. -/
def desSB2 : List UInt32 :=
  [0x80108020, 0x80008000, 0x00008000, 0x00108020, 0x00100000, 0x00000020, 0x80100020, 0x80008020,
   0x80000020, 0x80108020, 0x80108000, 0x80000000, 0x80008000, 0x00100000, 0x00000020, 0x80100020,
   0x00108000, 0x00100020, 0x80008020, 0x00000000, 0x80000000, 0x00008000, 0x00108020, 0x80100000,
   0x00100020, 0x80000020, 0x00000000, 0x00108000, 0x00008020, 0x80108000, 0x80100000, 0x00008020,
   0x00000000, 0x00108020, 0x80100020, 0x00100000, 0x80008020, 0x80100000, 0x80108000, 0x00008000,
   0x80100000, 0x80008000, 0x00000020, 0x80108020, 0x00108020, 0x00000020, 0x00008000, 0x80000000,
   0x00008020, 0x80108000, 0x00100000, 0x80000020, 0x00100020, 0x80008020, 0x80000020, 0x00100020,
   0x00108000, 0x00000000, 0x80008000, 0x00008020, 0x80000000, 0x80100020, 0x80108020, 0x00108000]

/-- The table `SB3`. -/
def desSB3 : List UInt32 :=
  [0x00000208, 0x08020200, 0x00000000, 0x08020008, 0x08000200, 0x00000000, 0x00020208, 0x08000200,
   0x00020008, 0x08000008, 0x08000008, 0x00020000, 0x08020208, 0x00020008, 0x08020000, 0x00000208,
   0x08000000, 0x00000008, 0x08020200, 0x00000200, 0x00020200, 0x08020000, 0x08020008, 0x00020208,
   0x08000208, 0x00020200, 0x00020000, 0x08000208, 0x00000008, 0x08020208, 0x00000200, 0x08000000,
   0x08020200, 0x08000000, 0x00020008, 0x00000208, 0x00020000, 0x08020200, 0x08000200, 0x00000000,
   0x00000200, 0x00020008, 0x08020208, 0x08000200, 0x08000008, 0x00000200, 0x00000000, 0x08020008,
   0x08000208, 0x00020000, 0x08000000, 0x08020208, 0x00000008, 0x00020208, 0x00020200, 0x08000008,
   0x08020000, 0x08000208, 0x00000208, 0x08020000, 0x00020208, 0x00000008, 0x08020008, 0x00020200]

/-- The table `SB4`. -/
def desSB4 : List UInt32 :=
  [0x00802001, 0x00002081, 0x00002081, 0x00000080, 0x00802080, 0x00800081, 0x00800001, 0x00002001,
   0x00000000, 0x00802000, 0x00802000, 0x00802081, 0x00000081, 0x00000000, 0x00800080, 0x00800001,
   0x00000001, 0x00002000, 0x00800000, 0x00802001, 0x00000080, 0x00800000, 0x00002001, 0x00002080,
   0x00800081, 0x00000001, 0x00002080, 0x00800080, 0x00002000, 0x00802080, 0x00802081, 0x00000081,
   0x00800080, 0x00800001, 0x00802000, 0x00802081, 0x00000081, 0x00000000, 0x00000000, 0x00802000,
   0x00002080, 0x00800080, 0x00800081, 0x00000001, 0x00802001, 0x00002081, 0x00002081, 0x00000080,
   0x00802081, 0x00000081, 0x00000001, 0x00002000, 0x00800001, 0x00002001, 0x00802080, 0x00800081,
   0x00002001, 0x00002080, 0x00800000, 0x00802001, 0x00000080, 0x00800000, 0x00002000, 0x00802080]

/-- The table `SB5`. -/
def desSB5 : List UInt32 :=
  [0x00000100, 0x02080100, 0x02080000, 0x42000100, 0x00080000, 0x00000100, 0x40000000, 0x02080000,
   0x40080100, 0x00080000, 0x02000100, 0x40080100, 0x42000100, 0x42080000, 0x00080100, 0x40000000,
   0x02000000, 0x40080000, 0x40080000, 0x00000000, 0x40000100, 0x42080100, 0x42080100, 0x02000100,
   0x42080000, 0x40000100, 0x00000000, 0x42000000, 0x02080100, 0x02000000, 0x42000000, 0x00080100,
   0x00080000, 0x42000100, 0x00000100, 0x02000000, 0x40000000, 0x02080000, 0x42000100, 0x40080100,
   0x02000100, 0x40000000, 0x42080000, 0x02080100, 0x40080100, 0x00000100, 0x02000000, 0x42080000,
   0x42080100, 0x00080100, 0x42000000, 0x42080100, 0x02080000, 0x00000000, 0x40080000, 0x42000000,
   0x00080100, 0x02000100, 0x40000100, 0x00080000, 0x00000000, 0x40080000, 0x02080100, 0x40000100]

/-- The table `SB6`. -/
def desSB6 : List UInt32 :=
  [0x20000010, 0x20400000, 0x00004000, 0x20404010, 0x20400000, 0x00000010, 0x20404010, 0x00400000,
   0x20004000, 0x00404010, 0x00400000, 0x20000010, 0x00400010, 0x20004000, 0x20000000, 0x00004010,
   0x00000000, 0x00400010, 0x20004010, 0x00004000, 0x00404000, 0x20004010, 0x00000010, 0x20400010,
   0x20400010, 0x00000000, 0x00404010, 0x20404000, 0x00004010, 0x00404000, 0x20404000, 0x20000000,
   0x20004000, 0x00000010, 0x20400010, 0x00404000, 0x20404010, 0x00400000, 0x00004010, 0x20000010,
   0x00400000, 0x20004000, 0x20000000, 0x00004010, 0x20000010, 0x20404010, 0x00404000, 0x20400000,
   0x00404010, 0x20404000, 0x00000000, 0x20400010, 0x00000010, 0x00004000, 0x20400000, 0x00404010,
   0x00004000, 0x00400010, 0x20004010, 0x00000000, 0x20404000, 0x20000000, 0x00400010, 0x20004010]

/-- The table `SB7`. -/
def desSB7 : List UInt32 :=
  [0x00200000, 0x04200002, 0x04000802, 0x00000000, 0x00000800, 0x04000802, 0x00200802, 0x04200800,
   0x04200802, 0x00200000, 0x00000000, 0x04000002, 0x00000002, 0x04000000, 0x04200002, 0x00000802,
   0x04000800, 0x00200802, 0x00200002, 0x04000800, 0x04000002, 0x04200000, 0x04200800, 0x00200002,
   0x04200000, 0x00000800, 0x00000802, 0x04200802, 0x00200800, 0x00000002, 0x04000000, 0x00200800,
   0x04000000, 0x00200800, 0x00200000, 0x04000802, 0x04000802, 0x04200002, 0x04200002, 0x00000002,
   0x00200002, 0x04000000, 0x04000800, 0x00200000, 0x04200800, 0x00000802, 0x00200802, 0x04200800,
   0x00000802, 0x04000002, 0x04200802, 0x04200000, 0x00200800, 0x00000000, 0x00000002, 0x04200802,
   0x00000000, 0x00200802, 0x04200000, 0x00000800, 0x04000002, 0x04000800, 0x00000800, 0x00200002]

/-- The table `SB8`. -/
def desSB8 : List UInt32 :=
  [0x10001040, 0x00001000, 0x00040000, 0x10041040, 0x10000000, 0x10001040, 0x00000040, 0x10000000,
   0x00040040, 0x10040000, 0x10041040, 0x00041000, 0x10041000, 0x00041040, 0x00001000, 0x00000040,
   0x10040000, 0x10000040, 0x10001000, 0x00001040, 0x00041000, 0x00040040, 0x10040040, 0x10041000,
   0x00001040, 0x00000000, 0x00000000, 0x10040040, 0x10000040, 0x10001000, 0x00041040, 0x00040000,
   0x00041040, 0x00040000, 0x10041000, 0x00001000, 0x00000040, 0x10040040, 0x00001000, 0x00041040,
   0x10001000, 0x00000040, 0x10000040, 0x10040000, 0x10040040, 0x10000000, 0x00040000, 0x10001040,
   0x00000000, 0x10041040, 0x00040040, 0x10000040, 0x10040000, 0x10001000, 0x10001040, 0x00000000,
   0x10041040, 0x00041000, 0x00041000, 0x00001040, 0x00001040, 0x00040040, 0x10000000, 0x10041000]

/-- The table `LHs`. -/
def desLHs : List UInt32 :=
  [0x00000000, 0x00000001, 0x00000100, 0x00000101, 0x00010000, 0x00010001, 0x00010100, 0x00010101,
   0x01000000, 0x01000001, 0x01000100, 0x01000101, 0x01010000, 0x01010001, 0x01010100, 0x01010101]

/-- The table `RHs`. -/
def desRHs : List UInt32 :=
  [0x00000000, 0x01000000, 0x00010000, 0x01010000, 0x00000100, 0x01000100, 0x00010100, 0x01010100,
   0x00000001, 0x01000001, 0x00010001, 0x01010001, 0x00000101, 0x01000101, 0x00010101, 0x01010101]

/-! ## Words and blocks -/

/-- `GET_UINT32`: the word of the first four bytes. -/
def wordBE (b : Bytes) : UInt32 :=
  ((b.getD 0 0).toUInt32 <<< 24) ||| ((b.getD 1 0).toUInt32 <<< 16) |||
    ((b.getD 2 0).toUInt32 <<< 8) ||| (b.getD 3 0).toUInt32

/-- `PUT_UINT32`. -/
def bytesBE (v : UInt32) : Bytes :=
  [(v >>> 24).toUInt8, (v >>> 16).toUInt8, (v >>> 8).toUInt8, v.toUInt8]

/-- `T = ((X >> k) ^ Y) & m; Y ^= T; X ^= (T << k)`. -/
def swapBits (k m : UInt32) (s : UInt32 × UInt32) : UInt32 × UInt32 :=
  let t := ((s.1 >>> k) ^^^ s.2) &&& m
  (s.1 ^^^ (t <<< k), s.2 ^^^ t)

/-- `(X << 1) | (X >> 31)`. -/
def rotl1 (x : UInt32) : UInt32 := (x <<< 1) ||| (x >>> 31)

/-- `(X << 31) | (X >> 1)`. -/
def rotr1 (x : UInt32) : UInt32 := (x <<< 31) ||| (x >>> 1)

/-- `DES_IP(X, Y)`. -/
def desIP (s : UInt32 × UInt32) : UInt32 × UInt32 :=
  let s := swapBits 4 0x0F0F0F0F s
  let s := swapBits 16 0x0000FFFF s
  let s := (swapBits 2 0x33333333 s.swap).swap
  let s := (swapBits 8 0x00FF00FF s.swap).swap
  let s := (s.1, rotl1 s.2)
  let s := swapBits 0 0xAAAAAAAA s
  (rotl1 s.1, s.2)

/-- `DES_FP(X, Y)`. -/
def desFP (s : UInt32 × UInt32) : UInt32 × UInt32 :=
  let s := (rotr1 s.1, s.2)
  let s := swapBits 0 0xAAAAAAAA s
  let s := (s.1, rotr1 s.2)
  let s := (swapBits 8 0x00FF00FF s.swap).swap
  let s := (swapBits 2 0x33333333 s.swap).swap
  let s := swapBits 16 0x0000FFFF s
  swapBits 4 0x0F0F0F0F s

/-- What `DES_ROUND` adds to one half, from the other half and two subkeys. -/
def desF (sk : UInt32 × UInt32) (x : UInt32) : UInt32 :=
  let t := sk.1 ^^^ x
  let u := sk.2 ^^^ ((x <<< 28) ||| (x >>> 4))
  desSB8.getD (t &&& 0x3F).toNat 0 ^^^ desSB6.getD ((t >>> 8) &&& 0x3F).toNat 0 ^^^
    desSB4.getD ((t >>> 16) &&& 0x3F).toNat 0 ^^^ desSB2.getD ((t >>> 24) &&& 0x3F).toNat 0 ^^^
    desSB7.getD (u &&& 0x3F).toNat 0 ^^^ desSB5.getD ((u >>> 8) &&& 0x3F).toNat 0 ^^^
    desSB3.getD ((u >>> 16) &&& 0x3F).toNat 0 ^^^ desSB1.getD ((u >>> 24) &&& 0x3F).toNat 0

/-- `DES_ROUND(Y, X)`, and the halves exchanged. -/
def desRound (s : UInt32 × UInt32) (sk : UInt32 × UInt32) : UInt32 × UInt32 :=
  (s.2, s.1 ^^^ desF sk s.2)

/-- `des_crypt` on the two words of a block. -/
def desCrypt (sk : List (UInt32 × UInt32)) (s : UInt32 × UInt32) : UInt32 × UInt32 :=
  desFP (sk.foldl desRound (desIP s)).swap

/-- `des_crypt` on the first eight bytes. -/
def desBlock (sk : List (UInt32 × UInt32)) (b : Bytes) : Bytes :=
  let s := desCrypt sk (wordBE b, wordBE (b.drop 4))
  bytesBE s.1 ++ bytesBE s.2

/-! ## Key schedule -/

/-- Permuted choice 1, the halves of 28 bits. -/
def desPC1 (key : Bytes) : UInt32 × UInt32 :=
  let x := wordBE key
  let y := wordBE (key.drop 4)
  let t := ((y >>> 4) ^^^ x) &&& 0x0F0F0F0F
  let x := x ^^^ t
  let y := y ^^^ (t <<< 4)
  let t := (y ^^^ x) &&& 0x10101010
  let x := x ^^^ t
  let y := y ^^^ t
  let l (n : UInt32) : UInt32 := desLHs.getD ((x >>> n) &&& 0xF).toNat 0
  let r (n : UInt32) : UInt32 := desRHs.getD ((y >>> n) &&& 0xF).toNat 0
  let x := (l 0 <<< 3) ||| (l 8 <<< 2) ||| (l 16 <<< 1) ||| l 24 |||
    (l 5 <<< 7) ||| (l 13 <<< 6) ||| (l 21 <<< 5) ||| (l 29 <<< 4)
  let y := (r 1 <<< 3) ||| (r 9 <<< 2) ||| (r 17 <<< 1) ||| r 25 |||
    (r 4 <<< 7) ||| (r 12 <<< 6) ||| (r 20 <<< 5) ||| (r 28 <<< 4)
  (x &&& 0x0FFFFFFF, y &&& 0x0FFFFFFF)

/-- The rotation of a half of 28 bits before subkey `i`. -/
def desRotate (i : Nat) (x : UInt32) : UInt32 :=
  if i < 2 || i = 8 || i = 15 then ((x <<< 1) ||| (x >>> 27)) &&& 0x0FFFFFFF
  else ((x <<< 2) ||| (x >>> 26)) &&& 0x0FFFFFFF

/-- The two words of a subkey. -/
def desSubkey (s : UInt32 × UInt32) : UInt32 × UInt32 :=
  let xl (n m : UInt32) : UInt32 := (s.1 <<< n) &&& m
  let xr (n m : UInt32) : UInt32 := (s.1 >>> n) &&& m
  let yl (n m : UInt32) : UInt32 := (s.2 <<< n) &&& m
  let yr (n m : UInt32) : UInt32 := (s.2 >>> n) &&& m
  let sk0 : UInt32 := xl 4 0x24000000 ||| xl 28 0x10000000 |||
    xl 14 0x08000000 ||| xl 18 0x02080000 |||
    xl 6 0x01000000 ||| xl 9 0x00200000 |||
    xr 1 0x00100000 ||| xl 10 0x00040000 |||
    xl 2 0x00020000 ||| xr 10 0x00010000 |||
    yr 13 0x00002000 ||| yr 4 0x00001000 |||
    yl 6 0x00000800 ||| yr 1 0x00000400 |||
    yr 14 0x00000200 ||| yl 0 0x00000100 |||
    yr 5 0x00000020 ||| yr 10 0x00000010 |||
    yr 3 0x00000008 ||| yr 18 0x00000004 |||
    yr 26 0x00000002 ||| yr 24 0x00000001
  let sk1 : UInt32 := xl 15 0x20000000 ||| xl 17 0x10000000 |||
    xl 10 0x08000000 ||| xl 22 0x04000000 |||
    xr 2 0x02000000 ||| xl 1 0x01000000 |||
    xl 16 0x00200000 ||| xl 11 0x00100000 |||
    xl 3 0x00080000 ||| xr 6 0x00040000 |||
    xl 15 0x00020000 ||| xr 4 0x00010000 |||
    yr 2 0x00002000 ||| yl 8 0x00001000 |||
    yr 14 0x00000808 ||| yr 9 0x00000400 |||
    yl 0 0x00000200 ||| yl 7 0x00000100 |||
    yr 7 0x00000020 ||| yr 3 0x00000011 |||
    yl 2 0x00000004 ||| yr 21 0x00000002
  (sk0, sk1)

/-- The subkeys from number `i` on, `n` of them. -/
def desSubkeys : Nat → Nat → UInt32 × UInt32 → List (UInt32 × UInt32)
  | 0, _, _ => []
  | n + 1, i, s =>
    let s := (desRotate i s.1, desRotate i s.2)
    desSubkey s :: desSubkeys n (i + 1) s

/-- `des_main_ks`. -/
def desMainKs (key : Bytes) : List (UInt32 × UInt32) := desSubkeys 16 0 (desPC1 key)

/-! ## Texts -/

/-- `padding_add_iso7816_4`, on a block of fewer than eight bytes. -/
def paddingAdd (b : Bytes) : Bytes := b ++ 0x80 :: List.replicate (7 - b.length) 0

/-- `padding_remove_iso7816_4`, from the last byte backwards; `none` where it returns 0. -/
def paddingRemove : Nat → Nat → Bytes → Option Nat
  | 0, _, _ => none
  | _ + 1, _, [] => none
  | n + 1, padding, c :: b =>
    if c = 0 then paddingRemove n (padding + 1) b else if c = 0x80 then some padding else none

/-- The blocks of `ldesencode`; the last one is padded. -/
def desEncodeBlocks (sk : List (UInt32 × UInt32)) : Bytes → Bytes
  | a :: b :: c :: d :: e :: f :: g :: h :: text =>
    desBlock sk [a, b, c, d, e, f, g, h] ++ desEncodeBlocks sk text
  | tail => desBlock sk (paddingAdd tail)

/-- The blocks of `ldesdecode`. -/
def desDecodeBlocks (sk : List (UInt32 × UInt32)) : Bytes → Bytes
  | a :: b :: c :: d :: e :: f :: g :: h :: text =>
    desBlock sk [a, b, c, d, e, f, g, h] ++ desDecodeBlocks sk text
  | _ => []

/-- `crypt.desencode`; `none` where the C function raises. -/
def desencode (key text : Bytes) : Option Bytes :=
  if key.length = 8 then some (desEncodeBlocks (desMainKs key) text) else none

/-- `crypt.desdecode`. -/
def desdecode (key text : Bytes) : Option Bytes :=
  if key.length = 8 ∧ text.length % 8 = 0 ∧ text.length ≠ 0 then
    let buffer := desDecodeBlocks (desMainKs key).reverse text
    (paddingRemove 8 1 buffer.reverse).map fun padding => buffer.take (buffer.length - padding)
  else none

/-! ## The permutations -/

/-- The bits of `m` stay within the word when they move up by `k`. -/
def Fits (k m : UInt32) : Prop := ∀ a : UInt32, ((a &&& m) <<< k) >>> k = a &&& m

/-- An exchange of bits undoes itself. -/
theorem swapBits_swapBits {k m : UInt32} (h : Fits k m) (s : UInt32 × UInt32) :
    swapBits k m (swapBits k m s) = s := by
  obtain ⟨x, y⟩ := s
  -- both exchanges move the same bits
  have ht : ((x ^^^ ((((x >>> k) ^^^ y) &&& m) <<< k)) >>> k ^^^
      (y ^^^ (((x >>> k) ^^^ y) &&& m))) &&& m = ((x >>> k) ^^^ y) &&& m := by
    rw [UInt32.shiftRight_xor, h]
    generalize ht : (x >>> k ^^^ y) &&& m = t
    rw [UInt32.xor_assoc, UInt32.xor_comm y t, ← UInt32.xor_assoc t, UInt32.xor_self,
      UInt32.zero_xor]
    exact ht
  simp only [swapBits, ht]
  simp only [UInt32.xor_assoc, UInt32.xor_self, UInt32.xor_zero]

theorem fits_of_bits {k m : UInt32} (h : ∀ a : UInt32, ∀ i < 32,
    ((a &&& m) <<< k >>> k).toBitVec.getLsbD i = (a &&& m).toBitVec.getLsbD i) : Fits k m :=
  fun a => UInt32.toBitVec_inj.mp (BitVec.eq_of_getLsbD_eq (h a))

theorem fits_ip4 : Fits 4 0x0F0F0F0F := fits_of_bits fun a i hi => by interval_cases i <;> simp

theorem fits_ip16 : Fits 16 0x0000FFFF := fits_of_bits fun a i hi => by interval_cases i <;> simp

theorem fits_ip2 : Fits 2 0x33333333 := fits_of_bits fun a i hi => by interval_cases i <;> simp

theorem fits_ip8 : Fits 8 0x00FF00FF := fits_of_bits fun a i hi => by interval_cases i <;> simp

theorem fits_ip0 : Fits 0 0xAAAAAAAA := fits_of_bits fun a i hi => by interval_cases i <;> simp

theorem rotl1_rotr1 (x : UInt32) : rotl1 (rotr1 x) = x := by
  apply UInt32.toBitVec_inj.mp
  simp only [rotl1, rotr1, UInt32.toBitVec_shiftLeft, UInt32.toBitVec_shiftRight,
    UInt32.toBitVec_or]
  apply BitVec.eq_of_getLsbD_eq
  intro i hi
  interval_cases i <;> simp

theorem rotr1_rotl1 (x : UInt32) : rotr1 (rotl1 x) = x := by
  apply UInt32.toBitVec_inj.mp
  simp only [rotl1, rotr1, UInt32.toBitVec_shiftLeft, UInt32.toBitVec_shiftRight,
    UInt32.toBitVec_or]
  apply BitVec.eq_of_getLsbD_eq
  intro i hi
  interval_cases i <;> simp

theorem desFP_desIP (s : UInt32 × UInt32) : desFP (desIP s) = s := by
  simp only [desFP, desIP, rotr1_rotl1, Prod.mk.eta, Prod.swap_swap, swapBits_swapBits fits_ip0,
    swapBits_swapBits fits_ip8, swapBits_swapBits fits_ip2, swapBits_swapBits fits_ip16,
    swapBits_swapBits fits_ip4]

theorem desIP_desFP (s : UInt32 × UInt32) : desIP (desFP s) = s := by
  simp only [desFP, desIP, rotl1_rotr1, Prod.mk.eta, Prod.swap_swap, swapBits_swapBits fits_ip0,
    swapBits_swapBits fits_ip8, swapBits_swapBits fits_ip2, swapBits_swapBits fits_ip16,
    swapBits_swapBits fits_ip4]

/-! ## The rounds -/

/-- A round undoes itself on the exchanged halves. -/
theorem desRound_swap (s sk : UInt32 × UInt32) : desRound (desRound s sk).swap sk = s.swap := by
  obtain ⟨l, r⟩ := s
  simp only [desRound, Prod.swap_prod_mk, UInt32.xor_assoc, UInt32.xor_self, UInt32.xor_zero]

theorem foldl_desRound_reverse (sks : List (UInt32 × UInt32)) (s : UInt32 × UInt32) :
    sks.reverse.foldl desRound (sks.foldl desRound s).swap = s.swap := by
  induction sks generalizing s with
  | nil => rfl
  | cons sk sks ih =>
    simp only [List.reverse_cons, List.foldl_append, List.foldl_cons, List.foldl_nil, ih,
      desRound_swap]

/-- **`des_crypt` undoes itself** when it takes the subkeys in the other order. -/
theorem desCrypt_reverse (sks : List (UInt32 × UInt32)) (s : UInt32 × UInt32) :
    desCrypt sks.reverse (desCrypt sks s) = s := by
  unfold desCrypt
  rw [desIP_desFP, foldl_desRound_reverse, Prod.swap_swap, desFP_desIP]

/-! ## Blocks -/

theorem wordBE_bytesBE_append (v : UInt32) (s : Bytes) : wordBE (bytesBE v ++ s) = v := by
  apply UInt32.toBitVec_inj.mp
  simp only [wordBE, bytesBE, List.cons_append, List.nil_append, List.getD_cons_zero,
    List.getD_cons_succ, UInt32.toBitVec_or, UInt32.toBitVec_shiftLeft, UInt8.toBitVec_toUInt32,
    UInt32.toBitVec_toUInt8, UInt32.toBitVec_shiftRight]
  apply BitVec.eq_of_getLsbD_eq
  intro i hi
  interval_cases i <;> simp

theorem bytesBE_wordBE (a b c d : UInt8) (s : Bytes) :
    bytesBE (wordBE (a :: b :: c :: d :: s)) = [a, b, c, d] := by
  simp only [wordBE, bytesBE, List.getD_cons_zero, List.getD_cons_succ, List.cons.injEq, and_true]
  refine ⟨?_, ?_, ?_, ?_⟩
  all_goals
    apply UInt8.toBitVec_inj.mp
    simp only [UInt32.toBitVec_or, UInt32.toBitVec_shiftLeft, UInt8.toBitVec_toUInt32,
      UInt32.toBitVec_toUInt8, UInt32.toBitVec_shiftRight]
    apply BitVec.eq_of_getLsbD_eq
    intro i hi
    interval_cases i <;> simp

theorem desBlock_length (sks : List (UInt32 × UInt32)) (b : Bytes) :
    (desBlock sks b).length = 8 := rfl

theorem desBlock_bytesBE (sks : List (UInt32 × UInt32)) (s : UInt32 × UInt32) :
    desBlock sks (bytesBE s.1 ++ bytesBE s.2) =
      bytesBE (desCrypt sks s).1 ++ bytesBE (desCrypt sks s).2 := by
  have hhigh : wordBE ((bytesBE s.1 ++ bytesBE s.2).drop 4) = s.2 := by
    have := wordBE_bytesBE_append s.2 []
    rwa [List.append_nil] at this
  simp only [desBlock, wordBE_bytesBE_append, hhigh]

theorem desBlock_reverse (sks : List (UInt32 × UInt32)) {b : Bytes} (hb : b.length = 8) :
    desBlock sks.reverse (desBlock sks b) = b := by
  match b, hb with
  | [c1, c2, c3, c4, c5, c6, c7, c8], _ =>
    have hb : [c1, c2, c3, c4, c5, c6, c7, c8] =
        bytesBE (wordBE [c1, c2, c3, c4, c5, c6, c7, c8]) ++ bytesBE (wordBE [c5, c6, c7, c8]) := by
      rw [bytesBE_wordBE, bytesBE_wordBE]
      rfl
    generalize wordBE [c1, c2, c3, c4, c5, c6, c7, c8] = x, wordBE [c5, c6, c7, c8] = y at hb
    rw [hb, desBlock_bytesBE sks (x, y), desBlock_bytesBE, desCrypt_reverse]

/-! ## Texts -/

theorem desDecodeBlocks_append (sks : List (UInt32 × UInt32)) {b : Bytes} (hb : b.length = 8)
    (text : Bytes) :
    desDecodeBlocks sks (b ++ text) = desBlock sks b ++ desDecodeBlocks sks text := by
  match b, hb with
  | [c1, c2, c3, c4, c5, c6, c7, c8], _ => rfl

theorem paddingAdd_length {b : Bytes} (hb : b.length < 8) : (paddingAdd b).length = 8 := by
  simp [paddingAdd]
  omega

/-- The last block is not full. -/
theorem tail_length_lt {tail : Bytes}
    (h : ∀ a b c d e f g h text, tail = a :: b :: c :: d :: e :: f :: g :: h :: text → False) :
    tail.length < 8 := by
  by_contra hge
  match tail, not_lt.mp hge with
  | a :: b :: c :: d :: e :: f :: g :: i :: text, _ => exact h _ _ _ _ _ _ _ _ _ rfl

/-- What `desencode` wrote decrypts to the text and its padding. -/
theorem desDecodeBlocks_desEncodeBlocks (sks : List (UInt32 × UInt32)) (text : Bytes) :
    ∃ n < 8, desDecodeBlocks sks.reverse (desEncodeBlocks sks text) =
      text ++ 0x80 :: List.replicate n 0 := by
  induction text using desEncodeBlocks.induct with
  | case1 a b c d e f g h text ih =>
    obtain ⟨n, hn, ih⟩ := ih
    refine ⟨n, hn, ?_⟩
    rw [desEncodeBlocks, desDecodeBlocks_append _ (desBlock_length _ _), desBlock_reverse _ rfl, ih]
    rfl
  | case2 tail htail =>
    have hlen := tail_length_lt htail
    refine ⟨7 - tail.length, by omega, ?_⟩
    have henc : desEncodeBlocks sks tail = desBlock sks (paddingAdd tail) ++ [] := by
      rw [List.append_nil, desEncodeBlocks]
      exact htail
    rw [henc, desDecodeBlocks_append _ (desBlock_length _ _),
      desBlock_reverse _ (paddingAdd_length hlen)]
    exact List.append_nil _

theorem desEncodeBlocks_length (sks : List (UInt32 × UInt32)) (text : Bytes) :
    (desEncodeBlocks sks text).length % 8 = 0 ∧
      text.length < (desEncodeBlocks sks text).length := by
  induction text using desEncodeBlocks.induct with
  | case1 a b c d e f g h text ih =>
    rw [desEncodeBlocks, List.length_append, desBlock_length]
    simp only [List.length_cons]
    omega
  | case2 tail htail =>
    have hlen := tail_length_lt htail
    rw [desEncodeBlocks, desBlock_length]
    · omega
    · exact htail

/-- The padding makes a text longer. -/
theorem length_lt_desencode {key text e : Bytes} (h : desencode key text = some e) :
    text.length < e.length := by
  obtain ⟨-, he⟩ := Option.ite_none_right_eq_some.mp h
  rw [← Option.some.inj he]
  exact (desEncodeBlocks_length _ text).2

/-- The padding is found behind its zeros. -/
theorem paddingRemove_zeros (n k padding : Nat) (b : Bytes) :
    paddingRemove (n + k + 1) padding (List.replicate n 0 ++ 0x80 :: b) = some (padding + n) := by
  induction n generalizing padding with
  | zero => rfl
  | succ n ih =>
    rw [show n + 1 + k + 1 = (n + k + 1) + 1 by omega, List.replicate_succ, List.cons_append,
      paddingRemove, if_pos rfl, ih]
    congr 1
    omega

/-- **`desdecode` inverts `desencode`**, which raises only for a key of another length. -/
theorem desdecode_desencode {key : Bytes} (hkey : key.length = 8) (text : Bytes) :
    ∃ e, desencode key text = some e ∧ desdecode key e = some text := by
  refine ⟨desEncodeBlocks (desMainKs key) text, if_pos hkey, ?_⟩
  obtain ⟨n, hn, hdec⟩ := desDecodeBlocks_desEncodeBlocks (desMainKs key) text
  obtain ⟨hmod, hlt⟩ := desEncodeBlocks_length (desMainKs key) text
  have hpad : paddingRemove 8 1 (text ++ 0x80 :: List.replicate n 0).reverse = some (1 + n) := by
    have h := paddingRemove_zeros n (7 - n) 1 text.reverse
    rw [show n + (7 - n) + 1 = 8 by omega] at h
    simpa using h
  unfold desdecode
  rw [if_pos ⟨hkey, hmod, by omega⟩]
  simp only [hdec, hpad, Option.map_some, Option.some.injEq]
  have hlen : (text ++ 0x80 :: List.replicate n 0).length - (1 + n) = text.length := by
    simp
    omega
  rw [hlen, List.take_left]

theorem desdecode_eq_of_desencode {key text e : Bytes} (h : desencode key text = some e) :
    desdecode key e = some text := by
  obtain ⟨hkey, -⟩ := Option.ite_none_right_eq_some.mp h
  obtain ⟨e', he', hdec⟩ := desdecode_desencode hkey text
  rwa [Option.some.inj (h.symm.trans he')]

end LsServer.Crypt
