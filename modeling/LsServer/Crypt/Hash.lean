import LsServer.Lua.Bytes

/-!
# `crypt.hashkey`, `crypt.hmac64` (lua-crypt.c)

`hashkey` hashes a string of any length to eight bytes. `hmac64` is one block of MD5 over its two
eight-byte arguments, without padding and without the final addition; it raises (`none`) when an
argument has another length.

Source: lualib-src/lua-crypt.c `Hash` 520-541, `lhashkey` 544-551, the tables `k` and `r` 601-623,
`digest_md5` 629-664, `hmac` 668-683, `read64` 709-723, `lhmac64` 742-748.

* `hashWords` are the two hashes of `Hash`, over 32-bit words.
* `digestMd5` is 64 rounds over a block of 16 words and leaves the state as it is then: this is not
  MD5, and nothing here relies on that.
* A word is four bytes, least significant first (`wordLE`, `bytesLE`).

Results: `hashkey_length`, `hmac64_isSome`.

Nothing is said about collisions, and nothing could be: the results that need a secret say what a
packet carries (the `hmac64` of that secret), not that nobody else could compute it.
-/

namespace LsServer.Crypt

open LsServer.Lua

/-- The four bytes of a word, least significant first. -/
def bytesLE (v : UInt32) : Bytes :=
  [v.toUInt8, (v >>> 8).toUInt8, (v >>> 16).toUInt8, (v >>> 24).toUInt8]

/-- The word the first four bytes spell, least significant first. -/
def wordLE (b : Bytes) : UInt32 :=
  (b.getD 0 0).toUInt32 ||| ((b.getD 1 0).toUInt32 <<< 8) ||| ((b.getD 2 0).toUInt32 <<< 16) |||
    ((b.getD 3 0).toUInt32 <<< 24)

/-- `Hash`. -/
def hashWords (s : Bytes) : UInt32 × UInt32 :=
  s.foldl (fun h c => (h.1 + ((h.1 <<< 5) + c.toUInt32),
    h.2 ^^^ ((h.2 <<< 5) + c.toUInt32 + (h.2 >>> 2)))) (5381, 1315423911)

/-- `crypt.hashkey`. -/
def hashkey (s : Bytes) : Bytes := bytesLE (hashWords s).1 ++ bytesLE (hashWords s).2

/-! ## MD5 -/

/-- The table `k`. -/
def md5K : List UInt32 :=
  [0xd76aa478, 0xe8c7b756, 0x242070db, 0xc1bdceee, 0xf57c0faf, 0x4787c62a, 0xa8304613, 0xfd469501,
   0x698098d8, 0x8b44f7af, 0xffff5bb1, 0x895cd7be, 0x6b901122, 0xfd987193, 0xa679438e, 0x49b40821,
   0xf61e2562, 0xc040b340, 0x265e5a51, 0xe9b6c7aa, 0xd62f105d, 0x02441453, 0xd8a1e681, 0xe7d3fbc8,
   0x21e1cde6, 0xc33707d6, 0xf4d50d87, 0x455a14ed, 0xa9e3e905, 0xfcefa3f8, 0x676f02d9, 0x8d2a4c8a,
   0xfffa3942, 0x8771f681, 0x6d9d6122, 0xfde5380c, 0xa4beea44, 0x4bdecfa9, 0xf6bb4b60, 0xbebfbc70,
   0x289b7ec6, 0xeaa127fa, 0xd4ef3085, 0x04881d05, 0xd9d4d039, 0xe6db99e5, 0x1fa27cf8, 0xc4ac5665,
   0xf4292244, 0x432aff97, 0xab9423a7, 0xfc93a039, 0x655b59c3, 0x8f0ccc92, 0xffeff47d, 0x85845dd1,
   0x6fa87e4f, 0xfe2ce6e0, 0xa3014314, 0x4e0811a1, 0xf7537e82, 0xbd3af235, 0x2ad7d2bb, 0xeb86d391]

/-- The table `r`; its entries repeat with period four in each quarter. -/
def md5R (i : Nat) : UInt32 :=
  if i < 16 then [7, 12, 17, 22].getD (i % 4) 0
  else if i < 32 then [5, 9, 14, 20].getD (i % 4) 0
  else if i < 48 then [4, 11, 16, 23].getD (i % 4) 0
  else [6, 10, 15, 21].getD (i % 4) 0

/-- `LEFTROTATE`. -/
def leftrotate (x c : UInt32) : UInt32 := (x <<< c) ||| (x >>> (32 - c))

/-- The variables of `digest_md5`. -/
structure Md5 where
  a : UInt32
  b : UInt32
  c : UInt32
  d : UInt32

/-- Round `i` of `digest_md5`. -/
def md5Round (w : List UInt32) (s : Md5) (i : Nat) : Md5 :=
  let f :=
    if i < 16 then (s.b &&& s.c) ||| (~~~s.b &&& s.d)
    else if i < 32 then (s.d &&& s.b) ||| (~~~s.d &&& s.c)
    else if i < 48 then s.b ^^^ s.c ^^^ s.d
    else s.c ^^^ (s.b ||| ~~~s.d)
  let g :=
    if i < 16 then i
    else if i < 32 then (5 * i + 1) % 16
    else if i < 48 then (3 * i + 5) % 16
    else 7 * i % 16
  ⟨s.d, s.b + leftrotate (s.a + f + md5K.getD i 0 + w.getD g 0) (md5R i), s.b, s.c⟩

/-- `digest_md5`. -/
def digestMd5 (w : List UInt32) : Md5 :=
  (List.range 64).foldl (md5Round w) ⟨0x67452301, 0xefcdab89, 0x98badcfe, 0x10325476⟩

/-- `hmac`: the block repeats the arguments four times. -/
def hmac (x y : UInt32 × UInt32) : UInt32 × UInt32 :=
  let q := [x.2, x.1, y.2, y.1]
  let r := digestMd5 (q ++ q ++ q ++ q)
  (r.c ^^^ r.d, r.a ^^^ r.b)

/-- `crypt.hmac64`; `none` where the C function raises. -/
def hmac64 (x y : Bytes) : Option Bytes :=
  if x.length = 8 ∧ y.length = 8 then
    let h := hmac (wordLE x, wordLE (x.drop 4)) (wordLE y, wordLE (y.drop 4))
    some (bytesLE h.1 ++ bytesLE h.2)
  else none

theorem hashkey_length (s : Bytes) : (hashkey s).length = 8 := rfl

theorem hmac64_isSome {x y : Bytes} : (hmac64 x y).isSome ↔ x.length = 8 ∧ y.length = 8 := by
  unfold hmac64
  split
  · rename_i h
    simp [h]
  · rename_i h
    simp [h]

end LsServer.Crypt
