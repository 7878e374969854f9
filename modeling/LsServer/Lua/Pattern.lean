import LsServer.Lua.Bytes

/-!
# Lua patterns

`string.match` and the piece iteration of `string.gsub` (lstrlib.c) on byte strings.

A pattern is first read into items (`compile`, the scan of `classend` and `matchbracketclass`) and
the items are then matched with the backtracking of `match`. Each item is a function of what
follows it: `maxExpand` tries the longest run first, a capture records where it starts and `)`
closes the newest open one. `lstrlib.c` reads the pattern text again at every step instead;
the two differ only in when a malformed pattern raises, and here it raises at once.

Left out are `%b`, `%f`, back references and position captures, which no pattern of the
repository uses; `compile` refuses them.

Source: lstrlib.c `classend` 403-424, `match_class` 427-444, `matchbracketclass` 447-467,
`singlematch` 470-483, `max_expand` 506-518, `min_expand` 521-531, `start_capture` 534-545,
`end_capture` 548-556, `match` 570-669, `push_captures` 735-742, `str_find_aux` 773-816, `str_gsub`
942-983.

* An `Item` is a character class with its suffix (none, `*`, `+`, `-`, `?`), an opening or closing
  parenthesis, or `$` at the end.
* A class is a byte, `.`, a letter class behind `%`, or a set with ranges and a complement. `]`
  right behind `[` or `[^` stands for itself, as the source has it.
* `strMatch` tries every start position, first to last. No pattern of the repository begins with
  `^`, which would anchor it.
* `gsubPieces` is the loop of `str_gsub`: a match that ends where the last one has ended is not one,
  and the byte there is skipped.

Out of scope besides: `MAXCCALLS`, the bound of 200 nested calls of `match` (a pattern nests as many
as it has items), and `LUA_MAXCAPTURES`.
-/

namespace LsServer.Lua

/-- An element of a set `[...]`. -/
inductive SetElem where
  | lit (c : UInt8)
  | esc (cl : UInt8)
  | range (lo hi : UInt8)
  deriving DecidableEq, Repr

/-- What one character is matched against (`singlematch`). -/
inductive CharClass where
  | any
  | lit (c : UInt8)
  | esc (cl : UInt8)
  | set (neg : Bool) (els : List SetElem)
  deriving DecidableEq, Repr

/-- A pattern item. -/
inductive Item where
  | openCap
  | closeCap
  | endOfSubject
  | one (c : CharClass)
  | opt (c : CharClass)
  | star (c : CharClass)
  | plus (c : CharClass)
  | minus (c : CharClass)
  deriving DecidableEq, Repr

/-- Why a pattern raises. -/
inductive PatError where
  | endsWithPercent
  | missingBracket
  | unsupported
  deriving DecidableEq, Repr

/-! ## Classes -/

/-- `match_class` of the C locale. -/
def matchClass (c cl : UInt8) : Bool :=
  let lower := if 65 ≤ cl ∧ cl ≤ 90 then cl + 32 else cl
  let alpha := (97 ≤ c && c ≤ 122) || (65 ≤ c && c ≤ 90)
  let graph := 33 ≤ c && c ≤ 126
  let res : Option Bool :=
    if lower = 97 then some alpha
    else if lower = 99 then some (c < 32 || c == 127)
    else if lower = 100 then some (isdigit c)
    else if lower = 103 then some graph
    else if lower = 108 then some (97 ≤ c && c ≤ 122)
    else if lower = 112 then some (graph && !(alpha || isdigit c))
    else if lower = 115 then some (isspace c)
    else if lower = 117 then some (65 ≤ c && c ≤ 90)
    else if lower = 119 then some (alpha || isdigit c)
    else if lower = 120 then some (isxdigit c)
    else if lower = 122 then some (c == 0)
    else none
  match res with
  | none => cl == c
  | some r => if 97 ≤ cl ∧ cl ≤ 122 then r else !r

def SetElem.matches (c : UInt8) : SetElem → Bool
  | .lit d => d == c
  | .esc cl => matchClass c cl
  | .range lo hi => lo ≤ c && c ≤ hi

/-- `singlematch` on a present character. -/
def CharClass.matches (c : UInt8) : CharClass → Bool
  | .any => true
  | .lit d => d == c
  | .esc cl => matchClass c cl
  | .set neg els => if els.any (SetElem.matches c) then !neg else neg

/-! ## Reading a pattern -/

/-- Scans a set up to its closing bracket (`classend`): the set's text and the rest. The first
character is taken without looking for the bracket. -/
def scanSet : Bool → Bytes → Except PatError (Bytes × Bytes)
  | _, [] => .error .missingBracket
  | false, 93 :: p => .ok ([], p)
  | _, [37] => .error .missingBracket
  | _, 37 :: c :: p => do
    let (t, rest) ← scanSet false p
    .ok (37 :: c :: t, rest)
  | _, c :: p => do
    let (t, rest) ← scanSet false p
    .ok (c :: t, rest)

/-- The elements of a set's text (`matchbracketclass`). -/
def setElems : Bytes → List SetElem
  | [] => []
  | [37] => []
  | 37 :: cl :: t => .esc cl :: setElems t
  | lo :: 45 :: hi :: t => .range lo hi :: setElems t
  | c :: t => .lit c :: setElems t

/-- One class and the rest of the pattern. -/
def readClass : Bytes → Except PatError (CharClass × Bytes)
  | [] => .error .unsupported
  | [37] => .error .endsWithPercent
  | 37 :: cl :: p => .ok (.esc cl, p)
  | 91 :: 94 :: p => do
    let (t, rest) ← scanSet true p
    .ok (.set true (setElems t), rest)
  | 91 :: p => do
    let (t, rest) ← scanSet true p
    .ok (.set false (setElems t), rest)
  | 46 :: p => .ok (.any, p)
  | c :: p => .ok (.lit c, p)

/-- The optional suffix of a class. -/
def readSuffix (c : CharClass) : Bytes → Item × Bytes
  | 42 :: p => (.star c, p)
  | 43 :: p => (.plus c, p)
  | 45 :: p => (.minus c, p)
  | 63 :: p => (.opt c, p)
  | p => (.one c, p)

/-- The items of a pattern; every step reads at least one byte, so the length is fuel enough. -/
def compileAux : Nat → Bytes → Except PatError (List Item)
  | 0, _ => .ok []
  | _, [] => .ok []
  | n + 1, p =>
    match p with
    | 40 :: 41 :: _ => .error .unsupported
    | 40 :: p => (.openCap :: ·) <$> compileAux n p
    | 41 :: p => (.closeCap :: ·) <$> compileAux n p
    | [36] => .ok [.endOfSubject]
    | 37 :: c :: _ =>
      if c = 98 ∨ c = 102 ∨ isdigit c then .error .unsupported
      else do
        let (cl, p) ← readClass p
        let (i, p) := readSuffix cl p
        (i :: ·) <$> compileAux n p
    | p => do
      let (cl, p) ← readClass p
      let (i, p) := readSuffix cl p
      (i :: ·) <$> compileAux n p

def compile (p : Bytes) : Except PatError (List Item) := compileAux p.length p

/-! ## Matching -/

/-- A capture: open since the text `s`, or closed on a text. -/
inductive Cap where
  | opened (s : Bytes)
  | closed (t : Bytes)
  deriving DecidableEq, Repr

/-- What is left to match: from the rest of the subject and the captures (newest first) to where
the match ends. -/
abbrev Cont := Bytes → List Cap → Option (Bytes × List Cap)

/-- `end_capture`: closes the newest open capture at `s`. -/
def endCapture (s : Bytes) : List Cap → List Cap
  | [] => []
  | .opened t :: cs => .closed (t.take (t.length - s.length)) :: cs
  | c :: cs => c :: endCapture s cs

/-- The retry loop of `max_expand`: `i` repetitions, then one less. -/
def maxTry (k : Cont) (s : Bytes) (caps : List Cap) : Nat → Option (Bytes × List Cap)
  | 0 => k s caps
  | i + 1 =>
    match k (s.drop (i + 1)) caps with
    | some r => some r
    | none => maxTry k s caps i

/-- `max_expand`. -/
def maxExpand (c : CharClass) (k : Cont) (s : Bytes) (caps : List Cap) :
    Option (Bytes × List Cap) :=
  maxTry k s caps (s.takeWhile (CharClass.matches · c)).length

/-- `min_expand`. -/
def minExpand (c : CharClass) (k : Cont) : Bytes → List Cap → Option (Bytes × List Cap)
  | s, caps =>
    match k s caps with
    | some r => some r
    | none =>
      match s with
      | [] => none
      | a :: t => if c.matches a then minExpand c k t caps else none

/-- One item in front of `k` (`match`). -/
def Item.run (k : Cont) : Item → Cont
  | .openCap => fun s caps => k s (.opened s :: caps)
  | .closeCap => fun s caps => k s (endCapture s caps)
  | .endOfSubject => fun s caps => if s = [] then k s caps else none
  | .one c => fun s caps =>
    match s with
    | [] => none
    | a :: t => if c.matches a then k t caps else none
  | .opt c => fun s caps =>
    match s with
    | [] => k s caps
    | a :: t =>
      if c.matches a then
        match k t caps with
        | some r => some r
        | none => k s caps
      else k s caps
  | .star c => maxExpand c k
  | .plus c => fun s caps =>
    match s with
    | [] => none
    | a :: t => if c.matches a then maxExpand c k t caps else none
  | .minus c => minExpand c k

/-- `match(ms, s, p)`: where the items end on a prefix of `s`, and the captures. -/
def matchAt (items : List Item) : Cont :=
  items.foldr (fun i k => i.run k) fun s caps => some (s, caps)

/-- The captured texts, oldest first; the whole match when there is no capture. -/
def pushCaptures (s e : Bytes) (caps : List Cap) : List Bytes :=
  if caps = [] then [s.take (s.length - e.length)]
  else caps.reverse.map fun c => match c with | .closed t => t | .opened t => t

/-- `string.match` without an anchor: the first position that matches. -/
def strMatch (items : List Item) : Bytes → Option (List Bytes)
  | [] => (matchAt items [] []).map fun r => pushCaptures [] r.1 r.2
  | a :: t =>
    match matchAt items (a :: t) [] with
    | some (e, caps) => some (pushCaptures (a :: t) e caps)
    | none => strMatch items t

/-- The texts `string.gsub` hands to its function: each match whose end is not the end of the
previous one, from left to right. `last` is the previous end. -/
def gsubPieces (items : List Item) : Nat → Bytes → Option Bytes → List Bytes
  | 0, _, _ => []
  | n + 1, s, last =>
    match matchAt items s [] with
    | some (e, caps) =>
      if last ≠ some e then
        (pushCaptures s e caps).head?.toList ++ gsubPieces items n e (some e)
      else
        match s with
        | [] => []
        | _ :: t => gsubPieces items n t last
    | none =>
      match s with
      | [] => []
      | _ :: t => gsubPieces items n t last

/-- All pieces: a character is skipped or matched at most once, an empty match at most once at
each position. -/
def gsub (items : List Item) (s : Bytes) : List Bytes :=
  gsubPieces items (2 * s.length + 2) s none

end LsServer.Lua
