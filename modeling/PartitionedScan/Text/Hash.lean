/-
A 64-bit hash of bytes: XXH64.

The bytes are grouped into words of eight, least significant byte first. Four words at a time go through four lanes,
which are merged; the words and bytes left over are mixed in one after another, and a last mixing spreads every bit.
-/

namespace PartitionedScan.Text.Hash

def prime1 : UInt64 := 0x9E3779B185EBCA87
def prime2 : UInt64 := 0xC2B2AE3D27D4EB4F
def prime3 : UInt64 := 0x165667B19E3779F9
def prime4 : UInt64 := 0x85EBCA77C2B2AE63
def prime5 : UInt64 := 0x27D4EB2F165667C5

def rotate (x : UInt64) (bits : UInt64) : UInt64 :=
  (x <<< bits) ||| (x >>> (64 - bits))

/-- one word into a lane -/
def round (lane word : UInt64) : UInt64 :=
  rotate (lane + word * prime2) 31 * prime1

/-- a lane into the merged state -/
def merge (state lane : UInt64) : UInt64 :=
  (state ^^^ round 0 lane) * prime1 + prime4

/-- the number that bytes make, least significant first -/
def word (bytes : List UInt8) : UInt64 :=
  bytes.foldr (fun b n => n * 256 + b.toUInt64) 0

/-- the full words, and the bytes after them -/
def words : List UInt8 → List UInt64 × List UInt8
  | a :: b :: c :: d :: e :: f :: g :: h :: rest =>
    let (ws, left) := words rest
    (word [a, b, c, d, e, f, g, h] :: ws, left)
  | left => ([], left)

/-- four lanes -/
structure Lanes where
  a : UInt64
  b : UInt64
  c : UInt64
  d : UInt64

namespace Lanes

def start (seed : UInt64) : Lanes :=
  ⟨seed + prime1 + prime2, seed + prime2, seed, seed - prime1⟩

/-- four words at a time, and the words left over -/
def absorb (l : Lanes) : List UInt64 → Lanes × List UInt64
  | w :: x :: y :: z :: rest => absorb ⟨round l.a w, round l.b x, round l.c y, round l.d z⟩ rest
  | left => (l, left)

def merged (l : Lanes) : UInt64 :=
  let state := rotate l.a 1 + rotate l.b 7 + rotate l.c 12 + rotate l.d 18
  merge (merge (merge (merge state l.a) l.b) l.c) l.d

end Lanes

/-- a word left over -/
def mixWord (state word : UInt64) : UInt64 :=
  rotate (state ^^^ round 0 word) 27 * prime1 + prime4

/-- a byte left over -/
def mixByte (state : UInt64) (byte : UInt8) : UInt64 :=
  rotate (state ^^^ (byte.toUInt64 * prime5)) 11 * prime1

/-- fewer than eight bytes left over: half a word if there is one, then byte by byte -/
def mixBytes (state : UInt64) : List UInt8 → UInt64
  | a :: b :: c :: d :: rest =>
    rest.foldl mixByte (rotate (state ^^^ (word [a, b, c, d] * prime1)) 23 * prime2 + prime3)
  | rest => rest.foldl mixByte state

/-- every bit of the state spread over all others -/
def spread (state : UInt64) : UInt64 :=
  let x := (state ^^^ (state >>> 33)) * prime2
  let y := (x ^^^ (x >>> 29)) * prime3
  y ^^^ (y >>> 32)

/-- the hash of bytes under a seed -/
def hash (seed : UInt64) (bytes : List UInt8) : UInt64 :=
  let (ws, left) := words bytes
  let (lanes, ws) := (Lanes.start seed).absorb ws
  let state := if bytes.length < 32 then seed + prime5 else lanes.merged
  spread (mixBytes (ws.foldl mixWord (state + UInt64.ofNat bytes.length)) left)

/-- the hash of the bytes of a text -/
def ofText (seed : UInt64) (s : String) : UInt64 :=
  hash seed s.toUTF8.toList

end PartitionedScan.Text.Hash
