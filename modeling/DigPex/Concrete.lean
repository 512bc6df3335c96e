import DigPex.Engine

/-!
# Concrete values

What runs on concrete inputs need: the hasher the standard library provides,
SipHash-1-3 with both keys zero, the digest and the text encoding that payment
claims use, and small configurations, ids and entries.  The general results
hold for every hasher and all such functions.
-/

namespace DigPex

/-- The four state words. -/
structure SipHasher13 where
  v0 : UInt64
  v1 : UInt64
  v2 : UInt64
  v3 : UInt64

namespace SipHasher13

/-- The initial state for the zero keys. -/
def new : SipHasher13 :=
  { v0 := 0x736f6d6570736575
    v1 := 0x646f72616e646f6d
    v2 := 0x6c7967656e657261
    v3 := 0x7465646279746573 }

def rotateLeft (word bits : UInt64) : UInt64 :=
  (word <<< bits) ||| (word >>> (64 - bits))

/-- One round. -/
def compress (state : SipHasher13) : SipHasher13 :=
  let a0 := state.v0 + state.v1
  let a2 := state.v2 + state.v3
  let a1 := rotateLeft state.v1 13 ^^^ a0
  let a3 := rotateLeft state.v3 16 ^^^ a2
  let b2 := a2 + a1
  let b0 := rotateLeft a0 32 + a3
  { v0 := b0
    v1 := rotateLeft a1 17 ^^^ b2
    v2 := rotateLeft b2 32
    v3 := rotateLeft a3 21 ^^^ b0 }

/-- Absorb one word with one round. -/
def absorb (state : SipHasher13) (word : UInt64) : SipHasher13 :=
  let mixed := compress { state with v3 := state.v3 ^^^ word }
  { mixed with v0 := mixed.v0 ^^^ word }

def word (bytes : List UInt8) : UInt64 :=
  bytes.foldr (fun byte high => (high <<< 8) ||| byte.toUInt64) 0

/-- The hash of a byte string: eight bytes a word, the last word carrying the
length, three finishing rounds. -/
def finish (bytes : List UInt8) : UInt64 :=
  let whole := bytes.length / 8
  let words := (List.range whole).map fun index =>
    word ((bytes.drop (8 * index)).take 8)
  let last :=
    (UInt64.ofNat bytes.length <<< 56) ||| word (bytes.drop (8 * whole))
  let absorbed := absorb (words.foldl absorb new) last
  let finished := compress (compress (compress
    { absorbed with v2 := absorbed.v2 ^^^ 0xff }))
  finished.v0 ^^^ finished.v1 ^^^ finished.v2 ^^^ finished.v3

end SipHasher13

/-- The hasher the standard library provides. -/
@[reducible] def sipHasher : DefaultHasher :=
  { finish := SipHasher13.finish }

/-- The published value for the empty input. -/
example : SipHasher13.finish [] = 15130871412783076140 := by
  decide +kernel

/-! ## The functions claims rest on -/

/-- The eight state words of SHA-256. -/
structure Sha256 where
  a : UInt32
  b : UInt32
  c : UInt32
  d : UInt32
  e : UInt32
  f : UInt32
  g : UInt32
  h : UInt32

namespace Sha256

def initial : Sha256 :=
  { a := 0x6a09e667
    b := 0xbb67ae85
    c := 0x3c6ef372
    d := 0xa54ff53a
    e := 0x510e527f
    f := 0x9b05688c
    g := 0x1f83d9ab
    h := 0x5be0cd19 }

def roundConstants : List UInt32 :=
  [0x428a2f98, 0x71374491, 0xb5c0fbcf, 0xe9b5dba5, 0x3956c25b, 0x59f111f1,
    0x923f82a4, 0xab1c5ed5, 0xd807aa98, 0x12835b01, 0x243185be, 0x550c7dc3,
    0x72be5d74, 0x80deb1fe, 0x9bdc06a7, 0xc19bf174, 0xe49b69c1, 0xefbe4786,
    0x0fc19dc6, 0x240ca1cc, 0x2de92c6f, 0x4a7484aa, 0x5cb0a9dc, 0x76f988da,
    0x983e5152, 0xa831c66d, 0xb00327c8, 0xbf597fc7, 0xc6e00bf3, 0xd5a79147,
    0x06ca6351, 0x14292967, 0x27b70a85, 0x2e1b2138, 0x4d2c6dfc, 0x53380d13,
    0x650a7354, 0x766a0abb, 0x81c2c92e, 0x92722c85, 0xa2bfe8a1, 0xa81a664b,
    0xc24b8b70, 0xc76c51a3, 0xd192e819, 0xd6990624, 0xf40e3585, 0x106aa070,
    0x19a4c116, 0x1e376c08, 0x2748774c, 0x34b0bcb5, 0x391c0cb3, 0x4ed8aa4a,
    0x5b9cca4f, 0x682e6ff3, 0x748f82ee, 0x78a5636f, 0x84c87814, 0x8cc70208,
    0x90befffa, 0xa4506ceb, 0xbef9a3f7, 0xc67178f2]

def rotateRight (word bits : UInt32) : UInt32 :=
  (word >>> bits) ||| (word <<< (32 - bits))

/-- One round. -/
def round (state : Sha256) (input : UInt32 × UInt32) : Sha256 :=
  let sum1 := rotateRight state.e 6 ^^^ rotateRight state.e 11 ^^^
    rotateRight state.e 25
  let choice := (state.e &&& state.f) ^^^ (~~~state.e &&& state.g)
  let first := state.h + sum1 + choice + input.1 + input.2
  let sum0 := rotateRight state.a 2 ^^^ rotateRight state.a 13 ^^^
    rotateRight state.a 22
  let majority := (state.a &&& state.b) ^^^ (state.a &&& state.c) ^^^
    (state.b &&& state.c)
  { a := first + sum0 + majority
    b := state.a
    c := state.b
    d := state.c
    e := state.d + first
    f := state.e
    g := state.f
    h := state.g }

/-- The message schedule, latest word first, after a number of
extensions. -/
def schedule (block : List UInt32) : Nat → List UInt32
  | 0 => block.reverse
  | steps + 1 =>
      let words := schedule block steps
      let early := words.getD 14 0
      let late := words.getD 1 0
      let sigma0 := rotateRight early 7 ^^^ rotateRight early 18 ^^^
        (early >>> 3)
      let sigma1 := rotateRight late 17 ^^^ rotateRight late 19 ^^^
        (late >>> 10)
      (sigma1 + words.getD 6 0 + sigma0 + words.getD 15 0) :: words

/-- Absorb one block of sixteen words. -/
def absorb (state : Sha256) (block : List UInt32) : Sha256 :=
  let mixed := (roundConstants.zip (schedule block 48).reverse).foldl
    round state
  { a := state.a + mixed.a
    b := state.b + mixed.b
    c := state.c + mixed.c
    d := state.d + mixed.d
    e := state.e + mixed.e
    f := state.f + mixed.f
    g := state.g + mixed.g
    h := state.h + mixed.h }

def word (bytes : List UInt8) : UInt32 :=
  bytes.foldl (fun high byte => (high <<< 8) ||| byte.toUInt32) 0

/-- The message, a one bit, zeros and the length in bits. -/
def pad (bytes : List UInt8) : List UInt8 :=
  bytes ++ [0x80] ++ List.replicate ((119 - bytes.length % 64) % 64) 0 ++
    (littleEndian 8 (8 * bytes.length)).reverse

def words (state : Sha256) : List UInt32 :=
  [state.a, state.b, state.c, state.d, state.e, state.f, state.g, state.h]

/-- The digest of a byte string. -/
def digest (bytes : List UInt8) : List UInt8 :=
  let padded := pad bytes
  let blocks := (List.range (padded.length / 64)).map fun block =>
    (List.range 16).map fun index =>
      word ((padded.drop (64 * block + 4 * index)).take 4)
  (blocks.foldl absorb initial).words.flatMap fun digestWord =>
    (littleEndian 4 digestWord.toNat).reverse

end Sha256

namespace Base64

def alphabet : List Char :=
  "ABCDEFGHIJKLMNOPQRSTUVWXYZabcdefghijklmnopqrstuvwxyz0123456789+/".toList

def digit (value : Nat) : Char :=
  alphabet.getD value '='

/-- Three bytes as four digits, a shorter rest padded. -/
def encodeChars : List UInt8 → List Char
  | [] => []
  | [first] =>
      let bits := first.toNat * 16
      [digit (bits / 64), digit (bits % 64), '=', '=']
  | [first, second] =>
      let bits := (first.toNat * 256 + second.toNat) * 4
      [digit (bits / 4096), digit (bits / 64 % 64), digit (bits % 64), '=']
  | first :: second :: third :: rest =>
      let bits := (first.toNat * 256 + second.toNat) * 256 + third.toNat
      [digit (bits / 262144), digit (bits / 4096 % 64),
        digit (bits / 64 % 64), digit (bits % 64)] ++ encodeChars rest

/-- The number that digits write. -/
def value (digits : List Char) : Option Nat :=
  digits.foldlM (fun high digit =>
    (alphabet.idxOf? digit).map fun low => high * 64 + low) 0

/-- Four digits as three bytes; padding is required at the end, and the bits
it leaves over are zero. -/
def decodeChars : List Char → Option (List UInt8)
  | [] => some []
  | [first, second, '=', '='] => do
      let bits ← value [first, second]
      if bits % 16 = 0 then some [.ofNat (bits / 16)] else none
  | [first, second, third, '='] => do
      let bits ← value [first, second, third]
      if bits % 4 = 0 then
        some [.ofNat (bits / 1024), .ofNat (bits / 4)]
      else
        none
  | first :: second :: third :: fourth :: rest => do
      let bits ← value [first, second, third, fourth]
      let later ← decodeChars rest
      some (.ofNat (bits / 65536) :: .ofNat (bits / 256) :: .ofNat bits ::
        later)
  | _ => none

end Base64

/-! ## Small values -/

/-- A configuration without jitter. -/
def exampleConfig (localPeerId : String) : PexConfig :=
  { localPeerId := localPeerId
    networkId := "network"
    flags := []
    interval := 60
    jitter := false }

/-- An id of 64 equal characters. -/
def exampleId (digit : Char) : String :=
  String.ofList (List.replicate 64 digit)

/-- A valid entry with one address. -/
def exampleEntry (digit : Char) (lastSeen port : Nat) : PeerEntry :=
  (PeerEntry.new (exampleId digit) "network" lastSeen .direct).withAddress
    (.direct "10.0.0.1" port)

/-- An entry with a two-digit id. -/
def numberedEntry (index : Nat) : PeerEntry :=
  (PeerEntry.new (String.ofList [Char.ofNat (48 + index / 10),
    Char.ofNat (48 + index % 10)]) "network" 1000 .direct).withAddress
      (.direct "10.0.0.1" 9444)

/-- Iteration in key order. -/
def exampleOrders : TickOrders :=
  { known := .ascending
    links := .ascending
    told := fun _ => .ascending }

end DigPex
