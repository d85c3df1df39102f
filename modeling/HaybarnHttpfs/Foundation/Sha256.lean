import HaybarnHttpfs.Foundation.ByteStrings
import Mathlib.Algebra.GroupWithZero.Nat

/-!
SHA-256 and its keyed form, on words below `2 ^ 32`.
-/

namespace HaybarnHttpfs.Foundation.Sha256

open HaybarnHttpfs.Foundation.ByteStrings

/-- The fractional parts of the cube roots of the first 64 primes. -/
def roundConstants : List Nat :=
  [0x428a2f98, 0x71374491, 0xb5c0fbcf, 0xe9b5dba5,
    0x3956c25b, 0x59f111f1, 0x923f82a4, 0xab1c5ed5,
    0xd807aa98, 0x12835b01, 0x243185be, 0x550c7dc3,
    0x72be5d74, 0x80deb1fe, 0x9bdc06a7, 0xc19bf174,
    0xe49b69c1, 0xefbe4786, 0x0fc19dc6, 0x240ca1cc,
    0x2de92c6f, 0x4a7484aa, 0x5cb0a9dc, 0x76f988da,
    0x983e5152, 0xa831c66d, 0xb00327c8, 0xbf597fc7,
    0xc6e00bf3, 0xd5a79147, 0x06ca6351, 0x14292967,
    0x27b70a85, 0x2e1b2138, 0x4d2c6dfc, 0x53380d13,
    0x650a7354, 0x766a0abb, 0x81c2c92e, 0x92722c85,
    0xa2bfe8a1, 0xa81a664b, 0xc24b8b70, 0xc76c51a3,
    0xd192e819, 0xd6990624, 0xf40e3585, 0x106aa070,
    0x19a4c116, 0x1e376c08, 0x2748774c, 0x34b0bcb5,
    0x391c0cb3, 0x4ed8aa4a, 0x5b9cca4f, 0x682e6ff3,
    0x748f82ee, 0x78a5636f, 0x84c87814, 0x8cc70208,
    0x90befffa, 0xa4506ceb, 0xbef9a3f7, 0xc67178f2]

/-- The chaining value. -/
structure State where
  a : Nat
  b : Nat
  c : Nat
  d : Nat
  e : Nat
  f : Nat
  g : Nat
  h : Nat

/-- The fractional parts of the square roots of the first eight primes. -/
def initial : State :=
  { a := 0x6a09e667, b := 0xbb67ae85, c := 0x3c6ef372, d := 0xa54ff53a
    e := 0x510e527f, f := 0x9b05688c, g := 0x1f83d9ab, h := 0x5be0cd19 }

def add (x y : Nat) : Nat := (x + y) % 2 ^ 32

def rotate (x n : Nat) : Nat := (x >>> n) ||| ((x <<< (32 - n)) % 2 ^ 32)

/-- The next word of the schedule, from the sixteen before it, the latest first. -/
def nextWord (words : List Nat) : Nat :=
  let x := words.getD 14 0
  let y := words.getD 1 0
  let s0 := (rotate x 7 ^^^ rotate x 18) ^^^ (x >>> 3)
  let s1 := (rotate y 17 ^^^ rotate y 19) ^^^ (y >>> 10)
  add (add (words.getD 15 0) s0) (add (words.getD 6 0) s1)

def extend : Nat → List Nat → List Nat
  | 0, words => words
  | n + 1, words => extend n (nextWord words :: words)

def round (state : State) (constant word : Nat) : State :=
  let s1 := (rotate state.e 6 ^^^ rotate state.e 11) ^^^ rotate state.e 25
  let choice := (state.e &&& state.f) ^^^ ((state.e ^^^ (2 ^ 32 - 1)) &&& state.g)
  let t1 := add (add (add state.h s1) (add choice constant)) word
  let s0 := (rotate state.a 2 ^^^ rotate state.a 13) ^^^ rotate state.a 22
  let majority := ((state.a &&& state.b) ^^^ (state.a &&& state.c)) ^^^ (state.b &&& state.c)
  { a := add t1 (add s0 majority), b := state.a, c := state.b, d := state.c
    e := add state.d t1, f := state.e, g := state.f, h := state.g }

/-- The words of a block of 64 bytes, the latest first. -/
def blockWords : Bytes → List Nat → List Nat
  | c0 :: c1 :: c2 :: c3 :: block, words =>
      blockWords block
        ((((c0.toNat * 256 + c1.toNat) * 256 + c2.toNat) * 256 + c3.toNat) :: words)
  | _, words => words

def compress (state : State) (block : Bytes) : State :=
  let words := (extend 48 (blockWords block [])).reverse
  let last := (roundConstants.zip words).foldl (fun state pair => round state pair.1 pair.2) state
  { a := add state.a last.a, b := add state.b last.b, c := add state.c last.c
    d := add state.d last.d, e := add state.e last.e, f := add state.f last.f
    g := add state.g last.g, h := add state.h last.h }

def lengthBytes (n : Nat) : Bytes :=
  [56, 48, 40, 32, 24, 16, 8, 0].map fun shift => UInt8.ofNat (n >>> shift)

/-- The text with a one bit, zeros up to a multiple of 64 bytes and its length in bits. -/
def padded (text : Bytes) : Bytes :=
  text ++ 128 ::
    (List.replicate ((119 - text.length % 64) % 64) 0 ++ lengthBytes (8 * text.length))

def compressAll : Nat → Bytes → State → State
  | 0, _, state => state
  | n + 1, text, state => compressAll n (text.drop 64) (compress state (text.take 64))

def wordBytes (x : Nat) : Bytes := [24, 16, 8, 0].map fun shift => UInt8.ofNat (x >>> shift)

def State.bytes (state : State) : Bytes :=
  wordBytes state.a ++ wordBytes state.b ++ wordBytes state.c ++ wordBytes state.d ++
    wordBytes state.e ++ wordBytes state.f ++ wordBytes state.g ++ wordBytes state.h

def sha256 (text : Bytes) : Bytes :=
  let message := padded text
  (compressAll (message.length / 64) message initial).bytes

def hmac256 (message key : Bytes) : Bytes :=
  let short := if 64 < key.length then sha256 key else key
  let block := short ++ List.replicate (64 - short.length) 0
  sha256 (block.map (· ^^^ 92) ++ sha256 (block.map (· ^^^ 54) ++ message))

theorem sha256_length (text : Bytes) : (sha256 text).length = 32 := rfl

end HaybarnHttpfs.Foundation.Sha256
