import StakeLedger.Number.Bytes
/-!
# SHA-256

The digest of a sequence of bytes: the message is padded to whole blocks of 64 bytes, and each
block is stirred into a state of eight words.
-/

namespace StakeLedger.Sha256

def initial : List UInt32 :=
  [0x6a09e667, 0xbb67ae85, 0x3c6ef372, 0xa54ff53a, 0x510e527f, 0x9b05688c, 0x1f83d9ab, 0x5be0cd19]

/-- One constant for each of the 64 rounds. -/
def roundConstants : List UInt32 :=
  [0x428a2f98, 0x71374491, 0xb5c0fbcf, 0xe9b5dba5, 0x3956c25b, 0x59f111f1, 0x923f82a4, 0xab1c5ed5,
   0xd807aa98, 0x12835b01, 0x243185be, 0x550c7dc3, 0x72be5d74, 0x80deb1fe, 0x9bdc06a7, 0xc19bf174,
   0xe49b69c1, 0xefbe4786, 0x0fc19dc6, 0x240ca1cc, 0x2de92c6f, 0x4a7484aa, 0x5cb0a9dc, 0x76f988da,
   0x983e5152, 0xa831c66d, 0xb00327c8, 0xbf597fc7, 0xc6e00bf3, 0xd5a79147, 0x06ca6351, 0x14292967,
   0x27b70a85, 0x2e1b2138, 0x4d2c6dfc, 0x53380d13, 0x650a7354, 0x766a0abb, 0x81c2c92e, 0x92722c85,
   0xa2bfe8a1, 0xa81a664b, 0xc24b8b70, 0xc76c51a3, 0xd192e819, 0xd6990624, 0xf40e3585, 0x106aa070,
   0x19a4c116, 0x1e376c08, 0x2748774c, 0x34b0bcb5, 0x391c0cb3, 0x4ed8aa4a, 0x5b9cca4f, 0x682e6ff3,
   0x748f82ee, 0x78a5636f, 0x84c87814, 0x8cc70208, 0x90befffa, 0xa4506ceb, 0xbef9a3f7, 0xc67178f2]

/-- The word with its bits moved `n` places to the right, around the end. -/
def rotate (x : UInt32) (n : UInt32) : UInt32 := (x >>> n) ||| (x <<< (32 - n))

/-- A number as `count` bytes, the most significant first. -/
def bigEndian (count value : Nat) : Bytes :=
  (List.range count).reverse.map fun i => UInt8.ofNat (value / Nat.pow 256 i)

/-- The message, a one bit, zeros up to a whole number of blocks, and the length in bits. -/
def padded (message : Bytes) : Bytes :=
  let zeros := (119 - message.length % 64) % 64
  message ++ 0x80 :: List.replicate zeros 0 ++ bigEndian 8 (8 * message.length)

/-- The words of some bytes, four bytes each, the most significant first. -/
def wordsOf : Bytes → List UInt32
  | a :: b :: c :: d :: rest =>
    ((a.toUInt32 <<< 24) ||| (b.toUInt32 <<< 16) ||| (c.toUInt32 <<< 8) ||| d.toUInt32) ::
      wordsOf rest
  | _ => []

/-- The word that follows the sixteen newest words of the schedule, oldest first. -/
def nextWord (w : Array UInt32) (i : Nat) : UInt32 :=
  let a := w.getD (i + 1) 0
  let b := w.getD (i + 14) 0
  let low := rotate a 7 ^^^ rotate a 18 ^^^ (a >>> 3)
  let high := rotate b 17 ^^^ rotate b 19 ^^^ (b >>> 10)
  w.getD i 0 + low + w.getD (i + 9) 0 + high

/-- The 64 words that a block of sixteen words is spread over. -/
def schedule (block : List UInt32) : List UInt32 :=
  ((List.range 48).foldl (fun w i => w.push (nextWord w i)) block.toArray).toList

def round (state : List UInt32) (step : UInt32 × UInt32) : List UInt32 :=
  match state with
  | [a, b, c, d, e, f, g, h] =>
    let choice := (e &&& f) ^^^ (~~~e &&& g)
    let majority := (a &&& b) ^^^ (a &&& c) ^^^ (b &&& c)
    let t := h + (rotate e 6 ^^^ rotate e 11 ^^^ rotate e 25) + choice + step.1 + step.2
    let u := (rotate a 2 ^^^ rotate a 13 ^^^ rotate a 22) + majority
    [t + u, a, b, c, d + t, e, f, g]
  | other => other

/-- The state after a block of sixteen words. -/
def stir (state block : List UInt32) : List UInt32 :=
  let stirred := (roundConstants.zip (schedule block)).foldl round state
  List.zipWith (· + ·) state stirred

/-- The state after so many blocks, taken from the front of some words. -/
def absorb (state : List UInt32) : Nat → List UInt32 → List UInt32
  | 0, _ => state
  | blocks + 1, words => absorb (stir state (words.take 16)) blocks (words.drop 16)

def digest (message : Bytes) : Bytes :=
  let words := wordsOf (padded message)
  (absorb initial (words.length / 16) words).flatMap fun w => bigEndian 4 w.toNat

end StakeLedger.Sha256
