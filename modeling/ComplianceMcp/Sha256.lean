import ComplianceMcp.Utf8Lines

/-! # SHA-256 and HMAC

`hashlib.sha256(b).hexdigest()` and `hmac.new(key, b, sha256).hexdigest()` on lists
of bytes.  Words are natural numbers below `2 ^ 32`.  A `HexDigest` is a text of 64
lower-case hexadecimal digits, which is what both return; nothing is proved here
about how hard a digest is to invert. -/
namespace Sha256

open PyText

/-- A lower-case hexadecimal digit. -/
def isHexDigit (c : Char) : Bool := c.isDigit || ('a' ≤ c && c ≤ 'f')

/-- What `hexdigest()` returns. -/
structure HexDigest where
  text : String
  length_eq : text.toList.length = 64
  all_hex : text.toList.all isHexDigit = true
  deriving DecidableEq

/-! ## Words -/

/-- `2 ^ 32`. -/
def wordSize : Nat := 4294967296

/-- Rotation to the right by `k < 32` bits. -/
def rotr (k x : Nat) : Nat := x >>> k ||| (x <<< (32 - k)) % wordSize

def bigSigma0 (x : Nat) : Nat := rotr 2 x ^^^ rotr 13 x ^^^ rotr 22 x
def bigSigma1 (x : Nat) : Nat := rotr 6 x ^^^ rotr 11 x ^^^ rotr 25 x
def smallSigma0 (x : Nat) : Nat := rotr 7 x ^^^ rotr 18 x ^^^ x >>> 3
def smallSigma1 (x : Nat) : Nat := rotr 17 x ^^^ rotr 19 x ^^^ x >>> 10
def ch (x y z : Nat) : Nat := (x &&& y) ^^^ ((wordSize - 1 - x) &&& z)
def maj (x y z : Nat) : Nat := (x &&& y) ^^^ (x &&& z) ^^^ (y &&& z)

/-- The round constants. -/
def roundConstants : List Nat :=
  [0x428a2f98, 0x71374491, 0xb5c0fbcf, 0xe9b5dba5, 0x3956c25b, 0x59f111f1, 0x923f82a4, 0xab1c5ed5,
    0xd807aa98, 0x12835b01, 0x243185be, 0x550c7dc3, 0x72be5d74, 0x80deb1fe, 0x9bdc06a7, 0xc19bf174,
    0xe49b69c1, 0xefbe4786, 0x0fc19dc6, 0x240ca1cc, 0x2de92c6f, 0x4a7484aa, 0x5cb0a9dc, 0x76f988da,
    0x983e5152, 0xa831c66d, 0xb00327c8, 0xbf597fc7, 0xc6e00bf3, 0xd5a79147, 0x06ca6351, 0x14292967,
    0x27b70a85, 0x2e1b2138, 0x4d2c6dfc, 0x53380d13, 0x650a7354, 0x766a0abb, 0x81c2c92e, 0x92722c85,
    0xa2bfe8a1, 0xa81a664b, 0xc24b8b70, 0xc76c51a3, 0xd192e819, 0xd6990624, 0xf40e3585, 0x106aa070,
    0x19a4c116, 0x1e376c08, 0x2748774c, 0x34b0bcb5, 0x391c0cb3, 0x4ed8aa4a, 0x5b9cca4f, 0x682e6ff3,
    0x748f82ee, 0x78a5636f, 0x84c87814, 0x8cc70208, 0x90befffa, 0xa4506ceb, 0xbef9a3f7, 0xc67178f2]

/-- The chaining value. -/
structure State where
  (a b c d e f g h : Nat)
  deriving DecidableEq

/-- The initial chaining value. -/
def initial : State :=
  ⟨0x6a09e667, 0xbb67ae85, 0x3c6ef372, 0xa54ff53a, 0x510e527f, 0x9b05688c, 0x1f83d9ab, 0x5be0cd19⟩

/-! ## Compression -/

/-- Extend the message schedule, held with its last word first. -/
def extend : Nat → List Nat → List Nat
  | 0, w => w
  | n + 1, w =>
    extend n ((smallSigma1 (w.getD 1 0) + w.getD 6 0 + smallSigma0 (w.getD 14 0) + w.getD 15 0)
      % wordSize :: w)

/-- One round. -/
def round (s : State) (kw : Nat × Nat) : State :=
  let t1 := s.h + bigSigma1 s.e + ch s.e s.f s.g + kw.1 + kw.2
  let t2 := bigSigma0 s.a + maj s.a s.b s.c
  ⟨(t1 + t2) % wordSize, s.a, s.b, s.c, (s.d + t1) % wordSize, s.e, s.f, s.g⟩

/-- Big-endian words of a list of bytes. -/
def words : List UInt8 → List Nat
  | p :: q :: r :: s :: rest =>
    (p.toNat * 16777216 + q.toNat * 65536 + r.toNat * 256 + s.toNat) :: words rest
  | _ => []

/-- The chaining value after one block of 64 bytes. -/
def compress (s : State) (block : Bytes) : State :=
  let w := (extend 48 (words block).reverse).reverse
  let t := (roundConstants.zip w).foldl round s
  ⟨(s.a + t.a) % wordSize, (s.b + t.b) % wordSize, (s.c + t.c) % wordSize, (s.d + t.d) % wordSize,
    (s.e + t.e) % wordSize, (s.f + t.f) % wordSize, (s.g + t.g) % wordSize, (s.h + t.h) % wordSize⟩

/-- `n` in `k` big-endian bytes. -/
def bigEndian : Nat → Nat → Bytes
  | 0, _ => []
  | k + 1, n => UInt8.ofNat (n / 256 ^ k % 256) :: bigEndian k n

/-- The message with its padding. -/
def pad (b : Bytes) : Bytes :=
  b ++ 0x80 :: (List.replicate ((119 - b.length % 64) % 64) 0 ++ bigEndian 8 (8 * b.length))

/-- Blocks of 64 bytes, at most `n` of them. -/
def absorb : Nat → State → Bytes → State
  | 0, s, _ => s
  | n + 1, s, b => if b = [] then s else absorb n (compress s (b.take 64)) (b.drop 64)

/-- The chaining value of a whole message. -/
def final (b : Bytes) : State :=
  let p := pad b
  absorb (p.length / 64) initial p

/-! ## Digests -/

/-- Eight hexadecimal digits of a word. -/
def hex8 (n : Nat) : List Char :=
  (List.range 8).map (fun i => ((n >>> (4 * (7 - i))) % 16).digitChar)

/-- The words of a chaining value in hexadecimal. -/
def State.hex (s : State) : List Char :=
  [s.a, s.b, s.c, s.d, s.e, s.f, s.g, s.h].flatMap hex8

theorem isHexDigit_digitChar : ∀ n, n < 16 → isHexDigit n.digitChar = true := by decide

theorem hex8_all (n : Nat) : (hex8 n).all isHexDigit = true := by
  rw [hex8, List.all_map, List.all_eq_true]
  exact fun i _ => isHexDigit_digitChar _ (Nat.mod_lt _ (by decide))

theorem State.length_hex (s : State) : s.hex.length = 64 := rfl

theorem State.hex_all (s : State) : s.hex.all isHexDigit = true := by
  rw [State.hex, List.all_flatMap, List.all_eq_true]
  exact fun n _ => hex8_all n

/-- A chaining value as a digest. -/
def State.digest (s : State) : HexDigest where
  text := String.ofList s.hex
  length_eq := by rw [String.toList_ofList, s.length_hex]
  all_hex := by rw [String.toList_ofList, s.hex_all]

/-- `hashlib.sha256(b).hexdigest()`. -/
def sha256 (b : Bytes) : HexDigest := (final b).digest

/-- `hashlib.sha256(b).digest()`. -/
def sha256Bytes (b : Bytes) : Bytes :=
  let s := final b
  [s.a, s.b, s.c, s.d, s.e, s.f, s.g, s.h].flatMap (bigEndian 4)

/-- A key of exactly one block. -/
def blockKey (key : Bytes) : Bytes :=
  let k := if 64 < key.length then sha256Bytes key else key
  k ++ List.replicate (64 - k.length) 0

/-- `hmac.new(key, b, hashlib.sha256).hexdigest()`. -/
def hmacSha256 (key b : Bytes) : HexDigest :=
  let k := blockKey key
  sha256 (k.map (· ^^^ 0x5c) ++ sha256Bytes (k.map (· ^^^ 0x36) ++ b))

example : (sha256 [0x61, 0x62, 0x63]).text =
    "ba7816bf8f01cfea414140de5dae2223b00361a396177a9cb410ff61f20015ad" := by decide +kernel

end Sha256
