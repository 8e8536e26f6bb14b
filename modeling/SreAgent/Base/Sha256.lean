import SreAgent.Base.Uuid

/-!
# SHA-256

The digest of a byte string, on words below `2 ^ 32`.
-/

namespace SreAgent.Base.Sha256

def rotr (x n : Nat) : Nat := (x >>> n) ||| ((x <<< (32 - n)) % 4294967296)

/-- The first 32 bits of the fractional parts of the cube roots of the first 64 primes. -/
def constants : List Nat :=
  [0x428a2f98, 0x71374491, 0xb5c0fbcf, 0xe9b5dba5, 0x3956c25b, 0x59f111f1, 0x923f82a4, 0xab1c5ed5,
    0xd807aa98, 0x12835b01, 0x243185be, 0x550c7dc3, 0x72be5d74, 0x80deb1fe, 0x9bdc06a7, 0xc19bf174,
    0xe49b69c1, 0xefbe4786, 0x0fc19dc6, 0x240ca1cc, 0x2de92c6f, 0x4a7484aa, 0x5cb0a9dc, 0x76f988da,
    0x983e5152, 0xa831c66d, 0xb00327c8, 0xbf597fc7, 0xc6e00bf3, 0xd5a79147, 0x06ca6351, 0x14292967,
    0x27b70a85, 0x2e1b2138, 0x4d2c6dfc, 0x53380d13, 0x650a7354, 0x766a0abb, 0x81c2c92e, 0x92722c85,
    0xa2bfe8a1, 0xa81a664b, 0xc24b8b70, 0xc76c51a3, 0xd192e819, 0xd6990624, 0xf40e3585, 0x106aa070,
    0x19a4c116, 0x1e376c08, 0x2748774c, 0x34b0bcb5, 0x391c0cb3, 0x4ed8aa4a, 0x5b9cca4f, 0x682e6ff3,
    0x748f82ee, 0x78a5636f, 0x84c87814, 0x8cc70208, 0x90befffa, 0xa4506ceb, 0xbef9a3f7, 0xc67178f2]

structure State where
  a : Nat
  b : Nat
  c : Nat
  d : Nat
  e : Nat
  f : Nat
  g : Nat
  h : Nat

/-- The first 32 bits of the fractional parts of the square roots of the first 8 primes. -/
def State.first : State :=
  ⟨0x6a09e667, 0xbb67ae85, 0x3c6ef372, 0xa54ff53a, 0x510e527f, 0x9b05688c, 0x1f83d9ab, 0x5be0cd19⟩

/-- One round, for the sum of a constant and a word of the schedule. -/
def State.round (s : State) (kw : Nat) : State :=
  let s1 := rotr s.e 6 ^^^ rotr s.e 11 ^^^ rotr s.e 25
  let ch := (s.e &&& s.f) ^^^ ((s.e ^^^ 0xffffffff) &&& s.g)
  let t1 := s.h + s1 + ch + kw
  let s0 := rotr s.a 2 ^^^ rotr s.a 13 ^^^ rotr s.a 22
  let maj := (s.a &&& s.b) ^^^ (s.a &&& s.c) ^^^ (s.b &&& s.c)
  ⟨(t1 + s0 + maj) % 4294967296, s.a, s.b, s.c, (s.d + t1) % 4294967296, s.e, s.f, s.g⟩

/-- The rounds of a block; the schedule is kept as its next sixteen words. -/
def rounds : List Nat → List Nat → State → State
  | k :: ks, w0 :: w1 :: w2 :: w3 :: w4 :: w5 :: w6 :: w7 :: w8 :: w9 :: w10 :: w11 :: w12 :: w13 :: w14 ::
    w15 :: _, s =>
    let s0 := rotr w1 7 ^^^ rotr w1 18 ^^^ (w1 >>> 3)
    let s1 := rotr w14 17 ^^^ rotr w14 19 ^^^ (w14 >>> 10)
    let next := (w0 + s0 + w9 + s1) % 4294967296
    rounds ks [w1, w2, w3, w4, w5, w6, w7, w8, w9, w10, w11, w12, w13, w14, w15, next] (s.round (k + w0))
  | _, _, s => s

def State.add (s t : State) : State :=
  ⟨(s.a + t.a) % 4294967296, (s.b + t.b) % 4294967296, (s.c + t.c) % 4294967296, (s.d + t.d) % 4294967296,
    (s.e + t.e) % 4294967296, (s.f + t.f) % 4294967296, (s.g + t.g) % 4294967296, (s.h + t.h) % 4294967296⟩

/-- Bytes as words, most significant byte first. -/
def words : List UInt8 → List Nat
  | a :: b :: c :: d :: rest => (a.toNat * 16777216 + b.toNat * 65536 + c.toNat * 256 + d.toNat) :: words rest
  | _ => []

/-- The message, a one bit, zeros and the length in bits: a multiple of 64 bytes. -/
def pad (bs : List UInt8) : List UInt8 :=
  bs ++ [128] ++ List.replicate ((119 - bs.length % 64) % 64) 0 ++
    (List.range 8).map fun i => UInt8.ofNat (bs.length * 8 / 256 ^ (7 - i) % 256)

/-- The given number of blocks, one after the other. -/
def blocks : Nat → List Nat → State → State
  | 0, _, s => s
  | n + 1, ws, s => blocks n (ws.drop 16) (s.add (rounds constants (ws.take 16) s))

/-- The hexadecimal digits of the digest. -/
def hexdigest (bs : List UInt8) : String :=
  let ws := words (pad bs)
  let s := blocks (ws.length / 16) ws .first
  String.ofList (([s.a, s.b, s.c, s.d, s.e, s.f, s.g, s.h].flatMap fun w => hexDigits w 8).map hexChar)

/-- A digest is 64 hexadecimal digits. -/
theorem hexdigest_digits (bs : List UInt8) :
    (hexdigest bs).toList.length = 64 ∧ ∀ c ∈ (hexdigest bs).toList, c ∈ "0123456789abcdef".toList := by
  simp only [hexdigest, String.toList_ofList]
  constructor
  · simp [hexDigits_length]
  · intro c hc
    obtain ⟨d, hd, rfl⟩ := List.mem_map.1 hc
    obtain ⟨w, -, hw⟩ := List.mem_flatMap.1 hd
    have small : d < 16 := hexDigits_lt hw
    have all : ∀ d < 16, hexChar d ∈ "0123456789abcdef".toList := by decide
    exact all d small

end SreAgent.Base.Sha256
