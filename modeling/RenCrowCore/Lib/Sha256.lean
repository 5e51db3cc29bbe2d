import RenCrowCore.Lib.Json

/-!
# SHA-256

The hash function of FIPS 180-4 on byte strings, and its lower-case hexadecimal
form.  Nothing about collisions is claimed; what the developments over it need
is the shape of the result: `sha256_length` (32 bytes), and
`sha256Hex_length` / `sha256Hex_isHexDigit` (64 hexadecimal digits).
-/

namespace Sha256

open List

/-! ## The compression function -/

/-- Rotation to the right by `n` bits, for `n` below 32. -/
def rotr (x n : UInt32) : UInt32 := (x >>> n) ||| (x <<< (32 - n))

/-- `Ch`: the first word chooses between the others. -/
def ch (x y z : UInt32) : UInt32 := (x &&& y) ^^^ (~~~x &&& z)

/-- `Maj`: the majority of three words. -/
def maj (x y z : UInt32) : UInt32 := (x &&& y) ^^^ (x &&& z) ^^^ (y &&& z)

/-- `Σ₀`. -/
def bigSigma0 (x : UInt32) : UInt32 := rotr x 2 ^^^ rotr x 13 ^^^ rotr x 22

/-- `Σ₁`. -/
def bigSigma1 (x : UInt32) : UInt32 := rotr x 6 ^^^ rotr x 11 ^^^ rotr x 25

/-- `σ₀`. -/
def smallSigma0 (x : UInt32) : UInt32 := rotr x 7 ^^^ rotr x 18 ^^^ (x >>> 3)

/-- `σ₁`. -/
def smallSigma1 (x : UInt32) : UInt32 := rotr x 17 ^^^ rotr x 19 ^^^ (x >>> 10)

/-- The round constants. -/
def roundConstants : List UInt32 :=
  [0x428a2f98, 0x71374491, 0xb5c0fbcf, 0xe9b5dba5, 0x3956c25b, 0x59f111f1, 0x923f82a4, 0xab1c5ed5,
   0xd807aa98, 0x12835b01, 0x243185be, 0x550c7dc3, 0x72be5d74, 0x80deb1fe, 0x9bdc06a7, 0xc19bf174,
   0xe49b69c1, 0xefbe4786, 0x0fc19dc6, 0x240ca1cc, 0x2de92c6f, 0x4a7484aa, 0x5cb0a9dc, 0x76f988da,
   0x983e5152, 0xa831c66d, 0xb00327c8, 0xbf597fc7, 0xc6e00bf3, 0xd5a79147, 0x06ca6351, 0x14292967,
   0x27b70a85, 0x2e1b2138, 0x4d2c6dfc, 0x53380d13, 0x650a7354, 0x766a0abb, 0x81c2c92e, 0x92722c85,
   0xa2bfe8a1, 0xa81a664b, 0xc24b8b70, 0xc76c51a3, 0xd192e819, 0xd6990624, 0xf40e3585, 0x106aa070,
   0x19a4c116, 0x1e376c08, 0x2748774c, 0x34b0bcb5, 0x391c0cb3, 0x4ed8aa4a, 0x5b9cca4f, 0x682e6ff3,
   0x748f82ee, 0x78a5636f, 0x84c87814, 0x8cc70208, 0x90befffa, 0xa4506ceb, 0xbef9a3f7, 0xc67178f2]

/-- The eight working variables. -/
structure State where
  a : UInt32
  b : UInt32
  c : UInt32
  d : UInt32
  e : UInt32
  f : UInt32
  g : UInt32
  h : UInt32
deriving DecidableEq, Repr

/-- The initial hash value. -/
def State.initial : State :=
  ⟨0x6a09e667, 0xbb67ae85, 0x3c6ef372, 0xa54ff53a, 0x510e527f, 0x9b05688c, 0x1f83d9ab, 0x5be0cd19⟩

/-- `n` further words of the message schedule; the words so far come newest first. -/
def extendSchedule : Nat → List UInt32 → List UInt32
  | 0, words => words
  | n + 1, words =>
    let next := smallSigma1 (words.getD 1 0) + words.getD 6 0 +
      smallSigma0 (words.getD 14 0) + words.getD 15 0
    extendSchedule n (next :: words)

/-- One round with its constant and its schedule word. -/
def round (s : State) (kw : UInt32 × UInt32) : State :=
  let t1 := s.h + bigSigma1 s.e + ch s.e s.f s.g + kw.1 + kw.2
  let t2 := bigSigma0 s.a + maj s.a s.b s.c
  ⟨t1 + t2, s.a, s.b, s.c, s.d + t1, s.e, s.f, s.g⟩

/-- The big-endian word of four bytes. -/
def wordOfBytes (b0 b1 b2 b3 : UInt8) : UInt32 :=
  (b0.toUInt32 <<< 24) ||| (b1.toUInt32 <<< 16) ||| (b2.toUInt32 <<< 8) ||| b3.toUInt32

/-- The words of a block. -/
def wordsOfBytes : List UInt8 → List UInt32
  | b0 :: b1 :: b2 :: b3 :: rest => wordOfBytes b0 b1 b2 b3 :: wordsOfBytes rest
  | _ => []

/-- One block of the message. -/
def compress (s : State) (block : List UInt8) : State :=
  let schedule := (extendSchedule 48 (wordsOfBytes block).reverse).reverse
  let r := (roundConstants.zip schedule).foldl round s
  ⟨s.a + r.a, s.b + r.b, s.c + r.c, s.d + r.d, s.e + r.e, s.f + r.f, s.g + r.g, s.h + r.h⟩

/-! ## Messages -/

/-- The `count` low bytes of a number, most significant first. -/
def bigEndian : Nat → Nat → List UInt8
  | 0, _ => []
  | count + 1, n => UInt8.ofNat (n / 256 ^ count) :: bigEndian count n

/-- A message with its padding and its bit length. -/
def pad (message : List UInt8) : List UInt8 :=
  message ++ 0x80 :: List.replicate ((119 - message.length % 64) % 64) 0 ++
    bigEndian 8 (8 * message.length)

/-- The first `count` blocks of 64 bytes. -/
def blocks : Nat → List UInt8 → List (List UInt8)
  | 0, _ => []
  | count + 1, bytes => bytes.take 64 :: blocks count (bytes.drop 64)

/-- The four bytes of a word, most significant first. -/
def bytesOfWord (w : UInt32) : List UInt8 := bigEndian 4 w.toNat

/-- The hash of a message. -/
def sha256 (message : List UInt8) : List UInt8 :=
  let padded := pad message
  let s := (blocks (padded.length / 64) padded).foldl compress State.initial
  [s.a, s.b, s.c, s.d, s.e, s.f, s.g, s.h].flatMap bytesOfWord

/-- The hash is 32 bytes long. -/
theorem sha256_length (message : List UInt8) : (sha256 message).length = 32 := by
  simp [sha256, bytesOfWord, bigEndian]

/-! ## The hexadecimal form -/

/-- The two lower-case digits of a byte. -/
def hexByte (b : UInt8) : List Char :=
  [Serde.Json.hexDigit (b.toNat / 16), Serde.Json.hexDigit (b.toNat % 16)]

/-- The hash in lower-case hexadecimal. -/
def sha256Hex (message : List UInt8) : String :=
  String.ofList ((sha256 message).flatMap hexByte)

/-- A hexadecimal digit, of either case. -/
def isHexDigit (c : Char) : Bool :=
  ('0' ≤ c && c ≤ '9') || ('a' ≤ c && c ≤ 'f') || ('A' ≤ c && c ≤ 'F')

theorem length_flatMap_hexByte (bytes : List UInt8) :
    (bytes.flatMap hexByte).length = 2 * bytes.length := by
  induction bytes with
  | nil => rfl
  | cons b bytes ih =>
    rw [flatMap_cons, length_append, ih, length_cons]
    simp only [hexByte, length_cons, length_nil]
    omega

/-- The hexadecimal form has 64 digits. -/
theorem sha256Hex_length (message : List UInt8) : (sha256Hex message).toList.length = 64 := by
  rw [sha256Hex, String.toList_ofList, length_flatMap_hexByte, sha256_length]

/-- What holds of the sixteen digits holds of every character of the hexadecimal
form. -/
theorem sha256Hex_forall {P : Char → Prop} (h : ∀ n < 16, P (Serde.Json.hexDigit n))
    (message : List UInt8) : ∀ c ∈ (sha256Hex message).toList, P c := by
  intro c hc
  rw [sha256Hex, String.toList_ofList, mem_flatMap] at hc
  obtain ⟨b, -, hcb⟩ := hc
  have hb : b.toNat < 256 := b.toNat_lt
  simp only [hexByte, mem_cons, not_mem_nil, or_false] at hcb
  rcases hcb with rfl | rfl
  · exact h _ (by omega)
  · exact h _ (by omega)

/-- Every character of the hexadecimal form is a hexadecimal digit. -/
theorem sha256Hex_isHexDigit (message : List UInt8) :
    ∀ c ∈ (sha256Hex message).toList, isHexDigit c = true :=
  sha256Hex_forall (by decide) message

-- The one-block example of the standard.
example : sha256Hex [0x61, 0x62, 0x63] =
    "ba7816bf8f01cfea414140de5dae2223b00361a396177a9cb410ff61f20015ad" := by
  decide +kernel

end Sha256
