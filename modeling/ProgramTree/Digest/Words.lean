/-
What the two digests share: messages padded to blocks of sixty-four bytes,
blocks cut into sixteen words of thirty-two bits, and rotations.
-/

namespace ProgramTree.Digest

/-- Rotates a word to the left. -/
def rotateLeft (w : UInt32) (n : UInt32) : UInt32 :=
  (w <<< n) ||| (w >>> (32 - n))

/-- Rotates a word to the right. -/
def rotateRight (w : UInt32) (n : UInt32) : UInt32 :=
  (w >>> n) ||| (w <<< (32 - n))

/-- The low `count` bytes of a number, the least first. -/
def littleBytes (count n : Nat) : List UInt8 :=
  (List.range count).map fun i => (n / Nat.pow 256 i % 256).toUInt8

/-- The low `count` bytes of a number, the greatest first. -/
def bigBytes (count n : Nat) : List UInt8 :=
  (littleBytes count n).reverse

/-- How many zero bytes stand between the end mark and the length. -/
def zeroCount (size : Nat) : Nat :=
  (119 - size % 64) % 64

/-- A message with its end mark, zeros and `lengthBytes`. -/
def padded (message lengthBytes : List UInt8) : List UInt8 :=
  message ++ 0x80 :: (List.replicate (zeroCount message.length) 0 ++ lengthBytes)

/-- A padded message is a whole number of blocks. -/
theorem length_padded_mod (message lengthBytes : List UInt8) (h : lengthBytes.length = 8) :
    (padded message lengthBytes).length % 64 = 0 := by
  simp only [padded, List.length_append, List.length_cons, List.length_replicate, h, zeroCount]
  omega

/-- A word from four bytes, the least first. -/
def littleWord (a b c d : UInt8) : UInt32 :=
  a.toUInt32 ||| (b.toUInt32 <<< 8) ||| (c.toUInt32 <<< 16) ||| (d.toUInt32 <<< 24)

/-- Cuts bytes into words; what does not fill a word at the end is left out. -/
def words (word : UInt8 → UInt8 → UInt8 → UInt8 → UInt32) : List UInt8 → List UInt32
  | a :: b :: c :: d :: rest => word a b c d :: words word rest
  | _ => []

/-- Cuts words into blocks of sixteen, `fuel` blocks at most. -/
def blocks : Nat → List UInt32 → List (List UInt32)
  | 0, _ => []
  | fuel + 1, ws => if ws.isEmpty then [] else ws.take 16 :: blocks fuel (ws.drop 16)

/-- Two lower-case hexadecimal digits for each byte. -/
def hexOfBytes (bytes : List UInt8) : String :=
  let digit := fun n : Nat => (Nat.toDigits 16 n).headD '0'
  String.ofList (bytes.flatMap fun b => [digit (b.toNat / 16), digit (b.toNat % 16)])

end ProgramTree.Digest
