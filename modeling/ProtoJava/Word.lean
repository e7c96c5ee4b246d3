/-! # Words

Integers of a fixed number of bits, read with and without a sign.
-/

namespace ProtoJava.Word

/-- The number of words of `bits` bits. -/
def count (bits : Nat) : Nat :=
  Nat.pow 2 bits

/-- The signed integer with the lowest `bits` bits of an integer. -/
def signed (bits : Nat) (i : Int) : Int :=
  Int.bmod i (count bits)

/-- The unsigned integer with the lowest `bits` bits of an integer. -/
def unsigned (bits : Nat) (i : Int) : Nat :=
  (i % count bits).toNat

end ProtoJava.Word
