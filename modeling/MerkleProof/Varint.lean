import MerkleProof.Bytes

/-!
Unsigned LEB128: seven bits to a byte, the least significant group first, the high bit set
on every byte but the last.
-/

namespace MerkleProof.Varint

def maxSize : Nat := 10

def groups (n : Nat) : Bytes :=
  if n < 128 then [UInt8.ofNat n] else UInt8.ofNat (n % 128 + 128) :: groups (n / 128)
termination_by n

def encode (value : UInt64) : Bytes := groups value.toNat

/-- Puts the groups of a number into a buffer from a place on, and tells where they end.
What does not fit into the buffer is lost. -/
def put (buffer : Bytes) (place n : Nat) : Bytes × Nat :=
  if n < 128 then (buffer.set place (UInt8.ofNat n), place + 1)
  else put (buffer.set place (UInt8.ofNat (n % 128 + 128))) (place + 1) (n / 128)
termination_by n

/-- Appends a number by way of a buffer of its own, or nothing if the
number does not fit there. -/
def append (bytes : Bytes) (value : UInt64) : Bytes :=
  let (buffer, stop) := put (List.replicate maxSize 0) 0 value.toNat
  bytes ++ if stop ≤ buffer.length then buffer.take stop else []

def decode : Bytes → Option (Nat × Bytes)
  | [] => none
  | b :: rest =>
      if b < 128 then some (b.toNat, rest)
      else (decode rest).map fun p => (b.toNat % 128 + 128 * p.1, p.2)

theorem decode_groups (n : Nat) (rest : Bytes) :
    decode (groups n ++ rest) = some (n, rest) := by
  fun_induction groups n with
  | case1 n small =>
      have byte : (UInt8.ofNat n).toNat = n := Nat.mod_eq_of_lt (by omega)
      simp [decode, UInt8.lt_iff_toNat_lt, byte, small]
  | case2 n big ih =>
      have byte : (UInt8.ofNat (n % 128 + 128)).toNat = n % 128 + 128 :=
        Nat.mod_eq_of_lt (by omega)
      simp only [List.cons_append, decode, UInt8.lt_iff_toNat_lt, byte, ih,
        Option.map_some]
      rw [if_neg (by simp)]
      congr 2
      omega

theorem decode_encode (v : UInt64) (rest : Bytes) :
    decode (encode v ++ rest) = some (v.toNat, rest) :=
  decode_groups v.toNat rest

end MerkleProof.Varint
