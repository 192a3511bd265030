import MerkleProof.Arithmetic

/-!
Byte strings, and the 32-byte strings that serve as digests and as map keys. The 32-byte
strings are ordered byte by byte, and this order is total.
-/

namespace MerkleProof

abbrev Bytes := List UInt8

structure Bytes32 where
  toList : Bytes
  length_toList : toList.length = 32
deriving DecidableEq

namespace Bytes32

attribute [simp] length_toList

@[ext] theorem ext {a b : Bytes32} (h : a.toList = b.toList) : a = b := by
  cases a
  cases b
  cases h
  rfl

def ofList? (bytes : Bytes) : Option Bytes32 :=
  if h : bytes.length = 32 then some ⟨bytes, h⟩ else none

@[simp] theorem ofList?_toList (b : Bytes32) : ofList? b.toList = some b := by
  simp [ofList?]

def zero : Bytes32 := ⟨List.replicate 32 0, rfl⟩

instance : Inhabited Bytes32 := ⟨zero⟩

instance : Ord Bytes32 := ⟨fun a b => compare a.toList b.toList⟩

theorem compare_eq (a b : Bytes32) : compare a b = compare a.toList b.toList := rfl

instance : Std.TransOrd Bytes32 where
  eq_swap {a b} := by
    rw [compare_eq, compare_eq]
    exact Std.OrientedOrd.eq_swap
  isLE_trans {a b c} hab hbc := by
    rw [compare_eq] at *
    exact Std.TransOrd.isLE_trans hab hbc

instance : Std.LawfulEqOrd Bytes32 where
  compare_self {a} := by
    rw [compare_eq]
    exact Std.ReflOrd.compare_self
  eq_of_compare {a b} h := by
    rw [compare_eq] at h
    exact ext (Std.LawfulEqOrd.eq_of_compare h)

end Bytes32

end MerkleProof
