/-
Module: SafRprGen.Lib.Bytes
Layer: Lib
Purpose: Words as bytes. An object of 8 * n bits is stored as n bytes, the low one first; reading those
  bytes back gives the object.
Main exports: wordBytes, readWord, readWord_wordBytes
-/
import Mathlib.Algebra.GroupWithZero.Nat
import Mathlib.Tactic.Common

namespace Bytes

/-- The low `n` bytes of a number, the low one first. -/
def natBytes : Nat → Nat → List UInt8
  | 0, _ => []
  | n + 1, x => UInt8.ofNat x :: natBytes n (x / 256)

def readNat : List UInt8 → Nat
  | [] => 0
  | b :: rest => b.toNat + 256 * readNat rest

theorem length_natBytes (n x : Nat) : (natBytes n x).length = n := by
  induction n generalizing x with
  | zero => rfl
  | succ n ih => rw [natBytes, List.length_cons, ih]

theorem readNat_natBytes (n x : Nat) : readNat (natBytes n x) = x % 256 ^ n := by
  induction n generalizing x with
  | zero => rw [natBytes, readNat, Nat.pow_zero, Nat.mod_one]
  | succ n ih =>
      have low : (UInt8.ofNat x).toNat = x % 256 := UInt8.toNat_ofNat'
      rw [natBytes, readNat, ih, low, Nat.pow_succ, Nat.mul_comm (256 ^ n), Nat.mod_mul]

/-- The bytes of a word of `n` bytes. -/
def wordBytes (n : Nat) (x : BitVec (8 * n)) : List UInt8 := natBytes n x.toNat

def readWord (n : Nat) (bytes : List UInt8) : BitVec (8 * n) := BitVec.ofNat _ (readNat bytes)

@[simp] theorem length_wordBytes (n : Nat) (x : BitVec (8 * n)) : (wordBytes n x).length = n :=
  length_natBytes n _

@[simp] theorem readWord_wordBytes (n : Nat) (x : BitVec (8 * n)) : readWord n (wordBytes n x) = x := by
  apply BitVec.eq_of_toNat_eq
  have small : x.toNat < 2 ^ (8 * n) := x.isLt
  have size : 256 ^ n = 2 ^ (8 * n) := by rw [Nat.pow_mul]
  rw [readWord, wordBytes, readNat_natBytes, BitVec.toNat_ofNat, size, Nat.mod_mod,
    Nat.mod_eq_of_lt small]

end Bytes
