import Mathlib.Algebra.Group.Nat.Defs
import Mathlib.Data.Nat.Bitwise
import Mathlib.Data.Nat.ModEq
import Mathlib.Data.Nat.Prime.Basic
import Mathlib.Logic.Function.Iterate

/-! # CRC-32

The checksum of IEEE 802.3, bit by bit from the low end of each byte. The register is
shifted linearly in exclusive or, so changing the last bytes of a text changes its
checksum by a word that depends on the change alone. How such words change a remainder
is arithmetic: two changes that meet in a single bit leave no modulus but one.
-/

namespace Gain

open Function

namespace Crc32

/-- One bit of the register, with the reversed polynomial. -/
def bit (crc : BitVec 32) : BitVec 32 :=
  if crc.getLsbD 0 then (crc >>> 1) ^^^ 0xEDB88320#32 else crc >>> 1

def byte (crc : BitVec 32) (b : UInt8) : BitVec 32 := bit^[8] (crc ^^^ b.toBitVec.setWidth 32)

/-- The register after some bytes. -/
def feed (crc : BitVec 32) (bytes : List UInt8) : BitVec 32 := bytes.foldl byte crc

def checksum (bytes : List UInt8) : BitVec 32 := feed 0xFFFFFFFF#32 bytes ^^^ 0xFFFFFFFF#32

theorem bit_xor (a b : BitVec 32) : bit (a ^^^ b) = bit a ^^^ bit b := by
  unfold bit
  rw [BitVec.getLsbD_xor, BitVec.ushiftRight_xor_distrib]
  cases a.getLsbD 0 <;> cases b.getLsbD 0
  · rfl
  · exact BitVec.xor_assoc _ _ _
  · change a >>> 1 ^^^ b >>> 1 ^^^ 0xEDB88320#32 = a >>> 1 ^^^ 0xEDB88320#32 ^^^ b >>> 1
    rw [BitVec.xor_assoc, BitVec.xor_assoc, BitVec.xor_comm (b >>> 1)]
  · change a >>> 1 ^^^ b >>> 1 =
      a >>> 1 ^^^ 0xEDB88320#32 ^^^ (b >>> 1 ^^^ 0xEDB88320#32)
    rw [BitVec.xor_comm (b >>> 1) 0xEDB88320#32, BitVec.xor_assoc,
      ← BitVec.xor_assoc 0xEDB88320#32, BitVec.xor_self, BitVec.zero_xor]

theorem bits_xor (n : Nat) (a b : BitVec 32) : bit^[n] (a ^^^ b) = bit^[n] a ^^^ bit^[n] b := by
  induction n generalizing a b with
  | zero => rfl
  | succ n ih => rw [iterate_succ_apply, bit_xor, ih, iterate_succ_apply, iterate_succ_apply]

theorem byte_xor (c d : BitVec 32) (a b : UInt8) :
    byte (c ^^^ d) (a ^^^ b) = byte c a ^^^ byte d b := by
  unfold byte
  rw [← bits_xor, UInt8.toBitVec_xor, BitVec.setWidth_xor]
  congr 1
  ac_rfl

theorem feed_append (c : BitVec 32) (first second : List UInt8) :
    feed c (first ++ second) = feed (feed c first) second := List.foldl_append

variable {bytes mask : List UInt8}

/-- Bytes of equal number that differ by a mask. -/
theorem feed_mask (c d : BitVec 32) (length : bytes.length = mask.length) :
    feed (c ^^^ d) (List.zipWith (· ^^^ ·) bytes mask) = feed c bytes ^^^ feed d mask := by
  induction bytes generalizing c d mask with
  | nil =>
    cases mask with
    | nil => rfl
    | cons m mask => cases length
  | cons b bytes ih =>
    cases mask with
    | nil => cases length
    | cons m mask =>
      change feed (byte (c ^^^ d) (b ^^^ m)) _ = feed (byte c b) bytes ^^^ feed (byte d m) mask
      rw [byte_xor]
      exact ih _ _ (Nat.succ.inj length)

/-- Masking the end of a text changes its checksum by the feed of the mask. -/
theorem checksum_mask (start : List UInt8) (length : bytes.length = mask.length) :
    checksum (start ++ List.zipWith (· ^^^ ·) bytes mask) =
      checksum (start ++ bytes) ^^^ feed 0#32 mask := by
  unfold checksum
  rw [feed_append, feed_append]
  have masked := feed_mask (feed 0xFFFFFFFF#32 start) 0#32 length
  rw [BitVec.xor_zero] at masked
  rw [masked]
  ac_rfl

end Crc32

/-! ## Remainders of masked words -/

theorem xor_add_two_mul_and (x w : Nat) : (x ^^^ w) + 2 * (x &&& w) = x + w := by
  induction x using Nat.strongRecOn generalizing w with
  | ind x ih =>
    rcases Nat.eq_zero_or_pos x with rfl | pos
    · rw [Nat.zero_xor, Nat.zero_and, Nat.add_comm]
    · have half := ih (x / 2) (by omega) (w / 2)
      rw [← Nat.xor_div_two, ← Nat.and_div_two] at half
      have xor := @Nat.xor_mod_two_eq_one x w
      have and := @Nat.and_mod_two_eq_one x w
      omega

variable {n w x : Nat}

/-- A mask that keeps a remainder. -/
theorem dvd_of_xor_mod (same : (x ^^^ w) % n = x % n) : (n : Int) ∣ w - 2 * (x &&& w : Nat) := by
  have sum := xor_add_two_mul_and x w
  have change' : (w : Int) - 2 * (x &&& w : Nat) = (x ^^^ w : Nat) - (x : Nat) := by omega
  rw [change']
  exact Nat.modEq_iff_dvd.mp same.symm

/-- Two masks that meet in one bit, of which one is odd, do not both keep the remainders of a
word. -/
theorem eq_one_of_masks {u i : Nat} (odd : w % 2 = 1) (meet : w &&& u = 2 ^ i)
    (first : (x ^^^ w) % n = x % n) (second : ((x ^^^ u) ^^^ w) % n = (x ^^^ u) % n) : n = 1 := by
  have one := dvd_of_xor_mod first
  have two := dvd_of_xor_mod second
  have meets : (x ^^^ u) &&& w = (x &&& w) ^^^ 2 ^ i := by
    rw [Nat.and_xor_distrib_right, Nat.and_comm u w, meet]
  -- the second mask moves the common part by one bit
  have moved : (n : Int) ∣ (2 ^ (i + 1) : Nat) := by
    have sum := xor_add_two_mul_and (x &&& w) (2 ^ i)
    rw [Nat.and_two_pow] at sum
    have twice := Int.dvd_sub one two
    rw [meets] at twice
    rw [pow_succ]
    cases bit : (x &&& w).testBit i with
    | false =>
      rw [bit, Bool.toNat_false, Nat.zero_mul] at sum
      have value : (w : Int) - 2 * (x &&& w : Nat) - (w - 2 * ((x &&& w) ^^^ 2 ^ i : Nat)) =
          (2 ^ i * 2 : Nat) := by omega
      rwa [value] at twice
    | true =>
      rw [bit, Bool.toNat_true, Nat.one_mul] at sum
      have value : (w : Int) - 2 * (x &&& w : Nat) - (w - 2 * ((x &&& w) ^^^ 2 ^ i : Nat)) =
          -(2 ^ i * 2 : Nat) := by omega
      rw [value] at twice
      exact Int.dvd_neg.mp twice
  have odd' : n % 2 = 1 := by
    obtain ⟨k, product⟩ := one
    by_contra even
    obtain ⟨m, rfl⟩ : ∃ m, n = 2 * m := ⟨n / 2, by omega⟩
    rw [Int.natCast_mul, Int.mul_assoc] at product
    omega
  have coprime : Nat.Coprime n (2 ^ (i + 1)) :=
    Nat.Coprime.pow_right _ (Nat.coprime_two_right.mpr (Nat.odd_iff.mpr odd'))
  exact coprime.eq_one_of_dvd (Int.natCast_dvd_natCast.mp moved)

end Gain
