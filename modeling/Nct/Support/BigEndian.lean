import Mathlib.Data.List.Induction
import Mathlib.Tactic.Ring

/-! Big-endian words of any number of bytes. Encoding to a fixed width and
decoding gives the number back below the width's bound. -/
namespace BigEndian

/-- The number that a byte string denotes, most significant byte first. -/
def decode (bytes : List UInt8) : Nat :=
  bytes.foldl (fun acc byte => acc * 256 + byte.toNat) 0

/-- The low `width` bytes of a number, most significant first. -/
def encode : Nat → Nat → List UInt8
  | 0, _ => []
  | width + 1, x => encode width (x / 256) ++ [UInt8.ofNat x]

@[simp] theorem encode_length (width x : Nat) : (encode width x).length = width := by
  induction width generalizing x with
  | zero => rfl
  | succ width ih => simp [encode, ih]

theorem decode_concat (bytes : List UInt8) (byte : UInt8) :
    decode (bytes ++ [byte]) = decode bytes * 256 + byte.toNat := by
  simp [decode, List.foldl_append]

/-- Encoding keeps exactly the low bytes of the number. -/
theorem decode_encode (width x : Nat) : decode (encode width x) = x % 256 ^ width := by
  induction width generalizing x with
  | zero => simp [encode, decode, Nat.mod_one]
  | succ width ih =>
      have hByte : (UInt8.ofNat x).toNat = x % 256 := by simp
      rw [encode, decode_concat, ih, hByte, pow_succ, mul_comm (256 ^ width) 256,
        Nat.mod_mul, Nat.add_comm, mul_comm]

theorem decode_encode_of_lt {width x : Nat} (h : x < 256 ^ width) :
    decode (encode width x) = x := by
  rw [decode_encode, Nat.mod_eq_of_lt h]

theorem decode_lt (bytes : List UInt8) : decode bytes < 256 ^ bytes.length := by
  induction bytes using List.reverseRecOn with
  | nil => exact Nat.one_pos
  | append_singleton bytes byte ih =>
      have hByte : byte.toNat < 256 := byte.toNat_lt
      rw [decode_concat, List.length_append, List.length_singleton, pow_succ]
      omega

/-- Bytes are the encoding of their number to their own width. -/
theorem encode_decode (bytes : List UInt8) : encode bytes.length (decode bytes) = bytes := by
  induction bytes using List.reverseRecOn with
  | nil => rfl
  | append_singleton bytes byte ih =>
      have hByte : byte.toNat < 256 := byte.toNat_lt
      have hHigh : (decode bytes * 256 + byte.toNat) / 256 = decode bytes := by omega
      have hLow : UInt8.ofNat (decode bytes * 256 + byte.toNat) = byte := by
        apply UInt8.toNat_inj.mp
        rw [UInt8.toNat_ofNat']
        omega
      rw [List.length_append, List.length_singleton, encode, decode_concat, hHigh, hLow, ih]

end BigEndian
