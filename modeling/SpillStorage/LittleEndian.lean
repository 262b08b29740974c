/-!
Numbers below `2 ^ 64` as eight bytes, the least significant first.
-/

namespace SpillStorage.LittleEndian

/-- The number of bytes. -/
def width : Nat := 8

/-- The lowest `count` bytes of a number. -/
def digits : Nat → Nat → List UInt8
  | 0, _ => []
  | count + 1, n => UInt8.ofNat (n % 256) :: digits count (n / 256)

def encode (n : Nat) : List UInt8 := digits width n

def decode : List UInt8 → Nat
  | [] => 0
  | b :: rest => b.toNat + 256 * decode rest

theorem length_digits (count n : Nat) : (digits count n).length = count := by
  induction count generalizing n with
  | zero => rfl
  | succ count ih => simp [digits, ih]

/-- Encoding keeps the number modulo what the bytes can hold. -/
theorem decode_digits (count n : Nat) : decode (digits count n) = n % Nat.pow 256 count := by
  induction count generalizing n with
  | zero => simp [digits, decode, Nat.mod_one]
  | succ count ih =>
    have hbyte : (UInt8.ofNat (n % 256)).toNat = n % 256 := by
      simp [UInt8.toNat_ofNat']
    rw [digits, decode, ih, hbyte, show Nat.pow 256 (count + 1) = 256 * Nat.pow 256 count from
      Nat.mul_comm _ _, Nat.mod_mul]

end SpillStorage.LittleEndian
