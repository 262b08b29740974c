import Std.Data.ExtTreeMap

/-!
A buffer is a run of bytes of a given size. Only bytes that were written are stored, the others are
zero, so a buffer of many gigabytes costs nothing until it is filled. The view is `byteAt`:
`byteAt_overwrite` and `byteAt_resize` say what each change does to it.
-/

namespace SpillStorage

structure Buffer where
  size : Nat
  stored : Std.ExtTreeMap Nat UInt8

namespace Buffer

/-- A run of zeros. -/
def zeros (size : Nat) : Buffer := ⟨size, ∅⟩

/-- The byte at `i`; past the end there are zeros. -/
def byteAt (b : Buffer) (i : Nat) : UInt8 := b.stored[i]?.getD 0

/-- The `length` bytes from `offset` on. -/
def slice (b : Buffer) (offset length : Nat) : List UInt8 :=
  (List.range' offset length).map b.byteAt

def toList (b : Buffer) : List UInt8 := b.slice 0 b.size

/-- Bytes by their places from `offset` on, over those already stored. -/
def store (stored : Std.ExtTreeMap Nat UInt8) (offset : Nat) :
    List UInt8 → Std.ExtTreeMap Nat UInt8
  | [] => stored
  | byte :: rest => store (stored.insert offset byte) (offset + 1) rest

/-- The buffer with `bytes` at `offset`. Bytes past the end lengthen it, with zeros in between. -/
def overwrite (b : Buffer) (offset : Nat) (bytes : List UInt8) : Buffer where
  size := if bytes.isEmpty then b.size else max b.size (offset + bytes.length)
  stored := store b.stored offset bytes

def ofList (bytes : List UInt8) : Buffer := (zeros 0).overwrite 0 bytes

/-- The buffer cut or lengthened with zeros to `size`. -/
def resize (b : Buffer) (size : Nat) : Buffer where
  size := size
  stored := if b.size ≤ size then b.stored else b.stored.filter fun i _ => decide (i < size)

/-! ## The bytes after a change -/

theorem byteAt_zeros (size i : Nat) : (zeros size).byteAt i = 0 := by
  simp [byteAt, zeros]

theorem getElem?_store (stored : Std.ExtTreeMap Nat UInt8) (offset i : Nat)
    (bytes : List UInt8) :
    (store stored offset bytes)[i]? =
      if offset ≤ i ∧ i < offset + bytes.length then bytes[i - offset]? else stored[i]? := by
  induction bytes generalizing stored offset with
  | nil =>
    have none_named : ¬ (offset ≤ i ∧ i < offset + ([] : List UInt8).length) := by
      simp only [List.length_nil]
      omega
    rw [store, if_neg none_named]
  | cons byte rest ih =>
    rw [store, ih, Std.ExtTreeMap.getElem?_insert]
    by_cases hi : i = offset
    · subst hi
      rw [if_neg (by omega), if_pos (by simp), if_pos (by simp)]
      simp
    · have hne : ¬ compare offset i = .eq := by
        simp only [Nat.compare_eq_eq]
        omega
      by_cases hlt : offset < i
      · have hsub : i - offset = (i - (offset + 1)) + 1 := by omega
        have : (offset + 1 ≤ i ∧ i < offset + 1 + rest.length) ↔
            (offset ≤ i ∧ i < offset + (byte :: rest).length) := by
          simp only [List.length_cons]
          omega
        simp only [this, hne, if_false, hsub, List.getElem?_cons_succ]
      · rw [if_neg (by omega), if_neg hne, if_neg (by omega)]

/-- An overwrite changes exactly the bytes that it names. -/
theorem byteAt_overwrite (b : Buffer) (offset i : Nat) (bytes : List UInt8) :
    (b.overwrite offset bytes).byteAt i =
      if offset ≤ i ∧ i < offset + bytes.length then bytes[i - offset]?.getD 0
      else b.byteAt i := by
  simp only [byteAt, overwrite, getElem?_store]
  split <;> rfl

/-- Cutting a buffer forgets the bytes past its new end; lengthening it adds zeros. -/
theorem byteAt_resize (b : Buffer) (size i : Nat) :
    (b.resize size).byteAt i = if size < b.size ∧ size ≤ i then 0 else b.byteAt i := by
  unfold byteAt resize
  by_cases h : b.size ≤ size
  · rw [if_pos h, if_neg (by omega)]
  · rw [if_neg h, Std.ExtTreeMap.getElem?_filter']
    by_cases hi : size ≤ i
    · rw [if_pos (by omega)]
      cases b.stored[i]? <;> simp [Option.filter, Nat.not_lt.2 hi]
    · rw [if_neg (by omega)]
      cases b.stored[i]? <;> simp [Option.filter, Nat.not_le.1 hi]

theorem length_slice (b : Buffer) (offset length : Nat) :
    (b.slice offset length).length = length := by
  simp [slice]

end Buffer

end SpillStorage
