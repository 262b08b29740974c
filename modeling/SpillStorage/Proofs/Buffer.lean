import SpillStorage.Buffer

/-!
Slices of buffers, and bytes written over a list.

What is proved:
  1. `getElem?_overwritten`: what is written over a list is seen in its place alone.
     `overwritten_append`: to write over a list in two parts is to write over each part.
  2. `slice_overwrite`: a slice of a buffer written to is the slice written to.
  3. `slice_resize`: a buffer that is lengthened shows the same bytes as before.
-/

namespace SpillStorage

/-- `bytes` in place of what the list holds from `offset` on. -/
def overwritten (old : List UInt8) (offset : Nat) (bytes : List UInt8) : List UInt8 :=
  old.take offset ++ bytes ++ old.drop (offset + bytes.length)

theorem overwritten_nil (old : List UInt8) (offset : Nat) : overwritten old offset [] = old := by
  simp [overwritten]

theorem getElem?_overwritten {old bytes : List UInt8} {offset : Nat} (h : offset ≤ old.length)
    (i : Nat) : (overwritten old offset bytes)[i]? =
      if offset ≤ i ∧ i < offset + bytes.length then bytes[i - offset]? else old[i]? := by
  have hfront : (old.take offset).length = offset := List.length_take_of_le h
  rw [overwritten, List.append_assoc]
  by_cases hbefore : i < offset
  · rw [List.getElem?_append_left (by omega), List.getElem?_take_of_lt hbefore, if_neg (by omega)]
  · rw [List.getElem?_append_right (by omega), hfront]
    by_cases hin : i < offset + bytes.length
    · rw [List.getElem?_append_left (by omega), if_pos (by omega)]
    · rw [List.getElem?_append_right (by omega), List.getElem?_drop, if_neg (by omega)]
      congr 1
      omega

theorem length_overwritten {old bytes : List UInt8} {offset : Nat} (h : offset ≤ old.length) :
    (overwritten old offset bytes).length = max old.length (offset + bytes.length) := by
  simp only [overwritten, List.length_append, List.length_take, List.length_drop]
  omega

theorem overwritten_end (old bytes : List UInt8) :
    overwritten old old.length bytes = old ++ bytes := by
  rw [overwritten, List.take_length, List.drop_eq_nil_of_le (Nat.le_add_right _ _), List.append_nil]

theorem overwritten_front {front bytes : List UInt8} (rest : List UInt8)
    (h : bytes.length = front.length) : overwritten (front ++ rest) 0 bytes = bytes ++ rest := by
  rw [overwritten, List.take_zero, List.nil_append, Nat.zero_add, h, List.drop_left]

/-- Writing past the first part leaves it as it is. -/
theorem overwritten_append_right {xs ys bytes : List UInt8} {offset : Nat}
    (h : xs.length ≤ offset) :
    overwritten (xs ++ ys) offset bytes = xs ++ overwritten ys (offset - xs.length) bytes := by
  have hoffset : offset + bytes.length - xs.length = offset - xs.length + bytes.length := by omega
  rw [overwritten, overwritten, List.take_append, List.drop_append, List.take_of_length_le h,
    List.drop_eq_nil_of_le (by omega), List.nil_append, hoffset]
  simp only [List.append_assoc]

/-- Writing over two parts: what fits goes to the first part, the rest to the start of the second.
-/
theorem overwritten_append {xs ys bytes : List UInt8} {offset : Nat} (h : offset ≤ xs.length) :
    overwritten (xs ++ ys) offset bytes =
      overwritten xs offset (bytes.take (min (xs.length - offset) bytes.length)) ++
        overwritten ys 0 (bytes.drop (min (xs.length - offset) bytes.length)) := by
  have htake : (xs ++ ys).take offset = xs.take offset := by
    rw [List.take_append_of_le_length h]
  by_cases hfits : bytes.length ≤ xs.length - offset
  · rw [Nat.min_eq_right hfits, List.take_length, List.drop_length, overwritten_nil]
    rw [overwritten, overwritten, htake, List.drop_append_of_le_length (by omega)]
    simp only [List.append_assoc]
  · rw [Nat.min_eq_left (by omega)]
    have hrest : offset + bytes.length - xs.length = bytes.length - (xs.length - offset) := by omega
    have hdrop : (xs ++ ys).drop (offset + bytes.length) =
        ys.drop (bytes.length - (xs.length - offset)) := by
      rw [List.drop_append, List.drop_eq_nil_of_le (by omega), List.nil_append, hrest]
    have hend : xs.drop (offset + (bytes.take (xs.length - offset)).length) = [] :=
      List.drop_eq_nil_of_le (by rw [List.length_take]; omega)
    rw [overwritten, overwritten, overwritten, htake, hdrop, hend, List.append_nil, List.take_zero,
      List.nil_append, Nat.zero_add, List.length_drop, List.append_assoc, List.append_assoc,
      ← List.append_assoc (bytes.take _), List.take_append_drop]

/-- What is written over two parts up to their end goes to the first part up to its end, and the
rest to the second part up to its end. -/
theorem overwritten_append_take {xs : List UInt8} {size offset : Nat} (hlength : xs.length = size)
    (h : offset ≤ size) (ys bytes : List UInt8) :
    overwritten (xs ++ ys) offset (bytes.take (size + ys.length - offset)) =
      overwritten xs offset (bytes.take (min (size - offset) bytes.length)) ++
        overwritten ys 0 ((bytes.drop (min (size - offset) bytes.length)).take ys.length) := by
  have hfirst : min (size - offset) (bytes.take (size + ys.length - offset)).length =
      min (size - offset) bytes.length := by
    rw [List.length_take]
    omega
  have hrest : (bytes.take (size + ys.length - offset)).drop (min (size - offset) bytes.length) =
      (bytes.drop (min (size - offset) bytes.length)).take ys.length := by
    rw [List.drop_take]
    by_cases hfits : bytes.length ≤ size - offset
    · rw [List.drop_eq_nil_of_le (by omega), List.take_nil, List.take_nil]
    · congr 1
      omega
  rw [overwritten_append (by omega), hlength, hfirst, hrest, List.take_take, Nat.min_eq_left]
  omega

namespace Buffer

theorem slice_append (b : Buffer) (offset m n : Nat) :
    b.slice offset (m + n) = b.slice offset m ++ b.slice (offset + m) n := by
  simp only [slice, ← List.map_append]
  rw [← List.range'_append_1]

theorem take_slice (b : Buffer) {offset m n : Nat} (h : m ≤ n) :
    (b.slice offset n).take m = b.slice offset m := by
  obtain ⟨k, rfl⟩ := Nat.exists_eq_add_of_le h
  rw [slice_append, List.take_append_of_le_length (Nat.le_of_eq (b.length_slice offset m).symm),
    List.take_of_length_le (Nat.le_of_eq (b.length_slice offset m))]

theorem drop_slice (b : Buffer) {offset m n : Nat} (h : m ≤ n) :
    (b.slice offset n).drop m = b.slice (offset + m) (n - m) := by
  obtain ⟨k, rfl⟩ := Nat.exists_eq_add_of_le h
  rw [slice_append, List.drop_append,
    List.drop_eq_nil_of_le (Nat.le_of_eq (b.length_slice offset m)),
    length_slice, Nat.sub_self, Nat.add_sub_cancel_left]
  rfl

theorem slice_congr {b c : Buffer} {offset n : Nat}
    (h : ∀ i, offset ≤ i → i < offset + n → b.byteAt i = c.byteAt i) :
    b.slice offset n = c.slice offset n := by
  apply List.map_congr_left
  intro i hi
  obtain ⟨hle, hlt⟩ := List.mem_range'_1.1 hi
  exact h i hle hlt

theorem slice_zero {b : Buffer} {offset n : Nat}
    (h : ∀ i, offset ≤ i → i < offset + n → b.byteAt i = 0) :
    b.slice offset n = List.replicate n 0 := by
  have hzeros : b.slice offset n = (zeros 0).slice offset n :=
    slice_congr fun i hle hlt => by rw [h i hle hlt, byteAt_zeros]
  rw [hzeros, slice, List.map_congr_left (fun i _ => byteAt_zeros 0 i), List.map_const',
    List.length_range']

theorem getD_toList (b : Buffer) {i : Nat} (h : i < b.size) : b.toList.getD i 0 = b.byteAt i := by
  have hlength : i < b.toList.length := by rwa [toList, length_slice]
  rw [List.getD_eq_getElem?_getD, List.getElem?_eq_getElem hlength, Option.getD_some]
  simp only [toList, slice, List.getElem_map, List.getElem_range', Nat.zero_add, Nat.one_mul]

theorem toList_zeros (size : Nat) : (zeros size).toList = List.replicate size 0 :=
  slice_zero fun _ _ _ => byteAt_zeros _ _

theorem slice_overwrite_self (b : Buffer) (offset : Nat) (bytes : List UInt8) :
    (b.overwrite offset bytes).slice offset bytes.length = bytes := by
  apply List.ext_getElem (length_slice _ _ _)
  intro i hi hi'
  simp only [slice, List.getElem_map, List.getElem_range', byteAt_overwrite]
  rw [if_pos (by omega)]
  have : offset + 1 * i - offset = i := by omega
  rw [this, List.getElem?_eq_getElem hi', Option.getD_some]

/-- A slice shows what was written into it. -/
theorem slice_overwrite (b : Buffer) (offset : Nat) {place n : Nat} {bytes : List UInt8}
    (h : place + bytes.length ≤ n) :
    (b.overwrite (offset + place) bytes).slice offset n =
      overwritten (b.slice offset n) place bytes := by
  obtain ⟨rest, rfl⟩ := Nat.exists_eq_add_of_le h
  rw [overwritten, take_slice b (by omega), drop_slice b (by omega), Nat.add_sub_cancel_left,
    slice_append, slice_append, ← Nat.add_assoc, slice_overwrite_self]
  congr 1
  · congr 1
    apply slice_congr
    intro i hle hlt
    rw [byteAt_overwrite, if_neg (by omega)]
  · apply slice_congr
    intro i hle hlt
    rw [byteAt_overwrite, if_neg (by omega)]

/-- A slice apart from what is written does not change. -/
theorem slice_overwrite_of_apart (b : Buffer) {offset n place : Nat} {bytes : List UInt8}
    (h : offset + n ≤ place ∨ place + bytes.length ≤ offset) :
    (b.overwrite place bytes).slice offset n = b.slice offset n := by
  apply slice_congr
  intro i hle hlt
  rw [byteAt_overwrite, if_neg (by omega)]

theorem slice_resize (b : Buffer) {size : Nat} (h : b.size ≤ size) (offset n : Nat) :
    (b.resize size).slice offset n = b.slice offset n := by
  apply slice_congr
  intro i hle hlt
  rw [byteAt_resize, if_neg (by omega)]

end Buffer

end SpillStorage
