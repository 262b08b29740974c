import SpillStorage.Proofs.Offset
import SpillStorage.Proofs.Pool.FreeBytes

/-!
The operations of a pool in checked arithmetic, where a sum that is no offset and a difference below
zero end the operation without a result.

What is proved:
  1. `Sound.freeBytes_lt`: the counter of a sound pool is an offset.
  2. `allocateChecked_eq`, `releaseChecked_eq` and `takeChecked_eq`: in a sound pool no check ever
     fails, and the results are those of the operations themselves.

Each definition repeats the operation of the same name, with every `+` and `-` replaced by its
checked form.
-/

namespace SpillStorage

namespace Segment

def finishChecked (s : Segment) : Option Nat := Offset.sum? s.position s.size

def coversChecked (s : Segment) (offset size : Nat) : Option Bool := do
  let finish ← s.finishChecked
  return decide (s.position ≤ offset) &&
    match Offset.sum? offset size with
    | some last => decide (last ≤ finish)
    | none => false

def overlapsChecked (s : Segment) (offset size : Nat) : Option Bool := do
  let finish ← s.finishChecked
  let last ← Offset.sum? offset size
  return decide (0 < size) && decide (0 < s.size) && decide (offset < finish) &&
    decide (s.position < last)

def joinChecked (s t : Segment) : Option (Option Segment) := do
  let finish ← s.finishChecked
  let other ← t.finishChecked
  if decide (finish = t.position) || decide (other = s.position) then
    let size ← Offset.sum? s.size t.size
    return some ⟨min s.position t.position, size⟩
  else return none

variable {s t : Segment} {offset size : Nat}

theorem finishChecked_eq (h : s.finish < Offset.bound) : s.finishChecked = some s.finish :=
  Offset.sum?_of_lt h

theorem coversChecked_eq (h : s.finish < Offset.bound) :
    s.coversChecked offset size = some (s.covers offset size) := by
  unfold coversChecked
  rw [finishChecked_eq h]
  rfl

theorem overlapsChecked_eq (h : s.finish < Offset.bound) (hrange : offset + size < Offset.bound) :
    s.overlapsChecked offset size = some (s.overlaps offset size) := by
  unfold overlapsChecked
  rw [finishChecked_eq h, Offset.sum?_of_lt hrange]
  rfl

/-- Segments that touch make up one that ends where one of them does. -/
theorem joinChecked_eq (hs : s.finish < Offset.bound) (ht : t.finish < Offset.bound) :
    s.joinChecked t = some (s.join? t) := by
  unfold joinChecked
  rw [finishChecked_eq hs, finishChecked_eq ht]
  have htouches : (decide (s.finish = t.position) || decide (t.finish = s.position)) =
      s.touches t := rfl
  simp only [Option.bind_eq_bind, Option.bind_some, join?, htouches]
  by_cases htouch : s.touches t = true
  · have hsize : s.size + t.size < Offset.bound := by
      simp only [touches, Bool.or_eq_true, decide_eq_true_eq] at htouch
      unfold finish at *
      omega
    rw [if_pos htouch, if_pos htouch, Offset.sum?_of_lt hsize]
    rfl
  · rw [if_neg htouch, if_neg htouch]
    rfl

end Segment

namespace Pool

def insertChecked (p : Pool) (segment : Segment) : Option Pool := do
  let freeBytes ← Offset.sum? p.freeBytes segment.size
  return { p.insert segment with freeBytes := freeBytes }

def removeChecked (p : Pool) (slot : Nat) : Option Pool :=
  match p.segmentAt slot with
  | none => some p
  | some segment => do
    let freeBytes ← Offset.difference? p.freeBytes segment.size
    return { p.remove slot with freeBytes := freeBytes }

def allocateChecked (p : Pool) (size : Nat) : Option (Option (Nat × Pool)) :=
  if size = 0 then some none
  else
    match p.bestFit size with
    | none => some none
    | some slot =>
      match p.segmentAt slot with
      | none => some none
      | some segment => do
        let rest ← p.removeChecked slot
        if size < segment.size then
          let position ← Offset.sum? segment.position size
          let left ← Offset.difference? segment.size size
          let rest ← rest.insertChecked ⟨position, left⟩
          return some (segment.position, rest)
        else return some (segment.position, rest)

def absorbChecked (p : Pool) (segment : Segment) (neighbour : Option (Nat × Segment)) :
    Option (Pool × Segment) :=
  match neighbour with
  | none => some (p, segment)
  | some (slot, other) => do
    match ← other.joinChecked segment with
    | none => return (p, segment)
    | some joined =>
      let rest ← p.removeChecked slot
      return (rest, joined)

def clashesChecked (neighbour : Option (Nat × Segment)) (offset size : Nat) : Option Bool :=
  match neighbour with
  | none => some false
  | some (_, segment) => segment.overlapsChecked offset size

def releaseChecked (p : Pool) (offset size : Nat) : Option (Except Failure Pool) :=
  if size = 0 ∨ Offset.sum? offset size = none then some (.error (.invalidRange offset size))
  else do
    let before := p.neighbourBefore offset
    let after := p.neighbourFrom offset
    let first ← clashesChecked before offset size
    let second ← clashesChecked after offset size
    if first || second then return .error (.invalidRange offset size)
    else
      let (p₁, joined) ← p.absorbChecked ⟨offset, size⟩ before
      let (p₂, merged) ← p₁.absorbChecked joined after
      let q ← p₂.insertChecked merged
      return .ok q

/-- Puts `[start, finish)` back, if that is not empty. -/
def fillChecked (p : Pool) (start finish : Nat) : Option Pool :=
  if start < finish then do
    let size ← Offset.difference? finish start
    p.insertChecked ⟨start, size⟩
  else some p

def takeChecked (p : Pool) (offset size : Nat) : Option (Except Failure Pool) :=
  if size = 0 then some (.ok p)
  else
    match p.atOrBefore offset with
    | none => some (.error (.invalidRange offset size))
    | some (slot, segment) => do
      if ← segment.coversChecked offset size then
        let rest ← p.removeChecked slot
        let withHead ← rest.fillChecked segment.position offset
        let last ← Offset.sum? offset size
        let finish ← segment.finishChecked
        let q ← withHead.fillChecked last finish
        return .ok q
      else return .error (.invalidRange offset size)

/-! ## The counter -/

/-- There are fewer free bytes than offsets. -/
theorem Sound.freeBytes_lt {p : Pool} (h : Sound p) : p.freeBytes < Offset.bound := by
  have hsub : p.bytes ⊆ Finset.range (Offset.bound - 1) := by
    intro x hx
    obtain ⟨s, hs, -, hlt⟩ := mem_bytes.1 hx
    obtain ⟨slot, hslot⟩ := (mem_segments h.toIndexed).1 hs
    have := h.bounded _ _ hslot
    rw [Finset.mem_range]
    omega
  have hbound : 0 < Offset.bound := by decide
  calc p.freeBytes = p.bytes.card := h.card_bytes.symm
    _ ≤ (Finset.range (Offset.bound - 1)).card := Finset.card_le_card hsub
    _ = Offset.bound - 1 := Finset.card_range _
    _ < Offset.bound := Nat.sub_one_lt_of_lt hbound

theorem insertChecked_eq {p : Pool} {segment : Segment} (hi : Sound (p.insert segment)) :
    p.insertChecked segment = some (p.insert segment) := by
  have hlt := hi.freeBytes_lt
  rw [freeBytes_insert] at hlt
  unfold insertChecked
  rw [Offset.sum?_of_lt hlt, ← freeBytes_insert]
  rfl

theorem removeChecked_eq {p : Pool} (h : Sound p) (slot : Nat) :
    p.removeChecked slot = some (p.remove slot) := by
  unfold removeChecked
  cases hs : p.segmentAt slot with
  | none => rw [remove_of_vacant hs]
  | some s =>
    have hle : s.size ≤ p.freeBytes := by
      rw [h.counter, Offset.total_perm ((segments_remove_perm h.toIndexed hs).map Segment.size),
        List.map_cons, Offset.total]
      exact Nat.le_add_right _ _
    have hbytes : (p.remove slot).freeBytes = p.freeBytes - s.size := by
      simp only [remove, hs]
    simp only [Offset.difference?_of_le hle, ← hbytes, Option.bind_eq_bind, Option.bind_some]
    rfl

/-! ## Allocation -/

theorem allocateChecked_eq {p : Pool} (h : Sound p) (size : Nat) :
    p.allocateChecked size = some (p.allocate size) := by
  unfold allocateChecked allocate
  by_cases hsize : size = 0
  · rw [if_pos hsize, if_pos hsize]
  rw [if_neg hsize, if_neg hsize]
  cases hfit : p.bestFit size with
  | none => rfl
  | some slot =>
    obtain ⟨s, hs, hle⟩ := bestFit_some h hfit
    simp only [hs, removeChecked_eq h, Option.bind_eq_bind, Option.bind_some]
    by_cases hlt : size < s.size
    · -- the tail that is put back ends where the segment did
      have hbound := h.bounded _ _ hs
      have hposition : s.position + size < Offset.bound := by
        unfold Segment.finish at hbound
        omega
      have hq : p.allocate size = some (s.position,
          (p.remove slot).insert ⟨s.position + size, s.size - size⟩) := by
        unfold allocate
        rw [if_neg hsize, hfit]
        simp only [hs, Option.bind_eq_bind, Option.bind_some, if_pos hlt]
        rfl
      have hi := (allocate_some h hq).2.2.1
      rw [if_pos hlt, if_pos hlt, Offset.sum?_of_lt hposition, Offset.difference?_of_le hle]
      simp only [Option.bind_some, insertChecked_eq hi]
      rfl
    · rw [if_neg hlt, if_neg hlt]
      rfl

/-! ## Release -/

theorem clashesChecked_eq {p : Pool} (h : Sound p) {neighbour : Option (Nat × Segment)}
    (hslot : ∀ slot t, neighbour = some (slot, t) → p.segmentAt slot = some t) {offset size : Nat}
    (hrange : offset + size < Offset.bound) :
    clashesChecked neighbour offset size = some (clashes neighbour offset size) := by
  cases neighbour with
  | none => rfl
  | some found => exact Segment.overlapsChecked_eq (h.bounded _ _ (hslot _ _ rfl)) hrange

theorem absorbChecked_eq {p : Pool} (h : Sound p) {s : Segment} (hbound : s.finish < Offset.bound)
    {neighbour : Option (Nat × Segment)}
    (hslot : ∀ slot t, neighbour = some (slot, t) → p.segmentAt slot = some t) :
    p.absorbChecked s neighbour = some (p.absorb s neighbour) := by
  cases neighbour with
  | none => rfl
  | some found =>
    have hjoin := Segment.joinChecked_eq (h.bounded _ _ (hslot _ _ rfl)) hbound
    simp only [absorbChecked, absorb, hjoin, Option.bind_eq_bind, Option.bind_some]
    cases found.2.join? s with
    | none => rfl
    | some joined =>
      simp only [removeChecked_eq h, Option.bind_some]
      rfl

theorem releaseChecked_eq {p : Pool} (h : Sound p) (offset size : Nat) :
    p.releaseChecked offset size = some (p.release offset size) := by
  unfold releaseChecked release
  by_cases hrange : size = 0 ∨ Offset.sum? offset size = none
  · rw [if_pos hrange, if_pos hrange]
  rw [if_neg hrange, if_neg hrange]
  rw [Offset.sum?_eq_none_iff] at hrange
  have hbound : offset + size < Offset.bound := by omega
  have hbefore : clashesChecked (p.neighbourBefore offset) offset size =
      some (clashes (p.neighbourBefore offset) offset size) :=
    clashesChecked_eq h (fun _ _ hb => (neighbourBefore_some h hb).1) hbound
  have hafter : clashesChecked (p.neighbourFrom offset) offset size =
      some (clashes (p.neighbourFrom offset) offset size) :=
    clashesChecked_eq h (fun _ _ ha => (neighbourFrom_some h ha).1) hbound
  simp only [hbefore, hafter, Option.bind_eq_bind, Option.bind_some]
  cases hclash : clashes (p.neighbourBefore offset) offset size ||
      clashes (p.neighbourFrom offset) offset size with
  | true => rfl
  | false =>
    have hclear := (clashes_iff h offset (by omega)).1 hclash
    cases hb : p.absorb ⟨offset, size⟩ (p.neighbourBefore offset) with
    | mk p₁ joined =>
    cases ha : p₁.absorb joined (p.neighbourFrom offset) with
    | mk p₂ merged =>
    have hjoined := joined_of_clear h (by omega) hbound hclear hb ha
    have hfirst : p.absorbChecked ⟨offset, size⟩ (p.neighbourBefore offset) =
        some (p₁, joined) := by
      rw [absorbChecked_eq h (s := ⟨offset, size⟩) hbound
        fun _ _ hb => (neighbourBefore_some h hb).1, hb]
    have hsecond : p₁.absorbChecked joined (p.neighbourFrom offset) = some (p₂, merged) := by
      rw [absorbChecked_eq hjoined.sound hjoined.bounded hjoined.kept, ha]
    simp only [Bool.false_eq_true, if_false, hfirst, hsecond, Option.bind_some,
      insertChecked_eq hjoined.insert]
    rfl

/-! ## Taking a range out -/

theorem fillChecked_eq {p : Pool} {start finish : Nat} (hfill : Sound (p.fill start finish)) :
    p.fillChecked start finish = some (p.fill start finish) := by
  unfold fillChecked
  unfold fill at hfill ⊢
  by_cases hlt : start < finish
  · rw [if_pos hlt] at hfill ⊢
    rw [if_pos hlt, Offset.difference?_of_le (Nat.le_of_lt hlt)]
    exact insertChecked_eq hfill
  · rw [if_neg hlt, if_neg hlt]

theorem takeChecked_eq {p : Pool} (h : Sound p) (offset size : Nat) :
    p.takeChecked offset size = some (p.take offset size) := by
  by_cases hsize : size = 0
  · unfold takeChecked take
    rw [if_pos hsize, if_pos hsize]
  cases hfound : p.atOrBefore offset with
  | none =>
    unfold takeChecked take
    rw [if_neg hsize, if_neg hsize, hfound]
  | some found =>
    obtain ⟨slot, s⟩ := found
    obtain ⟨hslot, hle, -⟩ := atOrBefore_some h hfound
    have hbound := h.bounded _ _ hslot
    by_cases hcovers : s.covers offset size = true
    · have hend := ((covers_iff hbound).1 hcovers).2
      have hlast : offset + size < Offset.bound := by omega
      obtain ⟨hhead, -⟩ := head_spec h hslot offset (by omega)
      obtain ⟨hcut, -⟩ := cut_spec h hslot (by omega) hle hend
      rw [take_eq_cut (by omega) hfound hcovers]
      unfold takeChecked
      rw [if_neg hsize, hfound]
      simp only [Segment.coversChecked_eq hbound, hcovers, removeChecked_eq h,
        fillChecked_eq hhead, Offset.sum?_of_lt hlast, Segment.finishChecked_eq hbound,
        Option.bind_eq_bind, Option.bind_some, if_true]
      have htail := fillChecked_eq hcut
      rw [htail]
      rfl
    · unfold takeChecked take
      rw [if_neg hsize, if_neg hsize, hfound]
      simp only [Segment.coversChecked_eq hbound, hcovers, Option.bind_eq_bind, Option.bind_some]
      rfl

end Pool

end SpillStorage
