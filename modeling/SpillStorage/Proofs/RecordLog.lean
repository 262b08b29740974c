import SpillStorage.Proofs.Space.Bytes

/-!
Record logs as lists of records.

What is proved:
  1. `holds_adopt` and `Holds.adopt`: a log that takes over a space holds the records that fit in it
     whole, and a log whose space is handed on to another log comes back as it was.
  2. `Holds.fetch_eq`: every record of the list is fetched whole, whatever blocks it lies across.
  3. `Holds.store_ok`, `Holds.store_failed` and `store_length`: a record of the right length for
     which there is room is appended to the list, and answered by how long the list was; any other
     changes nothing.

The size of the space is that of the records and a rest shorter than a record, which is there from
the start and never changes. So the record to be stored never fits, and room is made every time.
-/

namespace SpillStorage.RecordLog

open Space (Stands shown)

/-- The log holds the records and no more, and `rest` bytes of no record lie behind them. -/
structure Holds (l : RecordLog) (h : Host) (rest : Nat) (records : List (List UInt8)) : Prop where
  stands : Stands (l.space, h)
  count : l.count = records.length
  size : l.space.logicalSize = l.count * l.recordLength + rest
  short : rest < l.recordLength
  shows : ∀ i record, records[i]? = some record → record.length = l.recordLength ∧
    shown (l.space, h) (i * l.recordLength) record.length = record

/-- The records of one length that a space holds whole, as they are read from it. -/
def recordsIn (s : Space) (h : Host) (recordLength : Nat) : List (List UInt8) :=
  (List.range (s.logicalSize / recordLength)).map fun i =>
    (s.read h (i * recordLength) recordLength).bytes

variable {l l' : RecordLog} {s : Space} {h h' : Host} {rest recordLength : Nat}
  {records : List (List UInt8)}

/-! ## Taking over a space -/

theorem adopt_ok (hadopt : adopt s h recordLength = .ok h' l) :
    0 < recordLength ∧ h' = h ∧ l = ⟨s, recordLength, s.logicalSize / recordLength⟩ := by
  unfold adopt at hadopt
  split at hadopt
  · cases hadopt
  · next hlength =>
    cases hadopt
    exact ⟨Nat.pos_of_ne_zero hlength, rfl, rfl⟩

/-- A range of whole records lies in the space. -/
theorem record_le {i count size : Nat} (hi : i < count) (hsize : count * recordLength ≤ size) :
    i * recordLength + recordLength ≤ size :=
  calc i * recordLength + recordLength = (i + 1) * recordLength := (Nat.succ_mul ..).symm
    _ ≤ count * recordLength := Nat.mul_le_mul_right _ hi
    _ ≤ size := hsize

/-- A log holds what its space showed when it was taken over. -/
theorem holds_adopt (ha : Stands (s, h)) (hadopt : adopt s h recordLength = .ok h' l) :
    Holds l h' (s.logicalSize % recordLength) (recordsIn s h recordLength) := by
  obtain ⟨hpos, rfl, rfl⟩ := adopt_ok hadopt
  refine ⟨ha, ?_, ?_, Nat.mod_lt _ hpos, ?_⟩
  · rw [recordsIn, List.length_map, List.length_range]
  · exact (Nat.div_add_mod' s.logicalSize recordLength).symm
  · intro i record hrecord
    rw [recordsIn, List.getElem?_map, Option.map_eq_some_iff] at hrecord
    obtain ⟨j, hj, rfl⟩ := hrecord
    obtain ⟨hlt, hij⟩ := List.getElem?_eq_some_iff.1 hj
    rw [List.length_range] at hlt
    rw [List.getElem_range] at hij
    subst hij
    have hle := record_le hlt (Nat.div_mul_le_self s.logicalSize recordLength)
    obtain ⟨others, hhoused⟩ := ha.housed
    have hread : (s.read h' (i * recordLength) recordLength).bytes =
        shown (s, h') (i * recordLength) recordLength := by
      rw [Space.read_spec ha.sound hhoused, if_pos hle]
      rfl
    have hlength := Space.length_shown ha hle
    simp only [hread]
    exact ⟨hlength, congrArg _ hlength⟩

namespace Holds

theorem covered (hl : Holds l h rest records) {i : Nat} (hi : i < l.count) :
    i * l.recordLength + l.recordLength ≤ l.space.logicalSize :=
  record_le hi (hl.size ▸ Nat.le_add_right _ _)

/-- A log whose space is handed on to a log of the same length is that log again. -/
theorem adopt (hl : Holds l h rest records) :
    RecordLog.adopt l.space h l.recordLength = .ok h l := by
  have hpos : 0 < l.recordLength := Nat.lt_of_le_of_lt (Nat.zero_le _) hl.short
  have hcount : l.space.logicalSize / l.recordLength = l.count := by
    rw [hl.size, Nat.add_comm, Nat.add_mul_div_right _ _ hpos, Nat.div_eq_of_lt hl.short,
      Nat.zero_add]
  rw [RecordLog.adopt, if_neg (Nat.ne_of_gt hpos), hcount]

/-- The log goes on holding its records while others change the host. -/
theorem wait (hl : Holds l h rest records) (hstands : Stands (l.space, h'))
    (himage : l.space.image h'.disk = l.space.image h.disk) : Holds l h' rest records := by
  have hshown : ∀ offset length, shown (l.space, h') offset length =
      shown (l.space, h) offset length := fun offset length =>
    congrArg (fun image => (image.drop offset).take length) himage
  refine ⟨hstands, hl.count, hl.size, hl.short, ?_⟩
  intro i record hrecord
  rw [hshown]
  exact hl.shows i record hrecord

/-! ## Fetching -/

/-- A record of the list is fetched whole. -/
theorem fetch_eq (hl : Holds l h rest records) {i : Nat} {record : List UInt8}
    (hrecord : records[i]? = some record) :
    l.fetch h i l.recordLength = .found (.whole record) := by
  have hlt : i < l.count := hl.count ▸ (List.getElem?_eq_some_iff.1 hrecord).1
  obtain ⟨others, hhoused⟩ := hl.stands.housed
  obtain ⟨hlength, hshown⟩ := hl.shows i record hrecord
  rw [hlength] at hshown
  rw [RecordLog.fetch, if_neg (Nat.not_le.2 hlt), if_neg (not_not.2 rfl),
    Space.read_spec hl.stands.sound hhoused, if_pos (hl.covered hlt)]
  exact congrArg (fun bytes => Fetched.found (.whole bytes)) hshown

/-! ## Storing -/

/-- Room is made every time. -/
theorem makeRoom (hl : Holds l h rest records) :
    l.makeRoom h = l.space.extend h l.recordLength := by
  have hsize := hl.size
  have hshort := hl.short
  rw [RecordLog.makeRoom, if_pos (by omega)]

/-- A space that gets longer shows its records still. -/
theorem shown_extend {b : Space × Host} (ha : Stands (s, h)) {size : Nat}
    (hextend : s.extend h size = .ok b ()) {offset length : Nat}
    (hle : offset + length ≤ s.logicalSize) :
    shown b offset length = shown (s, h) offset length := by
  have hrun := Space.extend_quiet (s := s) h size
  rw [hextend] at hrun
  obtain ⟨others, hhoused⟩ := ha.housed
  obtain ⟨amount, -, himage⟩ := Space.quiet_image hrun ha.sound hhoused
  have hcovered : s.logicalSize ≤ s.physicalSize := ha.sound.covered
  have hlength : (s.image h.disk).length = s.physicalSize := ha.sound.length_image h.disk
  have hdrop : offset ≤ (s.image h.disk).length := by omega
  have htake : length ≤ ((s.image h.disk).drop offset).length := by
    rw [List.length_drop]
    omega
  calc shown b offset length
      = ((s.image h.disk ++ List.replicate amount 0).drop offset).take length :=
        congrArg (fun image => (image.drop offset).take length) himage
    _ = ((s.image h.disk).drop offset).take length := by
        rw [List.drop_append_of_le_length hdrop, List.take_append_of_le_length htake]

/-- A record of another length is refused. -/
theorem store_length {record : List UInt8} (hlength : record.length ≠ l.recordLength) :
    l.store h record =
      .fail (l, h) (.invalidRange (l.count * l.recordLength) record.length) := by
  rw [RecordLog.store]
  exact if_pos hlength

/-- A record for which there is no room is refused. -/
theorem store_failed (hl : Holds l h rest records) {record : List UInt8} {f : Failure}
    (hlength : record.length = l.recordLength)
    (hextend : (l.space.extend h l.recordLength).answer = .error f) :
    l.store h record = .fail (l, h) f := by
  have hstate := Space.extend_error hextend
  unfold RecordLog.store
  rw [if_neg (not_not.2 hlength)]
  simp only [hl.makeRoom, Outcome.andThen, hextend, Outcome.fail, hstate]

/-- The records that are there lie before what is written. -/
theorem shown_older (hl : Holds l h rest records) {b c : Space × Host} {record : List UInt8}
    (hextend : l.space.extend h l.recordLength = .ok b ())
    (hrewrites : Space.Rewrites b c (l.count * l.recordLength) record) {i : Nat}
    {older : List UInt8} (holder : records[i]? = some older) :
    shown c (i * l.recordLength) older.length = older := by
  have hstands := hl.stands.leads (leads_extend l.space h l.recordLength)
  rw [hextend] at hstands
  obtain ⟨hlength, hshown⟩ := hl.shows i older holder
  have hlt : i < l.count := hl.count ▸ (List.getElem?_eq_some_iff.1 holder).1
  have hbefore : i * l.recordLength + older.length ≤ l.count * l.recordLength :=
    hlength.symm ▸ record_le hlt (Nat.le_refl _)
  have hkeeps : Space.Keeps
      (Finset.Ico (i * l.recordLength) (i * l.recordLength + older.length)) b c := by
    apply hrewrites.keeps hstands
    apply Finset.disjoint_left.2
    intro x hx hx'
    rw [Finset.mem_Ico] at hx hx'
    omega
  calc shown c (i * l.recordLength) older.length
      = shown b (i * l.recordLength) older.length := hkeeps.shown (Finset.Subset.refl _)
    _ = shown (l.space, h) (i * l.recordLength) older.length :=
        shown_extend hl.stands hextend (hlength.symm ▸ hl.covered hlt)
    _ = older := hshown

/-- Any other record is stored behind those that are there, and changes none of them. -/
theorem store_ok (hl : Holds l h rest records) {record : List UInt8}
    (hlength : record.length = l.recordLength) {b : Space × Host}
    (hextend : l.space.extend h l.recordLength = .ok b ()) :
    ∃ s' h', l.store h record = .ok ({ l with space := s', count := l.count + 1 }, h') l.count ∧
      Holds { l with space := s', count := l.count + 1 } h' rest (records ++ [record]) := by
  obtain ⟨t, g⟩ := b
  have hstands := hl.stands.leads (leads_extend l.space h l.recordLength)
  rw [hextend] at hstands
  obtain ⟨-, hlonger⟩ := Space.extend_ok hextend
  have hsize := hl.size
  have hfits : l.count * l.recordLength + record.length ≤ t.logicalSize := by omega
  obtain ⟨c, hwrite, hrewrites⟩ := Space.write_ok hstands _ record hfits
  have hstored : ((l.makeRoom h).andThen fun (state : Space × Host) (_ : Unit) =>
      state.1.write state.2 (l.count * l.recordLength) record) = .ok c () := by
    rw [hl.makeRoom, hextend]
    exact hwrite
  have hkept : c.1.logicalSize = t.logicalSize := hrewrites.length
  refine ⟨c.1, c.2, ?_, hrewrites.stands, ?_, ?_, hl.short, ?_⟩
  · unfold RecordLog.store
    rw [if_neg (not_not.2 hlength)]
    simp only [hstored]
    rfl
  · rw [List.length_append, hl.count]
    rfl
  · simp only [hkept, Nat.succ_mul]
    omega
  · intro i r hr
    by_cases hi : i < records.length
    · rw [List.getElem?_append_left hi] at hr
      exact ⟨(hl.shows i r hr).1, hl.shown_older hextend hrewrites hr⟩
    · rw [List.getElem?_append_right (by omega)] at hr
      obtain ⟨hlast, rfl⟩ := List.getElem?_eq_some_iff.1 hr
      have hi : i = l.count := by
        rw [List.length_singleton] at hlast
        have := hl.count
        omega
      subst hi
      have hfills := Space.Fills.of_rewrites hstands hrewrites (Nat.le_refl _)
      simpa using ⟨hlength, hfills.shows⟩

/-- A store appends its record, or it fails and changes nothing. -/
theorem store_cases (hl : Holds l h rest records) (record : List UInt8) :
    (∃ f, l.store h record = .fail (l, h) f ∧ ¬ (record.length = l.recordLength ∧
      (l.space.extend h l.recordLength).answer = .ok ())) ∨
    ∃ s' h', l.store h record = .ok ({ l with space := s', count := l.count + 1 }, h') l.count ∧
      record.length = l.recordLength ∧ (l.space.extend h l.recordLength).answer = .ok () ∧
      Holds { l with space := s', count := l.count + 1 } h' rest (records ++ [record]) := by
  by_cases hlength : record.length = l.recordLength
  · cases hextend : (l.space.extend h l.recordLength).answer with
    | error f =>
      refine .inl ⟨f, hl.store_failed hlength hextend, ?_⟩
      rintro ⟨-, ⟨⟩⟩
    | ok a =>
      obtain ⟨s', h', hstore, hholds⟩ := hl.store_ok hlength
        (congrArg (Outcome.mk (l.space.extend h l.recordLength).state) hextend)
      exact .inr ⟨s', h', hstore, hlength, rfl, hholds⟩
  · exact .inl ⟨_, store_length hlength, fun hboth => hlength hboth.1⟩

end Holds

end SpillStorage.RecordLog
