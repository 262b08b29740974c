import SpillStorage.Space

/-!
A record log appends records of one length back to back in a space and fetches them by their number.
A space that already holds bytes counts as holding the records that fit in them whole.

Correspondence:
  `RecordStore::new`   ↔ `adopt`
  `RecordStore::store` ↔ `store`; `makeRoom` lengthens the space first
  `RecordStore::fetch` ↔ `fetch`
-/

namespace SpillStorage

structure RecordLog where
  space : Space
  recordLength : Nat
  /-- Records stored so far. -/
  count : Nat

namespace RecordLog

/-- Takes a space over; one that is asked for records without length is dropped. -/
def adopt (s : Space) (h : Host) (recordLength : Nat) : Outcome Host RecordLog :=
  if recordLength = 0 then .fail (s.drop h) (.invalidSettings .zeroRecordLength)
  else .ok h ⟨s, recordLength, s.logicalSize / recordLength⟩

/-- The space with room for one more record. -/
def makeRoom (l : RecordLog) (h : Host) : Outcome (Space × Host) Unit :=
  if l.space.logicalSize < l.count * l.recordLength + l.recordLength then
    l.space.extend h l.recordLength
  else .ok (l.space, h) ()

/-- Appends a record and answers its number. -/
def store (l : RecordLog) (h : Host) (record : List UInt8) : Outcome (RecordLog × Host) Nat :=
  let offset := l.count * l.recordLength
  if record.length ≠ l.recordLength then
    .fail (l, h) (.invalidRange offset record.length)
  else
    let stored := (l.makeRoom h).andThen fun (s, h) () => s.write h offset record
    let l := { l with space := stored.state.1 }
    match stored.answer with
    | .ok () => .ok ({ l with count := l.count + 1 }, stored.state.2) l.count
    | .error f => .fail (l, stored.state.2) f

/-- What a fetch answers. -/
inductive Fetched where
  /-- There is no such record. -/
  | missing
  | found (bytes : Transfer)

/-- Reads record `index` into a buffer of `length` bytes, which has to be the record length. -/
def fetch (l : RecordLog) (h : Host) (index length : Nat) : Fetched :=
  if l.count ≤ index then .missing
  else if length ≠ l.recordLength then
    .found (.refused (.invalidRange (index * l.recordLength) length))
  else .found (l.space.read h (index * l.recordLength) length)

end RecordLog

end SpillStorage
