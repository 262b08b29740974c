import SpillStorage.Pool

/-!
The audit of a pool compares its two indexes, its slots and its counter, and lists every flaw it
meets. It judges any pool, sound or not: an empty list says that the free segments are non-empty,
in order, disjoint, never touching, end at or before the limit, and stand in both indexes once.

Correspondence:
  `FreeSpaceAllocator::check_consistency` ↔ `audit`; the texts are `Flaw.message`
  its loop over the segments by position  ↔ `positionFlaws`, one turn `entryFlaws`
  its loop over the segments by size      ↔ `stackFlaws`
-/

namespace SpillStorage

/-- A list of one flaw, if there is one. -/
def flawIf (found : Bool) (flaw : φ) : List φ := if found then [flaw] else []

namespace Pool

/-- The text of a segment in a report. -/
def describe (s : Segment) : String :=
  "Segment \x7b position: " ++ toString s.position ++ ", size: " ++ toString s.size ++ " \x7d"

/-- One way in which a pool contradicts itself. -/
inductive Flaw where
  | vacantSlot (slot : Nat)
  | misplaced (segment : Segment) (position : Nat)
  | emptySegment (position : Nat)
  | beyondLimit (segment : Segment) (limit : Nat)
  | overlapping (first second : Segment)
  | notJoined (first second : Segment)
  | notInSizeIndex (segment : Segment)
  | countMismatch (inSizes inPositions : Nat)
  | emptyStack (size : Nat)
  | staleSlot (size : Nat)
  | byteMismatch (counter sum : Nat)
  deriving DecidableEq, Repr

def Flaw.message : Flaw → String
  | .vacantSlot slot => "position index points at vacant slot " ++ toString slot
  | .misplaced segment position =>
    "segment " ++ describe segment ++ " indexed under position " ++ toString position
  | .emptySegment position => "empty free segment at " ++ toString position
  | .beyondLimit segment limit =>
    "free segment " ++ describe segment ++ " extends past logical size " ++ toString limit
  | .overlapping first second =>
    "free segments " ++ describe first ++ " and " ++ describe second ++ " overlap"
  | .notJoined first second =>
    "free segments " ++ describe first ++ " and " ++ describe second ++ " were not coalesced"
  | .notInSizeIndex segment => "segment " ++ describe segment ++ " missing from size index"
  | .countMismatch inSizes inPositions =>
    "size index holds " ++ toString inSizes ++ " segments, position index " ++
      toString inPositions
  | .emptyStack size => "empty size bucket " ++ toString size
  | .staleSlot size => "size bucket " ++ toString size ++ " holds stale segment"
  | .byteMismatch counter sum =>
    "free byte counter " ++ toString counter ++ " disagrees with segment sum " ++ toString sum

/-- How a segment stands to the one before it. -/
def orderFlaws (previous : Option Segment) (segment : Segment) : List Flaw :=
  match previous with
  | none => []
  | some first =>
    if segment.position < first.finish then [.overlapping first segment]
    else if first.finish = segment.position then [.notJoined first segment]
    else []

/-- The flaws of one position entry whose slot holds `segment`. -/
def entryFlaws (p : Pool) (limit : Nat) (previous : Option Segment) (position slot : Nat)
    (segment : Segment) : List Flaw :=
  flawIf (segment.position != position) (.misplaced segment position) ++
  flawIf (segment.size == 0) (.emptySegment segment.position) ++
  flawIf (decide (limit < segment.finish)) (.beyondLimit segment limit) ++
  orderFlaws previous segment ++
  flawIf (!(p.stack segment.size).contains slot) (.notInSizeIndex segment)

/-- The flaws of the position entries, each judged against the last occupied one before it. -/
def positionFlaws (p : Pool) (limit : Nat) (previous : Option Segment) :
    List (Nat × Nat) → List Flaw
  | [] => []
  | (position, slot) :: rest =>
    match p.segmentAt slot with
    | none => .vacantSlot slot :: positionFlaws p limit previous rest
    | some segment =>
      entryFlaws p limit previous position slot segment ++
        positionFlaws p limit (some segment) rest

/-- The flaws of the stack kept under one size. -/
def stackFlaws (p : Pool) (entry : Nat × List Nat) : List Flaw :=
  flawIf entry.2.isEmpty (.emptyStack entry.1) ++
    entry.2.flatMap fun slot =>
      flawIf ((p.segmentAt slot).map Segment.size != some entry.1) (.staleSlot entry.1)

/-- The number of slots in the size index. -/
def sizedCount (p : Pool) : Nat := Offset.total (p.bySize.values.map List.length)

/-- The sum of the sizes of the free segments. -/
def segmentSum (p : Pool) : Nat := Offset.total (p.segments.map Segment.size)

/-- Every flaw of the pool, for segments that have to end at or before `limit`. -/
def audit (p : Pool) (limit : Nat) : List Flaw :=
  positionFlaws p limit none p.byPosition.entries ++
  flawIf (p.sizedCount != p.count) (.countMismatch p.sizedCount p.count) ++
  p.bySize.entries.flatMap p.stackFlaws ++
  flawIf (p.segmentSum != p.freeBytes) (.byteMismatch p.freeBytes p.segmentSum)

end Pool

end SpillStorage
