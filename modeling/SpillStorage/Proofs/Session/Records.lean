import SpillStorage.Proofs.RecordLog
import SpillStorage.Proofs.Session.Sound

/-!
Record logs in a session, from the moment that they take over a space.

What is proved:
  1. `Keeping.perform` and `Keeping.run`: through every run that leaves a log where it is, the log
     holds the records that it was taken over with and those that it accepted since.
  2. `append_log_exact`: so its numbers, its fetches and its size are those of that list.
-/

namespace SpillStorage.Session

open RecordLog (Holds recordsIn)

/-! ## What a log is to store -/

/-- What the log with a name is to store in an action, and what it answers. -/
def stored (σ : Session) (name : String) : Action → List (List UInt8 × Except Failure Nat)
  | .storeRecord other record =>
    match σ.lodging? name with
    | some ⟨.log l, own⟩ =>
      if other = name then [(record, (l.store (σ.hostOf ⟨.log l, own⟩) record).answer)] else []
    | _ => []
  | _ => []

/-- What the log with a name is to store in a run, and what it answers. -/
def journal (name : String) (σ : Session) : List Action → List (List UInt8 × Except Failure Nat)
  | [] => []
  | action :: rest => σ.stored name action ++ journal name (σ.perform action) rest

/-- The records that were accepted, in order. -/
def accepted : List (List UInt8 × Except Failure Nat) → List (List UInt8)
  | [] => []
  | (record, .ok _) :: rest => record :: accepted rest
  | (_, .error _) :: rest => accepted rest

/-- The records that were accepted have the length of the log, and they were numbered one after the
other, from `next` on. -/
def Numbered (recordLength : Nat) : Nat → List (List UInt8 × Except Failure Nat) → Prop
  | _, [] => True
  | next, (record, .ok n) :: rest =>
    record.length = recordLength ∧ n = next ∧ Numbered recordLength (next + 1) rest
  | next, (_, .error _) :: rest => Numbered recordLength next rest

/-- The action leaves the log with a name where it is: it stores a record, or it is not about the
log. -/
def Action.KeepsLog (name : String) : Action → Prop
  | .storeRecord _ _ => True
  | action => action.name? ≠ some name

theorem accepted_append (xs ys : List (List UInt8 × Except Failure Nat)) :
    accepted (xs ++ ys) = accepted xs ++ accepted ys := by
  induction xs with
  | nil => rfl
  | cons x rest ih =>
    obtain ⟨record, answer⟩ := x
    cases answer with
    | ok n => exact congrArg _ ih
    | error f => exact ih

theorem Numbered.append {recordLength next : Nat} {xs ys : List (List UInt8 × Except Failure Nat)}
    (hxs : Numbered recordLength next xs)
    (hys : Numbered recordLength (next + (accepted xs).length) ys) :
    Numbered recordLength next (xs ++ ys) := by
  induction xs generalizing next with
  | nil => exact hys
  | cons x rest ih =>
    obtain ⟨record, answer⟩ := x
    cases answer with
    | error f => exact ih hxs hys
    | ok n =>
      obtain ⟨hlength, hnumber, hrest⟩ := hxs
      refine ⟨hlength, hnumber, ih hrest ?_⟩
      rw [accepted, List.length_cons] at hys
      rwa [Nat.add_assoc, Nat.add_comm 1]

/-! ## Logs in a session -/

/-- The log with a name holds the records. -/
def Keeping (σ : Session) (name : String) (recordLength rest : Nat)
    (records : List (List UInt8)) : Prop :=
  ∃ l own, σ.lodging? name = some ⟨.log l, own⟩ ∧ l.recordLength = recordLength ∧
    Holds l (σ.hostOf ⟨.log l, own⟩) rest records

variable {others : Nat → Prop} {σ : Session} {name : String} {recordLength rest : Nat}
  {records : List (List UInt8)}

namespace Keeping

/-- A log that was left with the records is found with them. -/
theorem settle {l : RecordLog} {h : Host} (hholds : Holds l h rest records)
    (hlength : l.recordLength = recordLength) (σ : Session) (name : String) (old : Lodging) :
    Keeping (σ.settle name old (.log l) h) name recordLength rest records := by
  refine ⟨l, _, by rw [lodging?_settle, if_pos rfl], hlength, ?_⟩
  rw [hostOf_settle]
  exact hholds

/-- What is done elsewhere leaves a log as it is. -/
theorem elsewhere (h : Keeping σ name recordLength rest records) (hσ : Sound others σ)
    {action : Action} (haction : action.name? ≠ some name) :
    Keeping (σ.perform action) name recordLength rest records := by
  obtain ⟨hσ', hspares⟩ := hσ.perform action
  obtain ⟨l, own, hl, hlength, hholds⟩ := h
  have hl' := (hspares.lodging name haction.symm).trans hl
  exact ⟨l, own, hl', hlength, hholds.wait (hσ'.stands hl')
    (l.space.image_congr (hspares.content_hostOf haction.symm hl))⟩

/-- A store appends to the records what is accepted, under the next number. -/
theorem storeRecord (h : Keeping σ name recordLength rest records) (record : List UInt8) :
    Keeping (σ.perform (.storeRecord name record)) name recordLength rest
        (records ++ accepted (σ.stored name (.storeRecord name record))) ∧
      Numbered recordLength records.length (σ.stored name (.storeRecord name record)) := by
  obtain ⟨l, own, hl, rfl, hholds⟩ := h
  have hstored : σ.stored name (.storeRecord name record) =
      [(record, (l.store (σ.hostOf ⟨.log l, own⟩) record).answer)] := by
    simp only [stored, hl, if_true]
  have hperform : σ.perform (.storeRecord name record) =
      σ.settle name ⟨.log l, own⟩ (.log (l.store (σ.hostOf ⟨.log l, own⟩) record).state.1)
        (l.store (σ.hostOf ⟨.log l, own⟩) record).state.2 := by
    simp only [perform, onLog, hl]
    rfl
  rw [hperform, hstored]
  rcases hholds.store_cases record with ⟨f, hstore, -⟩ | ⟨s', h', hstore, hlength, -, hholds'⟩
  · rw [hstore]
    refine ⟨?_, trivial⟩
    show Keeping _ name l.recordLength rest (records ++ [])
    rw [List.append_nil]
    exact settle hholds rfl σ name _
  · rw [hstore]
    exact ⟨settle hholds' rfl σ name _, hlength, hholds.count, trivial⟩

theorem perform (h : Keeping σ name recordLength rest records) (hσ : Sound others σ)
    {action : Action} (hkeeps : action.KeepsLog name) :
    Keeping (σ.perform action) name recordLength rest
        (records ++ accepted (σ.stored name action)) ∧
      Numbered recordLength records.length (σ.stored name action) := by
  -- an action that is not about the log has nothing to store
  have hnothing : action.name? ≠ some name → σ.stored name action = [] →
      Keeping (σ.perform action) name recordLength rest
          (records ++ accepted (σ.stored name action)) ∧
        Numbered recordLength records.length (σ.stored name action) := by
    intro haction hnil
    rw [hnil, accepted, List.append_nil]
    exact ⟨h.elsewhere hσ haction, trivial⟩
  obtain ⟨l, own, hl, -⟩ := id h
  cases action with
  | storeRecord other record =>
    by_cases hother : other = name
    · subst hother
      exact h.storeRecord record
    · refine hnothing (fun heq => hother (Option.some.inj heq)) ?_
      simp only [stored, hl, if_neg hother]
  | _ => exact hnothing hkeeps rfl

theorem run (h : Keeping σ name recordLength rest records) (hσ : Sound others σ)
    {actions : List Action} (hkeeps : ∀ action ∈ actions, action.KeepsLog name) :
    Keeping (σ.run actions) name recordLength rest
        (records ++ accepted (journal name σ actions)) ∧
      Numbered recordLength records.length (journal name σ actions) := by
  induction actions generalizing σ records with
  | nil =>
    rw [journal, accepted, List.append_nil]
    exact ⟨h, trivial⟩
  | cons action others ih =>
    obtain ⟨hnext, hfirst⟩ := h.perform hσ (hkeeps action List.mem_cons_self)
    obtain ⟨hrun, hrest⟩ := ih hnext (hσ.perform action).1
      fun a ha => hkeeps a (List.mem_cons_of_mem _ ha)
    rw [List.length_append] at hrest
    rw [journal, accepted_append, ← List.append_assoc]
    exact ⟨hrun, hfirst.append hrest⟩

end Keeping

/-- A log that takes over a space holds the records that the space held whole. -/
theorem keepRecords_ok (hσ : Sound others σ)
    (hkeep : (σ.keepRecords name recordLength).map Outcome.answer = some (.ok ())) :
    ∃ l, σ.lodging? name = some l ∧
      Keeping (σ.perform (.keepRecords name recordLength)) name recordLength
        (l.tenant.inner.logicalSize % recordLength)
        (recordsIn l.tenant.inner (σ.hostOf l) recordLength) := by
  obtain ⟨l, tenant, h, hl, hadopt, hsettle⟩ := convert_ok hkeep
  obtain ⟨log, hlog, rfl⟩ := Outcome.of_map_ok hadopt
  obtain ⟨-, -, hrecordLog⟩ := RecordLog.adopt_ok hlog
  refine ⟨l, hl, ?_⟩
  show Keeping (σ.after (σ.convert name _)) name recordLength _ _
  rw [hsettle]
  exact .settle (RecordLog.holds_adopt (hσ.stands hl) hlog) (by rw [hrecordLog]) σ name l

/-! ## Exactness -/

/-- A record log is exact. Take a space in a session after any actions, let a log of records of one
length take it over, and then any actions that leave the log where it is, other tenants' and
refused stores among them. Its records are those that the space held whole, as they were read
then, and behind them those that were accepted, in order; these are numbered one after the other.
The log counts its records, every one is fetched as it is, whatever was stored since, and none past
the end. The size of the space is that of the records and the rest that was there. A store succeeds
exactly if the record has the length and the space can get longer by it; one that fails changes
nothing. And a new log of the same length over the space is the log itself. -/
theorem append_log_exact {settings : Settings} {registry : Registry}
    (hregistry : Registry.ofSettings settings = .ok registry) (disk : Disk) (heap : Nat)
    (before : List Action) (name : String) (recordLength : Nat)
    (hkeep : (((ofHost ⟨registry, disk, heap⟩).run before).keepRecords name recordLength).map
      Outcome.answer = some (.ok ()))
    {actions : List Action} (hkeeps : ∀ action ∈ actions, action.KeepsLog name) :
    let start := (ofHost ⟨registry, disk, heap⟩).run before
    let kept := start.perform (.keepRecords name recordLength)
    let stores := journal name kept actions
    ∃ l₀, start.lodging? name = some l₀ ∧
      let s₀ := l₀.tenant.inner
      let records := recordsIn s₀ (start.hostOf l₀) recordLength ++ accepted stores
      Numbered recordLength (s₀.logicalSize / recordLength) stores ∧
      ∃ l own, (kept.run actions).lodging? name = some ⟨.log l, own⟩ ∧
        let h := (kept.run actions).hostOf ⟨.log l, own⟩
        l.recordLength = recordLength ∧
        l.count = s₀.logicalSize / recordLength + (accepted stores).length ∧
        l.space.logicalSize = l.count * recordLength + s₀.logicalSize % recordLength ∧
        (∀ i record, records[i]? = some record →
          l.fetch h i recordLength = .found (.whole record)) ∧
        (∀ i, (l.count ≤ i ↔ records[i]? = none) ∧
          (l.count ≤ i → ∀ length, l.fetch h i length = .missing)) ∧
        (∀ record,
          (∀ n, (l.store h record).answer = .ok n ↔ n = l.count ∧ record.length = recordLength ∧
            (l.space.extend h recordLength).answer = .ok ()) ∧
          ∀ f, (l.store h record).answer = .error f → (l.store h record).state = (l, h)) ∧
        RecordLog.adopt l.space h recordLength = .ok h l := by
  intro start kept stores
  have hσ := ((sound_ofHost hregistry disk heap).run before).1
  obtain ⟨l₀, hl₀, hkeeping⟩ := keepRecords_ok hσ hkeep
  obtain ⟨⟨l, own, hl, rfl, hholds⟩, hnumbered⟩ :=
    hkeeping.run (hσ.perform (.keepRecords name recordLength)).1 hkeeps
  have hfirst : (recordsIn l₀.tenant.inner (start.hostOf l₀) l.recordLength).length =
      l₀.tenant.inner.logicalSize / l.recordLength := by
    rw [recordsIn, List.length_map, List.length_range]
  refine ⟨l₀, hl₀, hfirst ▸ hnumbered, l, own, hl, rfl, ?_, hholds.size, ?_, ?_, ?_, hholds.adopt⟩
  · rw [hholds.count, List.length_append, hfirst]
  · intro i record hrecord
    exact hholds.fetch_eq hrecord
  · intro i
    refine ⟨?_, fun hle length => if_pos hle⟩
    rw [hholds.count, List.getElem?_eq_none_iff]
  · intro record
    rcases hholds.store_cases record with
      ⟨f, hstore, hnot⟩ | ⟨s', h', hstore, hlength, hextend, -⟩
    · rw [hstore]
      refine ⟨fun n => ⟨?_, fun hall => absurd hall.2 hnot⟩, fun _ _ => rfl⟩
      rintro ⟨⟩
    · rw [hstore]
      refine ⟨fun n => ⟨?_, ?_⟩, ?_⟩
      · rintro ⟨⟩
        exact ⟨rfl, hlength, hextend⟩
      · rintro ⟨rfl, -⟩
        rfl
      · rintro f ⟨⟩

/-- A space of ten bytes holds two records of four and a rest. One more record is stored, half in
memory and half on disk; one of another length is refused, and one for which the quota has no
room. -/
theorem append_log_exact_rest :
    let start := ofHost
      ⟨⟨Settings.exact [⟨Path.ofString "/tmp", some 6⟩] 12, 0, [0], 0⟩, Disk.standard, 64⟩
    let before : List Action := [.openSpace "log" true {}, .onSpace "log" (.extend 10),
      .onSpace "log" (.write 0 [1, 2, 3, 4, 5, 6, 7, 8, 9, 10])]
    let actions : List Action := [.openSpace "b" true {}, .onSpace "b" (.extend 2),
      .storeRecord "log" [21, 22, 23, 24], .storeRecord "log" [9],
      .storeRecord "log" [31, 32, 33, 34], .evict "b"]
    let kept := (start.run before).perform (.keepRecords "log" 4)
    ∃ l own, (kept.run actions).lodging? "log" = some ⟨.log l, own⟩ ∧
      let h := (kept.run actions).hostOf ⟨.log l, own⟩
      l.count = 3 ∧ l.space.logicalSize = 14 ∧ l.fetch h 1 4 = .found (.whole [5, 6, 7, 8]) ∧
      l.fetch h 2 4 = .found (.whole [21, 22, 23, 24]) ∧ l.fetch h 3 9 = .missing := by
  intro start before actions kept
  have hregistry : Registry.ofSettings (Settings.exact [⟨Path.ofString "/tmp", some 6⟩] 12) =
    .ok ⟨Settings.exact [⟨Path.ofString "/tmp", some 6⟩] 12, 0, [0], 0⟩ := rfl
  have hkeeps : ∀ action ∈ actions, action.KeepsLog "log" := by
    simp [actions, Action.KeepsLog, Action.name?]
  obtain ⟨l₀, hl₀, -, l, own, hl, -, hcount, hsize, hfetch, hmissing, -⟩ :=
    append_log_exact hregistry Disk.standard 64 before "log" 4 rfl hkeeps
  have hfirst : ((start.run before).lodging? "log").map (fun l => (l.tenant.inner.logicalSize,
      recordsIn l.tenant.inner ((start.run before).hostOf l) 4)) =
        some (10, [[1, 2, 3, 4], [5, 6, 7, 8]]) := by decide +kernel
  have haccepted : accepted (journal "log" kept actions) = [[21, 22, 23, 24]] := by decide +kernel
  have hlodging : (start.run before).lodging? "log" = some l₀ := hl₀
  rw [hlodging] at hfirst
  obtain ⟨hlogical, hrecords⟩ := Prod.mk.inj (Option.some.inj hfirst)
  have hall : recordsIn l₀.tenant.inner ((start.run before).hostOf l₀) 4 ++
      accepted (journal "log" kept actions) = [[1, 2, 3, 4], [5, 6, 7, 8], [21, 22, 23, 24]] := by
    rw [hrecords, haccepted]
    rfl
  have hthree : l.count = 3 := by
    have hsum : l.count = l₀.tenant.inner.logicalSize / 4 +
      (accepted (journal "log" kept actions)).length := hcount
    rw [hsum, hlogical, haccepted]
    rfl
  refine ⟨l, own, hl, hthree, ?_, ?_, ?_, ?_⟩
  · rw [hsize, hthree, hlogical]
  · exact hfetch 1 _ (congrArg (fun records => records[1]?) hall)
  · exact hfetch 2 _ (congrArg (fun records => records[2]?) hall)
  · exact (hmissing 3).2 (Nat.le_of_eq hthree) 9

end SpillStorage.Session
