import SpillStorage.Session
import SpillStorage.Proofs.Tenants

/-!
Runs of a session: tenants come, are asked for something and go, and the disk changes under them.

What is proved:
  1. `serves_onSpace`, `serves_storeRecord` and `serves_onCache`: a request leads from the space
     and the host of the tenant with the name to new ones by a run of changes, and no other tenant
     moves.
  2. `keepRecords_cases` and `stage_cases`: a space that is to be taken over goes on, or it
     leaves; `convert_ok` says how it goes on.
  3. `lodging?_settle` and `lodging?_remove`: who is there afterwards.
-/

namespace SpillStorage.Session

/-- What can happen in a session. -/
inductive Action where
  /-- Opens a space, on the session's registry or on one of its own. -/
  | openSpace (name : String) (shared : Bool) (blueprint : Blueprint)
  | onSpace (name : String) (request : Space.Request)
  | storeRecord (name : String) (record : List UInt8)
  | onCache (name : String) (request : StagingCache.Request)
  | keepRecords (name : String) (recordLength : Nat)
  | stage (name : String) (alignment : Nat)
  | unwrap (name : String)
  | evict (name : String)
  | endWithInitial (name : String)
  /-- Someone else changes the tree of directories, or takes memory or gives it back. -/
  | makeDirectory (path : Path)
  | makeFile (path : Path) (content : List UInt8)
  | removeTree (path : Path)
  | setHeap (capacity : Nat)

/-- The session that an operation leaves; the session itself if there is no tenant for it. -/
def after (σ : Session) (o : Option (Outcome Session Unit)) : Session :=
  match o with
  | some o => o.state
  | none => σ

def setDisk (σ : Session) (d : Disk) : Session := { σ with host := { σ.host with disk := d } }

/-- The session after an action, successful or not. -/
def perform (σ : Session) : Action → Session
  | .openSpace name shared blueprint => (σ.openSpace name shared blueprint).state
  | .onSpace name request => σ.after (σ.onSpace name fun s h => .ok (s.serve h request) ())
  | .storeRecord name record =>
    σ.after (σ.onLog name fun l h => .ok (l.store h record).state ())
  | .onCache name request => σ.after (σ.onCache name fun c h => .ok (c.serve h request) ())
  | .keepRecords name recordLength => σ.after (σ.keepRecords name recordLength)
  | .stage name alignment => σ.after (σ.stage name alignment)
  | .unwrap name => (σ.unwrap? name).getD σ
  | .evict name => σ.evict name
  | .endWithInitial name => ((σ.endWithInitial? name).map (·.2)).getD σ
  | .makeDirectory path => σ.setDisk (σ.host.disk.makeDirectory path)
  | .makeFile path content => σ.setDisk (σ.host.disk.makeFile path content)
  | .removeTree path => σ.setDisk (σ.host.disk.removeTree path)
  | .setHeap capacity => { σ with host := { σ.host with heapCapacity := capacity } }

def run (σ : Session) (actions : List Action) : Session := actions.foldl perform σ

/-! ## Three kinds of actions -/

/-- One tenant does something, or none. -/
inductive Serves (σ : Session) (name : String) : Session → Prop
  | idle : Serves σ name σ
  | settled {l : Lodging} {tenant : Tenant} {h : Host} (hl : σ.lodging? name = some l)
      (hleads : Leads (l.tenant.inner, σ.hostOf l) (tenant.inner, h)) :
      Serves σ name (σ.settle name l tenant h)

/-- One tenant leaves with all that its space holds, or none. -/
inductive Leaves (σ : Session) (name : String) : Session → Prop
  | idle : Leaves σ name σ
  | gone {l : Lodging} (hl : σ.lodging? name = some l) :
      Leaves σ name ((σ.leaving l (l.tenant.inner.drop (σ.hostOf l))).remove name)

/-- To settle with the host that a lodging sees is to settle in its place. -/
theorem settle_hostOf (σ : Session) (name : String) (l : Lodging) (tenant : Tenant) :
    σ.settle name l tenant (σ.hostOf l) = σ.put name ⟨tenant, l.own⟩ := by
  obtain ⟨tenant', own⟩ := l
  cases own <;> rfl

/-- A lodging sees the host that it left. -/
theorem hostOf_settle (σ : Session) (name : String) (l : Lodging) (tenant : Tenant) (h : Host) :
    (σ.settle name l tenant h).hostOf ⟨tenant, l.own.map fun _ => h.registry⟩ = h := by
  obtain ⟨old, own⟩ := l
  cases own <;> rfl

theorem serves_onSpace (σ : Session) (name : String) (request : Space.Request) :
    Serves σ name (σ.perform (.onSpace name request)) := by
  simp only [perform, onSpace]
  cases hl : σ.lodging? name with
  | none => exact .idle
  | some l =>
    obtain ⟨tenant, own⟩ := l
    cases tenant with
    | space s => exact .settled hl fun hs => Space.serve_changes hs _ request
    | log l => exact .idle
    | cache c => exact .idle

theorem serves_storeRecord (σ : Session) (name : String) (record : List UInt8) :
    Serves σ name (σ.perform (.storeRecord name record)) := by
  simp only [perform, onLog]
  cases hl : σ.lodging? name with
  | none => exact .idle
  | some l =>
    obtain ⟨tenant, own⟩ := l
    cases tenant with
    | space s => exact .idle
    | log l => exact .settled hl (leads_storeRecord l _ record)
    | cache c => exact .idle

theorem serves_onCache (σ : Session) (name : String) (request : StagingCache.Request) :
    Serves σ name (σ.perform (.onCache name request)) := by
  simp only [perform, onCache]
  cases hl : σ.lodging? name with
  | none => exact .idle
  | some l =>
    obtain ⟨tenant, own⟩ := l
    cases tenant with
    | space s => exact .idle
    | log l => exact .idle
    | cache c => exact .settled hl (StagingCache.leads_serve c _ request)

theorem serves_unwrap (σ : Session) (name : String) :
    Serves σ name (σ.perform (.unwrap name)) := by
  simp only [perform, unwrap?]
  cases hl : σ.lodging? name with
  | none => exact .idle
  | some l =>
    rw [Option.map_some, Option.getD_some, ← settle_hostOf]
    exact .settled hl (.refl _)

/-- A space that is taken over serves its new owner; one that is refused leaves. -/
theorem convert_cases (σ : Session) (name : String) {adopt : Space → Host → Outcome Host Tenant}
    (hok : ∀ s h tenant, (adopt s h).answer = .ok tenant →
      tenant.inner = s ∧ (adopt s h).state = h)
    (herror : ∀ s h f, (adopt s h).answer = .error f → (adopt s h).state = s.drop h) :
    Serves σ name (σ.after (σ.convert name adopt)) ∨
      Leaves σ name (σ.after (σ.convert name adopt)) := by
  unfold convert
  cases hl : σ.lodging? name with
  | none => exact .inl .idle
  | some l =>
    simp only [Option.map_some, after]
    cases hanswer : (adopt l.tenant.inner (σ.hostOf l)).answer with
    | ok tenant =>
      obtain ⟨hinner, hstate⟩ := hok _ _ _ hanswer
      refine .inl (.settled hl ?_)
      rw [hinner, hstate]
      exact .refl _
    | error f =>
      right
      simp only [Outcome.fail, herror _ _ _ hanswer]
      exact .gone hl

/-- What it takes for the space of a tenant to be taken over. -/
theorem convert_ok {σ : Session} {name : String} {adopt : Space → Host → Outcome Host Tenant}
    (hconvert : (σ.convert name adopt).map Outcome.answer = some (.ok ())) :
    ∃ l tenant h, σ.lodging? name = some l ∧
      adopt l.tenant.inner (σ.hostOf l) = .ok h tenant ∧
      σ.after (σ.convert name adopt) = σ.settle name l tenant h := by
  unfold convert at hconvert ⊢
  cases hl : σ.lodging? name with
  | none =>
    rw [hl] at hconvert
    cases hconvert
  | some l =>
    simp only [hl, Option.map_some] at hconvert ⊢
    cases hadopt : adopt l.tenant.inner (σ.hostOf l) with
    | mk h answer =>
    cases answer with
    | error f =>
      simp only [hadopt] at hconvert
      cases hconvert
    | ok tenant =>
      exact ⟨l, tenant, h, rfl, hadopt, rfl⟩

theorem keepRecords_cases (σ : Session) (name : String) (recordLength : Nat) :
    Serves σ name (σ.perform (.keepRecords name recordLength)) ∨
      Leaves σ name (σ.perform (.keepRecords name recordLength)) := by
  refine convert_cases σ name (fun s h tenant ha => ?_) fun s h f ha => ?_
  all_goals
    unfold RecordLog.adopt at ha ⊢
    by_cases hzero : recordLength = 0
  · rw [if_pos hzero] at ha
    cases ha
  · rw [if_neg hzero] at ha ⊢
    cases ha
    exact ⟨rfl, rfl⟩
  · rw [if_pos hzero]
    rfl
  · rw [if_neg hzero] at ha
    cases ha

theorem stage_cases (σ : Session) (name : String) (alignment : Nat) :
    Serves σ name (σ.perform (.stage name alignment)) ∨
      Leaves σ name (σ.perform (.stage name alignment)) := by
  refine convert_cases σ name (fun s h tenant ha => ?_) fun s h f ha => ?_
  all_goals
    unfold StagingCache.adopt at ha ⊢
    by_cases hpower : (!StagingCache.isPowerOfTwo alignment) = true
  · rw [if_pos hpower] at ha
    cases ha
  · rw [if_neg hpower] at ha ⊢
    by_cases haligned : s.logicalSize % alignment ≠ 0
    · rw [if_pos haligned] at ha
      cases ha
    · rw [if_neg haligned] at ha ⊢
      cases ha
      exact ⟨rfl, rfl⟩
  · rw [if_pos hpower]
    rfl
  · rw [if_neg hpower] at ha ⊢
    by_cases haligned : s.logicalSize % alignment ≠ 0
    · rw [if_pos haligned]
      rfl
    · rw [if_neg haligned] at ha
      cases ha

theorem leaves_evict (σ : Session) (name : String) : Leaves σ name (σ.evict name) := by
  unfold evict
  cases hl : σ.lodging? name with
  | none => exact .idle
  | some l => exact .gone hl

theorem leaves_endWithInitial (σ : Session) (name : String) :
    Leaves σ name (σ.perform (.endWithInitial name)) := by
  simp only [perform, endWithInitial?]
  cases hl : σ.lodging? name with
  | none => exact .idle
  | some l => exact .gone hl

/-! ## Lodgings by name -/

theorem lodging?_remove (σ : Session) (name other : String) :
    (σ.remove name).lodging? other = if other = name then none else σ.lodging? other := by
  unfold lodging? remove
  induction σ.lodgings with
  | nil => simp
  | cons entry rest ih =>
    obtain ⟨n, l⟩ := entry
    by_cases hn : n = name
    · subst hn
      simp only [List.filter_cons, bne_self_eq_false, Bool.false_eq_true, if_false, ih,
        List.lookup_cons]
      by_cases ho : other = n
      · simp [ho]
      · have : (other == n) = false := by simpa using ho
        simp [ho, this]
    · have hkeep : (n != name) = true := by simpa using hn
      simp only [List.filter_cons, hkeep, if_true, List.lookup_cons, ih]
      by_cases ho : other = n
      · subst ho
        simp [hn]
      · have : (other == n) = false := by simpa using ho
        simp [this]

theorem lodging?_put (σ : Session) (name other : String) (l : Lodging) :
    (σ.put name l).lodging? other = if other = name then some l else σ.lodging? other := by
  have hremove := σ.lodging?_remove name other
  unfold lodging? put at *
  rw [List.lookup_cons, hremove]
  by_cases ho : other = name
  · simp [ho]
  · have : (other == name) = false := by simpa using ho
    simp [ho, this]

theorem lodging?_leaving (σ : Session) (l : Lodging) (h : Host) (other : String) :
    (σ.leaving l h).lodging? other = σ.lodging? other := by
  unfold leaving
  split <;> rfl

theorem lodging?_settle (σ : Session) (name other : String) (l : Lodging) (tenant : Tenant)
    (h : Host) :
    (σ.settle name l tenant h).lodging? other =
      if other = name then some ⟨tenant, l.own.map fun _ => h.registry⟩ else σ.lodging? other := by
  unfold settle
  rw [lodging?_put, lodging?_leaving]

end SpillStorage.Session
