import SpillStorage.Proofs.Session.Sound
import SpillStorage.Proofs.Space.Face

/-!
Two spaces in two sessions that are asked the same.

What is proved:
  1. `Beholds.call` and `Beholds.elsewhere`: in a session a space goes on presenting its face
     through every call that has room, and through whatever happens elsewhere.
  2. `outcomes_eq`: so what callers see of it is what they see of the face.
  3. `backing_invisible`: two spaces with the same buffer and the same calls look the same, though
     registries, disks and other tenants differ.
-/

namespace SpillStorage.Session

open Space (Call Answer Roomy Presents Matches)

/-! ## What callers see -/

/-- What happens in a session, from the side of one space. -/
inductive Event where
  /-- The space is asked. -/
  | call (c : Call)
  /-- Something else happens. -/
  | elsewhere (action : Action)

/-- The calls among the events. -/
def callsIn : List Event → List Call
  | [] => []
  | .call c :: rest => c :: callsIn rest
  | .elsewhere _ :: rest => callsIn rest

/-- What the calls on the space with a name lead to, one after the other. -/
def outcomes (name : String) (σ : Session) : List Event → List (Outcome (Space × Host) Answer)
  | [] => []
  | .elsewhere action :: rest => outcomes name (σ.perform action) rest
  | .call c :: rest =>
    match σ.lodging? name with
    | some ⟨.space s, own⟩ =>
      let l : Lodging := ⟨.space s, own⟩
      let o := s.call (σ.hostOf l) c
      o :: outcomes name (σ.settle name l (.space o.state.1) o.state.2) rest
    | _ => []

/-- What callers see of a call and of the space after it. -/
structure Sight where
  answer : Except Failure Answer
  size : Nat
  segments : List Segment
  freeSpace : Nat

def sight (o : Outcome (Space × Host) Answer) : Sight :=
  ⟨o.answer, o.state.1.logicalSize, o.state.1.free.segments, o.state.1.freeSpace⟩

/-- What they see of a face. -/
def faceSights : Face → List Call → List Sight
  | _, [] => []
  | v, c :: rest =>
    let p := v.call c
    ⟨p.answer, p.state.size, p.state.free.segments, p.state.free.freeBytes⟩ ::
      faceSights p.state rest

theorem length_faceSights (v : Face) (calls : List Call) :
    (faceSights v calls).length = calls.length := by
  induction calls generalizing v with
  | nil => rfl
  | cons c rest ih => exact congrArg Nat.succ (ih _)

theorem sight_eq {o : Outcome (Space × Host) Answer} {p : Outcome Face Answer} (h : Matches o p) :
    sight o = ⟨p.answer, p.state.size, p.state.free.segments, p.state.free.freeBytes⟩ := by
  rw [sight, Space.freeSpace, h.answer, h.presents.size, h.presents.free]

/-! ## Faces in a session -/

/-- The space with a name presents the face. -/
def Beholds (σ : Session) (name : String) (v : Face) : Prop :=
  ∃ s own, σ.lodging? name = some ⟨.space s, own⟩ ∧ Presents (s, σ.hostOf ⟨.space s, own⟩) v

variable {others : Nat → Prop} {σ : Session} {name : String} {v : Face}

namespace Beholds

/-- What happens elsewhere is not seen. -/
theorem elsewhere (h : Beholds σ name v) (hσ : Sound others σ) {action : Action}
    (haction : action.name? ≠ some name) : Beholds (σ.perform action) name v := by
  obtain ⟨hσ', hspares⟩ := hσ.perform action
  obtain ⟨s, own, hl, hp⟩ := h
  have hl' := (hspares.lodging name haction.symm).trans hl
  refine ⟨s, own, hl', hσ'.stands hl', hp.growable, ?_, hp.size, hp.free, ?_⟩
  · rw [settings_hostOf hspares.settings]
    exact hp.granularity
  · intro x
    rw [← hp.byte x]
    simp only [Tenancy.disk_hostOf]
    rw [s.image_congr (hspares.content name _ haction.symm hl)]

/-- A call that has room leaves a session in order, and the space with the face that it leaves. -/
theorem call {s : Space} {own : Option Registry} (hσ : Sound others σ)
    (hl : σ.lodging? name = some ⟨.space s, own⟩) {o : Outcome (Space × Host) Answer}
    {p : Outcome Face Answer} {c : Call} (ho : s.call (σ.hostOf ⟨.space s, own⟩) c = o)
    (hmatches : Matches o p) :
    let σ' := σ.settle name ⟨.space s, own⟩ (.space o.state.1) o.state.2
    Sound others σ' ∧ Beholds σ' name p.state := by
  intro σ'
  subst ho
  have hserves : Serves σ name σ' := .settled hl (Space.leads_call s _ c)
  refine ⟨(hσ.serves hserves).1, _, _, by rw [lodging?_settle, if_pos rfl], ?_⟩
  rw [hostOf_settle]
  exact hmatches.presents

end Beholds

/-- As long as there is room, callers see the face. -/
theorem outcomes_eq (hσ : Sound others σ) (h : Beholds σ name v) {events : List Event}
    (helsewhere : ∀ action, .elsewhere action ∈ events → action.name? ≠ some name)
    (hroomy : ∀ o ∈ outcomes name σ events, Roomy o) :
    (outcomes name σ events).map sight = faceSights v (callsIn events) := by
  induction events generalizing σ v with
  | nil => rfl
  | cons event rest ih =>
    have hrest : ∀ action, .elsewhere action ∈ rest → action.name? ≠ some name :=
      fun action hmem => helsewhere action (List.mem_cons_of_mem _ hmem)
    cases event with
    | elsewhere action =>
      have hnext := h.elsewhere hσ (helsewhere action List.mem_cons_self)
      exact ih (hσ.perform action).1 hnext hrest hroomy
    | call c =>
      obtain ⟨s, own, hl, hp⟩ := h
      simp only [outcomes, hl] at hroomy ⊢
      have hmatches := hp.call (hroomy _ List.mem_cons_self)
      obtain ⟨hσ', hnext⟩ := Beholds.call hσ hl rfl hmatches
      rw [List.map_cons, callsIn, faceSights, sight_eq hmatches]
      exact congrArg _ (ih hσ' hnext hrest fun o ho => hroomy o (List.mem_cons_of_mem _ ho))

/-! ## Opening a space -/

/-- A space that may grow is opened with the face of its buffer. -/
theorem beholds_openSpace {shared : Bool} {b : Blueprint} (hσ : Sound others σ)
    (hopen : (σ.openSpace name shared b).answer = .ok ())
    (hgrowable : b.options.growable = true)
    (hsettings : σ.host.registry.settings.granularity < Offset.bound)
    (hown : b.settings.granularity < Offset.bound) :
    Beholds (σ.openSpace name shared b).state name
      (.ofBytes ((b.options.initial.map Buffer.toList).getD [])) := by
  obtain ⟨s, own, r, r', hl, hcreate⟩ := openSpace_ok hopen
  have hstands := (hσ.openSpace name shared b).1.stands hl
  refine ⟨s, own, hl, Space.presents_create hcreate hstands hgrowable ?_⟩
  rw [hσ.settings_openSpace hopen hl]
  cases shared with
  | true => exact hsettings
  | false => exact hown

/-! ## Two sessions -/

/-- One space in one session: where it was opened, and what happened from then on. -/
structure Stay where
  settings : Settings
  registry : Registry
  disk : Disk
  heap : Nat
  before : List Action
  name : String
  shared : Bool
  blueprint : Blueprint
  events : List Event

namespace Stay

def opening (y : Stay) : Outcome Session Unit :=
  ((ofHost ⟨y.registry, y.disk, y.heap⟩).run y.before).openSpace y.name y.shared y.blueprint

def outcomes (y : Stay) : List (Outcome (Space × Host) Answer) :=
  Session.outcomes y.name y.opening.state y.events

/-- The space was opened as one that may grow, what happened elsewhere was not about it, and its
calls had room. Block sizes are offsets. -/
structure Proper (y : Stay) : Prop where
  founded : Registry.ofSettings y.settings = .ok y.registry
  blocks : y.settings.minBlockSize < Offset.bound
  ownBlocks : y.blueprint.settings.minBlockSize < Offset.bound
  opened : y.opening.answer = .ok ()
  growable : y.blueprint.options.growable = true
  elsewhere : ∀ action, .elsewhere action ∈ y.events → action.name? ≠ some y.name
  roomy : ∀ o ∈ y.outcomes, Roomy o

theorem granularity_lt {settings : Settings} (h : settings.minBlockSize < Offset.bound) :
    settings.granularity < Offset.bound :=
  max_lt h (by decide)

/-- What callers see of the space depends on its buffer and on their calls only. -/
theorem Proper.sights {y : Stay} (h : y.Proper) : y.outcomes.map sight =
    faceSights (.ofBytes ((y.blueprint.options.initial.map Buffer.toList).getD []))
      (callsIn y.events) := by
  obtain ⟨hbefore, hsettings⟩ := (sound_ofHost h.founded y.disk y.heap).run y.before
  have hkept := hsettings.trans (Registry.settings_ofSettings h.founded)
  have hopened := (hbefore.openSpace y.name y.shared y.blueprint).1
  have hbeholds := beholds_openSpace hbefore h.opened h.growable
    (hkept ▸ granularity_lt h.blocks) (granularity_lt h.ownBlocks)
  exact outcomes_eq hopened hbeholds h.elsewhere h.roomy

end Stay

/-- What backs a space is not seen by its callers. Take two spaces that may grow, each opened in a
session of its own after any actions, on the session's registry or on one of its own, with the
same buffer or both without; the settings, the disks, the heaps and the other tenants are any. Let
the same calls be made on both, with anything in between that is not about the two. As long as
there is room, every call is answered alike: the same bytes are read, the same offsets handed out
and the same requests refused, for the same reason. After each the sizes, the free segments and
the free space agree. -/
theorem backing_invisible {x y : Stay} (hx : x.Proper) (hy : y.Proper)
    (hinitial : x.blueprint.options.initial.map Buffer.toList =
      y.blueprint.options.initial.map Buffer.toList)
    (hcalls : callsIn x.events = callsIn y.events) :
    x.outcomes.map sight = y.outcomes.map sight ∧
      x.outcomes.length = (callsIn x.events).length := by
  refine ⟨?_, ?_⟩
  · rw [hx.sights, hy.sights, hinitial, hcalls]
  · rw [← List.length_map (f := sight), hx.sights, length_faceSights]

/-- A space of six bytes over a buffer of two, all in memory. -/
def Stay.held : Stay where
  settings := Settings.exact [⟨Path.ofString "/tmp", none⟩] 64
  registry := ⟨Settings.exact [⟨Path.ofString "/tmp", none⟩] 64, 0, [0], 0⟩
  disk := Disk.standard
  heap := 64
  before := []
  name := "a"
  shared := true
  blueprint := { options := { initial := some (Buffer.ofList [7, 8]) } }
  events := [.call (.extend 6), .call (.write 1 [1, 2, 3]), .call (.release 1 2),
    .call (.allocate 5), .call (.allocate 1), .call (.read 0 9), .call (.read 9 4)]

/-- The same calls on a space with a registry of its own, which spills past the buffer at once. A
space on the session's registry grows and goes meanwhile, and the directory for files with it. -/
def Stay.spilled : Stay where
  settings := Settings.exact [⟨Path.ofString "/tmp", none⟩] 64
  registry := ⟨Settings.exact [⟨Path.ofString "/tmp", none⟩] 64, 0, [0], 0⟩
  disk := Disk.standard
  heap := 64
  before := [.openSpace "b" true {}, .onSpace "b" (.extend 70)]
  name := "c"
  shared := false
  blueprint :=
    { cacheLimit := some 0
      minBlockSize := some 4
      options := { initial := some (Buffer.ofList [7, 8]) } }
  events := [.call (.extend 6), .elsewhere (.onSpace "b" (.write 0 [9])),
    .call (.write 1 [1, 2, 3]), .call (.release 1 2), .elsewhere (.evict "b"),
    .call (.allocate 5), .elsewhere (.removeTree (Path.ofString "/tmp")), .call (.allocate 1),
    .call (.read 0 9), .call (.read 9 4)]

theorem backing_invisible_spilled :
    (Stay.held.outcomes.map sight = Stay.spilled.outcomes.map sight ∧
      Stay.held.outcomes.length = 7) ∧
    (Stay.held.outcomes.map fun o => o.answer.toOption) = [some .done, some .done, some .done,
      some (.place 6), some (.place 1), some (.bytes [7, 1, 2, 3, 0, 0, 0, 0, 0]), none] ∧
    (Stay.held.outcomes.map fun o => o.state.1.chain.fileBytes) = [0, 0, 0, 0, 0, 0, 0] ∧
    (Stay.spilled.outcomes.map fun o => o.state.1.chain.fileBytes) = [4, 4, 4, 12, 12, 12, 12] := by
  have hheld : Stay.held.Proper := by
    refine ⟨rfl, by decide, by decide, rfl, rfl, ?_, by decide +kernel⟩
    simp [Stay.held]
  have hspilled : Stay.spilled.Proper := by
    refine ⟨rfl, by decide, by decide, rfl, rfl, ?_, by decide +kernel⟩
    simp [Stay.spilled, Action.name?]
  exact ⟨backing_invisible hheld hspilled rfl rfl, by decide +kernel, by decide +kernel,
    by decide +kernel⟩

end SpillStorage.Session
