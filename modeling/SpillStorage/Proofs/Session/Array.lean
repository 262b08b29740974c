import SpillStorage.Proofs.Session.Sound

/-!
A space as one array of bytes, whatever blocks and files lie below it.

What is proved:
  1. `image_serve`: what a request does to the bytes of a space is what it does to an array.
  2. `Shows.perform`: in a session, an array stands for a space through every action, those of other
     tenants included.
  3. `behaves_as_array`: after every run, reads and writes of the space are those of the array.
-/

namespace SpillStorage

/-! ## One space -/

namespace Space

open Relation

/-- The array with the bytes replaced that a request names, if it writes and is met. -/
def written (s : Space) (h : Host) (array : List UInt8) : Request → List UInt8
  | .write offset bytes =>
    match (s.write h offset bytes).answer with
    | .ok () => overwritten array offset bytes
    | .error _ => array
  | .store offset size bytes =>
    match s.storeInMemory? offset size bytes with
    | some _ => overwritten array offset (bytes.take size)
    | none => array
  | _ => array

/-- The array after a request. Bytes that the chain has got are zeros. -/
def arrayAfter (s : Space) (h : Host) (array : List UInt8) (r : Request) : List UInt8 :=
  s.written h array r ++ List.replicate ((s.serve h r).1.physicalSize - s.physicalSize) 0

variable {others : Nat → Prop} {s : Space} {h : Host}

/-- Requests that are runs of quiet changes only append zeros. -/
theorem image_of_quiet (hs : s.Sound) (hh : Housed others s.files.files h.disk) {r : Request}
    (hrun : ReflTransGen Quiet (s, h) (s.serve h r)) :
    (s.serve h r).1.image (s.serve h r).2.disk = s.image h.disk ++
      List.replicate ((s.serve h r).1.physicalSize - s.physicalSize) 0 := by
  obtain ⟨amount, hsize, himage⟩ := quiet_image hrun hs hh
  rw [himage, hsize, Nat.add_sub_cancel_left]

theorem image_write (hs : s.Sound) (hh : Housed others s.files.files h.disk) (offset : Nat)
    (bytes : List UInt8) :
    (s.write h offset bytes).state.1.image (s.write h offset bytes).state.2.disk =
      s.arrayAfter h (s.image h.disk) (.write offset bytes) := by
  unfold arrayAfter written serve
  by_cases hle : offset + bytes.length ≤ s.logicalSize
  · obtain ⟨chain, disk, hwrite, hsize, himage, -⟩ := write_spec hs hh hle
    have hgrowth : chain.size - s.chain.size = 0 := by omega
    simp only [hwrite, Outcome.ok, physicalSize, hgrowth, List.replicate_zero, List.append_nil]
    exact himage
  · simp only [write_error hs h (Nat.not_le.1 hle), Outcome.fail, Nat.sub_self, List.replicate_zero,
      List.append_nil]

theorem image_store (hs : s.Sound) (d : Disk) (offset size : Nat) (bytes : List UInt8) :
    ((s.storeInMemory? offset size bytes).getD s).image d =
      s.arrayAfter h (s.image d) (.store offset size bytes) := by
  simp only [arrayAfter, written, serve]
  cases hstore : s.storeInMemory? offset size bytes with
  | none => simp only [Option.getD_none, Nat.sub_self, List.replicate_zero, List.append_nil]
  | some s' =>
    obtain ⟨chain, rfl, hsize, himage⟩ := store_spec hs hstore (d := d)
    have hgrowth : chain.size - s.chain.size = 0 := by omega
    simp only [Option.getD_some, physicalSize, hgrowth, List.replicate_zero, List.append_nil]
    exact himage

/-- A request does to the bytes of a space what it does to an array. -/
theorem image_serve (hs : s.Sound) (hh : Housed others s.files.files h.disk) (r : Request) :
    (s.serve h r).1.image (s.serve h r).2.disk = s.arrayAfter h (s.image h.disk) r := by
  cases r with
  | extend size => exact image_of_quiet hs hh (r := .extend size) (extend_quiet h size)
  | write offset bytes => exact image_write hs hh offset bytes
  | store offset size bytes => exact image_store hs h.disk offset size bytes
  | allocate size => exact image_of_quiet hs hh (r := .allocate size) (allocate_quiet hs h size)
  | release offset size =>
    apply image_of_quiet hs hh (r := .release offset size)
    simp only [serve]
    cases hr : s.release offset size with
    | error f => exact .refl
    | ok s' => exact .single (release_quiet hs h hr)
  | batch count least greatest =>
    exact image_of_quiet hs hh (r := .batch count least greatest)
      (allocateBatch_quiet hs h count least greatest)

end Space

namespace Session

/-! ## A space in a session -/

/-- The array of the space with a name after an action. -/
def arrayAfter (σ : Session) (name : String) (array : List UInt8) : Action → List UInt8
  | .onSpace other request =>
    match σ.lodging? name with
    | some ⟨.space s, own⟩ =>
      if other = name then s.arrayAfter (σ.hostOf ⟨.space s, own⟩) array request else array
    | _ => array
  | _ => array

/-- The array of the space with a name after a run. -/
def arrayOver (name : String) (σ : Session) (array : List UInt8) : List Action → List UInt8
  | [] => array
  | action :: rest => arrayOver name (σ.perform action) (σ.arrayAfter name array action) rest

/-- The action neither ends the space with a name nor hands it over: it asks the space for
something, or it is not about it. -/
def Action.Keeps (name : String) : Action → Prop
  | .onSpace _ _ => True
  | action => action.name? ≠ some name

/-- The array holds the bytes of the space with a name. -/
def Shows (σ : Session) (name : String) (array : List UInt8) : Prop :=
  ∃ s own, σ.lodging? name = some ⟨.space s, own⟩ ∧ s.image σ.host.disk = array

variable {others : Nat → Prop} {σ σ' : Session} {name : String} {array : List UInt8}

/-- Whoever spares a space spares its bytes. -/
theorem Spares.shows {asked : Option String} (hspares : Spares asked σ σ')
    (hne : some name ≠ asked) (h : σ.Shows name array) : σ'.Shows name array := by
  obtain ⟨s, own, hl, himage⟩ := h
  refine ⟨s, own, (hspares.lodging name hne).trans hl, ?_⟩
  rw [← himage]
  exact s.image_congr (hspares.content name _ hne hl)

theorem perform_onSpace {s : Space} {own : Option Registry}
    (hl : σ.lodging? name = some ⟨.space s, own⟩) (request : Space.Request) :
    let served := s.serve (σ.hostOf ⟨.space s, own⟩) request
    σ.perform (.onSpace name request) =
      σ.settle name ⟨.space s, own⟩ (.space served.1) served.2 := by
  simp only [perform, onSpace, hl]
  rfl

theorem Shows.onSpace (hσ : Sound others σ) (h : σ.Shows name array) (request : Space.Request) :
    (σ.perform (.onSpace name request)).Shows name
      (σ.arrayAfter name array (.onSpace name request)) := by
  obtain ⟨s, own, hl, rfl⟩ := h
  have htenancy := hσ.parted hl
  have hs : s.Sound := htenancy.sound _ List.mem_cons_self
  have hh := htenancy.front
  rw [← Tenancy.disk_hostOf σ ⟨.space s, own⟩] at hh
  have himage := Space.image_serve hs hh request
  rw [Tenancy.disk_hostOf] at himage
  rw [perform_onSpace hl]
  simp only [arrayAfter, hl, if_true]
  refine ⟨_, _, by rw [lodging?_settle, if_pos rfl], ?_⟩
  calc _ = (s.serve (σ.hostOf ⟨.space s, own⟩) request).1.image
          (s.serve (σ.hostOf ⟨.space s, own⟩) request).2.disk :=
        congrArg _ (Tenancy.disk_leaving _ _ _)
    _ = s.arrayAfter (σ.hostOf ⟨.space s, own⟩) (s.image σ.host.disk) request := himage

/-- Through every action that keeps a space, an array can stand for it. -/
theorem Shows.perform (hσ : Sound others σ) (h : σ.Shows name array) {action : Action}
    (hkeeps : action.Keeps name) :
    (σ.perform action).Shows name (σ.arrayAfter name array action) := by
  have hspares := (hσ.perform action).2
  -- an action that asks another tenant, or none, changes neither the space nor the array
  have spared : ∀ asked, Spares asked σ (σ.perform action) → some name ≠ asked →
      (σ.perform action).Shows name array := fun _ hs hne => hs.shows hne h
  obtain ⟨s, own, hl, -⟩ := id h
  cases action with
  | onSpace other request =>
    by_cases hother : other = name
    · subst hother
      exact h.onSpace hσ request
    · simp only [arrayAfter, hl, if_neg hother]
      exact spared _ hspares fun heq => hother (Option.some.inj heq).symm
  | _ => exact spared _ hspares (Ne.symm hkeeps)

theorem Shows.run (hσ : Sound others σ) (h : σ.Shows name array) {actions : List Action}
    (hkeeps : ∀ action ∈ actions, action.Keeps name) :
    (σ.run actions).Shows name (arrayOver name σ array actions) := by
  induction actions generalizing σ array with
  | nil => exact h
  | cons action rest ih =>
    exact ih (hσ.perform action).1 (h.perform hσ (hkeeps action List.mem_cons_self))
      fun a ha => hkeeps a (List.mem_cons_of_mem _ ha)

/-- The array of a new space is the caller's buffer. -/
theorem shows_openSpace {shared : Bool} {b : Blueprint}
    (hopen : (σ.openSpace name shared b).answer = .ok ()) :
    (σ.openSpace name shared b).state.Shows name
      ((b.options.initial.map Buffer.toList).getD []) := by
  rcases σ.openSpace_cases name shared b with ⟨f, heq⟩ | ⟨s, own, registry, hopens, heq⟩
  · rw [heq] at hopen
    cases hopen
  · obtain ⟨r, r', hcreate⟩ := hopens.created
    rw [heq]
    refine ⟨s, own, ?_, Space.image_create hcreate _⟩
    simp only [Outcome.ok]
    rw [lodging?_put, if_pos rfl]

/-- A space behaves as one array of bytes. Take a space opened in a session after any actions, on
its registry or on one of its own, with or without a caller's buffer, and then any actions that
keep it, other tenants' among them, successful or failed. Its array starts as the caller's buffer;
a write that succeeds and a store into a view in memory replace the bytes that they name, growth
of the chain appends zeros, and nothing else changes it. Then a range can be read and written
exactly if it lies in the space, what is read is that range of the array, and a read or write that
is refused gives and changes nothing. -/
theorem behaves_as_array {settings : Settings} {registry : Registry}
    (hregistry : Registry.ofSettings settings = .ok registry) (disk : Disk) (heap : Nat)
    (before : List Action) (name : String) (shared : Bool) (b : Blueprint)
    (hopen : (((ofHost ⟨registry, disk, heap⟩).run before).openSpace name shared b).answer = .ok ())
    {actions : List Action} (hkeeps : ∀ action ∈ actions, action.Keeps name) :
    let opened := (((ofHost ⟨registry, disk, heap⟩).run before).openSpace name shared b).state
    let array := arrayOver name opened ((b.options.initial.map Buffer.toList).getD []) actions
    ∃ s own, (opened.run actions).lodging? name = some ⟨.space s, own⟩ ∧
      array.length = s.physicalSize ∧ s.logicalSize ≤ s.physicalSize ∧
      let h := (opened.run actions).hostOf ⟨.space s, own⟩
      (∀ offset length, s.read h offset length =
        if offset + length ≤ s.logicalSize then .whole ((array.drop offset).take length)
        else .refused (.outOfBounds offset length s.logicalSize)) ∧
      (∀ offset bytes, (s.write h offset bytes).answer = .ok () ↔
        offset + bytes.length ≤ s.logicalSize) ∧
      ∀ offset bytes, ¬ offset + bytes.length ≤ s.logicalSize →
        s.write h offset bytes = .fail (s, h) (.outOfBounds offset bytes.length s.logicalSize) := by
  intro opened array
  have hbefore := ((sound_ofHost hregistry disk heap).run before).1
  have hopened := (hbefore.openSpace name shared b).1
  obtain ⟨hsound, -⟩ := hopened.run actions
  obtain ⟨s, own, hl, himage⟩ := (shows_openSpace hopen).run hopened hkeeps
  have htenancy := hsound.parted hl
  have hs : s.Sound := htenancy.sound _ List.mem_cons_self
  have hh := htenancy.front
  rw [← Tenancy.disk_hostOf _ ⟨.space s, own⟩] at hh
  have harray : s.image ((opened.run actions).hostOf ⟨.space s, own⟩).disk = array := by
    rw [Tenancy.disk_hostOf]
    exact himage
  refine ⟨s, own, hl, ?_, hs.covered, ?_, ?_, ?_⟩
  · rw [← harray]
    exact hs.length_image _
  · intro offset length
    rw [← harray]
    exact Space.read_spec hs hh offset length
  · intro offset bytes
    constructor
    · intro hok
      apply not_lt.1
      intro hgt
      rw [Space.write_error hs _ hgt] at hok
      cases hok
    · intro hle
      obtain ⟨chain, d, hwrite, -⟩ := Space.write_spec hs hh hle
      rw [hwrite]
      rfl
  · intro offset bytes hgt
    exact Space.write_error hs _ (not_le.1 hgt)

/-- A caller's buffer of two bytes, four bytes in memory and four on disk, next to another space;
eight bytes are written across all three, and a range past the end is refused. -/
theorem behaves_as_array_standard :
    let start := ofHost
      ⟨⟨Settings.exact [⟨Path.ofString "/tmp", none⟩] 4, 0, [0], 0⟩, Disk.standard, 64⟩
    let opened := (start.openSpace "a" true
      { options := { initial := some (Buffer.zeros 2) } }).state
    let actions : List Action := [.onSpace "a" (.extend 6), .openSpace "b" true {},
      .onSpace "b" (.extend 3), .onSpace "a" (.extend 4),
      .onSpace "a" (.write 1 [1, 2, 3, 4, 5, 6, 7, 8]), .onSpace "a" (.write 9 [9, 9]), .evict "b"]
    ∃ s own, (opened.run actions).lodging? "a" = some ⟨.space s, own⟩ ∧
      let h := (opened.run actions).hostOf ⟨.space s, own⟩
      s.read h 0 10 = .whole [0, 1, 2, 3, 4, 5, 6, 7, 8, 0] ∧
      s.read h 5 6 = .refused (.outOfBounds 5 6 10) := by
  intro start opened actions
  have hregistry : Registry.ofSettings (Settings.exact [⟨Path.ofString "/tmp", none⟩] 4) =
    .ok ⟨Settings.exact [⟨Path.ofString "/tmp", none⟩] 4, 0, [0], 0⟩ := rfl
  have hkeeps : ∀ action ∈ actions, action.Keeps "a" := by
    simp [actions, Action.Keeps, Action.name?]
  obtain ⟨s, own, hl, -, -, hread, -⟩ := behaves_as_array hregistry Disk.standard 64 [] "a" true
    { options := { initial := some (Buffer.zeros 2) } } rfl hkeeps
  have hsize : ((opened.run actions).lodging? "a").map (fun l => l.tenant.inner.logicalSize) =
    some 10 := by decide +kernel
  have harray : arrayOver "a" opened (Buffer.zeros 2).toList actions =
    [0, 1, 2, 3, 4, 5, 6, 7, 8, 0] := by decide +kernel
  have hlodging : (opened.run actions).lodging? "a" = some ⟨.space s, own⟩ := hl
  rw [hlodging] at hsize
  have hlogical : s.logicalSize = 10 := Option.some.inj hsize
  refine ⟨s, own, hl, ?_, ?_⟩
  · have hwhole := hread 0 10
    rw [hlogical, if_pos (by decide)] at hwhole
    exact hwhole.trans (congrArg (fun array => Transfer.whole ((array.drop 0).take 10)) harray)
  · have hrefused := hread 5 6
    rw [hlogical, if_neg (by decide)] at hrefused
    exact hrefused

end Session

end SpillStorage
