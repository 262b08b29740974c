import SpillStorage.Proofs.Accounts
import SpillStorage.Proofs.Session.Run

/-!
Lodgings that share a disk and, most of them, a registry.

What is proved:
  1. `Housed.front`, `Housed.join` and `Housed.without`: what is on the disk can be parted into
     the files of one lodging and those of the others, and put together again.
  2. `Tenancy.settle`, `Tenancy.leave` and `Tenancy.receive`: a tenancy stays in order when one of
     its lodgings does something, when one leaves and when one comes.
-/

namespace SpillStorage

/-! ## Parts of a disk -/

/-- The handles that are those of others to all but the files named. -/
def Beside (others : Nat → Prop) (files : List TempFile) (handle : Nat) : Prop :=
  handle ∈ files.map TempFile.handle ∨ others handle

namespace Housed

variable {others : Nat → Prop} {xs xs' ys : List TempFile} {d d' : Disk}

theorem perm (h : Housed others xs d) (hp : xs.Perm ys) : Housed others ys d := by
  have hhandles := hp.map TempFile.handle
  refine ⟨fun f hf => h.backed f (hp.mem_iff.2 hf), hhandles.nodup_iff.1 h.distinct,
    ?_, fun handle hmem => h.apart handle (hhandles.mem_iff.2 hmem)⟩
  intro handle
  rw [h.present, hhandles.mem_iff]

theorem congr (h : Housed others xs d) (hsame : ∀ handle, d'.content? handle = d.content? handle) :
    Housed others xs d' := by
  refine ⟨fun f hf => (h.backed f hf).congr (hsame _), h.distinct, ?_, h.apart⟩
  intro handle
  rw [hsame]
  exact h.present handle

/-- To the files in front, those behind are the files of others. -/
theorem front (h : Housed others (xs ++ ys) d) : Housed (Beside others ys) xs d := by
  have hdistinct := h.distinct
  rw [List.map_append, List.nodup_append] at hdistinct
  refine ⟨fun f hf => h.backed f (List.mem_append_left _ hf), hdistinct.1, ?_, ?_⟩
  · intro handle
    rw [h.present, List.map_append, List.mem_append, or_assoc]
    rfl
  · intro handle hmem hbeside
    rcases hbeside with hbeside | hother
    · exact hdistinct.2.2 handle hmem handle hbeside rfl
    · refine h.apart handle ?_ hother
      rw [List.map_append]
      exact List.mem_append_left _ hmem

/-- Other files can take the place of those in front, if the rest of the disk is as it was. -/
theorem join (h : Housed others (xs ++ ys) d) (hfront : Housed (Beside others ys) xs' d')
    (hsame : ∀ handle, Beside others ys handle → d'.content? handle = d.content? handle) :
    Housed others (xs' ++ ys) d' := by
  have hdistinct := h.distinct
  rw [List.map_append, List.nodup_append] at hdistinct
  refine ⟨?_, ?_, ?_, ?_⟩
  · intro f hf
    rcases List.mem_append.1 hf with hf | hf
    · exact hfront.backed f hf
    · exact (h.backed f (List.mem_append_right _ hf)).congr
        (hsame _ (.inl (List.mem_map_of_mem hf)))
  · rw [List.map_append, List.nodup_append]
    refine ⟨hfront.distinct, hdistinct.2.1, ?_⟩
    rintro handle hmem other hother rfl
    exact hfront.apart handle hmem (.inl hother)
  · intro handle
    rw [hfront.present, List.map_append, List.mem_append, or_assoc]
    rfl
  · intro handle hmem hother
    rw [List.map_append, List.mem_append] at hmem
    rcases hmem with hmem | hmem
    · exact hfront.apart handle hmem (.inr hother)
    · refine h.apart handle ?_ hother
      rw [List.map_append]
      exact List.mem_append_right _ hmem

/-- The files in front can be deleted. -/
theorem without (h : Housed others (xs ++ ys) d) (hdropped : ∀ handle, d'.content? handle =
      if handle ∈ xs.map TempFile.handle then none else d.content? handle) :
    Housed others ys d' ∧
      ∀ handle, Beside others ys handle → d'.content? handle = d.content? handle := by
  have hfront := h.front
  have hsame : ∀ handle, Beside others ys handle → d'.content? handle = d.content? handle := by
    intro handle hbeside
    rw [hdropped, if_neg fun hmem => hfront.apart handle hmem hbeside]
  have hnone : Housed (Beside others ys) [] d' := by
    refine ⟨by simp, by simp, ?_, by simp⟩
    intro handle
    rw [hdropped]
    split
    · next hmem => simpa using hfront.apart handle hmem
    · next hmem => simp [hfront.present, hmem]
  exact ⟨h.join hnone hsame, hsame⟩

end Housed

/-! ## Tenancies -/

/-- The files of all lodgings. -/
def filesOf (ls : List Lodging) : List TempFile := ls.flatMap fun l => l.tenant.inner.files.files

/-- The spaces that the session's registry counts for. -/
def sharing (ls : List Lodging) : List Space :=
  (ls.filter fun l => l.own.isNone).map fun l => l.tenant.inner

/-- The lodgings of a host are in order: their spaces are sound, their files are all that is on the
disk but for the handles of others, and every registry keeps exact accounts. -/
structure Tenancy (others : Nat → Prop) (h : Host) (ls : List Lodging) : Prop where
  sound : ∀ l ∈ ls, l.tenant.inner.Sound
  housed : Housed others (filesOf ls) h.disk
  shared : h.registry.Balanced (sharing ls)
  own : ∀ l ∈ ls, ∀ registry, l.own = some registry → registry.Balanced [l.tenant.inner]

theorem filesOf_cons (l : Lodging) (rest : List Lodging) :
    filesOf (l :: rest) = l.tenant.inner.files.files ++ filesOf rest := List.flatMap_cons

theorem sharing_cons (l : Lodging) (rest : List Lodging) :
    sharing (l :: rest) =
      if l.own.isNone then l.tenant.inner :: sharing rest else sharing rest := by
  unfold sharing
  rw [List.filter_cons]
  split <;> rfl

namespace Tenancy

open Session

variable {others : Nat → Prop} {ls rest : List Lodging} {l : Lodging} {σ : Session}

theorem perm {h : Host} {ls' : List Lodging} (ht : Tenancy others h ls) (hp : ls.Perm ls') :
    Tenancy others h ls' :=
  ⟨fun l hl => ht.sound l (hp.mem_iff.2 hl), ht.housed.perm (hp.flatMap_right _),
    ht.shared.perm ((hp.filter _).map _), fun l hl => ht.own l (hp.mem_iff.2 hl)⟩

theorem tail {h : Host} (ht : Tenancy others h (l :: rest)) :
    (∀ l ∈ rest, l.tenant.inner.Sound) ∧
      ∀ l ∈ rest, ∀ registry, l.own = some registry → registry.Balanced [l.tenant.inner] :=
  ⟨fun l hl => ht.sound l (List.mem_cons_of_mem _ hl),
    fun l hl => ht.own l (List.mem_cons_of_mem _ hl)⟩

/-- What the lodgings see of the disk is the bytes behind handles. -/
theorem congr {h : Host} (ht : Tenancy others h ls) {disk : Disk} (heap : Nat)
    (hsame : ∀ handle, disk.content? handle = h.disk.content? handle) :
    Tenancy others ⟨h.registry, disk, heap⟩ ls :=
  ⟨ht.sound, ht.housed.congr hsame, ht.shared, ht.own⟩

/-- To a lodging the files of the rest are files of others. -/
theorem front {h : Host} (ht : Tenancy others h (l :: rest)) :
    Housed (Beside others (filesOf rest)) l.tenant.inner.files.files h.disk := by
  have hhoused := ht.housed
  rw [filesOf_cons] at hhoused
  exact hhoused.front

theorem disk_hostOf (σ : Session) (l : Lodging) : (σ.hostOf l).disk = σ.host.disk := by
  unfold hostOf
  split <;> rfl

theorem disk_leaving (σ : Session) (l : Lodging) (h : Host) :
    (σ.leaving l h).host.disk = h.disk := by
  unfold leaving
  split <;> rfl

/-- A lodging does something: its tenancy stays in order, and the others' files as they were. -/
theorem settle (ht : Tenancy others σ.host (l :: rest)) {tenant : Tenant} {h : Host}
    (hleads : Leads (l.tenant.inner, σ.hostOf l) (tenant.inner, h)) :
    Tenancy others (σ.leaving l h).host (⟨tenant, l.own.map fun _ => h.registry⟩ :: rest) ∧
      (∀ handle, Beside others (filesOf rest) handle →
        (σ.leaving l h).host.disk.content? handle = σ.host.disk.content? handle) ∧
      (σ.leaving l h).host.registry.settings = σ.host.registry.settings := by
  have hs := ht.sound l List.mem_cons_self
  have hrun := hleads hs
  have hfront := ht.front
  rw [← disk_hostOf σ l] at hfront
  obtain ⟨hhoused, hsame⟩ := Space.changes_housed hrun hs hfront
  simp only [disk_hostOf] at hsame
  rw [disk_leaving]
  have hfiles : Housed others (filesOf (⟨tenant, l.own.map fun _ => h.registry⟩ :: rest))
      h.disk := by
    rw [filesOf_cons]
    have hold := ht.housed
    rw [filesOf_cons] at hold
    exact hold.join hhoused hsame
  have hsound : ∀ l' ∈ (⟨tenant, l.own.map fun _ => h.registry⟩ :: rest : List Lodging),
      l'.tenant.inner.Sound := by
    intro l' hl'
    rcases List.mem_cons.1 hl' with rfl | hl'
    · exact hleads.sound hs
    · exact ht.tail.1 l' hl'
  -- one registry counts for the lodging, the session's or its own, and the other one stays as it is
  obtain ⟨old, own⟩ := l
  have hshared := ht.shared
  rw [sharing_cons] at hshared
  cases own with
  | none =>
    obtain ⟨hbalanced, hsettings⟩ := Registry.Balanced.changes hrun hs hshared
    refine ⟨⟨hsound, hfiles, ?_, ?_⟩, hsame, hsettings⟩
    · rw [sharing_cons]
      exact hbalanced
    · intro l' hl' registry hown
      rcases List.mem_cons.1 hl' with rfl | hl'
      · cases hown
      · exact ht.tail.2 l' hl' registry hown
  | some registry =>
    have hown := ht.own _ List.mem_cons_self registry rfl
    obtain ⟨hbalanced, -⟩ := Registry.Balanced.changes hrun hs hown
    refine ⟨⟨hsound, hfiles, ?_, ?_⟩, hsame, rfl⟩
    · rw [sharing_cons]
      exact hshared
    · intro l' hl' registry' hown'
      rcases List.mem_cons.1 hl' with rfl | hl'
      · cases hown'
        exact hbalanced
      · exact ht.tail.2 l' hl' registry' hown'

/-- A lodging leaves with all that its space holds. -/
theorem leave (ht : Tenancy others σ.host (l :: rest)) :
    Tenancy others (σ.leaving l (l.tenant.inner.drop (σ.hostOf l))).host rest ∧
      (∀ handle, Beside others (filesOf rest) handle →
        (σ.leaving l (l.tenant.inner.drop (σ.hostOf l))).host.disk.content? handle =
          σ.host.disk.content? handle) ∧
      (σ.leaving l (l.tenant.inner.drop (σ.hostOf l))).host.registry.settings =
        σ.host.registry.settings := by
  have hold := ht.housed
  rw [filesOf_cons] at hold
  obtain ⟨hhoused, hsame⟩ := hold.without fun handle => by
    rw [content?_drop l.tenant.inner (σ.hostOf l), disk_hostOf]
  rw [disk_leaving]
  obtain ⟨tenant, own⟩ := l
  have hshared := ht.shared
  rw [sharing_cons] at hshared
  cases own with
  | none =>
    obtain ⟨hbalanced, hsettings⟩ := Registry.Balanced.drop (h := σ.host) hshared
    exact ⟨⟨ht.tail.1, hhoused, hbalanced, ht.tail.2⟩, hsame, hsettings⟩
  | some registry => exact ⟨⟨ht.tail.1, hhoused, hshared, ht.tail.2⟩, hsame, rfl⟩

/-- A space that is sound and holds nothing may come. -/
theorem receive {h : Host} (ht : Tenancy others h ls) {s : Space} (hs : s.Sound)
    (hcache : s.cacheUsage = 0) (hfiles : s.files.files = []) {own : Option Registry}
    (hown : ∀ registry, own = some registry → registry.Balanced []) :
    Tenancy others h (⟨.space s, own⟩ :: ls) := by
  refine ⟨?_, ?_, ?_, ?_⟩
  · intro l hl
    rcases List.mem_cons.1 hl with rfl | hl
    · exact hs
    · exact ht.sound l hl
  · rw [filesOf_cons]
    simp only [Tenant.inner, hfiles, List.nil_append]
    exact ht.housed
  · rw [sharing_cons]
    split
    · exact ht.shared.receive hcache hfiles
    · exact ht.shared
  · intro l hl registry hregistry
    rcases List.mem_cons.1 hl with rfl | hl
    · exact (hown registry hregistry).receive hcache hfiles
    · exact ht.own l hl registry hregistry

end Tenancy

end SpillStorage
