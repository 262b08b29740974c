import SpillStorage.Proofs.Session.Tenancy
import SpillStorage.Proofs.Space.Bytes

/-!
Sessions in order, and what their runs keep.

What is proved:
  1. `Sound.serves`, `Sound.leaves` and `Sound.openSpace`: whatever one tenant does, the session
     stays in order, and the other tenants and their files are spared.
  2. `acts_perform`: every action is one of these, or something that no tenant sees.
  3. `Sound.perform` and `Sound.run`: so it is for every action, and for every run of actions.
  4. `stands_run`: so the space of every tenant stands, at any point of a session.
  5. `Sound.balanced` and `Sound.settings_openSpace`: which registry counts for a tenant, and under
     which settings.
-/

namespace SpillStorage.Session

/-! ## Lodgings apart from the one with a name -/

theorem remove_eq_self {σ : Session} {name : String} (h : σ.lodging? name = none) :
    σ.remove name = σ := by
  have hfilter : (σ.lodgings.filter fun entry => entry.1 != name) = σ.lodgings := by
    apply List.filter_eq_self.2
    intro entry hentry
    unfold lodging? at h
    rw [List.lookup_eq_none_iff] at h
    have := h entry hentry
    rw [bne_iff_ne]
    rintro rfl
    simp at this
  unfold remove
  rw [hfilter]

/-- The lodging with a name, and those without. -/
theorem lodgings_perm {σ : Session} {name : String} {l : Lodging}
    (hnames : (σ.lodgings.map Prod.fst).Nodup) (h : σ.lodging? name = some l) :
    (σ.lodgings.map Prod.snd).Perm (l :: (σ.remove name).lodgings.map Prod.snd) := by
  unfold lodging? at h
  unfold remove
  simp only
  generalize σ.lodgings = lodgings at hnames h ⊢
  induction lodgings with
  | nil => cases h
  | cons entry rest ih =>
    obtain ⟨n, l'⟩ := entry
    rw [List.map_cons, List.nodup_cons] at hnames
    rw [List.lookup_cons] at h
    by_cases hn : n = name
    · subst hn
      rw [beq_self_eq_true] at h
      cases h
      -- no other tenant has the name
      have hrest : (rest.filter fun entry => entry.1 != n) = rest := by
        apply List.filter_eq_self.2
        intro entry hentry
        apply bne_iff_ne.2
        intro heq
        exact hnames.1 (List.mem_map.2 ⟨entry, hentry, heq⟩)
      rw [List.filter_cons_of_neg (by simp), hrest, List.map_cons]
    · have hne : (name == n) = false := beq_false_of_ne fun heq => hn heq.symm
      rw [hne] at h
      rw [List.filter_cons_of_pos (by simpa using hn), List.map_cons, List.map_cons]
      exact ((ih hnames.2 h).cons l').trans (List.Perm.swap l l' _)

theorem mem_lodgings {σ : Session} {name : String} {l : Lodging} (h : σ.lodging? name = some l) :
    (name, l) ∈ σ.lodgings := by
  obtain ⟨front, rest, hlodgings, -⟩ := List.lookup_eq_some_iff.1 h
  rw [hlodgings]
  exact List.mem_append_right _ List.mem_cons_self

theorem mem_remove {σ : Session} {name other : String} {l : Lodging} (hother : other ≠ name)
    (h : σ.lodging? other = some l) : l ∈ (σ.remove name).lodgings.map Prod.snd :=
  List.mem_map.2 ⟨(other, l), List.mem_filter.2 ⟨mem_lodgings h, bne_iff_ne.2 hother⟩, rfl⟩

theorem names_remove {σ : Session} (name : String) (hnames : (σ.lodgings.map Prod.fst).Nodup) :
    ((σ.remove name).lodgings.map Prod.fst).Nodup :=
  hnames.sublist (List.filter_sublist.map _)

theorem names_put {σ : Session} (name : String) (l : Lodging)
    (hnames : (σ.lodgings.map Prod.fst).Nodup) : ((σ.put name l).lodgings.map Prod.fst).Nodup := by
  refine List.nodup_cons.2 ⟨?_, names_remove name hnames⟩
  intro hmem
  obtain ⟨entry, hentry, heq⟩ := List.mem_map.1 hmem
  have hne := (List.mem_filter.1 hentry).2
  rw [bne_iff_ne] at hne
  exact hne heq

theorem lodging?_evict (σ : Session) (name : String) : (σ.evict name).lodging? name = none := by
  unfold evict
  cases hl : σ.lodging? name with
  | none => exact hl
  | some l =>
    simp only
    rw [lodging?_remove, if_pos rfl]

theorem lodgings_leaving (σ : Session) (l : Lodging) (h : Host) :
    (σ.leaving l h).lodgings = σ.lodgings := by
  unfold leaving
  split <;> rfl

/-! ## Sessions in order -/

/-- No two tenants have one name, and their tenancy is in order. -/
structure Sound (others : Nat → Prop) (σ : Session) : Prop where
  names : (σ.lodgings.map Prod.fst).Nodup
  tenancy : Tenancy others σ.host (σ.lodgings.map Prod.snd)

/-- Tenants but the one that was asked are as they were, with their files, and the settings too. -/
structure Spares (asked : Option String) (σ σ' : Session) : Prop where
  lodging : ∀ other, some other ≠ asked → σ'.lodging? other = σ.lodging? other
  content : ∀ (other : String) (l : Lodging), some other ≠ asked → σ.lodging? other = some l →
    ∀ f ∈ l.tenant.inner.files.files,
      σ'.host.disk.content? f.handle = σ.host.disk.content? f.handle
  settings : σ'.host.registry.settings = σ.host.registry.settings

theorem Spares.refl (asked : Option String) (σ : Session) : Spares asked σ σ :=
  ⟨fun _ _ => rfl, fun _ _ _ _ _ _ => rfl, rfl⟩

theorem Spares.trans {asked : Option String} {σ₁ σ₂ σ₃ : Session} (h₁ : Spares asked σ₁ σ₂)
    (h₂ : Spares asked σ₂ σ₃) : Spares asked σ₁ σ₃ :=
  ⟨fun other hne => (h₂.lodging other hne).trans (h₁.lodging other hne),
    fun other l hne hl f hf =>
      (h₂.content other l hne ((h₁.lodging other hne).trans hl) f hf).trans
        (h₁.content other l hne hl f hf),
    h₂.settings.trans h₁.settings⟩

/-- A tenant that is spared sees its files as they were. -/
theorem Spares.content_hostOf {asked : Option String} {σ σ' : Session} (h : Spares asked σ σ')
    {name : String} (hne : some name ≠ asked) {l : Lodging} (hl : σ.lodging? name = some l) :
    ∀ f ∈ l.tenant.inner.files.files,
      (σ'.hostOf l).disk.content? f.handle = (σ.hostOf l).disk.content? f.handle := by
  intro f hf
  rw [Tenancy.disk_hostOf, Tenancy.disk_hostOf]
  exact h.content name l hne hl f hf

/-- The settings that count for a lodging are its own or the session's. -/
theorem settings_hostOf {σ σ' : Session}
    (h : σ'.host.registry.settings = σ.host.registry.settings) (l : Lodging) :
    (σ'.hostOf l).registry.settings = (σ.hostOf l).registry.settings := by
  obtain ⟨tenant, own⟩ := l
  cases own with
  | none => exact h
  | some registry => rfl

namespace Sound

variable {others : Nat → Prop} {σ σ' : Session} {name : String}

/-- The tenancy from the side of one lodging. -/
theorem parted (h : Sound others σ) {l : Lodging} (hl : σ.lodging? name = some l) :
    Tenancy others σ.host (l :: (σ.remove name).lodgings.map Prod.snd) :=
  h.tenancy.perm (lodgings_perm h.names hl)

/-- A space in a session stands. -/
theorem stands (hσ : Sound others σ) {l : Lodging} (hl : σ.lodging? name = some l) :
    Space.Stands (l.tenant.inner, σ.hostOf l) := by
  have htenancy := hσ.parted hl
  have hh := htenancy.front
  rw [← Tenancy.disk_hostOf σ l] at hh
  exact ⟨htenancy.sound _ List.mem_cons_self, _, hh⟩

/-- The registry that counts for a tenant keeps exact accounts of its space, among others. -/
theorem balanced (hσ : Sound others σ) {l : Lodging} (hl : σ.lodging? name = some l) :
    ∃ rest, (σ.hostOf l).registry.Balanced (l.tenant.inner :: rest) := by
  have htenancy := hσ.parted hl
  obtain ⟨tenant, own⟩ := l
  cases own with
  | none =>
    have hshared := htenancy.shared
    rw [sharing_cons] at hshared
    exact ⟨_, hshared⟩
  | some registry => exact ⟨[], htenancy.own _ List.mem_cons_self registry rfl⟩

theorem spares_content {disk : Disk} (hsame : ∀ handle,
      Beside others (filesOf ((σ.remove name).lodgings.map Prod.snd)) handle →
        disk.content? handle = σ.host.disk.content? handle) (other : String) (l : Lodging)
    (hne : some other ≠ some name) (hl : σ.lodging? other = some l) :
    ∀ f ∈ l.tenant.inner.files.files, disk.content? f.handle = σ.host.disk.content? f.handle := by
  intro f hf
  refine hsame _ (.inl (List.mem_map_of_mem ?_))
  have hother : other ≠ name := fun heq => hne (congrArg some heq)
  exact List.mem_flatMap.2 ⟨l, mem_remove hother hl, hf⟩

/-- When one tenant does something, the session stays in order and the others are spared. -/
theorem serves (h : Sound others σ) (hs : Serves σ name σ') :
    Sound others σ' ∧ Spares (some name) σ σ' := by
  cases hs with
  | idle => exact ⟨h, .refl _ σ⟩
  | @settled l tenant host hl hleads =>
    obtain ⟨htenancy, hsame, hsettings⟩ := (h.parted hl).settle hleads
    refine ⟨⟨?_, ?_⟩, ⟨?_, spares_content hsame, hsettings⟩⟩
    · apply names_put name _
      rw [lodgings_leaving]
      exact h.names
    · unfold settle put remove
      rw [lodgings_leaving]
      exact htenancy
    · intro other hne
      rw [lodging?_settle, if_neg fun heq => hne (congrArg some heq)]

/-- So it is when one leaves. -/
theorem leaves (h : Sound others σ) (hs : Leaves σ name σ') :
    Sound others σ' ∧ Spares (some name) σ σ' := by
  cases hs with
  | idle => exact ⟨h, .refl _ σ⟩
  | @gone l hl =>
    obtain ⟨htenancy, hsame, hsettings⟩ := (h.parted hl).leave
    refine ⟨⟨?_, ?_⟩, ⟨?_, spares_content hsame, hsettings⟩⟩
    · apply names_remove name
      rw [lodgings_leaving]
      exact h.names
    · unfold remove
      rw [lodgings_leaving]
      exact htenancy
    · intro other hne
      rw [lodging?_remove, if_neg fun heq => hne (congrArg some heq), lodging?_leaving]

/-- The tree of directories and the heap are seen by no tenant. -/
theorem surroundings (h : Sound others σ) {disk : Disk} (heap : Nat)
    (hsame : ∀ handle, disk.content? handle = σ.host.disk.content? handle) :
    Sound others ⟨⟨σ.host.registry, disk, heap⟩, σ.lodgings⟩ ∧
      Spares none σ ⟨⟨σ.host.registry, disk, heap⟩, σ.lodgings⟩ :=
  ⟨⟨h.names, h.tenancy.congr heap hsame⟩, fun _ _ => rfl, fun _ _ _ _ f _ => hsame f.handle, rfl⟩

end Sound

/-! ## New spaces -/

/-- What it takes for a space to be opened: who had its name goes, and it holds nothing yet. -/
structure Opens (σ : Session) (name : String) (b : Blueprint) (s : Space) (own : Option Registry)
    (registry : Registry) : Prop where
  created : ∃ r r', Space.create r b.options = .ok (s, r')
  registry : registry = σ.host.registry ∨ registry = σ.host.registry.enroll.2
  own : ∀ r, own = some r → r.Balanced []

def withRegistry (σ : Session) (registry : Registry) : Session :=
  { σ with host := { σ.host with registry := registry } }

theorem openSpace_cases (σ : Session) (name : String) (shared : Bool) (b : Blueprint) :
    (∃ f, σ.openSpace name shared b = .fail σ f) ∨
    ∃ s own registry, Opens σ name b s own registry ∧ σ.openSpace name shared b =
      .ok (((σ.withRegistry registry).evict name).put name ⟨.space s, own⟩) () := by
  unfold openSpace Blueprint.build
  cases shared with
  | true =>
    simp only [if_true]
    cases hcreate : Space.create σ.host.registry b.options with
    | error f => exact .inl ⟨f, rfl⟩
    | ok created =>
      obtain ⟨s, registry⟩ := created
      obtain ⟨stem, hregistry, -⟩ := Space.create_ok hcreate
      refine .inr ⟨s, none, registry, ⟨⟨_, _, hcreate⟩, .inr hregistry, ?_⟩, rfl⟩
      intro r hr
      cases hr
  | false =>
    simp only [Bool.false_eq_true, if_false]
    cases hnew : Registry.ofSettings (b.settings σ.host.disk.temporaries) with
    | error f => exact .inl ⟨f, rfl⟩
    | ok new =>
      simp only
      cases hcreate : Space.create new b.options with
      | error f => exact .inl ⟨f, rfl⟩
      | ok created =>
        obtain ⟨s, registry⟩ := created
        obtain ⟨stem, rfl, -⟩ := Space.create_ok hcreate
        refine .inr ⟨s, some new.enroll.2, σ.host.registry, ⟨⟨_, _, hcreate⟩, .inl rfl, ?_⟩, rfl⟩
        intro r hr
        cases hr
        exact (Registry.balanced_ofSettings hnew).enroll

/-- A space that was opened has the name. -/
theorem openSpace_ok {σ : Session} {name : String} {shared : Bool} {b : Blueprint}
    (hopen : (σ.openSpace name shared b).answer = .ok ()) :
    ∃ s own r r', (σ.openSpace name shared b).state.lodging? name = some ⟨.space s, own⟩ ∧
      Space.create r b.options = .ok (s, r') := by
  rcases σ.openSpace_cases name shared b with ⟨f, heq⟩ | ⟨s, own, registry, hopens, heq⟩
  · rw [heq] at hopen
    cases hopen
  · obtain ⟨r, r', hcreate⟩ := hopens.created
    refine ⟨s, own, r, r', ?_, hcreate⟩
    rw [heq]
    simp only [Outcome.ok]
    rw [lodging?_put, if_pos rfl]

namespace Sound

variable {others : Nat → Prop} {σ : Session} {name : String}

theorem withRegistry (h : Sound others σ) {b : Blueprint} {s : Space} {own : Option Registry}
    {registry : Registry} (hopens : Opens σ name b s own registry) :
    Sound others (σ.withRegistry registry) ∧ Spares (some name) σ (σ.withRegistry registry) := by
  rcases hopens.registry with rfl | rfl
  · exact ⟨h, .refl _ σ⟩
  · have ht := h.tenancy
    exact ⟨⟨h.names, ht.sound, ht.housed, ht.shared.enroll, ht.own⟩,
      fun _ _ => rfl, fun _ _ _ _ _ _ => rfl, rfl⟩

/-- A new space comes. -/
theorem opens (h : Sound others σ) {b : Blueprint} {s : Space} {own : Option Registry}
    {registry : Registry} (hopens : Opens σ name b s own registry) :
    Sound others (((σ.withRegistry registry).evict name).put name ⟨.space s, own⟩) ∧
      Spares (some name) σ (((σ.withRegistry registry).evict name).put name ⟨.space s, own⟩) := by
  obtain ⟨hwith, hspares⟩ := h.withRegistry hopens
  obtain ⟨hevicted, hspares'⟩ := hwith.leaves (leaves_evict _ name)
  -- nothing more is used of the eviction than that it leaves a session in order without the name
  have hgone := lodging?_evict (σ.withRegistry registry) name
  generalize (σ.withRegistry registry).evict name = evicted at hevicted hspares' hgone ⊢
  obtain ⟨r, r', hcreate⟩ := hopens.created
  obtain ⟨stem, -, heq⟩ := Space.create_ok hcreate
  have hreceived := hevicted.tenancy.receive (Space.sound_create hcreate) (by rw [heq])
    (by rw [heq]; rfl) hopens.own
  refine ⟨⟨names_put name _ hevicted.names, ?_⟩, (hspares.trans hspares').trans
    ⟨?_, fun _ _ _ _ _ _ => rfl, rfl⟩⟩
  · unfold put
    rw [remove_eq_self hgone]
    exact hreceived
  · intro other hne
    rw [lodging?_put, if_neg fun heq => hne (congrArg some heq)]

theorem openSpace (h : Sound others σ) (name : String) (shared : Bool) (b : Blueprint) :
    Sound others (σ.openSpace name shared b).state ∧
      Spares (some name) σ (σ.openSpace name shared b).state := by
  rcases σ.openSpace_cases name shared b with ⟨f, heq⟩ | ⟨s, own, registry, hopens, heq⟩
  · rw [heq]
    exact ⟨h, .refl _ σ⟩
  · rw [heq]
    exact h.opens hopens

/-- The settings that count for a new space are those of the session, or its own. -/
theorem settings_openSpace (h : Sound others σ) {shared : Bool} {b : Blueprint} {l : Lodging}
    (hopen : (σ.openSpace name shared b).answer = .ok ())
    (hl : (σ.openSpace name shared b).state.lodging? name = some l) :
    ((σ.openSpace name shared b).state.hostOf l).registry.settings =
      if shared then σ.host.registry.settings else b.settings σ.host.disk.temporaries := by
  have hspares := (h.openSpace name shared b).2
  unfold Session.openSpace Blueprint.build at hopen hl hspares ⊢
  cases shared with
  | true =>
    simp only [if_true] at hopen hl hspares ⊢
    cases hcreate : Space.create σ.host.registry b.options with
    | error f =>
      rw [hcreate] at hopen
      cases hopen
    | ok created =>
      simp only [hcreate, Outcome.ok, lodging?_put, if_true] at hl hspares ⊢
      cases hl
      exact hspares.settings
  | false =>
    simp only [Bool.false_eq_true, if_false] at hopen hl ⊢
    cases hnew : Registry.ofSettings (b.settings σ.host.disk.temporaries) with
    | error f =>
      simp only [hnew] at hopen
      cases hopen
    | ok new =>
      simp only [hnew] at hopen hl ⊢
      cases hcreate : Space.create new b.options with
      | error f =>
        rw [hcreate] at hopen
        cases hopen
      | ok created =>
        obtain ⟨stem, hregistry, -⟩ := Space.create_ok
          (show Space.create new b.options = .ok (created.1, created.2) from hcreate)
        simp only [hcreate, Outcome.ok, lodging?_put, if_true] at hl
        cases hl
        show created.2.settings = b.settings σ.host.disk.temporaries
        rw [hregistry]
        show new.settings = b.settings σ.host.disk.temporaries
        exact Registry.settings_ofSettings hnew

end Sound

/-! ## Runs -/

/-- The tenant that an action is about, if it is about one. -/
def Action.name? : Action → Option String
  | .openSpace name _ _ => some name
  | .onSpace name _ => some name
  | .storeRecord name _ => some name
  | .onCache name _ => some name
  | .keepRecords name _ => some name
  | .stage name _ => some name
  | .unwrap name => some name
  | .evict name => some name
  | .endWithInitial name => some name
  | .makeDirectory _ => none
  | .makeFile _ _ => none
  | .removeTree _ => none
  | .setHeap _ => none

/-- What an action can do to a session. -/
inductive Acts (σ : Session) (action : Action) : Session → Prop
  | serves {name : String} {σ' : Session} (hname : action.name? = some name)
      (hserves : Serves σ name σ') : Acts σ action σ'
  | leaves {name : String} {σ' : Session} (hname : action.name? = some name)
      (hleaves : Leaves σ name σ') : Acts σ action σ'
  | opens {name : String} {shared : Bool} {b : Blueprint}
      (hopens : action = .openSpace name shared b) : Acts σ action (σ.openSpace name shared b).state
  | around {disk : Disk} (heap : Nat) (hname : action.name? = none)
      (hsame : ∀ handle, disk.content? handle = σ.host.disk.content? handle) :
      Acts σ action ⟨⟨σ.host.registry, disk, heap⟩, σ.lodgings⟩

theorem acts_perform (σ : Session) (action : Action) : Acts σ action (σ.perform action) := by
  cases action with
  | openSpace name shared b => exact .opens rfl
  | onSpace name request => exact .serves rfl (serves_onSpace σ name request)
  | storeRecord name record => exact .serves rfl (serves_storeRecord σ name record)
  | onCache name request => exact .serves rfl (serves_onCache σ name request)
  | keepRecords name recordLength =>
    exact (keepRecords_cases σ name recordLength).elim (.serves rfl) (.leaves rfl)
  | stage name alignment => exact (stage_cases σ name alignment).elim (.serves rfl) (.leaves rfl)
  | unwrap name => exact .serves rfl (serves_unwrap σ name)
  | evict name => exact .leaves rfl (leaves_evict σ name)
  | endWithInitial name => exact .leaves rfl (leaves_endWithInitial σ name)
  | makeDirectory path =>
    exact .around σ.host.heapCapacity rfl (σ.host.disk.content?_makeDirectory path)
  | makeFile path content =>
    exact .around σ.host.heapCapacity rfl (σ.host.disk.content?_makeFile path content)
  | removeTree path =>
    exact .around σ.host.heapCapacity rfl (σ.host.disk.content?_removeTree path)
  | setHeap capacity => exact .around capacity rfl fun _ => rfl

theorem Sound.acts {others : Nat → Prop} {σ σ' : Session} (h : Sound others σ) {action : Action}
    (hacts : Acts σ action σ') : Sound others σ' ∧ Spares action.name? σ σ' := by
  cases hacts with
  | serves hname hserves =>
    rw [hname]
    exact h.serves hserves
  | leaves hname hleaves =>
    rw [hname]
    exact h.leaves hleaves
  | @opens name shared b hopens =>
    rw [hopens]
    exact h.openSpace name shared b
  | around heap hname hsame =>
    rw [hname]
    exact h.surroundings heap hsame

/-- An action keeps a session in order and spares all tenants that it is not about. -/
theorem Sound.perform {others : Nat → Prop} {σ : Session} (h : Sound others σ) (action : Action) :
    Sound others (σ.perform action) ∧ Spares action.name? σ (σ.perform action) :=
  h.acts (acts_perform σ action)

/-- A run keeps a session in order, and the settings of its registry. -/
theorem Sound.run {others : Nat → Prop} {σ : Session} (h : Sound others σ) (actions : List Action) :
    Sound others (σ.run actions) ∧
      (σ.run actions).host.registry.settings = σ.host.registry.settings := by
  induction actions generalizing σ with
  | nil => exact ⟨h, rfl⟩
  | cons action rest ih =>
    obtain ⟨hnext, hspares⟩ := h.perform action
    obtain ⟨hrest, hsettings⟩ := ih hnext
    exact ⟨hrest, hsettings.trans hspares.settings⟩

theorem sound_ofHost {settings : Settings} {registry : Registry}
    (h : Registry.ofSettings settings = .ok registry) (disk : Disk) (heap : Nat) :
    Sound (fun handle => (disk.content? handle).isSome) (ofHost ⟨registry, disk, heap⟩) := by
  refine ⟨List.nodup_nil, fun l hl => (by cases hl), ?_, Registry.balanced_ofSettings h,
    fun l hl => (by cases hl)⟩
  exact ⟨fun f hf => (by cases hf), List.nodup_nil, fun handle => by simp [filesOf, ofHost],
    fun handle hmem => (by cases hmem)⟩

/-- At any point of a session the space of every tenant stands. -/
theorem stands_run {settings : Settings} {registry : Registry}
    (hregistry : Registry.ofSettings settings = .ok registry) (disk : Disk) (heap : Nat)
    (actions : List Action) {name : String} {l : Lodging}
    (hl : ((ofHost ⟨registry, disk, heap⟩).run actions).lodging? name = some l) :
    Space.Stands (l.tenant.inner, ((ofHost ⟨registry, disk, heap⟩).run actions).hostOf l) :=
  ((sound_ofHost hregistry disk heap).run actions).1.stands hl

end SpillStorage.Session
