import SpillStorage.Proofs.Courses
import SpillStorage.Proofs.Session.History

/-!
The course of one space in a session, from any point of it on.

What is proved:
  1. `Follows.spared`: whatever happens elsewhere, the space waits.
  2. `Follows.perform`: after an action the space, if it is still there, has gone on by a course,
     which stores what `storesOf` tells: bytes that were written to the space, kept in a record or
     staged.
  3. `Follows.run`: so it is with a run of actions in which no other space is opened under the name.

A record log or a staging cache that takes the space over, or gives it back, does not move it.
-/

namespace SpillStorage

open Space (Course Stands)

/-- A staging cache among the tenants is in order. -/
def Tenant.InOrder : Tenant → Host → Prop
  | .cache c, h => ∃ base, StagingCache.InOrder base (c, h)
  | _, _ => True

namespace Session

/-- What a tenant stores in its space when it is asked. -/
def storedBy : Tenant → Host → Action → List Store
  | .space s, h, .onSpace _ request => s.stores h request
  | .log l, h, .storeRecord _ record => l.stores h record
  | .cache c, h, .onCache _ request => c.stores h request
  | _, _, _ => []

/-- What is stored in the space of the tenant with a name in an action. -/
def storesOf (σ : Session) (name : String) (action : Action) : List Store :=
  match σ.lodging? name with
  | some l => if action.name? = some name then storedBy l.tenant (σ.hostOf l) action else []
  | none => []

/-- What is stored in the space of the tenant with a name in a run. -/
def storesIn (name : String) (σ : Session) : List Action → List Store
  | [] => []
  | action :: rest => σ.storesOf name action ++ storesIn name (σ.perform action) rest

/-- The space of the tenant with a name got where it is by a course. -/
def Follows (start : Space × Host) (name : String) (ws : List Store) (σ : Session) : Prop :=
  ∃ l, σ.lodging? name = some l ∧ Course start ws (l.tenant.inner, σ.hostOf l) ∧
    l.tenant.InOrder (σ.hostOf l)

variable {others : Nat → Prop} {σ σ' : Session} {name : String} {start : Space × Host}
  {ws more : List Store} {l : Lodging}

namespace Follows

/-- Whoever spares a space lets it wait. -/
theorem spared {asked : Option String} (h : Follows start name ws σ) (hσ' : Sound others σ')
    (hspares : Spares asked σ σ') (hne : some name ≠ asked) : Follows start name ws σ' := by
  obtain ⟨l, hl, hcourse, horder⟩ := h
  have hl' := (hspares.lodging name hne).trans hl
  have hstands := hσ'.stands hl'
  have hwaits := hcourse.trans (.single (.wait hstands (hspares.content_hostOf hne hl)
    (settings_hostOf hspares.settings l)))
  rw [List.append_nil] at hwaits
  refine ⟨l, hl', hwaits, ?_⟩
  obtain ⟨tenant, own⟩ := l
  cases tenant with
  | space s => trivial
  | log l => trivial
  | cache c =>
    obtain ⟨base, horder⟩ := horder
    exact ⟨base, hstands, horder.slots⟩

theorem idle (h : Follows start name ws σ) : Follows start name (ws ++ []) σ := by
  rw [List.append_nil]
  exact h

/-- The tenant goes on, in whatever shape. -/
theorem settle (hcourse : Course start ws (l.tenant.inner, σ.hostOf l)) {tenant : Tenant} {h : Host}
    (hmore : Course (l.tenant.inner, σ.hostOf l) more (tenant.inner, h))
    (horder : tenant.InOrder h) :
    Follows start name (ws ++ more) (σ.settle name l tenant h) := by
  refine ⟨⟨tenant, l.own.map fun _ => h.registry⟩, by rw [lodging?_settle, if_pos rfl], ?_⟩
  rw [hostOf_settle]
  exact ⟨hcourse.trans hmore, horder⟩

theorem onSpace (h : Follows start name ws σ) (hσ : Sound others σ) (request : Space.Request) :
    Follows start name (ws ++ σ.storesOf name (.onSpace name request))
      (σ.perform (.onSpace name request)) := by
  obtain ⟨l, hl, hcourse, horder⟩ := id h
  simp only [storesOf, hl, Action.name?, if_true, perform, Session.onSpace]
  obtain ⟨tenant, own⟩ := l
  cases tenant with
  | space s => exact settle hcourse (Space.course_serve (hσ.stands hl) request) trivial
  | log l => exact h.idle
  | cache c => exact h.idle

theorem storeRecord (h : Follows start name ws σ) (hσ : Sound others σ) (record : List UInt8) :
    Follows start name (ws ++ σ.storesOf name (.storeRecord name record))
      (σ.perform (.storeRecord name record)) := by
  obtain ⟨l, hl, hcourse, horder⟩ := id h
  simp only [storesOf, hl, Action.name?, if_true, perform, onLog]
  obtain ⟨tenant, own⟩ := l
  cases tenant with
  | space s => exact h.idle
  | log l => exact settle hcourse (course_storeRecord (hσ.stands hl) record) trivial
  | cache c => exact h.idle

theorem onCache (h : Follows start name ws σ) (request : StagingCache.Request) :
    Follows start name (ws ++ σ.storesOf name (.onCache name request))
      (σ.perform (.onCache name request)) := by
  obtain ⟨l, hl, hcourse, horder⟩ := id h
  simp only [storesOf, hl, Action.name?, if_true, perform, Session.onCache]
  obtain ⟨tenant, own⟩ := l
  cases tenant with
  | space s => exact h.idle
  | log l => exact h.idle
  | cache c =>
    obtain ⟨base, horder⟩ := horder
    exact settle hcourse (StagingCache.course_serve horder request)
      ⟨base, (StagingCache.steps_serve horder request).inOrder horder⟩

/-- A space that is taken over stays where it is; one that is refused is gone. -/
theorem convert (h : Follows start name ws σ) (hσ : Sound others σ)
    {adopt : Space → Host → Outcome Host Tenant}
    (hok : ∀ s h h' tenant, Stands (s, h) → adopt s h = .ok h' tenant →
      h' = h ∧ tenant.inner = s ∧ tenant.InOrder h)
    (hthere : ((σ.after (σ.convert name adopt)).lodging? name).isSome) :
    Follows start name ws (σ.after (σ.convert name adopt)) := by
  obtain ⟨l, hl, hcourse, -⟩ := h
  unfold Session.convert at hthere ⊢
  simp only [hl, Option.map_some, after] at hthere ⊢
  cases hadopt : adopt l.tenant.inner (σ.hostOf l) with
  | mk h' answer =>
  simp only [hadopt] at hthere ⊢
  cases answer with
  | error f =>
    simp only [Outcome.fail] at hthere
    rw [lodging?_remove, if_pos rfl] at hthere
    cases hthere
  | ok tenant =>
    obtain ⟨rfl, hinner, horder⟩ := hok _ _ _ _ (hσ.stands hl) hadopt
    rw [← List.append_nil ws]
    refine settle hcourse ?_ horder
    rw [hinner]
    exact .start

theorem keepRecords (h : Follows start name ws σ) (hσ : Sound others σ) {recordLength : Nat}
    (hthere : ((σ.perform (.keepRecords name recordLength)).lodging? name).isSome) :
    Follows start name ws (σ.perform (.keepRecords name recordLength)) := by
  refine h.convert hσ ?_ hthere
  intro s h h' tenant hs hadopt
  obtain ⟨log, hlog, rfl⟩ := Outcome.of_map_ok hadopt
  obtain ⟨-, rfl, rfl⟩ := RecordLog.adopt_ok hlog
  exact ⟨rfl, rfl, trivial⟩

theorem stage (h : Follows start name ws σ) (hσ : Sound others σ) {alignment : Nat}
    (hthere : ((σ.perform (.stage name alignment)).lodging? name).isSome) :
    Follows start name ws (σ.perform (.stage name alignment)) := by
  refine h.convert hσ ?_ hthere
  intro s h h' tenant hs hadopt
  obtain ⟨c, hcache, rfl⟩ := Outcome.of_map_ok hadopt
  have horder := StagingCache.InOrder.adopt hs hcache
  obtain ⟨rfl, -, -, rfl⟩ := StagingCache.adopt_ok hcache
  exact ⟨rfl, rfl, _, horder⟩

theorem unwrap (h : Follows start name ws σ) :
    Follows start name ws (σ.perform (.unwrap name)) := by
  obtain ⟨l, hl, hcourse, -⟩ := h
  simp only [perform, unwrap?, hl, Option.map_some, Option.getD_some]
  rw [← settle_hostOf, ← List.append_nil ws]
  exact settle hcourse .start trivial

/-- Whatever is done with the space, if it is still there, it is where a course led it. -/
theorem perform (h : Follows start name ws σ) (hσ : Sound others σ) {action : Action}
    (haction : ¬ action.Opens name) (hthere : ((σ.perform action).lodging? name).isSome) :
    Follows start name (ws ++ σ.storesOf name action) (σ.perform action) := by
  by_cases hname : action.name? = some name
  · obtain ⟨l, hl, -⟩ := id h
    -- all but the requests store nothing
    have hquiet : storedBy l.tenant (σ.hostOf l) action = [] →
        Follows start name ws (σ.perform action) →
        Follows start name (ws ++ σ.storesOf name action) (σ.perform action) := by
      intro hnothing hnext
      simp only [storesOf, hl, hname, if_true, hnothing, List.append_nil]
      exact hnext
    cases action with
    | openSpace other shared b =>
      cases hname
      exact absurd ⟨shared, b, rfl⟩ haction
    | onSpace other request =>
      cases hname
      exact h.onSpace hσ request
    | storeRecord other record =>
      cases hname
      exact h.storeRecord hσ record
    | onCache other request =>
      cases hname
      exact h.onCache request
    | keepRecords other recordLength =>
      cases hname
      exact hquiet (by cases l.tenant <;> rfl) (h.keepRecords hσ hthere)
    | stage other alignment =>
      cases hname
      exact hquiet (by cases l.tenant <;> rfl) (h.stage hσ hthere)
    | unwrap other =>
      cases hname
      exact hquiet (by cases l.tenant <;> rfl) h.unwrap
    | evict other =>
      cases hname
      rw [Session.perform, lodging?_evict] at hthere
      cases hthere
    | endWithInitial other =>
      cases hname
      simp only [Session.perform, endWithInitial?, hl, Option.map_some, Option.getD_some] at hthere
      rw [lodging?_remove, if_pos rfl] at hthere
      cases hthere
    | makeDirectory path => cases hname
    | makeFile path content => cases hname
    | removeTree path => cases hname
    | setHeap capacity => cases hname
  · obtain ⟨hσ', hspares⟩ := hσ.perform action
    have hnothing : σ.storesOf name action = [] := by
      unfold storesOf
      split
      · exact if_neg hname
      · rfl
    rw [hnothing, List.append_nil]
    exact h.spared hσ' hspares fun heq => hname heq.symm

theorem run (h : Follows start name ws σ) (hσ : Sound others σ) {actions : List Action}
    (hsame : ∀ action ∈ actions, ¬ action.Opens name)
    (hthere : ((σ.run actions).lodging? name).isSome) :
    Follows start name (ws ++ storesIn name σ actions) (σ.run actions) := by
  induction actions generalizing σ ws with
  | nil =>
    rw [storesIn, List.append_nil]
    exact h
  | cons action rest ih =>
    have hrest : ∀ a ∈ rest, ¬ a.Opens name := fun a ha => hsame a (List.mem_cons_of_mem _ ha)
    have hnext := (hσ.perform action).1
    -- what is there at the end was there all the while
    obtain ⟨l', hl'⟩ := Option.isSome_iff_exists.1 hthere
    obtain ⟨l₁, hl₁, -⟩ := evolves_run hnext hrest hl'
    have hstep := h.perform hσ (hsame action List.mem_cons_self)
      (Option.isSome_iff_exists.2 ⟨l₁, hl₁⟩)
    rw [storesIn, ← List.append_assoc]
    exact ih hstep hnext hrest hthere

end Follows

/-! ## From the opening on -/

/-- A space that was opened, and what became of it as long as no other was opened under its name. -/
theorem course_run (hσ : Sound others σ) {shared : Bool} {b : Blueprint}
    (hopen : (σ.openSpace name shared b).answer = .ok ()) {actions : List Action}
    (hsame : ∀ action ∈ actions, ¬ action.Opens name)
    (hl : ((σ.openSpace name shared b).state.run actions).lodging? name = some l) :
    ∃ s h r r', Space.create r b.options = .ok (s, r') ∧ Stands (s, h) ∧
      h.registry.settings =
        (if shared then σ.host.registry.settings else b.settings σ.host.disk.temporaries) ∧
      Course (s, h) (storesIn name (σ.openSpace name shared b).state actions)
        (l.tenant.inner, ((σ.openSpace name shared b).state.run actions).hostOf l) := by
  obtain ⟨s, own, r, r', hnew, hcreate⟩ := openSpace_ok hopen
  have hopened := (hσ.openSpace name shared b).1
  have hfollows : Follows (s, _) name [] (σ.openSpace name shared b).state :=
    ⟨⟨.space s, own⟩, hnew, .start, trivial⟩
  obtain ⟨l', hl', hcourse, -⟩ :=
    hfollows.run hopened hsame (Option.isSome_iff_exists.2 ⟨l, hl⟩)
  rw [hl, Option.some.injEq] at hl'
  subst hl'
  exact ⟨s, _, r, r', hcreate, hopened.stands hnew, hσ.settings_openSpace hopen hnew, hcourse⟩

end Session

end SpillStorage
