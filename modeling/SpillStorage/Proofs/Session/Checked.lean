import SpillStorage.Proofs.Session.Sound
import SpillStorage.Proofs.StagingCache.Checked

/-!
Sessions in which every sum and product of a staging cache is checked.

What is proved:
  1. `cache_cases`: where a cache comes from.
  2. `Sound.ordered_perform`: so an action, whatever it is and whomever it is about, leaves every
     cache of a session with its slots in order.
  3. `runChecked_eq`: in a run that stays in range no check fails, and the session is the one that
     the run leaves.

A run stays in range as long as no space gets to `2 ^ 63` bytes and no length that a caller gives a
cache, with a header in front, is too great for an offset. Neither follows from the model: callers
make references up as they like.
-/

namespace SpillStorage.Session

open StagingCache (InOrder Slots)

variable {others : Nat → Prop} {σ : Session} {name : String} {c : StagingCache}
  {own : Option Registry} {action : Action}

/-! ## Runs in range -/

/-- No space has `2 ^ 63` bytes. -/
def Short (σ : Session) : Prop :=
  ∀ entry ∈ σ.lodgings, entry.2.tenant.inner.physicalSize < Disk.lengthBound

instance (σ : Session) : Decidable σ.Short :=
  inferInstanceAs (Decidable (∀ entry ∈ σ.lodgings, _ < _))

/-- What a cache is asked is in range. -/
def Action.InRange : Action → Prop
  | .onCache _ request => request.InRange
  | _ => True

instance : (action : Action) → Decidable action.InRange
  | .onCache _ request => inferInstanceAs (Decidable request.InRange)
  | .openSpace _ _ _ | .onSpace _ _ | .storeRecord _ _ | .keepRecords _ _ | .stage _ _
  | .unwrap _ | .evict _ | .endWithInitial _ | .makeDirectory _ | .makeFile _ _ | .removeTree _
  | .setHeap _ => .isTrue trivial

/-- At no point of the run does a space have `2 ^ 63` bytes, and all that is asked is in range. -/
def InRange (σ : Session) : List Action → Prop
  | [] => σ.Short
  | action :: rest => σ.Short ∧ action.InRange ∧ InRange (σ.perform action) rest

instance decidableInRange : (actions : List Action) → (σ : Session) →
    Decidable (σ.InRange actions)
  | [], σ => inferInstanceAs (Decidable σ.Short)
  | action :: rest, σ =>
    have := decidableInRange rest (σ.perform action)
    inferInstanceAs (Decidable (σ.Short ∧ action.InRange ∧ InRange (σ.perform action) rest))

/-- The session after an action, if no sum or product of a cache leaves the range. -/
def performChecked (σ : Session) : Action → Option Session
  | .onCache name request =>
    match σ.lodging? name with
    | some ⟨.cache c, own⟩ =>
      (c.serveChecked (σ.hostOf ⟨.cache c, own⟩) request).map fun (c', h) =>
        σ.settle name ⟨.cache c, own⟩ (.cache c') h
    | _ => some σ
  | action => some (σ.perform action)

/-- The session after a run of actions. -/
def runChecked (σ : Session) : List Action → Option Session
  | [] => some σ
  | action :: rest => (σ.performChecked action).bind fun σ => runChecked σ rest

/-! ## Where caches come from -/

theorem adopted_of_convert {adopt : Space → Host → Outcome Host Tenant} {tenant : Tenant}
    (hl : (σ.after (σ.convert name adopt)).lodging? name = some ⟨tenant, own⟩) :
    ∃ l h, σ.lodging? name = some l ∧ adopt l.tenant.inner (σ.hostOf l) = .ok h tenant := by
  unfold convert at hl
  cases hold : σ.lodging? name with
  | none =>
    rw [hold, Option.map_none, after, hold] at hl
    cases hl
  | some l =>
    simp only [hold, Option.map_some, after] at hl
    cases hadopt : adopt l.tenant.inner (σ.hostOf l) with
    | mk h answer =>
    cases answer with
    | error f =>
      simp only [hadopt, Outcome.fail, lodging?_remove, if_true] at hl
      cases hl
    | ok new =>
      simp only [hadopt, Outcome.ok, lodging?_settle, if_true] at hl
      cases hl
      exact ⟨l, h, rfl, hadopt⟩

/-- A cache was there before an action, it was asked for something, or it took a space over. -/
theorem cache_cases (hσ : Sound others σ)
    (hl : (σ.perform action).lodging? name = some ⟨.cache c, own⟩) :
    (∃ own, σ.lodging? name = some ⟨.cache c, own⟩) ∨
    (∃ c₀ own request, σ.lodging? name = some ⟨.cache c₀, own⟩ ∧
      c = (c₀.serve (σ.hostOf ⟨.cache c₀, own⟩) request).1) ∨
    ∃ l h alignment, σ.lodging? name = some l ∧
      StagingCache.adopt l.tenant.inner (σ.hostOf l) alignment = .ok h c := by
  by_cases hname : some name = action.name?
  · -- the action is about the cache
    cases action with
    | openSpace other shared b =>
      cases hname
      simp only [perform] at hl
      rcases σ.openSpace_cases name shared b with ⟨f, heq⟩ | ⟨s, own', registry, -, heq⟩
      · rw [heq] at hl
        exact .inl ⟨own, hl⟩
      · simp only [heq, Outcome.ok, lodging?_put, if_true] at hl
        cases hl
    | onSpace other request =>
      cases hname
      simp only [perform, onSpace] at hl
      split at hl
      · simp only [after, Outcome.onState, lodging?_settle, if_true] at hl
        cases hl
      · exact .inl ⟨own, hl⟩
    | storeRecord other record =>
      cases hname
      simp only [perform, onLog] at hl
      split at hl
      · simp only [after, Outcome.onState, lodging?_settle, if_true] at hl
        cases hl
      · exact .inl ⟨own, hl⟩
    | onCache other request =>
      cases hname
      simp only [perform, onCache] at hl
      split at hl
      · next c₀ own₀ hold =>
        simp only [after, Outcome.onState, Outcome.ok, lodging?_settle, if_true] at hl
        cases hl
        exact .inr (.inl ⟨c₀, own₀, request, hold, rfl⟩)
      · exact .inl ⟨own, hl⟩
    | keepRecords other recordLength =>
      cases hname
      obtain ⟨l, h, -, hadopt⟩ := adopted_of_convert hl
      obtain ⟨log, -, hlog⟩ := Outcome.of_map_ok hadopt
      cases hlog
    | stage other alignment =>
      cases hname
      obtain ⟨l, h, hold, hadopt⟩ := adopted_of_convert hl
      obtain ⟨c', hcache, heq⟩ := Outcome.of_map_ok hadopt
      cases heq
      exact .inr (.inr ⟨l, h, alignment, hold, hcache⟩)
    | unwrap other =>
      cases hname
      simp only [perform, unwrap?] at hl
      cases hold : σ.lodging? name with
      | none =>
        rw [hold, Option.map_none, Option.getD_none, hold] at hl
        cases hl
      | some l =>
        simp only [hold, Option.map_some, Option.getD_some, lodging?_put, if_true] at hl
        cases hl
    | evict other =>
      cases hname
      rw [perform, lodging?_evict] at hl
      cases hl
    | endWithInitial other =>
      cases hname
      simp only [perform, endWithInitial?] at hl
      cases hold : σ.lodging? name with
      | none =>
        rw [hold, Option.map_none, Option.map_none, Option.getD_none, hold] at hl
        cases hl
      | some l =>
        simp only [hold, Option.map_some, Option.getD_some, lodging?_remove, if_true] at hl
        cases hl
    | _ => cases hname
  · exact .inl ⟨own, ((hσ.perform action).2.lodging name hname).symm.trans hl⟩

/-! ## Caches in order -/

/-- Every cache has its slots in order. -/
def Ordered (σ : Session) : Prop :=
  ∀ name c own, σ.lodging? name = some ⟨.cache c, own⟩ → ∃ base, Slots base c

namespace Sound

/-- A cache whose slots are in order is in order, for its space stands. -/
theorem inOrder (hσ : Sound others σ) (ho : σ.Ordered)
    (hl : σ.lodging? name = some ⟨.cache c, own⟩) :
    ∃ base, InOrder base (c, σ.hostOf ⟨.cache c, own⟩) := by
  obtain ⟨base, hslots⟩ := ho name c own hl
  exact ⟨base, hσ.stands hl, hslots⟩

theorem ordered_perform (hσ : Sound others σ) (ho : σ.Ordered) (action : Action) :
    (σ.perform action).Ordered := by
  intro name c own hl
  rcases cache_cases hσ hl with ⟨own₀, hold⟩ | ⟨c₀, own₀, request, hold, rfl⟩ |
    ⟨l, h, alignment, hold, hadopt⟩
  · exact ho name c own₀ hold
  · obtain ⟨base, horder⟩ := hσ.inOrder ho hold
    exact ⟨base, ((StagingCache.steps_serve horder request).inOrder horder).slots⟩
  · exact ⟨_, (InOrder.adopt (hσ.stands hold) hadopt).slots⟩

/-! ## Checked runs -/

theorem performChecked_eq (hσ : Sound others σ) (ho : σ.Ordered) (hshort : σ.Short)
    (hrange : action.InRange) : σ.performChecked action = some (σ.perform action) := by
  cases action with
  | onCache name request =>
    simp only [performChecked, Session.perform, Session.onCache]
    cases hl : σ.lodging? name with
    | none => rfl
    | some l =>
      obtain ⟨tenant, own⟩ := l
      cases tenant with
      | space s => rfl
      | log l => rfl
      | cache c =>
        obtain ⟨base, horder⟩ := hσ.inOrder ho hl
        have hspace : c.space.physicalSize < Disk.lengthBound := hshort _ (mem_lodgings hl)
        simp only [StagingCache.serveChecked_eq horder hspace hrange]
        rfl
  | _ => rfl

theorem runChecked_eq (hσ : Sound others σ) (ho : σ.Ordered) {actions : List Action}
    (hrange : σ.InRange actions) : σ.runChecked actions = some (σ.run actions) := by
  induction actions generalizing σ with
  | nil => rfl
  | cons action rest ih =>
    obtain ⟨hshort, hasked, hrest⟩ := hrange
    rw [runChecked, hσ.performChecked_eq ho hshort hasked, Option.bind_some]
    exact ih (hσ.perform action).1 (hσ.ordered_perform ho action) hrest

end Sound

theorem ordered_ofHost (host : Host) : (ofHost host).Ordered := by
  intro name c own hl
  cases hl

/-- From its beginning a session that stays in range passes every check. -/
theorem runChecked_eq {settings : Settings} {registry : Registry}
    (hregistry : Registry.ofSettings settings = .ok registry) (disk : Disk) (heap : Nat)
    {actions : List Action} (hrange : (ofHost ⟨registry, disk, heap⟩).InRange actions) :
    (ofHost ⟨registry, disk, heap⟩).runChecked actions =
      some ((ofHost ⟨registry, disk, heap⟩).run actions) :=
  (sound_ofHost hregistry disk heap).runChecked_eq (ordered_ofHost _) hrange

end SpillStorage.Session
