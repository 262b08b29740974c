import SpillStorage.Proofs.Session.Sound
import SpillStorage.Proofs.Space.FirstFit

/-!
Where the spaces of a session come from.

What is proved:
  1. `Evolves.prolongs` and `Evolves.oneEach`: whatever becomes of a space, its files keep their
     places and only get longer, and no directory gets a second one.
  2. `evolves_perform`: after an action, the space of a tenant is one that it had before and that
     changed, or a new one.
  3. `arises_run` and `evolves_run`: so every space in a session was new once, and as long as none
     is opened under its name, it is the one that was there.
-/

namespace SpillStorage

open Relation

/-- Every file of the first list is in the second one at the same place, no shorter than it was. -/
def Prolongs (files later : List TempFile) : Prop :=
  ∀ (place : Nat) (f : TempFile), files[place]? = some f →
    ∃ size, f.size ≤ size ∧ later[place]? = some { f with size := size }

namespace Prolongs

theorem refl (files : List TempFile) : Prolongs files files :=
  fun _ f hf => ⟨f.size, Nat.le_refl _, hf⟩

theorem trans {xs ys zs : List TempFile} (hxy : Prolongs xs ys) (hyz : Prolongs ys zs) :
    Prolongs xs zs := by
  intro place f hf
  obtain ⟨size, hle, hy⟩ := hxy place f hf
  obtain ⟨size', hle', hz⟩ := hyz place _ hy
  exact ⟨size', hle.trans hle', hz⟩

end Prolongs

theorem SpillFiles.Claims.prolongs {s s' : SpillFiles} {h h' : Host} {size : Nat} {extent : Extent}
    (hclaims : s.Claims h size s' h' extent) : Prolongs s.files s'.files := by
  intro i f hf
  obtain ⟨hlt, -⟩ := List.getElem?_eq_some_iff.1 hf
  cases hclaims with
  | @lengthened place index file registry hfile hdirectory hreserved hle =>
    by_cases heq : place = i
    · subst heq
      rw [hfile] at hf
      cases hf
      exact ⟨f.size + size, Nat.le_add_right _ _, by simp [hlt]⟩
    · exact ⟨f.size, Nat.le_refl _, by simp [heq, hf]⟩
  | created hreserved hcreated hle hfirst =>
    exact ⟨f.size, Nat.le_refl _, by simp [List.getElem?_append_left hlt, hf]⟩

namespace Space

/-- What a space becomes by changes, whatever its host is at each of them. -/
def Evolves : Space → Space → Prop := ReflTransGen fun s t => ∃ h h', Change (s, h) (t, h')

/-- A space that was created once. -/
def Arises (s : Space) : Prop :=
  ∃ r r' options new, create r options = .ok (new, r') ∧ new.Evolves s

theorem evolves_of_changes {a b : Space × Host} (hrun : ReflTransGen Change a b) :
    a.1.Evolves b.1 := hrun.lift Prod.fst fun a b hc => ⟨a.2, b.2, hc⟩

/-- A change leaves the files alone, but for a claim. -/
theorem Change.files_cases {a b : Space × Host} (hc : Change a b) :
    b.1.files = a.1.files ∨
      ∃ amount extent, a.1.files.Claims a.2 amount b.1.files b.2 extent := by
  cases hc with
  | quiet hquiet =>
    cases hquiet with
    | pool hfree hbelow => exact .inl rfl
    | lengthen hle hcovered hbound => exact .inl rfl
    | grow hamount hgrows =>
      cases hgrows with
      | memory hreserved => exact .inl rfl
      | file hclaims => exact .inr ⟨_, _, hclaims⟩
  | write s h offset bytes =>
    left
    unfold Space.write
    split <;> rfl
  | store h hstore =>
    left
    unfold storeInMemory? at hstore
    split at hstore
    · obtain ⟨chain, -, rfl⟩ := Option.map_eq_some_iff.1 hstore
      rfl
    · cases hstore

theorem Evolves.prolongs {s t : Space} (he : s.Evolves t) :
    Prolongs s.files.files t.files.files := by
  induction he with
  | refl => exact .refl _
  | tail _ hstep ih =>
    obtain ⟨h, h', hc⟩ := hstep
    refine ih.trans ?_
    rcases hc.files_cases with heq | ⟨amount, extent, hclaims⟩
    · exact heq ▸ .refl _
    · exact hclaims.prolongs

theorem Evolves.oneEach {s t : Space} (he : s.Evolves t) (hs : OneEach s.files.files) :
    OneEach t.files.files := by
  induction he with
  | refl => exact hs
  | tail _ hstep ih =>
    obtain ⟨h, h', hc⟩ := hstep
    rcases hc.files_cases with heq | ⟨amount, extent, hclaims⟩
    · exact heq ▸ ih
    · exact hclaims.oneEach ih

/-- In every space there is at most one file in a directory. -/
theorem Arises.oneEach {s : Space} (hs : s.Arises) : OneEach s.files.files := by
  obtain ⟨r, r', options, new, hcreate, he⟩ := hs
  obtain ⟨stem, -, rfl⟩ := create_ok hcreate
  exact he.oneEach List.nodup_nil

end Space

namespace Session

variable {others : Nat → Prop} {σ : Session} {name : String} {l' : Lodging}

/-- The action opens a space under the name. -/
def Action.Opens (name : String) (action : Action) : Prop :=
  ∃ shared b, action = .openSpace name shared b

/-- After an action, the space of a tenant is the one that it had, or a new one. -/
theorem evolves_perform (hσ : Sound others σ) {action : Action}
    (hl' : (σ.perform action).lodging? name = some l') :
    (∃ l, σ.lodging? name = some l ∧ l.tenant.inner.Evolves l'.tenant.inner) ∨
      (action.Opens name ∧ ∃ r r' options, Space.create r options = .ok (l'.tenant.inner, r')) := by
  by_cases hname : action.name? = some name
  · have hacts := acts_perform σ action
    generalize σ.perform action = σ' at hacts hl'
    cases hacts with
    | serves hname' hserves =>
      rw [hname, Option.some.injEq] at hname'
      subst hname'
      cases hserves with
      | idle => exact .inl ⟨l', hl', .refl⟩
      | @settled l tenant h hl hleads =>
        rw [lodging?_settle, if_pos rfl] at hl'
        cases hl'
        exact .inl ⟨l, hl, Space.evolves_of_changes (hleads (hσ.stands hl).sound)⟩
    | leaves hname' hleaves =>
      rw [hname, Option.some.injEq] at hname'
      subst hname'
      cases hleaves with
      | idle => exact .inl ⟨l', hl', .refl⟩
      | gone hl =>
        rw [lodging?_remove, if_pos rfl] at hl'
        cases hl'
    | @opens other shared b hopens =>
      subst hopens
      cases hname
      rcases σ.openSpace_cases name shared b with ⟨f, heq⟩ | ⟨s, own, registry, hnew, heq⟩
      · rw [heq] at hl'
        exact .inl ⟨l', hl', .refl⟩
      · rw [heq] at hl'
        simp only [Outcome.ok, lodging?_put, if_pos] at hl'
        cases hl'
        obtain ⟨r, r', hcreate⟩ := hnew.created
        exact .inr ⟨⟨shared, b, rfl⟩, r, r', b.options, hcreate⟩
    | around heap hname' hsame => exact .inl ⟨l', hl', .refl⟩
  · have hspares := (hσ.perform action).2
    rw [hspares.lodging name fun heq => hname heq.symm] at hl'
    exact .inl ⟨l', hl', .refl⟩

/-- Every space in a session was new once. -/
theorem arises_run (hσ : Sound others σ)
    (harises : ∀ name l, σ.lodging? name = some l → l.tenant.inner.Arises)
    (actions : List Action) {name : String} {l : Lodging}
    (hl : (σ.run actions).lodging? name = some l) : l.tenant.inner.Arises := by
  induction actions generalizing σ with
  | nil => exact harises name l hl
  | cons action rest ih =>
    refine ih (hσ.perform action).1 (fun other l' hl' => ?_) hl
    rcases evolves_perform hσ hl' with ⟨before, hbefore, he⟩ | ⟨-, r, r', options, hcreate⟩
    · obtain ⟨r, r', options, new, hcreate, hnew⟩ := harises other before hbefore
      exact ⟨r, r', options, new, hcreate, hnew.trans he⟩
    · exact ⟨r, r', options, _, hcreate, .refl⟩

/-- As long as no other space is opened under a name, the space there is the one that was there. -/
theorem evolves_run (hσ : Sound others σ) {actions : List Action}
    (hsame : ∀ action ∈ actions, ¬ action.Opens name)
    (hl' : (σ.run actions).lodging? name = some l') :
    ∃ l, σ.lodging? name = some l ∧ l.tenant.inner.Evolves l'.tenant.inner := by
  induction actions generalizing σ with
  | nil => exact ⟨l', hl', .refl⟩
  | cons action rest ih =>
    obtain ⟨l₁, hl₁, he₁⟩ := ih (hσ.perform action).1
      (fun action haction => hsame action (List.mem_cons_of_mem _ haction)) hl'
    rcases evolves_perform hσ hl₁ with ⟨l, hl, he⟩ | ⟨hopens, -⟩
    · exact ⟨l, hl, he.trans he₁⟩
    · exact absurd hopens (hsame action List.mem_cons_self)

end Session

end SpillStorage
