import SpillStorage.Registry

/-!
Reservations of a registry.

What is proved:
  1. `reserveCache?_some` and `reserveDirectory?_some`: a granted reservation adds to one account,
     which stays within its limit, and to nothing else.
  2. `reserveCache?_eq` and `reserveDirectory?_eq`: it is granted exactly if the account stays
     within its limit and can be counted in offsets.
  3. `releaseCache_reserve` and `releaseDirectory_reserve`: to give back what was just granted leads
     back to the registry before.
-/

namespace SpillStorage.Registry

theorem grant?_some {usage bytes total : Nat} {limit : Option Nat}
    (h : grant? usage bytes limit = some total) :
    total = usage + bytes ∧ ∀ l, limit = some l → total ≤ l := by
  unfold grant? at h
  cases hsum : Offset.sum? usage bytes with
  | none =>
    rw [hsum] at h
    cases h
  | some sum =>
    obtain ⟨rfl, -⟩ := Offset.sum?_eq_some_iff.1 hsum
    rw [hsum] at h
    cases limit with
    | none =>
      cases h
      exact ⟨rfl, by simp⟩
    | some l =>
      simp only at h
      split at h
      · next hle =>
        cases h
        refine ⟨rfl, ?_⟩
        rintro _ ⟨⟩
        exact hle
      · cases h

/-- What an account may hold: its limit if there is one, and what offsets can count. -/
def ceiling (limit : Option Nat) : Nat := min (limit.getD Offset.greatest) Offset.greatest

theorem grant?_eq (usage bytes : Nat) (limit : Option Nat) :
    grant? usage bytes limit =
      if usage + bytes ≤ ceiling limit then some (usage + bytes) else none := by
  have hgreatest : Offset.greatest + 1 = Offset.bound := rfl
  unfold grant? ceiling
  cases hsum : Offset.sum? usage bytes with
  | none =>
    rw [Offset.sum?_eq_none_iff] at hsum
    rw [if_neg (by omega)]
  | some total =>
    obtain ⟨rfl, hlt⟩ := Offset.sum?_eq_some_iff.1 hsum
    cases limit with
    | none =>
      simp only [Option.getD_none, Nat.min_self]
      rw [if_pos (by omega)]
    | some l =>
      simp only [Option.getD_some]
      by_cases hle : usage + bytes ≤ l
      · rw [if_pos hle, if_pos (by omega)]
      · rw [if_neg hle, if_neg (by omega)]

/-! ## The memory account -/

theorem reserveCache?_eq (r : Registry) (bytes : Nat) : r.reserveCache? bytes =
    if r.cacheUsage + bytes ≤ ceiling (some r.settings.cacheLimit)
    then some { r with cacheUsage := r.cacheUsage + bytes } else none := by
  rw [reserveCache?, grant?_eq]
  split <;> rfl

theorem reserveCache?_some {r r' : Registry} {bytes : Nat} (h : r.reserveCache? bytes = some r') :
    r' = { r with cacheUsage := r.cacheUsage + bytes } ∧
      r.cacheUsage + bytes ≤ r.settings.cacheLimit := by
  obtain ⟨total, hgrant, rfl⟩ := Option.map_eq_some_iff.1 h
  obtain ⟨rfl, hle⟩ := grant?_some hgrant
  exact ⟨rfl, hle _ rfl⟩

theorem releaseCache_reserve {r r' : Registry} {bytes : Nat} (h : r.reserveCache? bytes = some r') :
    r'.releaseCache bytes = r := by
  obtain ⟨rfl, -⟩ := reserveCache?_some h
  simp only [releaseCache, Nat.add_sub_cancel]

/-! ## The accounts of the directories -/

theorem directoryUsage_set {r : Registry} {index : Nat} (total : Nat)
    (hindex : index < r.directoryUsages.length) (other : Nat) :
    directoryUsage { r with directoryUsages := r.directoryUsages.set index total } other =
      if other = index then total else r.directoryUsage other := by
  simp only [directoryUsage, List.getD_eq_getElem?_getD, List.getElem?_set]
  by_cases heq : index = other
  · subst heq
    simp [hindex]
  · rw [if_neg heq, if_neg fun h => heq h.symm]

theorem reserveDirectory?_some {r r' : Registry} {index bytes : Nat}
    (h : r.reserveDirectory? index bytes = some r') :
    ∃ directory, r.settings.directories[index]? = some directory ∧
      r' = { r with
        directoryUsages := r.directoryUsages.set index (r.directoryUsage index + bytes) } ∧
      ∀ limit, directory.limit = some limit → r.directoryUsage index + bytes ≤ limit := by
  unfold reserveDirectory? at h
  cases hd : r.settings.directories[index]? with
  | none =>
    rw [hd] at h
    cases h
  | some directory =>
    rw [hd] at h
    obtain ⟨total, hgrant, rfl⟩ := Option.map_eq_some_iff.1 h
    obtain ⟨rfl, hle⟩ := grant?_some hgrant
    exact ⟨directory, rfl, rfl, hle⟩

/-- The registry with `bytes` more claimed in the directory at `index`. -/
def charge (r : Registry) (index bytes : Nat) : Registry :=
  { r with directoryUsages := r.directoryUsages.set index (r.directoryUsage index + bytes) }

theorem reserveDirectory?_eq {r : Registry} {index : Nat} {directory : TempDirectory}
    (hdirectory : r.settings.directories[index]? = some directory) (bytes : Nat) :
    r.reserveDirectory? index bytes =
      if r.directoryUsage index + bytes ≤ ceiling directory.limit
      then some (r.charge index bytes) else none := by
  simp only [reserveDirectory?, hdirectory, grant?_eq]
  split <;> rfl

theorem directoryUsage_charge {r : Registry} {index : Nat}
    (hindex : index < r.directoryUsages.length) (bytes other : Nat) :
    (r.charge index bytes).directoryUsage other =
      r.directoryUsage other + if other = index then bytes else 0 := by
  rw [charge, directoryUsage_set _ hindex]
  by_cases heq : other = index
  · rw [if_pos heq, if_pos heq, heq]
  · rw [if_neg heq, if_neg heq, Nat.add_zero]

theorem releaseDirectory_reserve {r r' : Registry} {index bytes : Nat}
    (h : r.reserveDirectory? index bytes = some r') : r'.releaseDirectory index bytes = r := by
  obtain ⟨directory, -, rfl, -⟩ := reserveDirectory?_some h
  have husages : (r.directoryUsages.set index (r.directoryUsage index + bytes)).modify index
      (fun used => used - bytes) = r.directoryUsages := by
    apply List.ext_getElem?
    intro i
    rw [List.getElem?_modify, List.getElem?_set]
    by_cases hi : index = i
    · subst hi
      by_cases hlt : index < r.directoryUsages.length
      · simp [hlt, directoryUsage]
      · simp [hlt]
    · simp [hi]
  simp only [releaseDirectory, husages]

theorem directoryUsage_releaseDirectory (r : Registry) (index bytes other : Nat) :
    (r.releaseDirectory index bytes).directoryUsage other =
      if other = index then r.directoryUsage other - bytes else r.directoryUsage other := by
  simp only [releaseDirectory, directoryUsage, List.getD_eq_getElem?_getD, List.getElem?_modify]
  by_cases heq : index = other
  · subst heq
    cases r.directoryUsages[index]? <;> simp
  · rw [if_neg fun h => heq h.symm]
    cases r.directoryUsages[other]? <;> simp [heq]

end SpillStorage.Registry
