import SpillStorage.Path

/-!
Normal forms of paths.

What is proved:
  1. `unsplit_split` and `split_unsplit`: the pieces between separators make up the text again, and
     pieces without the separator come back from the text they are joined to.
  2. `isAbsolute_normalize`, `components_normalize`: a normal form starts where the path does and
     has the same components.
  3. `normalize_eq_iff`, `normalize_normalize`: so it tells just these two apart, and normalizing
     again changes nothing.
  4. `text?_ofString`, `ofString_of_text?`: the path of a text and the text of a path belong
     together.
-/

namespace SpillStorage.Path

variable {separator : UInt8}

/-! ## Pieces and separators -/

theorem split_of_not_mem {piece : List UInt8} (h : separator ∉ piece) :
    split separator piece = [piece] := by
  induction piece with
  | nil => rfl
  | cons b rest ih =>
    have hb : b ≠ separator := Ne.symm (List.ne_of_not_mem_cons h)
    rw [split, if_neg hb, ih (List.not_mem_of_not_mem_cons h)]

theorem split_append {piece : List UInt8} (h : separator ∉ piece) (rest : List UInt8) :
    split separator (piece ++ separator :: rest) = piece :: split separator rest := by
  induction piece with
  | nil => exact if_pos rfl
  | cons b piece ih =>
    have hb : b ≠ separator := Ne.symm (List.ne_of_not_mem_cons h)
    rw [List.cons_append, split, if_neg hb, ih (List.not_mem_of_not_mem_cons h)]

theorem not_mem_of_mem_split {bytes piece : List UInt8} (h : piece ∈ split separator bytes) :
    separator ∉ piece := by
  induction bytes generalizing piece with
  | nil =>
    rw [split, List.mem_singleton] at h
    rw [h]
    exact List.not_mem_nil
  | cons b rest ih =>
    rw [split] at h
    split at h
    · rcases List.mem_cons.1 h with rfl | h
      · exact List.not_mem_nil
      · exact ih h
    · next hb =>
      -- the byte goes to the front of the first piece
      split at h
      · rw [List.mem_singleton] at h
        rw [h, List.mem_singleton]
        exact Ne.symm hb
      · next first pieces hsplit =>
        rw [hsplit] at ih
        rcases List.mem_cons.1 h with rfl | h
        · exact List.not_mem_cons_of_ne_of_not_mem (Ne.symm hb) (ih List.mem_cons_self)
        · exact ih (List.mem_cons_of_mem _ h)

theorem split_ne_nil (bytes : List UInt8) : split separator bytes ≠ [] := by
  cases bytes with
  | nil => exact List.cons_ne_nil _ _
  | cons b rest =>
    rw [split]
    split
    · exact List.cons_ne_nil _ _
    · split <;> exact List.cons_ne_nil _ _

/-- Nothing is lost between the separators. -/
theorem unsplit_split (bytes : List UInt8) :
    unsplit separator (split separator bytes) = bytes := by
  induction bytes with
  | nil => rfl
  | cons b rest ih =>
    cases hsplit : split separator rest with
    | nil => exact absurd hsplit (split_ne_nil rest)
    | cons piece pieces =>
      rw [hsplit] at ih
      rw [split, hsplit]
      split
      · next hb =>
        calc unsplit separator ([] :: piece :: pieces)
            _ = separator :: unsplit separator (piece :: pieces) := rfl
            _ = b :: rest := by rw [ih, hb]
      · calc unsplit separator ((b :: piece) :: pieces)
            _ = b :: unsplit separator (piece :: pieces) := by cases pieces <;> rfl
            _ = b :: rest := by rw [ih]

/-- Pieces without the separator come back, as long as there are any. -/
theorem split_unsplit {pieces : List (List UInt8)} (hne : pieces ≠ [])
    (h : ∀ piece ∈ pieces, separator ∉ piece) :
    split separator (unsplit separator pieces) = pieces := by
  induction pieces with
  | nil => exact absurd rfl hne
  | cons piece rest ih =>
    obtain ⟨hpiece, hrest⟩ := List.forall_mem_cons.1 h
    cases rest with
    | nil => exact split_of_not_mem hpiece
    | cons next rest =>
      rw [unsplit, split_append hpiece, ih (List.cons_ne_nil _ _) hrest]
      exact List.cons_ne_nil _ _

/-! ## Components -/

variable {p q : Path}

theorem proper_of_mem_components {component : List UInt8} (h : component ∈ p.components) :
    isProper component = true ∧ slash ∉ component :=
  ⟨(List.mem_filter.1 h).2, not_mem_of_mem_split (List.mem_filter.1 h).1⟩

theorem components_unsplit (p : Path) :
    (split slash (unsplit slash p.components)).filter isProper = p.components := by
  by_cases hnil : p.components = []
  · rw [hnil]
    rfl
  · rw [split_unsplit hnil fun _ hc => (proper_of_mem_components hc).2, List.filter_eq_self]
    exact fun _ hc => (proper_of_mem_components hc).1

/-- A leading slash only adds an empty piece, and that names nothing. -/
theorem components_normalize (p : Path) : p.normalize.components = p.components := by
  unfold normalize
  rw [components]
  split
  · have hroot : split slash ([slash] ++ unsplit slash p.components) =
        [] :: split slash (unsplit slash p.components) := if_pos rfl
    rw [hroot, List.filter_cons_of_neg (by decide)]
    exact components_unsplit p
  · exact components_unsplit p

theorem head?_unsplit_components (p : Path) :
    (unsplit slash p.components).head? ≠ some slash := by
  cases hc : p.components with
  | nil => exact Option.some_ne_none _ |>.symm
  | cons component rest =>
    have hmem : component ∈ p.components := by
      rw [hc]
      exact List.mem_cons_self
    obtain ⟨hproper, hslash⟩ := proper_of_mem_components hmem
    cases component with
    | nil => cases hproper
    | cons b tail =>
      have hhead : (unsplit slash ((b :: tail) :: rest)).head? = some b := by
        cases rest <;> rfl
      rw [hhead]
      rintro ⟨⟩
      exact hslash List.mem_cons_self

theorem isAbsolute_normalize (p : Path) : p.normalize.isAbsolute = p.isAbsolute := by
  cases habsolute : p.isAbsolute with
  | true =>
    rw [normalize, habsolute]
    rfl
  | false =>
    rw [normalize, habsolute, isAbsolute]
    simpa using head?_unsplit_components p

/-! ## Normal forms -/

/-- A normal form keeps where the path starts and its components, and nothing else. -/
theorem normalize_eq_iff :
    p.normalize = q.normalize ↔ p.isAbsolute = q.isAbsolute ∧ p.components = q.components := by
  constructor
  · intro h
    constructor
    · rw [← isAbsolute_normalize p, h, isAbsolute_normalize]
    · rw [← components_normalize p, h, components_normalize]
  · rintro ⟨habsolute, hcomponents⟩
    rw [normalize, habsolute, hcomponents, normalize]

theorem normalize_normalize (p : Path) : p.normalize.normalize = p.normalize :=
  normalize_eq_iff.2 ⟨isAbsolute_normalize p, components_normalize p⟩

/-! ## Paths as texts -/

theorem text?_ofString (s : String) : (ofString s).text? = some s :=
  dif_pos s.isValidUTF8

theorem ofString_of_text? {s : String} (h : p.text? = some s) : ofString s = p := by
  unfold text? String.fromUTF8? at h
  split at h
  · rw [← Option.some.inj h]
    rfl
  · cases h

end SpillStorage.Path
