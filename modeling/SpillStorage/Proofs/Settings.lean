import Mathlib.Data.List.Pairwise
import SpillStorage.Proofs.Path
import SpillStorage.Settings

/-!
Which settings make sense.

What is proved:
  1. `directoryFault_eq_none_iff`: the directories show no fault exactly if no path is empty, no
     quota is zero, and their normal forms are distinct and new.
  2. `validate_eq_ok_iff`: settings make sense exactly if, beside that, the prefix is accepted.
  3. `directories_told_apart`: what the normal forms tell apart, what is refused for it, and that
     the order of the directories plays no part.
-/

namespace SpillStorage.Settings

/-- Two directories are one as far as their paths say: both paths start at the root or neither
does, and their components are the same. -/
def Alike (a b : TempDirectory) : Prop :=
  a.path.isAbsolute = b.path.isAbsolute ∧ a.path.components = b.path.components

/-- Nothing is wrong with a directory by itself. -/
def Fitting (d : TempDirectory) : Prop := d.path.bytes ≠ [] ∧ d.limit ≠ some 0

theorem Alike.symm {a b : TempDirectory} (h : Alike a b) : Alike b a := ⟨h.1.symm, h.2.symm⟩

theorem normalize_eq_iff_alike {a b : TempDirectory} :
    a.path.normalize = b.path.normalize ↔ Alike a b :=
  Path.normalize_eq_iff

theorem directoryFault_eq_none_iff (seen : List Path) (directories : List TempDirectory) :
    directoryFault seen directories = none ↔
      (∀ d ∈ directories, Fitting d) ∧ (∀ d ∈ directories, d.path.normalize ∉ seen) ∧
        directories.Pairwise fun a b => ¬Alike a b := by
  induction directories generalizing seen with
  | nil => simp [directoryFault]
  | cons d rest ih =>
    have hseen : (∀ e ∈ rest, e.path.normalize ∉ d.path.normalize :: seen) ↔
        (∀ e ∈ rest, ¬Alike d e) ∧ ∀ e ∈ rest, e.path.normalize ∉ seen := by
      simp only [List.mem_cons, not_or, forall_and, ← normalize_eq_iff_alike, eq_comm]
    rw [List.forall_mem_cons, List.forall_mem_cons, List.pairwise_cons]
    unfold directoryFault
    -- each test that the first directory fails is one that the right side asks for
    split
    · next hempty => simp [Fitting, hempty]
    · next hempty =>
      split
      · next hlisted => simp [hlisted]
      · next hlisted =>
        split
        · next hzero => simp [Fitting, hzero]
        · next hzero =>
          have hfitting : Fitting d := ⟨hempty, hzero⟩
          rw [ih, hseen]
          simp only [hfitting, hlisted, not_false_eq_true, true_and]
          constructor
          · rintro ⟨hrest, ⟨hfirst, hnew⟩, hapart⟩
            exact ⟨hrest, hnew, hfirst, hapart⟩
          · rintro ⟨hrest, hnew, hfirst, hapart⟩
            exact ⟨hrest, ⟨hfirst, hnew⟩, hapart⟩

theorem ofString_eq_ok_iff {text : String} :
    (∃ stem, FilePrefix.ofString text = .ok stem) ↔ FilePrefix.accepts text = true := by
  unfold FilePrefix.ofString
  split
  · next h => exact ⟨fun _ => h, fun _ => ⟨_, rfl⟩⟩
  · next h => simp [h]

theorem validate_eq_ok_iff (s : Settings) :
    s.validate = .ok () ↔
      FilePrefix.accepts s.filePrefix = true ∧ (∀ d ∈ s.directories, Fitting d) ∧
        s.directories.Pairwise fun a b => ¬Alike a b := by
  have hfault : directoryFault [] s.directories = none ↔
      (∀ d ∈ s.directories, Fitting d) ∧ s.directories.Pairwise fun a b => ¬Alike a b := by
    simp [directoryFault_eq_none_iff]
  rw [← ofString_eq_ok_iff, ← hfault]
  unfold validate
  cases FilePrefix.ofString s.filePrefix with
  | error f => simp
  | ok stem =>
    cases directoryFault [] s.directories with
    | none => simp
    | some fault => simp

/-- Settings make sense in every order of their directories, or in none. -/
theorem validate_perm {s : Settings} {directories : List TempDirectory}
    (h : directories.Perm s.directories) :
    { s with directories := directories }.validate = .ok () ↔ s.validate = .ok () := by
  have hapart : (directories.Pairwise fun a b => ¬Alike a b) ↔
      s.directories.Pairwise fun a b => ¬Alike a b :=
    h.pairwise_iff fun hab hba => hab hba.symm
  simp only [validate_eq_ok_iff, hapart, h.mem_iff]

/-- The pieces of a path are what stands between its slashes. A normal form is its own, and two
paths have the same exactly if both start at the root or neither does and they have the same
components, the pieces that are neither empty nor a single dot. So settings make sense exactly if
their prefix is accepted, no path is empty, no quota is zero, and no two directories agree in these
two things, in whichever order they are listed. -/
theorem directories_told_apart :
    (∀ p : Path, Path.unsplit Path.slash (Path.split Path.slash p.bytes) = p.bytes ∧
      ∀ piece ∈ Path.split Path.slash p.bytes, Path.slash ∉ piece) ∧
    (∀ p : Path, p.normalize.normalize = p.normalize) ∧
    (∀ p q : Path, p.normalize = q.normalize ↔
      p.isAbsolute = q.isAbsolute ∧ p.components = q.components) ∧
    (∀ s : Settings, s.validate = .ok () ↔
      FilePrefix.accepts s.filePrefix = true ∧
        (∀ d ∈ s.directories, d.path.bytes ≠ []) ∧ (∀ d ∈ s.directories, d.limit ≠ some 0) ∧
        s.directories.Pairwise fun a b =>
          ¬(a.path.isAbsolute = b.path.isAbsolute ∧ a.path.components = b.path.components)) ∧
    ∀ (s : Settings) (directories : List TempDirectory), directories.Perm s.directories →
      ({ s with directories := directories }.validate = .ok () ↔ s.validate = .ok ()) := by
  refine ⟨fun p => ⟨Path.unsplit_split p.bytes, fun _ => Path.not_mem_of_mem_split⟩,
    Path.normalize_normalize, fun _ _ => Path.normalize_eq_iff, fun s => ?_,
    fun _ _ => validate_perm⟩
  have hfitting : (∀ d ∈ s.directories, Fitting d) ↔
      (∀ d ∈ s.directories, d.path.bytes ≠ []) ∧ ∀ d ∈ s.directories, d.limit ≠ some 0 := by
    simp only [Fitting, forall_and]
  rw [validate_eq_ok_iff, hfitting, and_assoc]
  rfl

end SpillStorage.Settings
