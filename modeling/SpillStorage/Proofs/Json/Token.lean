import SpillStorage.Json.Token
import SpillStorage.Json.Writer

/-!
The tokens of written strings and bare runs.

What is proved:
  1. `tokensFrom_string`: a written string is one token, and what it stands for is what was written.
  2. `tokensFrom_bare`: a run of bare characters is one token, if the text goes on with another kind
     of character.

A control character without a short escape is spelt by its number and comes back as that number, so
a string comes back as `Fragment.readBack` says and not letter by letter; `decode?_readBack` says
that it still stands for the same characters.
-/

namespace SpillStorage

open Json

/-! ## How strings come back -/

/-- A piece of a string as it comes back: a character that is spelt by its number comes back as the
number. -/
def Fragment.readBack : Fragment → Fragment
  | .char c => if fragmentText (.char c) = codeEscape c.toNat then .code c.toNat else .char c
  | .code unit => .code unit

namespace Json

theorem codeEscape_length (unit : Nat) : (codeEscape unit).length = 6 := rfl

/-- A character is spelt by a short escape, by its number, or by itself. -/
theorem fragmentText_cases (c : Char) :
    (∃ e, fragmentText (.char c) = ['\\', e] ∧ e ≠ 'u' ∧ shortEscape? e = some c) ∨
      (c.toNat < 0x20 ∧ fragmentText (.char c) = codeEscape c.toNat) ∨
      (c ≠ '"' ∧ c ≠ '\\' ∧ ¬c.toNat < 0x20 ∧ fragmentText (.char c) = [c]) := by
  unfold fragmentText
  by_cases hquote : c = '"'
  · exact .inl ⟨'"', by simp [hquote], by decide, by rw [hquote]; rfl⟩
  by_cases hbackslash : c = '\\'
  · exact .inl ⟨'\\', by simp [hbackslash], by decide, by rw [hbackslash]; rfl⟩
  by_cases hbackspace : c = '\x08'
  · exact .inl ⟨'b', by simp [hbackspace], by decide, by rw [hbackspace]; rfl⟩
  by_cases hfeed : c = '\x0c'
  · exact .inl ⟨'f', by simp [hfeed], by decide, by rw [hfeed]; rfl⟩
  by_cases hnewline : c = '\n'
  · exact .inl ⟨'n', by simp [hnewline], by decide, by rw [hnewline]; rfl⟩
  by_cases hreturn : c = '\r'
  · exact .inl ⟨'r', by simp [hreturn], by decide, by rw [hreturn]; rfl⟩
  by_cases htab : c = '\t'
  · exact .inl ⟨'t', by simp [htab], by decide, by rw [htab]; rfl⟩
  simp only [beq_iff_eq, hquote, hbackslash, hbackspace, hfeed, hnewline, hreturn, htab, if_false]
  by_cases hcontrol : c.toNat < 0x20
  · exact .inr (.inl ⟨hcontrol, if_pos hcontrol⟩)
  · exact .inr (.inr ⟨hquote, hbackslash, hcontrol, if_neg hcontrol⟩)

end Json

theorem Fragment.readBack_of_short {c : Char} (h : (fragmentText (.char c)).length < 6) :
    readBack (.char c) = .char c := by
  refine if_neg fun heq => ?_
  rw [heq, codeEscape_length] at h
  omega

/-- A number that is no half stands for its character, whether another number follows or not. -/
theorem Fragment.decode?_code {unit : Nat} (hhigh : isHighHalf unit = false)
    (hlow : isLowHalf unit = false) (rest : List Fragment) :
    decode? (.code unit :: rest) = (decode? rest).map (Char.ofNat unit :: ·) := by
  cases rest with
  | nil => simp [decode?, hhigh, hlow]
  | cons next rest => cases next <;> simp [decode?, hhigh, hlow]

/-- Numbers of control characters are no halves, so each comes back as the character. -/
theorem Fragment.decode?_readBack (chars : List Char) :
    decode? ((chars.map .char).map readBack) = some chars := by
  induction chars with
  | nil => rfl
  | cons c rest ih =>
    rw [List.map_cons, List.map_cons]
    rcases fragmentText_cases c with ⟨e, htext, -⟩ | ⟨hcontrol, htext⟩ | ⟨-, -, -, htext⟩
    · rw [readBack_of_short (by rw [htext]; simp), decode?, ih]
      rfl
    · have hhigh : isHighHalf c.toNat = false := by simp [isHighHalf]; omega
      have hlow : isLowHalf c.toNat = false := by simp [isLowHalf]; omega
      have hback : readBack (.char c) = .code c.toNat := if_pos htext
      rw [hback, decode?_code hhigh hlow, ih, Char.ofNat_toNat]
      rfl
    · rw [readBack_of_short (by rw [htext]; simp), decode?, ih]
      rfl

theorem Fragment.text?_ofString (s : String) : text? (ofString s) = some s := by
  have hdecode : ∀ chars : List Char, decode? (chars.map .char) = some chars := by
    intro chars
    induction chars with
    | nil => rfl
    | cons c rest ih =>
      rw [List.map_cons, decode?, ih]
      rfl
  rw [text?, ofString, hdecode]
  exact congrArg some String.ofList_toList

theorem Fragment.text?_readBack (s : String) :
    text? ((ofString s).map readBack) = some s := by
  rw [text?, ofString, decode?_readBack]
  exact congrArg some String.ofList_toList

namespace Json

/-! ## Reading one character -/

theorem tokensFrom_cons (mode : Mode) (c : Char) (rest : List Char) :
    tokensFrom mode (c :: rest) =
      (step? mode c).bind fun stepped => (tokensFrom stepped.2 rest).map (stepped.1 ++ ·) := by
  have hbind : tokensFrom mode (c :: rest) =
      (step? mode c).bind fun stepped =>
        (tokensFrom stepped.2 rest).bind fun others => some (stepped.1 ++ others) := by
    cases mode <;> rfl
  rw [hbind]
  refine Option.bind_congr fun stepped _ => ?_
  cases tokensFrom stepped.2 rest <;> rfl

/-- A character that completes no token. -/
theorem tokensFrom_of_silent {mode next : Mode} {c : Char} (h : step? mode c = some ([], next))
    (rest : List Char) : tokensFrom mode (c :: rest) = tokensFrom next rest := by
  rw [tokensFrom_cons, h, Option.bind_some]
  simp

/-! ## Strings -/

variable {gathered : List Fragment}

theorem tokensFrom_codeEscape {unit : Nat} (h : unit < 65536) (rest : List Char) :
    tokensFrom (.text gathered) (codeEscape unit ++ rest) =
      tokensFrom (.text (.code unit :: gathered)) rest := by
  have hdigit : ∀ n, Text.hexValue? (Text.hexDigit false (n % 16)) = some (n % 16) :=
    fun n => Text.hexValue?_hexDigit false (Nat.mod_lt _ (by decide))
  have hcode : ∀ (missing value n : Nat), 1 < missing →
      step? (.code gathered missing value) (Text.hexDigit false (n % 16)) =
        some ([], .code gathered (missing - 1) (value * 16 + n % 16)) := by
    intro missing value n hmissing
    simp only [step?, hdigit, Option.map_some, if_neg (Nat.not_le.2 hmissing)]
  have hlast : ∀ value n : Nat,
      step? (.code gathered 1 value) (Text.hexDigit false (n % 16)) =
        some ([], .text (.code (value * 16 + n % 16) :: gathered)) := by
    intro value n
    simp only [step?, hdigit, Option.map_some, Nat.le_refl, if_true]
  have hunit : (((0 * 16 + unit / 4096 % 16) * 16 + unit / 256 % 16) * 16 + unit / 16 % 16) * 16 +
      unit % 16 = unit := by omega
  have hbackslash : step? (.text gathered) '\\' = some ([], .escape gathered) := rfl
  have hletter : step? (.escape gathered) 'u' = some ([], .code gathered 4 0) := rfl
  simp only [codeEscape, List.map_cons, List.map_nil, List.cons_append, List.nil_append]
  rw [tokensFrom_of_silent hbackslash, tokensFrom_of_silent hletter,
    tokensFrom_of_silent (hcode 4 _ _ (by decide)), tokensFrom_of_silent (hcode 3 _ _ (by decide)),
    tokensFrom_of_silent (hcode 2 _ _ (by decide)), tokensFrom_of_silent (hlast _ _), hunit]

/-- One piece of a string is gathered as it comes back. -/
theorem tokensFrom_fragment (c : Char) (rest : List Char) :
    tokensFrom (.text gathered) (fragmentText (.char c) ++ rest) =
      tokensFrom (.text (Fragment.readBack (.char c) :: gathered)) rest := by
  rcases fragmentText_cases c with ⟨e, htext, hu, hshort⟩ | ⟨hcontrol, htext⟩ |
      ⟨hquote, hbackslash, hvisible, htext⟩
  · rw [Fragment.readBack_of_short (by rw [htext]; simp), htext]
    have hstep : step? (.escape gathered) e = some ([], .text (.char c :: gathered)) := by
      simp only [step?, beq_iff_eq, hu, if_false, hshort, Option.map_some]
    have hescape : step? (.text gathered) '\\' = some ([], .escape gathered) := rfl
    rw [List.cons_append, List.cons_append, List.nil_append, tokensFrom_of_silent hescape,
      tokensFrom_of_silent hstep]
  · have hback : Fragment.readBack (.char c) = .code c.toNat := if_pos htext
    rw [hback, htext, tokensFrom_codeEscape (by omega)]
  · rw [Fragment.readBack_of_short (by rw [htext]; simp), htext]
    have hstep : step? (.text gathered) c = some ([], .text (.char c :: gathered)) := by
      simp only [step?, beq_iff_eq, hquote, hbackslash, hvisible, if_false]
    rw [List.cons_append, List.nil_append, tokensFrom_of_silent hstep]

theorem tokensFrom_fragments (chars : List Char) (rest : List Char) :
    tokensFrom (.text gathered) ((chars.map Fragment.char).flatMap fragmentText ++ '"' :: rest) =
      (tokensFrom .between rest).map
        (.text (gathered.reverse ++ (chars.map .char).map Fragment.readBack) :: ·) := by
  induction chars generalizing gathered with
  | nil =>
    have hstep : step? (.text gathered) '"' = some ([.text gathered.reverse], .between) := rfl
    rw [List.map_nil, List.flatMap_nil, List.nil_append, tokensFrom_cons, hstep]
    simp
  | cons c rest' ih =>
    rw [List.map_cons, List.flatMap_cons, List.append_assoc, tokensFrom_fragment, ih]
    simp

theorem tokensFrom_string (s : String) (rest : List Char) :
    tokensFrom .between (stringText (Fragment.ofString s) ++ rest) =
      (tokensFrom .between rest).map
        (.text ((Fragment.ofString s).map Fragment.readBack) :: ·) := by
  have hstep : step? .between '"' = some ([], .text []) := rfl
  rw [stringText, List.cons_append, List.cons_append, List.append_assoc, List.singleton_append,
    tokensFrom_of_silent hstep, Fragment.ofString, tokensFrom_fragments]
  rfl

/-! ## Punctuation -/

theorem tokensFrom_punctuation {c : Char} {token : Token}
    (h : begin? c = some ([token], .between)) (rest : List Char) :
    tokensFrom .between (c :: rest) = (tokensFrom .between rest).map (token :: ·) := by
  have hstep : step? .between c = some ([token], .between) := h
  rw [tokensFrom_cons, hstep, Option.bind_some]
  rfl

/-! ## Bare runs -/

/-- The text does not go on with a bare character. -/
def Parts (rest : List Char) : Prop := ∀ c ∈ rest.head?, isBare c = false

theorem parts_cons {c : Char} (h : isBare c = false) (rest : List Char) : Parts (c :: rest) := by
  rintro _ ⟨⟩
  exact h

/-- The token of a bare run is complete where the text goes on with another kind of character. -/
theorem tokensFrom_bare_end {run rest : List Char} (h : Parts rest) :
    tokensFrom (.bare run) rest = (tokensFrom .between rest).map (.bare run.reverse :: ·) := by
  cases rest with
  | nil => rfl
  | cons c rest =>
    have hc : isBare c = false := h c rfl
    have hstep : step? (.bare run) c =
        (step? .between c).map fun stepped => (.bare run.reverse :: stepped.1, stepped.2) := by
      simp only [step?, hc, Bool.false_eq_true, if_false]
    rw [tokensFrom_cons, tokensFrom_cons, hstep]
    cases step? .between c with
    | none => rfl
    | some stepped =>
      simp only [Option.map_some, Option.bind_some, Option.map_map]
      rfl

theorem tokensFrom_bare_run {run chars rest : List Char} (hbare : ∀ c ∈ chars, isBare c = true)
    (hrest : Parts rest) :
    tokensFrom (.bare run) (chars ++ rest) =
      (tokensFrom .between rest).map (.bare (run.reverse ++ chars) :: ·) := by
  induction chars generalizing run with
  | nil =>
    rw [List.nil_append, tokensFrom_bare_end hrest, List.append_nil]
  | cons c chars ih =>
    obtain ⟨hc, hchars⟩ := List.forall_mem_cons.1 hbare
    have hstep : step? (.bare run) c = some ([], .bare (c :: run)) := by
      simp only [step?, hc, if_true]
    rw [List.cons_append, tokensFrom_of_silent hstep, ih hchars]
    simp

theorem begin?_bare {c : Char} (h : isBare c = true) : begin? c = some ([], .bare [c]) := by
  have hblank : isBlank c = false := by
    rw [Bool.eq_false_iff]
    intro hblank
    simp only [isBlank, Bool.or_eq_true, beq_iff_eq] at hblank
    rcases hblank with ((rfl | rfl) | rfl) | rfl <;> revert h <;> decide
  have hquote : c ≠ '"' := by
    rintro rfl
    revert h
    decide
  simp only [begin?, hblank, Bool.false_eq_true, if_false, beq_iff_eq, hquote, h, if_true]

theorem tokensFrom_bare {chars rest : List Char} (hne : chars ≠ [])
    (hbare : ∀ c ∈ chars, isBare c = true) (hrest : Parts rest) :
    tokensFrom .between (chars ++ rest) = (tokensFrom .between rest).map (.bare chars :: ·) := by
  cases chars with
  | nil => exact absurd rfl hne
  | cons c chars =>
    obtain ⟨hc, hchars⟩ := List.forall_mem_cons.1 hbare
    have hstep : step? .between c = some ([], .bare [c]) := begin?_bare hc
    rw [List.cons_append, tokensFrom_of_silent hstep, tokensFrom_bare_run hchars hrest]
    rfl

end Json

end SpillStorage
