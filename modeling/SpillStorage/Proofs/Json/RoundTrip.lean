import Mathlib.Data.List.TakeWhile
import SpillStorage.Json.Reader
import SpillStorage.Proofs.Json.Token
import SpillStorage.Value.Forms

/-!
What is written as JSON can be read.

What is proved:
  1. `offset?_ofNat`: the number of an offset is read as that offset.
  2. `falls_of_plain`: the text of a plain value falls into the tokens of the value.
  3. `reads_of_plain`: the tokens of a plain value are read as the value, as it comes back.
  4. `parse?_render`: so the text of a plain value is read as that value.

A plain value consists of the things that records are written with: numbers without sign, strings of
characters, lists and records. The numbers come back as they are, the strings as
`Fragment.readBack` has it.
-/

namespace SpillStorage

open Json

/-! ## Numbers -/

namespace Numeral

theorem decimalValue_toDigits (n : Nat) : Text.decimalValue (Nat.toDigits 10 n) = n :=
  Nat.ofDigitChars_ten_toDigits

theorem isDigit_of_mem_toDigits {n : Nat} {c : Char} (h : c ∈ Nat.toDigits 10 n) :
    c.isDigit = true :=
  Nat.isDigit_of_mem_toDigits (by decide) (by decide) h

/-- No number but zero starts with a zero. -/
theorem head?_toDigits_ne_zero {n : Nat} (h : 0 < n) : (Nat.toDigits 10 n).head? ≠ some '0' := by
  induction n using Nat.strongRecOn with
  | ind n ih =>
    rw [Nat.toDigits_eq_if (by decide)]
    split
    · next hlt =>
      have hdigit : ∀ m < 10, 0 < m → Nat.digitChar m ≠ '0' := by decide
      exact fun heq => hdigit n hlt h (Option.some.inj heq)
    · next hge =>
      have hfirst := ih (n / 10) (by omega) (by omega)
      cases hfront : Nat.toDigits 10 (n / 10) with
      | nil => exact absurd hfront Nat.toDigits_ne_nil
      | cons d front =>
        rw [hfront] at hfirst
        exact hfirst

theorem numeral?_toDigits (n : Nat) : numeral? (Nat.toDigits 10 n) = some (ofNat n) := by
  have hdigits : ∀ c ∈ Nat.toDigits 10 n, c.isDigit = true := fun _ => isDigit_of_mem_toDigits
  have htake : (Nat.toDigits 10 n).takeWhile Char.isDigit = Nat.toDigits 10 n :=
    List.takeWhile_eq_self_iff.2 hdigits
  have hdrop : (Nat.toDigits 10 n).dropWhile Char.isDigit = [] :=
    List.dropWhile_eq_nil_iff.2 hdigits
  cases htext : Nat.toDigits 10 n with
  | nil => exact absurd htext Nat.toDigits_ne_nil
  | cons c rest =>
    have hsign : c ≠ '-' := by
      rintro rfl
      have : '-'.isDigit = true := hdigits _ (by rw [htext]; exact List.mem_cons_self)
      cases this
    have hdigits? : digits? (c :: rest) = some (c :: rest, []) := by
      rw [htext] at htake hdrop
      rw [digits?, htake, hdrop]
    have hzero : c = '0' → rest = [] := by
      rintro rfl
      rcases Nat.eq_zero_or_pos n with rfl | hpos
      · rw [Nat.toDigits_zero] at htext
        exact (List.cons.inj htext).2.symm
      · refine absurd ?_ (head?_toDigits_ne_zero hpos)
        rw [htext]
        rfl
    have hwhole : ofNat n = ⟨false, c :: rest, [], none⟩ := by rw [ofNat, htext]
    rw [hwhole]
    simpa [numeral?, hsign, hdigits?, fraction?, exponent?] using hzero

end Numeral

theorem Value.offset?_ofNat {n : Nat} (h : n < Offset.bound) :
    (Value.ofNat n).offset? = some n := by
  have hvalue : Text.decimalValue (Numeral.ofNat n).whole = n := Numeral.decimalValue_toDigits n
  have hwhole : (Numeral.ofNat n).isWhole = true := rfl
  have hsign : (Numeral.ofNat n).negative = false := rfl
  simp only [ofNat, offset?, Numeral.offset?, hvalue, hwhole, hsign, h, Bool.not_false,
    Bool.and_true, decide_true, if_true]

/-! ## Plain values -/

mutual

/-- A value as it comes back from its text. -/
def Value.readBack : Value → Value
  | .null => .null
  | .bool b => .bool b
  | .number n => .number n
  | .text fragments => .text (fragments.map Fragment.readBack)
  | .list items => .list (Value.readBackItems items)
  | .table fields => .table (Value.readBackFields fields)
  | .other => .null

def Value.readBackItems : List Value → List Value
  | [] => []
  | v :: rest => v.readBack :: Value.readBackItems rest

def Value.readBackFields : List (List Fragment × Value) → List (List Fragment × Value)
  | [] => []
  | (key, v) :: rest => (key.map Fragment.readBack, v.readBack) :: Value.readBackFields rest

end

/-- A value of whole numbers, strings of characters, lists and records. -/
inductive Value.Plain : Value → Prop where
  | number (n : Nat) : Plain (.ofNat n)
  | text (s : String) : Plain (.ofString s)
  | list {items : List Value} (h : ∀ v ∈ items, Plain v) : Plain (.list items)
  | record {fields : List (String × Value)} (h : ∀ field ∈ fields, Plain field.2) :
      Plain (.record fields)

namespace Json

mutual

/-- The tokens of the text of a value. -/
def tokensOf : Value → List Token
  | .null => [.bare "null".toList]
  | .bool true => [.bare "true".toList]
  | .bool false => [.bare "false".toList]
  | .number n => [.bare (numeralText n)]
  | .text fragments => [.text (fragments.map Fragment.readBack)]
  | .list items => .openList :: itemsTokens items ++ [.closeList]
  | .table fields => .openTable :: fieldsTokens fields ++ [.closeTable]
  | .other => [.bare "null".toList]

def itemsTokens : List Value → List Token
  | [] => []
  | [v] => tokensOf v
  | v :: rest => tokensOf v ++ .comma :: itemsTokens rest

def fieldsTokens : List (List Fragment × Value) → List Token
  | [] => []
  | [(key, v)] => .text (key.map Fragment.readBack) :: .colon :: tokensOf v
  | (key, v) :: rest =>
    .text (key.map Fragment.readBack) :: .colon :: tokensOf v ++ .comma :: fieldsTokens rest

end

/-! ## From the text to the tokens -/

/-- The text of a value falls into its tokens, whatever comes after it. -/
def Falls (v : Value) : Prop :=
  ∀ rest, Parts rest →
    tokensFrom .between (valueText v ++ rest) = (tokensFrom .between rest).map (tokensOf v ++ ·)

theorem numeralText_ofNat (n : Nat) : numeralText (.ofNat n) = Nat.toDigits 10 n := by
  simp [numeralText, Numeral.ofNat]

theorem falls_number (n : Nat) : Falls (.ofNat n) := by
  intro rest hrest
  have hbare : ∀ c ∈ Nat.toDigits 10 n, isBare c = true := by
    intro c hc
    have hdigit : c.isDigit = true := Numeral.isDigit_of_mem_toDigits hc
    simp [isBare, Char.isAlphanum, hdigit]
  rw [Value.ofNat, valueText, tokensOf, numeralText_ofNat,
    tokensFrom_bare Nat.toDigits_ne_nil hbare hrest]
  rfl

theorem falls_text (s : String) : Falls (.ofString s) :=
  fun rest _ => tokensFrom_string s rest

theorem itemsText_cons (v next : Value) (rest : List Value) :
    itemsText (v :: next :: rest) = valueText v ++ ',' :: itemsText (next :: rest) := rfl

theorem itemsTokens_cons (v next : Value) (rest : List Value) :
    itemsTokens (v :: next :: rest) = tokensOf v ++ .comma :: itemsTokens (next :: rest) := rfl

theorem tokensFrom_itemsText {items : List Value} (h : ∀ v ∈ items, Falls v) {rest : List Char}
    (hrest : Parts rest) :
    tokensFrom .between (itemsText items ++ rest) =
      (tokensFrom .between rest).map (itemsTokens items ++ ·) := by
  induction items with
  | nil => simp [itemsText, itemsTokens]
  | cons v items ih =>
    obtain ⟨hv, hitems⟩ := List.forall_mem_cons.1 h
    cases items with
    | nil => exact hv rest hrest
    | cons next items =>
      rw [itemsText_cons, List.append_assoc, List.cons_append, hv _ (parts_cons rfl _),
        tokensFrom_punctuation rfl, ih hitems, itemsTokens_cons]
      simp [Option.map_map, Function.comp_def]

/-- The keys of a record as they are written. -/
def keyed (fields : List (String × Value)) : List (List Fragment × Value) :=
  fields.map fun (name, v) => (Fragment.ofString name, v)

theorem fieldsText_keyed (name : String) (v : Value) (next : String × Value)
    (fields : List (String × Value)) :
    fieldsText (keyed ((name, v) :: next :: fields)) =
      stringText (Fragment.ofString name) ++
        ':' :: (valueText v ++ ',' :: fieldsText (keyed (next :: fields))) := by
  have hfields : fieldsText (keyed ((name, v) :: next :: fields)) =
      stringText (Fragment.ofString name) ++ ':' :: valueText v ++
        ',' :: fieldsText (keyed (next :: fields)) := rfl
  rw [hfields, List.append_assoc, List.cons_append]

theorem fieldsTokens_keyed (name : String) (v : Value) (next : String × Value)
    (fields : List (String × Value)) :
    fieldsTokens (keyed ((name, v) :: next :: fields)) =
      .text ((Fragment.ofString name).map Fragment.readBack) :: .colon :: tokensOf v ++
        .comma :: fieldsTokens (keyed (next :: fields)) := rfl

theorem tokensFrom_field {name : String} {v : Value} (hv : Falls v) {rest : List Char}
    (hrest : Parts rest) :
    tokensFrom .between (stringText (Fragment.ofString name) ++ ':' :: (valueText v ++ rest)) =
      (tokensFrom .between rest).map
        (.text ((Fragment.ofString name).map Fragment.readBack) :: .colon :: tokensOf v ++ ·) := by
  rw [tokensFrom_string, tokensFrom_punctuation rfl, hv rest hrest]
  simp [Option.map_map, Function.comp_def]

theorem tokensFrom_fieldsText {fields : List (String × Value)}
    (h : ∀ field ∈ fields, Falls field.2) {rest : List Char} (hrest : Parts rest) :
    tokensFrom .between (fieldsText (keyed fields) ++ rest) =
      (tokensFrom .between rest).map (fieldsTokens (keyed fields) ++ ·) := by
  induction fields with
  | nil => simp [keyed, fieldsText, fieldsTokens]
  | cons field fields ih =>
    obtain ⟨name, v⟩ := field
    obtain ⟨hv, hfields⟩ := List.forall_mem_cons.1 h
    cases fields with
    | nil =>
      have htext : fieldsText (keyed [(name, v)]) ++ rest =
          stringText (Fragment.ofString name) ++ ':' :: (valueText v ++ rest) := by
        simp [keyed, fieldsText]
      rw [htext, tokensFrom_field hv hrest]
      rfl
    | cons next fields =>
      rw [fieldsText_keyed, List.append_assoc, List.cons_append, List.append_assoc,
        List.cons_append, tokensFrom_field hv (parts_cons rfl _), tokensFrom_punctuation rfl,
        ih hfields, fieldsTokens_keyed]
      simp [Option.map_map, Function.comp_def]

/-- A value between brackets of some kind. -/
theorem tokensFrom_enclosed {first last : Char} {opening closing : Token} {text rest : List Char}
    {tokens : List Token} (hfirst : begin? first = some ([opening], .between))
    (hlast : begin? last = some ([closing], .between)) (hbare : isBare last = false)
    (htext : ∀ rest, Parts rest →
      tokensFrom .between (text ++ rest) = (tokensFrom .between rest).map (tokens ++ ·)) :
    tokensFrom .between (first :: text ++ [last] ++ rest) =
      (tokensFrom .between rest).map (opening :: tokens ++ [closing] ++ ·) := by
  rw [List.append_assoc, List.cons_append, tokensFrom_punctuation hfirst, List.singleton_append,
    htext _ (parts_cons hbare _), tokensFrom_punctuation hlast]
  simp [Option.map_map, Function.comp_def]

theorem falls_of_plain {v : Value} (h : v.Plain) : Falls v := by
  induction h with
  | number n => exact falls_number n
  | text s => exact falls_text s
  | list h ih =>
    intro rest _
    rw [valueText, tokensOf]
    exact tokensFrom_enclosed rfl rfl rfl fun _ => tokensFrom_itemsText ih
  | record h ih =>
    intro rest _
    rw [Value.record, valueText, tokensOf]
    exact tokensFrom_enclosed rfl rfl rfl fun _ => tokensFrom_fieldsText ih

/-! ## From the tokens to the value -/

/-- The tokens of a value are read as the value, whatever comes after them, with fuel for each. -/
def Reads (v : Value) : Prop :=
  ∀ fuel rest, (tokensOf v).length ≤ fuel →
    readValue fuel (tokensOf v ++ rest) = some (v.readBack, rest)

theorem bareValue?_ofNat (n : Nat) : bareValue? (numeralText (.ofNat n)) = some (.ofNat n) := by
  have hword : ∀ word : String, (∃ c ∈ word.toList, c.isDigit = false) →
      Nat.toDigits 10 n ≠ word.toList := by
    rintro word ⟨c, hc, hdigit⟩ heq
    rw [← heq] at hc
    rw [Numeral.isDigit_of_mem_toDigits hc] at hdigit
    cases hdigit
  rw [bareValue?, numeralText_ofNat, if_neg (hword "null" ⟨'n', by simp, rfl⟩),
    if_neg (hword "true" ⟨'t', by simp, rfl⟩), if_neg (hword "false" ⟨'f', by simp, rfl⟩),
    Numeral.numeral?_toDigits]
  rfl

theorem reads_number (n : Nat) : Reads (.ofNat n) := by
  intro fuel rest hfuel
  cases fuel with
  | zero => cases hfuel
  | succ fuel =>
    rw [Value.ofNat, tokensOf, List.singleton_append, readValue, bareValue?_ofNat]
    rfl

theorem reads_text (s : String) : Reads (.ofString s) := by
  intro fuel rest hfuel
  cases fuel with
  | zero => cases hfuel
  | succ fuel => rfl

/-- A list that is not closed at once has items. -/
theorem readValue_openList {fuel : Nat} {rest : List Token} (h : rest.head? ≠ some .closeList) :
    readValue (fuel + 1) (.openList :: rest) =
      (readItems fuel rest).map fun (items, rest) => (.list items, rest) := by
  cases rest with
  | nil => rfl
  | cons token rest => cases token <;> first | exact absurd rfl h | rfl

/-- No value starts with the end of a list. -/
theorem head?_tokensOf (v : Value) (rest : List Token) :
    (tokensOf v ++ rest).head? ≠ some .closeList := by
  cases v with
  | bool b => cases b <;> simp [tokensOf]
  | _ => simp [tokensOf]

theorem head?_itemsTokens (v : Value) (items : List Value) (rest : List Token) :
    (itemsTokens (v :: items) ++ rest).head? ≠ some .closeList := by
  cases items with
  | nil => exact head?_tokensOf v rest
  | cons next items =>
    rw [itemsTokens_cons, List.append_assoc]
    exact head?_tokensOf v _

theorem readItems_itemsTokens {items : List Value} (hne : items ≠ [])
    (h : ∀ v ∈ items, Reads v) {fuel : Nat} {rest : List Token}
    (hfuel : (itemsTokens items).length < fuel) :
    readItems fuel (itemsTokens items ++ .closeList :: rest) =
      some (Value.readBackItems items, rest) := by
  induction items generalizing fuel with
  | nil => exact absurd rfl hne
  | cons v items ih =>
    obtain ⟨hv, hitems⟩ := List.forall_mem_cons.1 h
    obtain ⟨fuel, rfl⟩ : ∃ n, fuel = n + 1 := ⟨fuel - 1, by omega⟩
    cases items with
    | nil =>
      have htokens : itemsTokens [v] = tokensOf v := rfl
      rw [htokens] at hfuel ⊢
      rw [readItems, hv fuel _ (by omega)]
      rfl
    | cons next items =>
      rw [itemsTokens_cons, List.length_append, List.length_cons] at hfuel
      have htail : readItems fuel (itemsTokens (next :: items) ++ .closeList :: rest) =
        some (Value.readBackItems (next :: items), rest) :=
          ih (List.cons_ne_nil _ _) hitems (by omega)
      rw [itemsTokens_cons, List.append_assoc, List.cons_append, readItems,
        hv fuel _ (by omega)]
      simp only [htail, Option.map_some]
      rfl

theorem readFields_fieldsTokens {fields : List (String × Value)} (hne : fields ≠ [])
    (h : ∀ field ∈ fields, Reads field.2) {fuel : Nat} {rest : List Token}
    (hfuel : (fieldsTokens (keyed fields)).length < fuel) :
    readFields fuel (fieldsTokens (keyed fields) ++ .closeTable :: rest) =
      some (Value.readBackFields (keyed fields), rest) := by
  induction fields generalizing fuel with
  | nil => exact absurd rfl hne
  | cons field fields ih =>
    obtain ⟨name, v⟩ := field
    obtain ⟨hv, hfields⟩ : Reads v ∧ ∀ field ∈ fields, Reads field.2 := List.forall_mem_cons.1 h
    obtain ⟨fuel, rfl⟩ : ∃ n, fuel = n + 1 := ⟨fuel - 1, by omega⟩
    cases fields with
    | nil =>
      have htokens : fieldsTokens (keyed [(name, v)]) =
        .text ((Fragment.ofString name).map Fragment.readBack) :: .colon :: tokensOf v := rfl
      rw [htokens] at hfuel ⊢
      rw [List.length_cons, List.length_cons] at hfuel
      rw [List.cons_append, List.cons_append, readFields, hv fuel _ (by omega)]
      rfl
    | cons next fields =>
      rw [fieldsTokens_keyed, List.length_append, List.length_cons, List.length_cons,
        List.length_cons] at hfuel
      have htail :
        readFields fuel (fieldsTokens (keyed (next :: fields)) ++ .closeTable :: rest) =
          some (Value.readBackFields (keyed (next :: fields)), rest) :=
            ih (List.cons_ne_nil _ _) hfields (by omega)
      rw [fieldsTokens_keyed, List.append_assoc, List.cons_append, List.cons_append,
        List.cons_append, readFields, hv fuel _ (by omega)]
      simp only [htail, Option.map_some]
      rfl

theorem reads_list {items : List Value} (h : ∀ v ∈ items, Reads v) : Reads (.list items) := by
  intro fuel rest hfuel
  rw [tokensOf, List.length_append, List.length_cons, List.length_singleton] at hfuel
  obtain ⟨fuel, rfl⟩ : ∃ n, fuel = n + 1 := ⟨fuel - 1, by omega⟩
  rw [tokensOf, List.cons_append, List.cons_append, List.append_assoc, List.singleton_append]
  cases items with
  | nil => rfl
  | cons v items =>
    rw [readValue_openList (head?_itemsTokens v items _),
      readItems_itemsTokens (List.cons_ne_nil _ _) h (by omega)]
    rfl

theorem reads_record {fields : List (String × Value)} (h : ∀ field ∈ fields, Reads field.2) :
    Reads (.record fields) := by
  intro fuel rest hfuel
  have htokens : tokensOf (.record fields) =
    .openTable :: fieldsTokens (keyed fields) ++ [.closeTable] := rfl
  rw [htokens, List.length_append, List.length_cons, List.length_singleton] at hfuel
  obtain ⟨fuel, rfl⟩ : ∃ n, fuel = n + 1 := ⟨fuel - 1, by omega⟩
  rw [htokens, List.cons_append, List.cons_append, List.append_assoc, List.singleton_append]
  cases fields with
  | nil => rfl
  | cons field fields =>
    have hread :
      readFields fuel (fieldsTokens (keyed (field :: fields)) ++ .closeTable :: rest) =
        some (Value.readBackFields (keyed (field :: fields)), rest) :=
          readFields_fieldsTokens (List.cons_ne_nil _ _) h (by omega)
    -- the first field starts with its key, so the table is not closed at once
    obtain ⟨key, tokens, hkey⟩ : ∃ key tokens,
        fieldsTokens (keyed (field :: fields)) = .text key :: tokens := by
      cases fields with
      | nil => exact ⟨_, _, rfl⟩
      | cons next fields => exact ⟨_, _, rfl⟩
    rw [hkey, List.cons_append] at hread ⊢
    rw [readValue, hread]
    · rfl
    · rintro _ ⟨⟩

theorem reads_of_plain {v : Value} (h : v.Plain) : Reads v := by
  induction h with
  | number n => exact reads_number n
  | text s => exact reads_text s
  | list _ ih => exact reads_list ih
  | record _ ih => exact reads_record ih

/-- A plain value comes back from its text. -/
theorem parse?_render {v : Value} (h : v.Plain) : parse? (render v) = some v.readBack := by
  have htokens : tokens? (render v) = some (tokensOf v) := by
    have hfalls := falls_of_plain h [] (by rintro _ ⟨⟩)
    rw [List.append_nil] at hfalls
    rw [tokens?, render, String.toList_ofList, hfalls]
    simp [tokensFrom]
  have hread := reads_of_plain h (2 * (tokensOf v).length + 1) [] (by omega)
  rw [List.append_nil] at hread
  rw [parse?, htokens, Option.bind_some, valueOf?, hread]

end Json

end SpillStorage
