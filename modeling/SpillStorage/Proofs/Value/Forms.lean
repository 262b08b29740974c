import SpillStorage.Proofs.Json.RoundTrip
import SpillStorage.Proofs.Path

/-!
The library's own data come back from their JSON texts.

What is proved:
  1. `fields?_record`: the fields of a record that comes back from its text are those that were
     written.
  2. `fields?_keepFields`, `fields?_missing`: fields that are left out are missing, and so are those
     that a value does not give.
  3. `Segment.ofValue?_readBack` and its likes: each kind of data is read from what it was written
     as.
  4. `json_round_trip`: so every datum comes back from its text, and what is not in a text is
     read as nothing or as the standard.
-/

namespace SpillStorage

open Json

namespace Value

/-! ## Records that come back -/

theorem readBackFields_eq_map (fields : List (List Fragment × Value)) :
    readBackFields fields =
      fields.map fun (key, v) => (key.map Fragment.readBack, v.readBack) := by
  induction fields with
  | nil => rfl
  | cons field rest ih =>
    obtain ⟨key, v⟩ := field
    rw [readBackFields, ih, List.map_cons]

theorem readBack_record (fields : List (String × Value)) :
    (record fields).readBack = .table (fields.map fun (name, v) =>
      ((Fragment.ofString name).map Fragment.readBack, v.readBack)) := by
  rw [record, readBack, readBackFields_eq_map]
  simp [Function.comp_def]

theorem offset?_readBack {n : Nat} (h : n < Offset.bound) : (ofNat n).readBack.offset? = some n :=
  offset?_ofNat h

theorem string?_readBack (s : String) : (ofString s).readBack.string? = some s :=
  Fragment.text?_readBack s

theorem named?_cons {key : List Fragment} {v : Value} {rest : List (List Fragment × Value)}
    {named : List (String × Value)} :
    named? ((key, v) :: rest) = some named ↔
      ∃ name others, Fragment.text? key = some name ∧ named? rest = some others ∧
        named = (name, v) :: others := by
  simp only [named?, Option.bind_eq_bind, Option.bind_eq_some_iff, Option.pure_def,
    Option.some.injEq]
  constructor
  · rintro ⟨name, hname, others, hothers, rfl⟩
    exact ⟨name, others, hname, hothers, rfl⟩
  · rintro ⟨name, others, hname, hothers, rfl⟩
    exact ⟨name, hname, others, hothers, rfl⟩

theorem named?_readBack (fields : List (String × Value)) :
    named? (readBackFields (keyed fields)) =
      some (fields.map fun (name, v) => (name, v.readBack)) := by
  induction fields with
  | nil => rfl
  | cons field rest ih =>
    obtain ⟨name, v⟩ := field
    exact named?_cons.2 ⟨name, _, Fragment.text?_readBack name, ih, rfl⟩

theorem givenFor_map (f : Value → Value) (fields : List (String × Value)) (name : String) :
    givenFor (fields.map fun (name, v) => (name, f v)) name = (givenFor fields name).map f := by
  simp [givenFor, List.filter_map, Function.comp_def]

/-- Leaving fields out by their names leaves the others what they are. -/
theorem givenFor_filter (kept : String → Bool) (fields : List (String × Value)) (name : String) :
    givenFor (fields.filter fun field => kept field.1) name =
      if kept name then givenFor fields name else [] := by
  have hfilter : (fields.filter fun field => kept field.1).filter (fun field => field.1 == name) =
      fields.filter fun field => kept name && field.1 == name := by
    rw [List.filter_filter]
    refine List.filter_congr fun field _ => ?_
    by_cases h : field.1 = name
    · simp [h]
    · rw [beq_false_of_ne h, Bool.false_and, Bool.and_false]
  rw [givenFor, hfilter]
  cases kept name <;> simp [givenFor]

/-- The fields of a table are read if every name is a text and none that is asked for is given
twice. -/
theorem fields?_table {fields : List (List Fragment × Value)} {names : List String}
    {surplus : Bool} {found : List (Option Value)} :
    (table fields).fields? names surplus = some found ↔
      ∃ named, named? fields = some named ∧ (∀ name ∈ names, (givenFor named name).length ≤ 1) ∧
        found = names.map fun name => (givenFor named name).head? := by
  simp only [fields?, Option.bind_eq_bind, Option.bind_eq_some_iff]
  refine exists_congr fun named => and_congr_right fun _ => ?_
  split
  · next htwice =>
    obtain ⟨name, hname, hmany⟩ := List.any_eq_true.1 htwice
    have hmany : 1 < (givenFor named name).length := of_decide_eq_true hmany
    constructor
    · rintro ⟨⟩
    · rintro ⟨honce, -⟩
      exact absurd (honce name hname) (by omega)
  · next honce =>
    have honce : ∀ name ∈ names, (givenFor named name).length ≤ 1 := by simpa using honce
    rw [Option.some.injEq]
    exact ⟨fun h => ⟨honce, h.symm⟩, fun h => h.2.symm⟩

/-- The fields of a record that comes back, if no name is given twice. -/
theorem fields?_record {fields : List (String × Value)} {names : List String}
    (h : ∀ name ∈ names, (givenFor fields name).length ≤ 1) (surplus : Bool) :
    (record fields).readBack.fields? names surplus =
      some (names.map fun name => (givenFor fields name).head?.map readBack) := by
  refine fields?_table.2 ⟨_, named?_readBack fields, ?_, ?_⟩
  · simpa [givenFor_map] using h
  · simp [givenFor_map]

/-! ## Fields that are left out -/

/-- The value with only some of its fields. -/
def keepFields (kept : String → Bool) : Value → Value
  | .table fields => .table (fields.filter fun field => (Fragment.text? field.1).any kept)
  | v => v

theorem named?_filter {kept : String → Bool} {fields : List (List Fragment × Value)}
    {named : List (String × Value)} (h : named? fields = some named) :
    named? (fields.filter fun field => (Fragment.text? field.1).any kept) =
      some (named.filter fun field => kept field.1) := by
  induction fields generalizing named with
  | nil =>
    rw [named?, Option.some.injEq] at h
    rw [← h]
    rfl
  | cons given rest ih =>
    obtain ⟨key, v⟩ := given
    obtain ⟨name, others, hname, hothers, rfl⟩ := named?_cons.1 h
    cases hkept : kept name with
    | true =>
      rw [List.filter_cons_of_pos (by simpa [hname] using hkept),
        List.filter_cons_of_pos (by simpa using hkept)]
      exact named?_cons.2 ⟨name, _, hname, ih hothers, rfl⟩
    | false =>
      rw [List.filter_cons_of_neg (by simp [hname, hkept]),
        List.filter_cons_of_neg (by simp [hkept]), ih hothers]

/-- Fields that are left out are missing, and the others are what they are. -/
theorem fields?_keepFields {fields : List (List Fragment × Value)} {names : List String}
    {surplus : Bool} {found : String → Option Value}
    (h : (table fields).fields? names surplus = some (names.map found)) (kept : String → Bool) :
    ((table fields).keepFields kept).fields? names surplus =
      some (names.map fun name => if kept name then found name else none) := by
  obtain ⟨named, hnamed, honce, hfound⟩ := fields?_table.1 h
  refine fields?_table.2 ⟨_, named?_filter hnamed, fun name hname => ?_, ?_⟩
  · rw [givenFor_filter]
    split
    · exact honce name hname
    · exact Nat.zero_le 1
  · refine List.map_congr_left fun name hname => ?_
    have hname : found name = (givenFor named name).head? := List.map_inj_left.1 hfound name hname
    rw [givenFor_filter, hname]
    cases kept name <;> rfl

/-- A record is still a record without some of its fields. -/
theorem keepFields_record (kept : String → Bool) (fields : List (String × Value)) :
    (record fields).keepFields kept = record (fields.filter fun field => kept field.1) := by
  rw [record, keepFields, List.filter_map]
  simp only [Function.comp_def, Fragment.text?_ofString, Option.any_some]
  rfl

/-- Leaving fields out of a record before it is written or after it is read is the same. -/
theorem readBack_keepFields (kept : String → Bool) (fields : List (String × Value)) :
    ((record fields).keepFields kept).readBack = (record fields).readBack.keepFields kept := by
  rw [keepFields_record, readBack_record, readBack_record, keepFields, List.filter_map]
  simp only [Function.comp_def, Fragment.text?_readBack, Option.any_some]

theorem plain_keepFields (kept : String → Bool) {fields : List (String × Value)}
    (h : ∀ field ∈ fields, field.2.Plain) : ((record fields).keepFields kept).Plain := by
  rw [keepFields_record]
  exact .record fun field hfield => h field (List.mem_filter.1 hfield).1

/-! ## Fields that are missing -/

/-- The value has something for a field: a table by its name, a list by its place among the
names. -/
def gives (v : Value) (names : List String) (name : String) : Bool :=
  match v with
  | .table fields => fields.any fun field => Fragment.text? field.1 == some name
  | .list items => decide (names.idxOf name < items.length)
  | _ => false

theorem exists_key_of_mem_named? {fields : List (List Fragment × Value)}
    {named : List (String × Value)} (h : named? fields = some named) {field : String × Value}
    (hfield : field ∈ named) : ∃ given ∈ fields, Fragment.text? given.1 = some field.1 := by
  induction fields generalizing named with
  | nil =>
    rw [named?, Option.some.injEq] at h
    rw [← h] at hfield
    cases hfield
  | cons given rest ih =>
    obtain ⟨key, v⟩ := given
    obtain ⟨name, others, hname, hothers, rfl⟩ := named?_cons.1 h
    rcases List.mem_cons.1 hfield with rfl | hfield
    · exact ⟨(key, v), List.mem_cons_self, hname⟩
    · obtain ⟨given, hmem, hkey⟩ := ih hothers hfield
      exact ⟨given, List.mem_cons_of_mem _ hmem, hkey⟩

/-- What is not given is missing. -/
theorem fields?_missing {names : List String} (hnames : names.Nodup) {surplus : Bool} {v : Value}
    (h : (v.fields? names surplus).isSome) :
    ∃ found : String → Option Value, v.fields? names surplus = some (names.map found) ∧
      ∀ name, v.gives names name = false → found name = none := by
  obtain ⟨fields, hfields⟩ := Option.isSome_iff_exists.1 h
  cases v with
  | table given =>
    obtain ⟨named, hnamed, -, rfl⟩ := fields?_table.1 hfields
    refine ⟨fun name => (givenFor named name).head?, hfields, fun name hname => ?_⟩
    have hnone : givenFor named name = [] := by
      rw [givenFor, List.map_eq_nil_iff, List.filter_eq_nil_iff]
      rintro field hfield heq
      obtain ⟨key, hkey, htext⟩ := exists_key_of_mem_named? hnamed hfield
      have hgiven : (Fragment.text? key.1 == some name) = true := by
        rw [htext, eq_of_beq heq, beq_self_eq_true]
      exact List.any_eq_false.1 hname key hkey hgiven
    exact congrArg List.head? hnone
  | list items =>
    have hplaces : (List.range names.length).map (fun i => items[i]?) =
        names.map fun name => items[names.idxOf name]? := by
      refine List.ext_getElem (by simp) fun i hi _ => ?_
      rw [List.length_map, List.length_range] at hi
      simp [hnames.idxOf_getElem i hi]
    refine ⟨fun name => items[names.idxOf name]?, ?_, fun name hname =>
      List.getElem?_eq_none (Nat.le_of_not_lt (of_decide_eq_false hname))⟩
    simp only [fields?] at hfields ⊢
    split at hfields
    · next hfits => rw [if_pos hfits, hplaces]
    · cases hfields
  | _ => cases hfields

theorem gives_record (names : List String) (name : String) (fields : List (String × Value)) :
    (record fields).readBack.gives names name = fields.any fun field => field.1 == name := by
  rw [readBack_record, gives, List.any_map]
  simp [Function.comp_def, Fragment.text?_readBack]

theorem eq_of_orElse? {f : Value → Option α} {missing a : α} {found : Option Value} {given : Bool}
    (hfound : given = false → found = none) (h : orElse? f missing found = some a) :
    a = if given then a else missing := by
  cases given with
  | true => rfl
  | false =>
    rw [hfound rfl] at h
    exact (Option.some.inj h).symm

theorem orElse?_kept {f : Value → Option α} {missing a : α} {found : Option Value}
    (h : orElse? f missing found = some a) (kept : Bool) :
    orElse? f missing (if kept then found else none) = some (if kept then a else missing) := by
  cases kept
  · rfl
  · exact h

end Value

/-! ## Segments and regions -/

theorem Segment.ofValue?_readBack {s : Segment} (hposition : s.position < Offset.bound)
    (hsize : s.size < Offset.bound) : ofValue? false s.toValue.readBack = some s := by
  rw [ofValue?, toValue, Value.fields?_record (by simp [Value.givenFor])]
  simp [Value.givenFor, Value.required?, Value.offset?_readBack, hposition, hsize]

theorem Region.ofValue?_readBack {r : Region} (hoffset : r.offset < Offset.bound)
    (hsize : r.size < Offset.bound) : ofValue? false r.toValue.readBack = some r := by
  rw [ofValue?, toValue, Value.fields?_record (by simp [Value.givenFor])]
  simp [Value.givenFor, Value.required?, Value.offset?_readBack, hoffset, hsize]

/-! ## Directories -/

namespace TempDirectory

/-- The names of the fields, in order. -/
def fieldNames : List String := ["path", "limit"]

/-- The reading of the fields, of which only the quota may be missing. -/
theorem ofValue?_eq_some_iff {v : Value} {d : TempDirectory} {found : String → Option Value}
    (h : v.fields? fieldNames false = some (fieldNames.map found)) :
    ofValue? false v = some d ↔
      (∃ path, Value.required? Value.string? (found "path") = some path ∧
        Path.ofString path = d.path) ∧
      Value.orElse? (Value.optional? Value.offset?) none (found "limit") = some d.limit := by
  have hfields : v.fields? ["path", "limit"] false = some [found "path", found "limit"] := h
  rw [ofValue?, hfields]
  simp only [Option.bind_eq_bind, Option.bind_eq_some_iff, Option.pure_def, Option.some.injEq]
  constructor
  · rintro ⟨path, hpath, _, hlimit, rfl⟩
    exact ⟨⟨path, hpath, rfl⟩, hlimit⟩
  · rintro ⟨⟨path, hpath, heq⟩, hlimit⟩
    exact ⟨path, hpath, d.limit, hlimit, by rw [heq]⟩

theorem exists_found {v : Value} {d : TempDirectory} (h : ofValue? false v = some d) :
    ∃ found, v.fields? fieldNames false = some (fieldNames.map found) ∧
      ∀ name, v.gives fieldNames name = false → found name = none := by
  refine Value.fields?_missing (by decide) ?_
  unfold ofValue? at h
  split at h
  · next hfields => exact Option.isSome_of_eq_some hfields
  · cases h

theorem limit_eq_none {v : Value} {d : TempDirectory} (h : ofValue? false v = some d)
    (hlimit : v.gives fieldNames "limit" = false) : d.limit = none := by
  obtain ⟨found, hfound, hmissing⟩ := exists_found h
  have hread := ((ofValue?_eq_some_iff hfound).1 h).2
  have hvalue := Value.eq_of_orElse? (hmissing "limit") hread
  rw [hlimit] at hvalue
  exact hvalue

/-- A directory that is read from a table is read without its quota, too. -/
theorem ofValue?_keepFields {fields : List (List Fragment × Value)} {d : TempDirectory}
    (h : ofValue? false (.table fields) = some d) :
    ofValue? false ((Value.table fields).keepFields (· != "limit")) =
      some { d with limit := none } := by
  obtain ⟨found, hfound, -⟩ := exists_found h
  rw [ofValue?_eq_some_iff hfound] at h
  rw [ofValue?_eq_some_iff (Value.fields?_keepFields hfound (· != "limit"))]
  exact ⟨h.1, rfl⟩

/-- The path is a text, and the quota an offset. -/
structure Writable (d : TempDirectory) : Prop where
  path : d.path.text?.isSome
  limit : ∀ limit ∈ d.limit, limit < Offset.bound

/-- A directory is read from what it was written as, and its quota is written exactly if it has
one. -/
theorem exists_toValue? {d : TempDirectory} (h : d.Writable) :
    ∃ v, d.toValue? = some v ∧ v.Plain ∧ ofValue? false v.readBack = some d ∧
      v.readBack.gives fieldNames "limit" = d.limit.isSome := by
  obtain ⟨path, limit⟩ := d
  obtain ⟨text, htext⟩ := Option.isSome_iff_exists.1 h.path
  have hpath : Path.ofString text = path := Path.ofString_of_text? htext
  cases limit with
  | none =>
    refine ⟨.record [("path", .ofString text)], by simp only [toValue?, htext, Option.map_some],
      .record (by simpa using Value.Plain.text text), ?_, by rw [Value.gives_record]; rfl⟩
    rw [ofValue?_eq_some_iff (Value.fields?_record (by simp [fieldNames, Value.givenFor]) false)]
    simp [Value.givenFor, Value.required?, Value.orElse?, Value.string?_readBack, hpath]
  | some limit =>
    have hlimit : limit < Offset.bound := h.limit limit rfl
    refine ⟨.record [("path", .ofString text), ("limit", .ofNat limit)],
      by simp only [toValue?, htext, Option.map_some],
      .record (by simpa using ⟨Value.Plain.text text, Value.Plain.number limit⟩), ?_,
      by rw [Value.gives_record]; rfl⟩
    have hread : Value.optional? Value.offset? (Value.ofNat limit).readBack = some (some limit) :=
      congrArg (Option.map some) (Value.offset?_readBack hlimit)
    rw [ofValue?_eq_some_iff (Value.fields?_record (by simp [fieldNames, Value.givenFor]) false)]
    simp [Value.givenFor, Value.required?, Value.orElse?, Value.string?_readBack, hpath, hread]

theorem exists_mapM_toValue? {directories : List TempDirectory}
    (h : ∀ d ∈ directories, d.Writable) :
    ∃ items, directories.mapM toValue? = some items ∧ (∀ v ∈ items, v.Plain) ∧
      listOfValue? false (Value.list items).readBack = some directories := by
  induction directories with
  | nil => exact ⟨[], rfl, by simp, rfl⟩
  | cons d rest ih =>
    obtain ⟨hd, hrest⟩ := List.forall_mem_cons.1 h
    obtain ⟨v, hv, hplain, hread, -⟩ := exists_toValue? hd
    obtain ⟨items, hitems, hplains, hreads⟩ := ih hrest
    refine ⟨v :: items, by simp [List.mapM_cons, hv, hitems],
      List.forall_mem_cons.2 ⟨hplain, hplains⟩, ?_⟩
    have hrest : (Value.readBackItems items).mapM (ofValue? false) = some rest := hreads
    have hcons : (v.readBack :: Value.readBackItems items).mapM (ofValue? false) =
        some (d :: rest) := by
      simp [List.mapM_cons, hread, hrest]
    exact hcons

end TempDirectory

/-! ## Settings -/

namespace Settings

/-- The names of the fields, in order. -/
def fieldNames : List String := ["directories", "cache_limit", "min_block_size", "file_prefix"]

variable {temporaries : Path}

/-- The settings with those of the standard in place of what is not kept. -/
def keep (temporaries : Path) (kept : String → Bool) (s : Settings) : Settings where
  directories := if kept "directories" then s.directories else (standard temporaries).directories
  cacheLimit := if kept "cache_limit" then s.cacheLimit else (standard temporaries).cacheLimit
  minBlockSize :=
    if kept "min_block_size" then s.minBlockSize else (standard temporaries).minBlockSize
  filePrefix := if kept "file_prefix" then s.filePrefix else (standard temporaries).filePrefix

/-- The reading of the fields, each of which may be missing. -/
theorem ofValue?_eq_some_iff {v : Value} {s : Settings} {found : String → Option Value}
    (h : v.fields? fieldNames false = some (fieldNames.map found)) :
    ofValue? false temporaries v = some s ↔
      Value.orElse? (TempDirectory.listOfValue? false) (standard temporaries).directories
        (found "directories") = some s.directories ∧
      Value.orElse? Value.offset? (standard temporaries).cacheLimit (found "cache_limit") =
        some s.cacheLimit ∧
      Value.orElse? Value.offset? (standard temporaries).minBlockSize (found "min_block_size") =
        some s.minBlockSize ∧
      Value.orElse? Value.string? (standard temporaries).filePrefix (found "file_prefix") =
        some s.filePrefix := by
  have hfields : v.fields? ["directories", "cache_limit", "min_block_size", "file_prefix"] false =
    some [found "directories", found "cache_limit", found "min_block_size",
      found "file_prefix"] := h
  rw [ofValue?, hfields]
  simp only [Option.bind_eq_bind, Option.bind_eq_some_iff, Option.pure_def, Option.some.injEq]
  constructor
  · rintro ⟨_, hdirectories, _, hcache, _, hblock, _, hprefix, rfl⟩
    exact ⟨hdirectories, hcache, hblock, hprefix⟩
  · rintro ⟨hdirectories, hcache, hblock, hprefix⟩
    exact ⟨_, hdirectories, _, hcache, _, hblock, _, hprefix, rfl⟩

theorem exists_found {v : Value} {s : Settings} (h : ofValue? false temporaries v = some s) :
    ∃ found, v.fields? fieldNames false = some (fieldNames.map found) ∧
      ∀ name, v.gives fieldNames name = false → found name = none := by
  refine Value.fields?_missing (by decide) ?_
  unfold ofValue? at h
  split at h
  · next hfields => exact Option.isSome_of_eq_some hfields
  · cases h

/-- Settings that are read from a table are read without some of its fields, too, with the standard
in place of them. -/
theorem ofValue?_keepFields {fields : List (List Fragment × Value)} {s : Settings}
    (h : ofValue? false temporaries (.table fields) = some s) (kept : String → Bool) :
    ofValue? false temporaries ((Value.table fields).keepFields kept) =
      some (s.keep temporaries kept) := by
  obtain ⟨found, hfound, -⟩ := exists_found h
  rw [ofValue?_eq_some_iff hfound] at h
  obtain ⟨hdirectories, hcache, hblock, hprefix⟩ := h
  rw [ofValue?_eq_some_iff (Value.fields?_keepFields hfound kept)]
  exact ⟨Value.orElse?_kept hdirectories _, Value.orElse?_kept hcache _,
    Value.orElse?_kept hblock _, Value.orElse?_kept hprefix _⟩

/-- What a value does not give is that of the standard. -/
theorem eq_keep_gives {v : Value} {s : Settings} (h : ofValue? false temporaries v = some s) :
    s = s.keep temporaries (v.gives fieldNames) := by
  obtain ⟨found, hfound, hmissing⟩ := exists_found h
  obtain ⟨directories, cacheLimit, minBlockSize, filePrefix⟩ := s
  rw [ofValue?_eq_some_iff hfound] at h
  obtain ⟨hdirectories, hcache, hblock, hprefix⟩ := h
  rw [keep, Settings.mk.injEq]
  exact ⟨Value.eq_of_orElse? (hmissing _) hdirectories, Value.eq_of_orElse? (hmissing _) hcache,
    Value.eq_of_orElse? (hmissing _) hblock, Value.eq_of_orElse? (hmissing _) hprefix⟩

/-- A list gives the first fields only. -/
example : (parse? "[[], 7]").bind (ofValue? false) =
    some { standard with directories := [], cacheLimit := 7 } := by
  decide +kernel

/-- Every path is a text, and every number an offset. -/
structure Writable (s : Settings) : Prop where
  directories : ∀ d ∈ s.directories, d.Writable
  cacheLimit : s.cacheLimit < Offset.bound
  minBlockSize : s.minBlockSize < Offset.bound

/-- Settings are written as a record of plain fields, and read from it. -/
theorem exists_toValue? {s : Settings} (h : s.Writable) (temporaries : Path) :
    ∃ fields, s.toValue? = some (.record fields) ∧ (∀ field ∈ fields, field.2.Plain) ∧
      ofValue? false temporaries (Value.record fields).readBack = some s := by
  obtain ⟨items, hitems, hplain, hread⟩ := TempDirectory.exists_mapM_toValue? h.directories
  refine ⟨[("directories", .list items), ("cache_limit", .ofNat s.cacheLimit),
    ("min_block_size", .ofNat s.minBlockSize), ("file_prefix", .ofString s.filePrefix)],
    by rw [toValue?, hitems]; rfl, ?_, ?_⟩
  · simpa using ⟨Value.Plain.list hplain, Value.Plain.number _, Value.Plain.number _,
      Value.Plain.text _⟩
  · rw [ofValue?_eq_some_iff (Value.fields?_record (by simp [fieldNames, Value.givenFor]) false)]
    simp [Value.givenFor, Value.orElse?, hread, Value.offset?_readBack, h.cacheLimit,
      h.minBlockSize, Value.string?_readBack]

end Settings

/-! ## Texts -/

/-- Segments, regions, directories and settings come back from their texts if the numbers in them
are offsets and the paths texts. A quota is in the text exactly if the directory has one, and a
directory that is read without a quota has none. Settings are read without any of their fields; what
is not given is that of the standard, wherever the system wants temporaries. -/
theorem json_round_trip :
    (∀ s : Segment, s.position < Offset.bound → s.size < Offset.bound →
      (parse? (render s.toValue)).bind (Segment.ofValue? false) = some s) ∧
    (∀ r : Region, r.offset < Offset.bound → r.size < Offset.bound →
      (parse? (render r.toValue)).bind (Region.ofValue? false) = some r) ∧
    (∀ d : TempDirectory, d.Writable → ∃ v back, d.toValue? = some v ∧
      parse? (render v) = some back ∧ TempDirectory.ofValue? false back = some d ∧
      back.gives TempDirectory.fieldNames "limit" = d.limit.isSome) ∧
    (∀ s : Settings, s.Writable → ∀ temporaries, ∃ v, s.toValue? = some v ∧
      (parse? (render v)).bind (Settings.ofValue? false temporaries) = some s ∧
      ∀ kept, (parse? (render (v.keepFields kept))).bind (Settings.ofValue? false temporaries) =
        some (s.keep temporaries kept)) ∧
    (∀ v d, TempDirectory.ofValue? false v = some d →
      v.gives TempDirectory.fieldNames "limit" = false → d.limit = none) ∧
    (∀ fields d, TempDirectory.ofValue? false (.table fields) = some d →
      TempDirectory.ofValue? false ((Value.table fields).keepFields (· != "limit")) =
        some { d with limit := none }) ∧
    (∀ temporaries v s, Settings.ofValue? false temporaries v = some s →
      s = s.keep temporaries (v.gives Settings.fieldNames)) ∧
    ∀ temporaries fields s kept, Settings.ofValue? false temporaries (.table fields) = some s →
      Settings.ofValue? false temporaries ((Value.table fields).keepFields kept) =
        some (s.keep temporaries kept) := by
  refine ⟨fun s hposition hsize => ?_, fun r hoffset hsize => ?_, fun d hd => ?_,
    fun s hs temporaries => ?_, fun _ _ => TempDirectory.limit_eq_none,
    fun _ _ => TempDirectory.ofValue?_keepFields, fun _ _ _ => Settings.eq_keep_gives,
    fun _ _ _ kept h => Settings.ofValue?_keepFields h kept⟩
  · have hplain : s.toValue.Plain :=
      .record (by simpa using ⟨Value.Plain.number s.position, Value.Plain.number s.size⟩)
    rw [parse?_render hplain]
    exact Segment.ofValue?_readBack hposition hsize
  · have hplain : r.toValue.Plain :=
      .record (by simpa using ⟨Value.Plain.number r.offset, Value.Plain.number r.size⟩)
    rw [parse?_render hplain]
    exact Region.ofValue?_readBack hoffset hsize
  · obtain ⟨v, hv, hplain, hread, hlimit⟩ := TempDirectory.exists_toValue? hd
    exact ⟨v, v.readBack, hv, parse?_render hplain, hread, hlimit⟩
  · obtain ⟨fields, hfields, hplain, hread⟩ := Settings.exists_toValue? hs temporaries
    refine ⟨.record fields, hfields, ?_, fun kept => ?_⟩
    · rw [parse?_render (.record hplain)]
      exact hread
    · rw [parse?_render (Value.plain_keepFields kept hplain), Option.bind_some,
        Value.readBack_keepFields]
      rw [Value.readBack_record] at hread ⊢
      exact Settings.ofValue?_keepFields hread kept

/-- A path of quotes, controls and letters of many bytes, and the greatest numbers. -/
theorem extreme_settings_round_trip :
    let settings : Settings :=
      ⟨[⟨Path.ofString "/tmp/\"a\\b\u0007\u001fé😀", some (Offset.bound - 1)⟩, ⟨Path.ofString "", none⟩],
        Offset.bound - 1, 0, "p\n"⟩
    let temporaries := Path.ofString "/var/tmp"
    ∃ v, settings.toValue? = some v ∧
      (parse? (render v)).bind (Settings.ofValue? false temporaries) = some settings ∧
      ∀ kept, (parse? (render (v.keepFields kept))).bind (Settings.ofValue? false temporaries) =
        some (settings.keep temporaries kept) := by
  have hwritable : ∀ (text : String) (limit : Option Nat), (∀ n ∈ limit, n < Offset.bound) →
      TempDirectory.Writable ⟨Path.ofString text, limit⟩ := fun text limit hlimit =>
    ⟨by rw [Path.text?_ofString]; rfl, hlimit⟩
  refine json_round_trip.2.2.2.1 _ ⟨?_, by decide, by decide⟩ _
  simp only [List.forall_mem_cons, List.not_mem_nil, false_imp_iff, implies_true, and_true]
  exact ⟨hwritable _ _ (by simp [Offset.bound]), hwritable _ _ (by simp)⟩

end SpillStorage
