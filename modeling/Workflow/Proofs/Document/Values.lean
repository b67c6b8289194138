/-
Workflow.Proofs.Document.Values — values as documents and back.

An object of a value has each key once; a document may repeat a key, and an
untyped reader then keeps the last value. So the document of a value reads
back as that value exactly because no object in it repeats a key. Records
are written as objects whose keys are the first names of their fields; a
field without a value is left out, and the reader finds every field in its
place.

* `Json.Proper` — no object in a value has a key twice, and its numbers are
  as they should be.
* `Document.toJson?_ofJson` — a value reads back from its document.
* `Document.recordEntries`, `Document.fields?_record` — a record, written
  and taken apart.
* `Document.filled_of_fields?` — the fields of the document of a value are
  documents of values.
-/
import Workflow.Document.Basic

namespace Workflow

/-- No object in a value has a key twice, and all numbers in it are as a condition says. -/
inductive Json.Proper (good : Json.Num → Prop) : Json → Prop
  | null : Proper good .null
  | bool (b : Bool) : Proper good (.bool b)
  | num {n : Json.Num} (h : good n) : Proper good (.num n)
  | str (s : String) : Proper good (.str s)
  | arr {items : List Json} (h : ∀ v ∈ items, Proper good v) : Proper good (.arr items)
  | obj {fields : List (String × Json)} (hKeys : (Dict.keys fields).Nodup)
      (h : ∀ e ∈ fields, Proper good e.2) : Proper good (.obj fields)

/-- A number that a value can have: an integer of 64 bits or a finite double. -/
def Json.Num.InRange : Json.Num → Prop
  | .int n => Json.leastInt ≤ n ∧ n ≤ Json.greatestInt
  | .float x => x.isFinite = true

instance : DecidablePred Json.Num.InRange
  | .int _ => inferInstanceAs (Decidable (_ ∧ _))
  | .float _ => inferInstanceAs (Decidable (_ = _))

/-- A dictionary of proper values, no key of which stands twice. -/
structure Dict.Proper (good : Json.Num → Prop) (d : Dict Json) : Prop where
  keys : (Dict.keys d).Nodup
  values : ∀ e ∈ d, e.2.Proper good

section Check

variable {good : Json.Num → Prop} [DecidablePred good]

mutual

/-- Checks that no object in a value has a key twice and that its numbers are as they should be. -/
def Json.isProper (good : Json.Num → Prop) [DecidablePred good] : Json → Bool
  | .null | .bool _ | .str _ => true
  | .num n => good n
  | .arr items => Json.areProperItems good items
  | .obj fields => (Dict.keys fields).Nodup && Json.areProperFields good fields

/-- Checks the items of an array. -/
def Json.areProperItems (good : Json.Num → Prop) [DecidablePred good] : List Json → Bool
  | [] => true
  | v :: rest => Json.isProper good v && Json.areProperItems good rest

/-- Checks the entries of an object. -/
def Json.areProperFields (good : Json.Num → Prop) [DecidablePred good] :
    List (String × Json) → Bool
  | [] => true
  | (_, v) :: rest => Json.isProper good v && Json.areProperFields good rest

end

mutual

theorem Json.proper_of_isProper : ∀ {v : Json}, v.isProper good = true → v.Proper good
  | .null, _ => .null
  | .bool b, _ => .bool b
  | .str s, _ => .str s
  | .num _, h => .num (of_decide_eq_true h)
  | .arr _, h => .arr (Json.forall_of_areProperItems h)
  | .obj _, h =>
    have hParts := Bool.and_eq_true_iff.mp h
    .obj (of_decide_eq_true hParts.1) (Json.forall_of_areProperFields hParts.2)

theorem Json.forall_of_areProperItems :
    ∀ {items : List Json}, Json.areProperItems good items = true → ∀ v ∈ items, v.Proper good
  | [], _ => nofun
  | _ :: _, h =>
    have hParts := Bool.and_eq_true_iff.mp h
    List.forall_mem_cons.mpr
      ⟨Json.proper_of_isProper hParts.1, Json.forall_of_areProperItems hParts.2⟩

theorem Json.forall_of_areProperFields : ∀ {fields : List (String × Json)},
    Json.areProperFields good fields = true → ∀ e ∈ fields, e.2.Proper good
  | [], _ => nofun
  | (_, _) :: _, h =>
    have hParts := Bool.and_eq_true_iff.mp h
    List.forall_mem_cons.mpr
      ⟨Json.proper_of_isProper hParts.1, Json.forall_of_areProperFields hParts.2⟩

end

end Check

/-! ## Dictionaries from entries -/

namespace Dict

variable {α : Type}

/-- A new key goes to the end. -/
theorem insert_of_not_mem {d : Dict α} {key : String} (h : key ∉ keys d) (value : α) :
    insert d key value = d ++ [(key, value)] := by
  induction d with
  | nil => rfl
  | cons e rest ih =>
    obtain ⟨hOther, hRest⟩ := not_or.mp (mt List.mem_cons.mpr h)
    rw [insert, if_neg fun hSame => hOther hSame.symm, ih hRest, List.cons_append]

/-- New keys go to the end, in order. -/
theorem insertAll_eq_append {d more : Dict α} (h : (keys (d ++ more)).Nodup) :
    insertAll d more = d ++ more := by
  induction more generalizing d with
  | nil => exact (List.append_nil d).symm
  | cons e rest ih =>
    have hNew : e.1 ∉ keys d := by
      rw [keys, List.map_append, List.nodup_append] at h
      exact fun hIn => h.2.2 _ hIn _ (List.mem_cons_self ..) rfl
    have hRest : (keys (d ++ [e] ++ rest)).Nodup := by rwa [List.append_assoc]
    calc insertAll d (e :: rest)
        = insertAll (insert d e.1 e.2) rest := rfl
      _ = d ++ [e] ++ rest := by rw [insert_of_not_mem hNew, ih hRest]
      _ = d ++ e :: rest := List.append_assoc ..

/-- Entries with different keys are a dictionary as they are. -/
theorem ofEntries_eq_self {entries : List (String × α)} (h : (keys entries).Nodup) :
    ofEntries entries = entries :=
  @insertAll_eq_append α [] entries h

end Dict

namespace Document

/-! ## Values -/

theorem ofItems_eq (items : List Json) : ofItems items = items.map ofJson := by
  induction items with
  | nil => rfl
  | cons v rest ih => rw [ofItems, ih, List.map_cons]

theorem ofFields_eq (fields : List (String × Json)) :
    ofFields fields = fields.map fun e => (.text e.1, ofJson e.2) := by
  induction fields with
  | nil => rfl
  | cons e rest ih => rw [ofFields, ih, List.map_cons]

theorem toItems?_ofItems {items : List Json} (h : ∀ v ∈ items, (ofJson v).toJson? = some v) :
    toItems? (ofItems items) = some items := by
  induction items with
  | nil => rfl
  | cons v rest ih =>
    rw [ofItems, toItems?, h v (List.mem_cons_self ..),
      ih fun w hw => h w (List.mem_cons_of_mem _ hw)]

theorem toFields?_ofFields {fields : List (String × Json)}
    (h : ∀ e ∈ fields, (ofJson e.2).toJson? = some e.2) :
    toFields? (ofFields fields) = some fields := by
  induction fields with
  | nil => rfl
  | cons e rest ih =>
    rw [ofFields, toFields?, asText?, h e (List.mem_cons_self ..),
      ih fun f hf => h f (List.mem_cons_of_mem _ hf)]

/-- A value reads back from its document. -/
theorem toJson?_ofJson {good : Json.Num → Prop} {v : Json} (h : v.Proper good) :
    (ofJson v).toJson? = some v := by
  induction h with
  | null | bool | num | str => rfl
  | arr _ ih => rw [ofJson, toJson?, toItems?_ofItems ih, Option.map_some]
  | obj hKeys _ ih =>
    rw [ofJson, toJson?, toFields?_ofFields ih, Option.map_some, Dict.ofEntries_eq_self hKeys]

/-- Only null is taken for nothing. -/
theorem isNull_ofJson (v : Json) : (ofJson v).isNull = true ↔ v = .null := by
  cases v <;> simp [ofJson, isNull]

/-! ## Typed parts -/

section Typed

variable {α : Type} {read : Document → Option α} {write : α → Json}

@[simp] theorem asText?_ofJson_str (s : String) : (ofJson (.str s)).asText? = some s := rfl

@[simp] theorem asChoice?_ofJson_str (s : String) : (ofJson (.str s)).asChoice? = some s := rfl

theorem asNatBelow?_ofNat {bound n : Nat} (h : n < bound) :
    (ofJson (Json.ofNat n)).asNatBelow? bound = some n := by
  simp [Json.ofNat, ofJson, asNatBelow?, asInt?, h]

theorem lt_of_asNatBelow? {bound n : Nat} {d : Document} (h : d.asNatBelow? bound = some n) :
    n < bound := by
  unfold asNatBelow? at h
  split at h
  · split at h
    · cases h
      omega
    · cases h
  · cases h

theorem readAll?_map {values : List α} (h : ∀ v ∈ values, read (ofJson (write v)) = some v) :
    readAll? read (ofItems (values.map write)) = some values := by
  induction values with
  | nil => rfl
  | cons v rest ih =>
    rw [List.map_cons, ofItems, readAll?, h v (List.mem_cons_self ..),
      ih fun w hw => h w (List.mem_cons_of_mem _ hw)]

/-- A list reads back if its items do. -/
theorem asListOf?_arr {values : List α} (h : ∀ v ∈ values, read (ofJson (write v)) = some v) :
    (ofJson (.arr (values.map write))).asListOf? read = some values := by
  rw [ofJson, asListOf?, asList?, Option.bind_some, readAll?_map h]

theorem readEntries?_map {entries : Dict α}
    (h : ∀ e ∈ entries, read (ofJson (write e.2)) = some e.2) :
    readEntries? read (ofFields (entries.map fun e => (e.1, write e.2))) = some entries := by
  induction entries with
  | nil => rfl
  | cons e rest ih =>
    rw [List.map_cons, ofFields, readEntries?, asText?, h e (List.mem_cons_self ..),
      ih fun f hf => h f (List.mem_cons_of_mem _ hf)]

/-- A dictionary reads back if its values do. -/
theorem asDictOf?_obj {entries : Dict α} (hKeys : (Dict.keys entries).Nodup)
    (h : ∀ e ∈ entries, read (ofJson (write e.2)) = some e.2) :
    (ofJson (.obj (entries.map fun e => (e.1, write e.2)))).asDictOf? read = some entries := by
  rw [ofJson, asDictOf?, asDict?, Option.bind_some, readEntries?_map h, Option.map_some,
    Dict.ofEntries_eq_self hKeys]

/-- A dictionary of values reads back. -/
theorem asDictOf?_toJson? {good : Json.Num → Prop} {d : Dict Json} (h : Dict.Proper good d) :
    (ofJson (.obj d)).asDictOf? toJson? = some d := by
  have hRead := @asDictOf?_obj Json toJson? id d h.keys fun e he => toJson?_ofJson (h.values e he)
  simpa using hRead

/-- What a list is read as satisfies what every item is read as. -/
theorem forall_of_readAll? {p : α → Prop} {docs : List Document} {values : List α}
    (h : readAll? read docs = some values) (hRead : ∀ d ∈ docs, ∀ v, read d = some v → p v) :
    ∀ v ∈ values, p v := by
  induction docs generalizing values with
  | nil =>
    cases h
    exact nofun
  | cons d rest ih =>
    unfold readAll? at h
    split at h
    · rename_i v vs hv hvs
      cases h
      exact List.forall_mem_cons.mpr ⟨hRead d (List.mem_cons_self ..) v hv,
        ih hvs fun d hd => hRead d (List.mem_cons_of_mem _ hd)⟩
    · cases h

theorem forall_of_asListOf? {p : α → Prop} {good : Json.Num → Prop} {v : Json}
    (hv : v.Proper good) {values : List α} (h : (ofJson v).asListOf? read = some values)
    (hRead : ∀ u : Json, u.Proper good → ∀ w, read (ofJson u) = some w → p w) :
    ∀ w ∈ values, p w := by
  cases hv with
  | arr hItems =>
    rw [ofJson, asListOf?, asList?, Option.bind_some, ofItems_eq] at h
    refine forall_of_readAll? h fun d hd w hw => ?_
    obtain ⟨u, hu, rfl⟩ := List.mem_map.mp hd
    exact hRead u (hItems u hu) w hw
  | null | bool | num | str | obj => cases h

theorem keys_nodup_of_asDictOf? {d : Document} {entries : Dict α}
    (h : d.asDictOf? read = some entries) : (Dict.keys entries).Nodup := by
  obtain ⟨all, -, rfl⟩ := Option.map_eq_some_iff.mp h
  exact Dict.nodup_keys_ofEntries all

/-- A dictionary of values is read from the object of that dictionary. -/
theorem proper_of_asDictOf? {good : Json.Num → Prop} {v : Json} (hv : v.Proper good)
    {d : Dict Json} (h : (ofJson v).asDictOf? toJson? = some d) : Dict.Proper good d := by
  cases hv with
  | obj hKeys hFields =>
    rw [asDictOf?_toJson? ⟨hKeys, hFields⟩] at h
    cases h
    exact ⟨hKeys, hFields⟩
  | null | bool | num | str | arr => cases h

end Typed

/-! ## Fields -/

/-- A part that is read goes on to the parts behind it. -/
theorem bind_some_of_eq {α β : Type} {part : Option α} {a : α} {more : α → Option β} {b : Option β}
    (h : part = some a) (hMore : more a = b) : part.bind more = b := by
  rw [h, Option.bind_some, hMore]

section Fields

variable {α : Type} {read : Document → Option α} {write : α → Json}

@[simp] theorem required?_some (d : Document) : required? (some d) read = read d := rfl

@[simp] theorem defaulted?_some (d : Document) (value : α) :
    defaulted? (some d) value read = read d := rfl

/-- A value that is written reads back as an optional part, unless it is null. -/
theorem optional?_map {o : Option α} (hNull : ∀ v ∈ o, write v ≠ .null)
    (h : ∀ v ∈ o, read (ofJson (write v)) = some v) :
    optional? ((o.map write).map ofJson) read = some o := by
  cases o with
  | none => rfl
  | some v =>
    have hSome : (ofJson (write v)).isNull = false := by
      rw [← Bool.not_eq_true, isNull_ofJson]
      exact hNull v rfl
    rw [Option.map_some, Option.map_some, optional?]
    simp only [hSome, h v rfl, Option.map_some, Bool.false_eq_true, if_false]

/-- What an optional part is read as satisfies what a part other than null is read as. -/
theorem forall_of_optional? {p : α → Prop} {field : Option Document} {o : Option α}
    (h : optional? field read = some o)
    (hRead : ∀ d ∈ field, d.isNull = false → ∀ v, read d = some v → p v) : ∀ v ∈ o, p v := by
  unfold optional? at h
  split at h
  · cases h
    exact nofun
  · rename_i d
    split at h
    · cases h
      exact nofun
    · rename_i hSome
      obtain ⟨w, hw, rfl⟩ := Option.map_eq_some_iff.mp h
      intro v hv
      cases hv
      exact hRead d rfl (Bool.not_eq_true _ ▸ hSome) _ hw

theorem of_defaulted? {p : α → Prop} {field : Option Document} {value v : α}
    (h : defaulted? field value read = some v) (hValue : p value)
    (hRead : ∀ d ∈ field, ∀ v, read d = some v → p v) : p v := by
  unfold defaulted? at h
  split at h
  · cases h
    exact hValue
  · exact hRead _ rfl _ h

theorem of_required? {p : α → Prop} {field : Option Document} {v : α}
    (h : required? field read = some v) (hRead : ∀ d ∈ field, ∀ v, read d = some v → p v) : p v := by
  obtain ⟨d, rfl, hd⟩ := Option.bind_eq_some_iff.mp h
  exact hRead d rfl v hd

end Fields

/-! ## Records -/

/-- The entries of a record: each value under the first name of its field, unless it is missing. -/
def recordEntries : List (List String) → List (Option Json) → List (String × Json)
  | (key :: _) :: names, value :: values =>
    (value.map (key, ·)).toList ++ recordEntries names values
  | _, _ => []

/-- Names of fields that can be told apart: each field has a name, and no two share one. -/
def Apart (names : List (List String)) : Prop :=
  names.Pairwise fun a b => ∀ key ∈ a, key ∉ b

instance (names : List (List String)) : Decidable (Apart names) :=
  inferInstanceAs (Decidable (List.Pairwise _ _))

/-- A field that has none of its names among those in front finds its place behind them. -/
theorem placeField?_append {key : String} {before more : List (List String)} {names : List String}
    {places rest : List (Option Document)} (d : Document) (hLength : places.length = before.length)
    (hBefore : ∀ other ∈ before, key ∉ other) (hKey : key ∈ names) :
    placeField? key d (before ++ names :: more) (places ++ none :: rest) =
      some (places ++ some d :: rest) := by
  induction before generalizing places with
  | nil =>
    obtain rfl := List.length_eq_zero_iff.mp hLength
    simp [placeField?, hKey]
  | cons other before ih =>
    obtain ⟨place, places, rfl⟩ := List.exists_cons_of_length_eq_add_one hLength
    obtain ⟨hOther, hBefore⟩ := List.forall_mem_cons.mp hBefore
    have hSkip : other.contains key = false := by simpa using hOther
    simp only [List.cons_append, placeField?, hSkip, Bool.false_eq_true, if_false,
      ih (by simpa using hLength) hBefore, Option.map_some]

theorem placeEntries?_record {before names : List (List String)} {places : List (Option Document)}
    {values : List (Option Json)} (hNonempty : ∀ n ∈ names, n ≠ []) (hApart : Apart (before ++ names))
    (hPlaces : places.length = before.length) (hValues : values.length = names.length) :
    placeEntries? (before ++ names) (ofFields (recordEntries names values))
        (places ++ List.replicate names.length none) =
      some (places ++ values.map (·.map ofJson)) := by
  induction names generalizing before places values with
  | nil =>
    obtain rfl := List.length_eq_zero_iff.mp hValues
    rfl
  | cons first names ih =>
    obtain ⟨value, values, rfl⟩ := List.exists_cons_of_length_eq_add_one hValues
    obtain ⟨hFirst, hMore⟩ := List.forall_mem_cons.mp hNonempty
    obtain ⟨key, others, rfl⟩ := List.exists_cons_of_ne_nil hFirst
    have hStep := @ih (before ++ [key :: others]) (places ++ [value.map ofJson]) values hMore
      (by simpa using hApart) (by simpa using hPlaces) (by simpa using hValues)
    rw [List.append_assoc, List.append_assoc, List.append_assoc, List.singleton_append,
      List.singleton_append, List.singleton_append] at hStep
    rw [List.length_cons, List.replicate_succ, List.map_cons, ← hStep]
    cases value with
    | none => rfl
    | some v =>
      have hBefore : ∀ other ∈ before, key ∉ other := fun other hMem hIn =>
        (List.pairwise_append.mp hApart).2.2 other hMem _ (List.mem_cons_self ..) key hIn
          (List.mem_cons_self ..)
      rw [recordEntries, Option.map_some, Option.toList_some, List.singleton_append, ofFields,
        placeEntries?]
      simp only [asText?, placeField?_append _ hPlaces hBefore (List.mem_cons_self ..),
        Option.bind_some, Option.map_some]

/-- The fields of a record are found in their places. -/
theorem fields?_record {names : List (List String)} {values : List (Option Json)} (positional : Bool)
    (hNonempty : ∀ n ∈ names, n ≠ []) (hApart : Apart names)
    (hValues : values.length = names.length) :
    (ofJson (.obj (recordEntries names values))).fields? positional names =
      some (values.map (·.map ofJson)) :=
  @placeEntries?_record [] names [] values hNonempty hApart rfl hValues

/-! ## Fields of the documents of values -/

/-- A place with the document of a proper value, or with nothing. -/
def Filled (good : Json.Num → Prop) (place : Option Document) : Prop :=
  ∀ d ∈ place, ∃ v : Json, v.Proper good ∧ d = ofJson v

theorem filled_none (good : Json.Num → Prop) : Filled good none := nofun

theorem Filled.of_placeField? {good : Json.Num → Prop} {key : String} {d : Document}
    {names : List (List String)} {places rest : List (Option Document)} (hd : Filled good (some d))
    (h : placeField? key d names places = some rest) (hPlaces : ∀ p ∈ places, Filled good p) :
    ∀ p ∈ rest, Filled good p := by
  induction names generalizing places rest with
  | nil =>
    cases h
    exact hPlaces
  | cons first names ih =>
    cases places with
    | nil =>
      cases h
      exact nofun
    | cons old places =>
      obtain ⟨hOld, hMore⟩ := List.forall_mem_cons.mp hPlaces
      simp only [placeField?] at h
      split at h
      · split at h
        · cases h
          exact List.forall_mem_cons.mpr ⟨hd, hMore⟩
        · cases h
      · obtain ⟨rest, hRest, rfl⟩ := Option.map_eq_some_iff.mp h
        exact List.forall_mem_cons.mpr ⟨hOld, ih hRest hMore⟩

theorem Filled.of_placeEntries? {good : Json.Num → Prop} {names : List (List String)}
    {fields : List (String × Json)} {places rest : List (Option Document)}
    (hFields : ∀ e ∈ fields, e.2.Proper good)
    (h : placeEntries? names (ofFields fields) places = some rest)
    (hPlaces : ∀ p ∈ places, Filled good p) : ∀ p ∈ rest, Filled good p := by
  induction fields generalizing places with
  | nil =>
    cases h
    exact hPlaces
  | cons e fields ih =>
    obtain ⟨he, hFields⟩ := List.forall_mem_cons.mp hFields
    rw [ofFields, placeEntries?, asText?] at h
    obtain ⟨next, hNext, hRest⟩ := Option.bind_eq_some_iff.mp h
    refine ih hFields hRest (Filled.of_placeField? ?_ hNext hPlaces)
    exact fun d hd => ⟨e.2, he, (Option.some.inj hd).symm⟩

/-- The fields of the document of a value are documents of values. -/
theorem filled_of_fields? {good : Json.Num → Prop} {v : Json} (hv : v.Proper good)
    {positional : Bool} {names : List (List String)} {places : List (Option Document)}
    (h : (ofJson v).fields? positional names = some places) : ∀ p ∈ places, Filled good p := by
  cases hv with
  | arr hItems =>
    rw [ofJson, fields?] at h
    split at h
    · cases h
      intro p hp
      rcases List.mem_append.mp hp with hp | hp
      · obtain ⟨d, hd, rfl⟩ := List.mem_map.mp hp
        rw [ofItems_eq] at hd
        obtain ⟨u, hu, rfl⟩ := List.mem_map.mp hd
        exact fun d hd => ⟨u, hItems u hu, (Option.some.inj hd).symm⟩
      · rw [List.eq_of_mem_replicate hp]
        exact filled_none good
    · cases h
  | obj hKeys hFields =>
    refine Filled.of_placeEntries? hFields h fun p hp => ?_
    rw [List.eq_of_mem_replicate hp]
    exact filled_none good
  | null | bool | num | str => cases h

end Document

end Workflow
