/-
Workflow.Json.Dict — dictionaries that remember the order of insertion.

A dictionary is a list of entries. A key that is set again keeps its place;
a key that is removed leaves its place to the last entry. Both rules show
in every text that is written from a dictionary.

* `Dict.find?`, `Dict.insert`, `Dict.remove` — look up, set and remove.
* `Dict.ofEntries` — the dictionary of a list in which keys may repeat.
* `Dict.find?_insert`, `Dict.find?_remove` — what a key holds afterwards.
-/

namespace Workflow

/-- Entries in order of first insertion. -/
abbrev Dict (α : Type) := List (String × α)

namespace Dict

variable {α : Type}

/-- The value of a key. -/
def find? : Dict α → String → Option α
  | [], _ => none
  | (k, v) :: rest, key => if k = key then some v else find? rest key

/-- Whether a key is present. -/
def contains (d : Dict α) (key : String) : Bool := d.any fun (k, _) => k == key

/-- Set a key: in place when it is present, at the end otherwise. -/
def insert : Dict α → String → α → Dict α
  | [], key, value => [(key, value)]
  | (k, v) :: rest, key, value =>
    if k = key then (k, value) :: rest else (k, v) :: insert rest key value

/-- Put `entry` in the place of the entry of `key`. -/
def replaceEntry : Dict α → String → String × α → Dict α
  | [], _, _ => []
  | (k, v) :: rest, key, entry =>
    if k = key then entry :: rest else (k, v) :: replaceEntry rest key entry

/-- Remove a key; the last entry takes its place. -/
def remove (d : Dict α) (key : String) : Dict α :=
  match d.getLast? with
  | none => []
  | some last =>
    if contains d key then
      if last.1 = key then d.dropLast else replaceEntry d.dropLast key last
    else d

/-- The keys in order. -/
def keys (d : Dict α) : List String := d.map (·.1)

/-- The dictionary of a list of entries: a repeated key keeps its first place and its last
value. -/
def ofEntries (entries : List (String × α)) : Dict α :=
  entries.foldl (fun d (k, v) => insert d k v) []

/-- Set every key of the second dictionary in the first, in order. -/
def insertAll (d other : Dict α) : Dict α :=
  other.foldl (fun d (k, v) => insert d k v) d

/-! ## What a key holds after an operation -/

@[simp] theorem find?_nil (key : String) : find? ([] : Dict α) key = none := rfl

theorem find?_insert (d : Dict α) (key : String) (value : α) (k : String) :
    find? (insert d key value) k = if key = k then some value else find? d k := by
  induction d with
  | nil => simp [insert, find?]
  | cons e rest ih =>
    obtain ⟨k', v'⟩ := e
    by_cases h : k' = key
    · subst h
      by_cases hk : k' = k <;> simp [insert, find?, hk]
    · by_cases hk : key = k
      · subst hk
        simp [insert, find?, h, ih]
      · rw [insert, if_neg h]
        by_cases hk' : k' = k <;> simp [find?, hk, hk', ih]

/-- A key is present exactly when it has a value. -/
theorem contains_eq_isSome_find? (d : Dict α) (key : String) :
    contains d key = (find? d key).isSome := by
  induction d with
  | nil => rfl
  | cons e rest ih =>
    obtain ⟨k, v⟩ := e
    rw [contains] at ih ⊢
    by_cases h : k = key
    · simp [find?, h]
    · simp [find?, h, ih]

/-! ## Keys that do not repeat -/

@[simp] theorem keys_nil : keys ([] : Dict α) = [] := rfl

@[simp] theorem keys_cons (e : String × α) (rest : Dict α) :
    keys (e :: rest) = e.1 :: keys rest := rfl

theorem contains_iff_mem_keys {d : Dict α} {key : String} :
    contains d key = true ↔ key ∈ keys d := by
  induction d with
  | nil => simp [contains]
  | cons e rest ih =>
    rw [contains, List.any_cons, Bool.or_eq_true, ← contains, ih, keys_cons, List.mem_cons]
    exact or_congr (beq_iff_eq.trans eq_comm) .rfl

theorem keys_insert (d : Dict α) (key : String) (value : α) :
    keys (insert d key value) = if key ∈ keys d then keys d else keys d ++ [key] := by
  induction d with
  | nil => simp [insert, keys]
  | cons e rest ih =>
    obtain ⟨k, v⟩ := e
    by_cases h : k = key
    · simp [insert, h]
    · rw [insert, if_neg h, keys_cons, keys_cons, ih]
      by_cases hIn : key ∈ keys rest <;> simp [hIn, Ne.symm h]

theorem nodup_keys_insert {d : Dict α} (h : (keys d).Nodup) (key : String) (value : α) :
    (keys (insert d key value)).Nodup := by
  rw [keys_insert]
  split
  · exact h
  · rename_i hNew
    rw [List.nodup_append]
    simpa using ⟨h, fun k hk hSame => hNew (hSame ▸ hk)⟩

theorem nodup_keys_ofEntries (entries : List (String × α)) : (keys (ofEntries entries)).Nodup := by
  have hAll : ∀ d : Dict α, (keys d).Nodup →
      (keys (entries.foldl (fun d (k, v) => insert d k v) d)).Nodup := by
    induction entries with
    | nil => exact fun d hd => hd
    | cons e rest ih => exact fun d hd => ih _ (nodup_keys_insert hd e.1 e.2)
  exact hAll [] List.nodup_nil

theorem mem_of_find?_eq_some {d : Dict α} {key : String} {value : α}
    (h : find? d key = some value) : (key, value) ∈ d := by
  induction d with
  | nil => cases h
  | cons e rest ih =>
    obtain ⟨k, v⟩ := e
    rw [find?] at h
    split at h
    · rename_i hSame
      obtain rfl := Option.some.inj h
      simp [hSame]
    · exact List.mem_cons_of_mem _ (ih h)

/-- A key that has no two values holds the value of its entry. -/
theorem find?_eq_some_iff {d : Dict α} {key : String}
    (hUnique : ∀ v w, (key, v) ∈ d → (key, w) ∈ d → v = w) {value : α} :
    find? d key = some value ↔ (key, value) ∈ d := by
  refine ⟨mem_of_find?_eq_some, fun hMem => ?_⟩
  have hIn : key ∈ keys d := List.mem_map.mpr ⟨_, hMem, rfl⟩
  rw [← contains_iff_mem_keys, contains_eq_isSome_find?] at hIn
  obtain ⟨w, hFind⟩ := Option.isSome_iff_exists.mp hIn
  rw [hFind, hUnique w value (mem_of_find?_eq_some hFind) hMem]

theorem unique_of_nodup_keys {d : Dict α} (h : (keys d).Nodup) {key : String} (v w : α)
    (hv : (key, v) ∈ d) (hw : (key, w) ∈ d) : v = w := by
  induction d with
  | nil => cases hv
  | cons e rest ih =>
    obtain ⟨hNew, hRest⟩ := List.nodup_cons.mp h
    have hOther : ∀ u, (key, u) ∈ rest → e.1 ≠ key := fun u hu hSame =>
      hNew (List.mem_map.mpr ⟨_, hu, hSame.symm⟩)
    rcases List.mem_cons.mp hv with rfl | hv' <;> rcases List.mem_cons.mp hw with hw' | hw'
    · exact (congrArg Prod.snd hw').symm
    · exact absurd rfl (hOther w hw')
    · exact absurd (congrArg Prod.fst hw').symm (hOther v hv')
    · exact ih hRest hv' hw'

theorem filter_of_not_mem_keys {d : Dict α} {key : String} (h : key ∉ keys d) :
    d.filter (fun e => e.1 ≠ key) = d := by
  refine List.filter_eq_self.mpr fun e he => decide_eq_true fun hSame => h ?_
  exact List.mem_map.mpr ⟨e, he, hSame⟩

theorem replaceEntry_perm {d : Dict α} (h : (keys d).Nodup) {key : String} (hIn : key ∈ keys d)
    (entry : String × α) :
    (replaceEntry d key entry).Perm (entry :: d.filter fun e => e.1 ≠ key) := by
  induction d with
  | nil => cases hIn
  | cons e rest ih =>
    obtain ⟨k, v⟩ := e
    obtain ⟨hNew, hRest⟩ := List.nodup_cons.mp h
    rw [replaceEntry]
    split
    · rename_i hSame
      subst hSame
      rw [List.filter_cons_of_neg (by simp), filter_of_not_mem_keys hNew]
    · rename_i hOther
      have hLater : key ∈ keys rest := (List.mem_cons.mp hIn).resolve_left (Ne.symm hOther)
      rw [List.filter_cons_of_pos (by simpa using hOther)]
      exact ((ih hRest hLater).cons _).trans (.swap _ _ _)

/-- A dictionary without a key has its other entries, in some order. -/
theorem remove_perm {d : Dict α} (h : (keys d).Nodup) (key : String) :
    (remove d key).Perm (d.filter fun e => e.1 ≠ key) := by
  rcases List.eq_nil_or_concat d with rfl | ⟨front, last, rfl⟩
  · exact .refl _
  · rw [List.concat_eq_append] at h ⊢
    have hFront : (keys front).Nodup :=
      ((List.sublist_append_left front [last]).map Prod.fst).nodup h
    have hApart : last.1 ∉ keys front := by
      intro hIn
      rw [keys, List.map_append, List.nodup_append] at h
      exact h.2.2 last.1 hIn last.1 (by simp) rfl
    unfold remove
    rw [List.getLast?_concat, List.dropLast_concat]
    dsimp only
    split
    · rename_i hIn
      split
      · rename_i hLast
        subst hLast
        rw [List.filter_append, filter_of_not_mem_keys hApart, List.filter_cons_of_neg (by simp)]
        simp
      · rename_i hOther
        have hEarlier : key ∈ keys front := by
          have hKeys := contains_iff_mem_keys.mp hIn
          rw [keys, List.map_append, List.mem_append] at hKeys
          exact hKeys.resolve_right (by simpa using Ne.symm hOther)
        refine (replaceEntry_perm hFront hEarlier last).trans ?_
        rw [List.filter_append, List.filter_cons_of_pos (by simpa using hOther)]
        exact (List.perm_append_singleton _ _).symm
    · rename_i hOut
      rw [filter_of_not_mem_keys fun hIn => hOut (contains_iff_mem_keys.mpr hIn)]

theorem nodup_keys_remove {d : Dict α} (h : (keys d).Nodup) (key : String) :
    (keys (remove d key)).Nodup := by
  refine ((remove_perm h key).map Prod.fst).nodup_iff.mpr ?_
  exact ((List.filter_sublist).map Prod.fst).nodup h

theorem find?_remove {d : Dict α} (h : (keys d).Nodup) (key k : String) :
    find? (remove d key) k = if key = k then none else find? d k := by
  refine Option.ext fun value => ?_
  rw [find?_eq_some_iff (unique_of_nodup_keys (nodup_keys_remove h key)),
    (remove_perm h key).mem_iff, List.mem_filter]
  split
  · rename_i hSame
    simp [hSame]
  · rename_i hOther
    rw [find?_eq_some_iff (unique_of_nodup_keys h)]
    simp [Ne.symm hOther]

end Dict

end Workflow
