/-
Workflow.Proofs.Files.Tree — paths into a tree of files.

To make a directory is to walk along its path and to put a directory
wherever none is. Every place that the walk comes through is a directory
afterwards, and so is every place above it. Hence the path names the same
place from then on, whatever files are written, and a name in the directory
names a place right below.

* `FileTree.Anchored` — a directory, as are all places above it.
* `FileTree.Makes`, `exists_makes` — the place that a new directory has.
* `FileTree.Houses`, `houses_of_makeDirectory` — a path that names a
  directory.
* `FileTree.locate_join` — a name in a directory.
-/
import Workflow.Proofs.Files.Path

namespace Workflow.FileTree

/-! ## Places -/

/-- A name that leads from a directory to something in it. -/
structure IsName (name : String) : Prop where
  noSlash : '/' ∉ name.toList
  noNul : '\x00' ∉ name.toList
  nonempty : name ≠ ""
  notHere : name ≠ "."
  notAbove : name ≠ ".."
  short : name.utf8ByteSize ≤ nameLimit

/-- What is below a place is not always there. -/
theorem isFixed_append {place : List String} {name : String} (hSlash : '/' ∉ name.toList)
    (hAbove : name ≠ "..") : isFixed (place ++ [name]) = false := by
  have hRoot : place ++ [name] ≠ ["/"] := by
    intro hSame
    have hRoot : place ++ [name] = [] ++ ["/"] := hSame
    have hLast : [name] = ["/"] := (List.append_inj' hRoot rfl).2
    rw [(List.cons.inj hLast).1] at hSlash
    exact hSlash (by decide)
  simp [isFixed, hAbove, hRoot]

theorem above_append {place : List String} {name : String} (hSlash : '/' ∉ name.toList)
    (hAbove : name ≠ "..") : above (place ++ [name]) = place := by
  have hFixed := @isFixed_append place name hSlash hAbove
  rw [isFixed, Bool.or_eq_false_iff] at hFixed
  rw [above, if_neg (by simpa using hFixed.2), if_neg (by simpa using hFixed.1),
    List.dropLast_concat]

theorem isFixed_above {place : List String} (h : isFixed place = true) :
    isFixed (above place) = true := by
  rw [isFixed, Bool.or_eq_true] at h
  rw [above]
  split
  · rename_i hRoot
    rw [hRoot]
    decide
  · rename_i hOther
    have hAll : (place.all (· == "..")) = true := h.resolve_right (by simpa using hOther)
    rw [if_pos hAll, isFixed, List.all_append, hAll]
    rfl

/-- A directory in a tree, as are all places above it. -/
inductive Anchored (t : FileTree) : List String → Prop
  | fixed {place : List String} (h : isFixed place = true) : Anchored t place
  | inside {place : List String} {name : String} (h : Anchored t place)
      (hSlash : '/' ∉ name.toList) (hAbove : name ≠ "..")
      (hDirectory : t.entry? (place ++ [name]) = some .directory) : Anchored t (place ++ [name])

/-- All directories of one tree are directories of another. -/
def Keeps (t t' : FileTree) : Prop :=
  ∀ place, t.entry? place = some .directory → t'.entry? place = some .directory

namespace Anchored

variable {t t' : FileTree} {place : List String}

theorem directory (h : Anchored t place) : t.entry? place = some .directory := by
  cases h with
  | fixed hFixed => exact if_pos hFixed
  | inside _ _ _ hDirectory => exact hDirectory

theorem directoryFault? (h : Anchored t place) : t.directoryFault? place = none := by
  rw [FileTree.directoryFault?, h.directory]

theorem above (h : Anchored t place) : Anchored t (FileTree.above place) := by
  cases h with
  | fixed hFixed => exact .fixed (isFixed_above hFixed)
  | inside hPlace hSlash hAbove =>
    rw [above_append hSlash hAbove]
    exact hPlace

theorem keeps (h : Anchored t place) (hKeeps : Keeps t t') : Anchored t' place := by
  induction h with
  | fixed hFixed => exact .fixed hFixed
  | inside _ hSlash hAbove hDirectory ih =>
    exact .inside ih hSlash hAbove (hKeeps _ hDirectory)

end Anchored

/-! ## Walks -/

theorem walk_cons (t : FileTree) (place : List String) (name : String) (rest : List String) :
    t.walk place (name :: rest) =
      match t.directoryFault? place with
      | some fault => .error fault
      | none =>
        if name = "" ∨ name = "." then t.walk place rest
        else if name = ".." then t.walk (above place) rest
        else if name.utf8ByteSize > nameLimit then .error .nameTooLong
        else t.walk (place ++ [name]) rest :=
  rfl

theorem walk_append (t : FileTree) (place : List String) (names more : List String) :
    t.walk place (names ++ more) = (t.walk place names).bind fun q => t.walk q more := by
  induction names generalizing place with
  | nil => rfl
  | cons name rest ih =>
    rw [List.cons_append, walk_cons, walk_cons]
    cases t.directoryFault? place with
    | some fault => rfl
    | none =>
      dsimp only
      split
      · exact ih place
      · split
        · exact ih (above place)
        · split
          · rfl
          · exact ih (place ++ [name])

section Step

variable {t : FileTree} {place rest : List String} {name : String}

theorem walk_here (hFault : t.directoryFault? place = none) (h : name = "" ∨ name = ".") :
    t.walk place (name :: rest) = t.walk place rest := by
  rw [walk_cons, hFault]
  exact if_pos h

theorem walk_above (hFault : t.directoryFault? place = none) (hHere : ¬ (name = "" ∨ name = "."))
    (h : name = "..") : t.walk place (name :: rest) = t.walk (above place) rest := by
  rw [walk_cons, hFault]
  dsimp only
  rw [if_neg hHere, if_pos h]

theorem walk_inside (hFault : t.directoryFault? place = none) (hHere : ¬ (name = "" ∨ name = "."))
    (hAbove : name ≠ "..") (hShort : ¬ name.utf8ByteSize > nameLimit) :
    t.walk place (name :: rest) = t.walk (place ++ [name]) rest := by
  rw [walk_cons, hFault]
  dsimp only
  rw [if_neg hHere, if_neg hAbove, if_neg hShort]

/-- A name leads right below a directory. -/
theorem walk_name (h : IsName name) (hDirectory : t.entry? place = some .directory) :
    t.walk place [name] = .ok (place ++ [name]) := by
  have hFault : t.directoryFault? place = none := by rw [directoryFault?, hDirectory]
  rw [walk_inside hFault (not_or.mpr ⟨h.nonempty, h.notHere⟩) h.notAbove (Nat.not_lt.mpr h.short)]
  rfl

theorem walk_of_fault {fault : FileFault} (h : t.directoryFault? place = some fault) :
    t.walk place (name :: rest) = .error fault := by
  rw [walk_cons, h]

/-- Nothing can be walked to where nothing is. -/
theorem walk_of_none (h : t.entry? place = none) :
    t.walk place (name :: rest) = .error .notFound :=
  walk_of_fault (by rw [directoryFault?, h])

theorem makeAll_cons : t.makeAll place (name :: rest) =
    if name = "" ∨ name = "." then t.makeAll place rest
    else if name = ".." then t.makeAll (above place) rest
    else if name.utf8ByteSize > nameLimit then .error .nameTooLong
    else
      match t.entry? (place ++ [name]) with
      | some .directory => t.makeAll (place ++ [name]) rest
      | some (.file _) => .error (if rest.isEmpty then .alreadyExists else .notADirectory)
      | none => (t.put (place ++ [name]) .directory).makeAll (place ++ [name]) rest :=
  rfl

theorem makeAll_here (h : name = "" ∨ name = ".") :
    t.makeAll place (name :: rest) = t.makeAll place rest := by
  rw [makeAll_cons, if_pos h]

theorem makeAll_above (hHere : ¬ (name = "" ∨ name = ".")) (h : name = "..") :
    t.makeAll place (name :: rest) = t.makeAll (above place) rest := by
  rw [makeAll_cons, if_neg hHere, if_pos h]

theorem makeAll_next (hHere : ¬ (name = "" ∨ name = ".")) (hAbove : name ≠ "..")
    (hShort : ¬ name.utf8ByteSize > nameLimit) :
    t.makeAll place (name :: rest) =
      match t.entry? (place ++ [name]) with
      | some .directory => t.makeAll (place ++ [name]) rest
      | some (.file _) => .error (if rest.isEmpty then .alreadyExists else .notADirectory)
      | none => (t.put (place ++ [name]) .directory).makeAll (place ++ [name]) rest := by
  rw [makeAll_cons, if_neg hHere, if_neg hAbove, if_neg hShort]

theorem makeAll_inside (hHere : ¬ (name = "" ∨ name = ".")) (hAbove : name ≠ "..")
    (hShort : ¬ name.utf8ByteSize > nameLimit)
    (hDirectory : t.entry? (place ++ [name]) = some .directory) :
    t.makeAll place (name :: rest) = t.makeAll (place ++ [name]) rest := by
  rw [makeAll_next hHere hAbove hShort, hDirectory]

end Step

/-! ## Entries -/

theorem entry?_append_of_some {entries new : List (List String × Entry)} {place : List String}
    {e : Entry} (h : entry? ⟨entries⟩ place = some e) :
    entry? ⟨entries ++ new⟩ place = some e := by
  unfold entry? at h ⊢
  split
  · rename_i hFixed
    rwa [if_pos hFixed] at h
  · rename_i hOther
    rw [if_neg hOther] at h
    obtain ⟨found, hFound, rfl⟩ := Option.map_eq_some_iff.mp h
    rw [List.find?_append, hFound]
    rfl

theorem Keeps.of_append {t t' : FileTree} {new : List (List String × Entry)}
    (h : t'.entries = t.entries ++ new) : Keeps t t' := by
  intro place hDirectory
  have hSame : t' = ⟨t.entries ++ new⟩ := congrArg FileTree.mk h
  exact hSame ▸ entry?_append_of_some hDirectory

theorem Keeps.trans {t t' t'' : FileTree} (h : Keeps t t') (h' : Keeps t' t'') : Keeps t t'' :=
  fun place hDirectory => h' place (h place hDirectory)

/-- Something put where nothing was comes last. -/
theorem put_of_none {t : FileTree} {place : List String} (h : t.entry? place = none) (e : Entry) :
    t.put place e = ⟨t.entries ++ [(place, e)]⟩ := by
  refine if_neg fun hAny => ?_
  obtain ⟨found, hFound, hSame⟩ := List.any_eq_true.mp hAny
  unfold entry? at h
  split at h
  · cases h
  · have hNone := List.find?_eq_none.mp (Option.map_eq_none_iff.mp h) found hFound
    exact hNone hSame

theorem entry?_put_of_none {t : FileTree} {place : List String} (h : t.entry? place = none)
    (e : Entry) : entry? (t.put place e) place = some e := by
  have hOther : ¬ isFixed place = true := fun hFixed => by
    rw [ entry?, if_pos hFixed] at h
    cases h
  rw [ entry?, if_neg hOther] at h ⊢
  rw [put_of_none (by rw [ entry?, if_neg hOther, h]), List.find?_append,
    Option.map_eq_none_iff.mp h]
  simp

/-! ## New directories -/

/-- To make the directories along some names is to come to a place by them. All of what was there
stays there, only directories are new, and the names lead to that place in every tree that keeps
those directories. Before, they may have led nowhere. -/
structure Makes (t t' : FileTree) (place names q : List String) : Prop where
  anchored : Anchored t' q
  grown : ∃ new, t'.entries = t.entries ++ new
  later : ∀ t'', Keeps t' t'' → t''.walk place names = .ok q ∧ t''.makeAll place names = .ok t''
  before : t.walk place names = .ok q ∨ t.walk place names = .error .notFound

namespace Makes

variable {t t' : FileTree} {place next names rest q : List String} {name : String}

theorem keeps (h : Makes t t' place names q) : Keeps t t' := by
  obtain ⟨new, hNew⟩ := h.grown
  exact .of_append hNew

/-- Some names make what the names behind the first one make where it leads. -/
theorem step (h : Makes t t' next rest q) (hPlace : Anchored t place)
    (hWalk : ∀ s : FileTree, s.directoryFault? place = none →
      s.walk place (name :: rest) = s.walk next rest)
    (hMake : ∀ s, Keeps t' s → s.makeAll place (name :: rest) = s.makeAll next rest) :
    Makes t t' place (name :: rest) q where
  anchored := h.anchored
  grown := h.grown
  later s hKeeps := by
    rw [hWalk s (hPlace.keeps (h.keeps.trans hKeeps)).directoryFault?, hMake s hKeeps]
    exact h.later s hKeeps
  before := by
    rw [hWalk t hPlace.directoryFault?]
    exact h.before

/-- The first directory may be a new one. -/
theorem of_put (hNone : t.entry? place = none)
    (h : Makes (t.put place .directory) t' place names q) : Makes t t' place names q where
  anchored := h.anchored
  grown := by
    obtain ⟨new, hNew⟩ := h.grown
    refine ⟨(place, .directory) :: new, ?_⟩
    rw [hNew, put_of_none hNone, List.append_assoc, List.singleton_append]
  later := h.later
  before := by
    cases names with
    | nil => exact .inl (h.later t' fun _ hDirectory => hDirectory).1
    | cons name rest => exact .inr (walk_of_none hNone)

end Makes

theorem exists_makes {t t' : FileTree} {place names : List String} (hPlace : Anchored t place)
    (hNames : ∀ n ∈ names, '/' ∉ n.toList) (h : t.makeAll place names = .ok t') :
    ∃ q, Makes t t' place names q := by
  -- the induction is on the names; a directory made on the way stays, so it serves a later walk too
  induction names generalizing t place with
  | nil =>
    cases h
    exact ⟨place, hPlace, ⟨[], (List.append_nil _).symm⟩, fun _ _ => ⟨rfl, rfl⟩, .inl rfl⟩
  | cons name rest ih =>
    obtain ⟨hSlash, hRest⟩ := List.forall_mem_cons.mp hNames
    by_cases hHere : name = "" ∨ name = "."
    · rw [makeAll_here hHere] at h
      obtain ⟨q, hMakes⟩ := ih hPlace hRest h
      exact ⟨q, hMakes.step hPlace (fun _ hFault => walk_here hFault hHere)
        fun _ _ => makeAll_here hHere⟩
    by_cases hAbove : name = ".."
    · rw [makeAll_above hHere hAbove] at h
      obtain ⟨q, hMakes⟩ := ih hPlace.above hRest h
      exact ⟨q, hMakes.step hPlace (fun _ hFault => walk_above hFault hHere hAbove)
        fun _ _ => makeAll_above hHere hAbove⟩
    by_cases hShort : name.utf8ByteSize > nameLimit
    · rw [makeAll_cons, if_neg hHere, if_neg hAbove, if_pos hShort] at h
      cases h
    have hInside : ∀ {q}, Makes t t' (place ++ [name]) rest q →
        t'.entry? (place ++ [name]) = some .directory → Makes t t' place (name :: rest) q :=
      fun hMakes hThere => hMakes.step hPlace
        (fun _ hFault => walk_inside hFault hHere hAbove hShort)
        fun _ hKeeps => makeAll_inside hHere hAbove hShort (hKeeps _ hThere)
    cases hEntry : t.entry? (place ++ [name]) with
    | some e =>
      cases e with
      | directory =>
        rw [makeAll_inside hHere hAbove hShort hEntry] at h
        obtain ⟨q, hMakes⟩ := ih (.inside hPlace hSlash hAbove hEntry) hRest h
        exact ⟨q, hInside hMakes (hMakes.keeps _ hEntry)⟩
      | file text =>
        rw [makeAll_next hHere hAbove hShort, hEntry] at h
        cases h
    | none =>
      rw [makeAll_next hHere hAbove hShort, hEntry] at h
      have hThere := entry?_put_of_none hEntry .directory
      have hStays : Keeps t (t.put (place ++ [name]) .directory) :=
        .of_append (congrArg FileTree.entries (put_of_none hEntry .directory))
      obtain ⟨q, hMakes⟩ := ih (.inside (hPlace.keeps hStays) hSlash hAbove hThere) hRest h
      exact ⟨q, hInside (hMakes.of_put hEntry) (hMakes.keeps _ hThere)⟩

/-! ## Paths -/

theorem toList_contains_eq_false {path : String} {c : Char} (h : c ∉ path.toList) :
    path.toList.contains c = false := by
  simpa using h

/-- A path other than the empty one is walked along from the root or from the directory in which the
tree stands. -/
theorem locate_eq {t : FileTree} {path : String} (hPath : path ≠ "") (hNul : '\x00' ∉ path.toList) :
    t.locate path = t.walk (if path.startsWith "/" then ["/"] else []) (namesOf path) := by
  have hSome : path.isEmpty = false := by simpa using hPath
  rw [locate, hSome, toList_contains_eq_false hNul]
  simp only [Bool.false_eq_true, if_false]

/-- A name in a directory is looked for at the place of the directory. -/
theorem locate_join {t : FileTree} {directory name : String} (hDirectory : directory ≠ "")
    (hNul : '\x00' ∉ directory.toList) (hName : IsName name) :
    t.locate (Path.join directory name) = (t.locate directory).bind fun q => t.walk q [name] := by
  obtain ⟨front, hText, hFront⟩ := Path.toList_join hDirectory hName.noSlash
  obtain ⟨names, hJoined, hNames⟩ := namesOf_join hDirectory hName.noSlash
  have hPath : Path.join directory name ≠ "" := by
    intro hEmpty
    rw [hEmpty] at hText
    simp at hText
  have hFrontNul : '\x00' ∉ front := by
    rcases hFront with hSame | hSlash
    · exact hSame ▸ hNul
    · exact fun hMem => hNul (hSlash ▸ List.mem_append_left _ hMem)
  have hPathNul : '\x00' ∉ (Path.join directory name).toList := by
    rw [hText, List.mem_append, List.mem_cons]
    rintro (hMem | hSlash | hMem)
    · exact hFrontNul hMem
    · cases hSlash
    · exact hName.noNul hMem
  rw [locate_eq hPath hPathNul, locate_eq hDirectory hNul,
    startsWith_join hDirectory hName.noSlash, hJoined, walk_append]
  generalize (if directory.startsWith "/" then ["/"] else []) = start
  rcases hNames with hSame | hSlash
  · rw [hSame]
  · rw [hSlash, walk_append]
    cases t.walk start names with
    | error fault => rfl
    | ok q =>
      -- The empty name stays where it is, and fails as any other name does.
      change t.walk q [name] = (t.walk q [""]).bind fun q => t.walk q [name]
      cases hFault : t.directoryFault? q with
      | none =>
        rw [walk_here hFault (.inl rfl)]
        rfl
      | some fault =>
        rw [walk_of_fault hFault, walk_of_fault hFault]
        rfl

/-- A path that names a directory in a tree, and the same directory in every tree that keeps the
directories of that tree. -/
structure Houses (t : FileTree) (path : String) (q : List String) : Prop where
  nonempty : path ≠ ""
  noNul : '\x00' ∉ path.toList
  anchored : Anchored t q
  located : ∀ t', Keeps t t' → t'.locate path = .ok q
  made : ∀ t', Keeps t t' → t'.makeDirectory path = .ok t'

theorem Houses.keeps {t t' : FileTree} {path : String} {q : List String} (h : Houses t path q)
    (hKeeps : Keeps t t') : Houses t' path q where
  nonempty := h.nonempty
  noNul := h.noNul
  anchored := h.anchored.keeps hKeeps
  located t'' hLater := h.located t'' (hKeeps.trans hLater)
  made t'' hLater := h.made t'' (hKeeps.trans hLater)

theorem Houses.locate_join {t : FileTree} {path : String} {q : List String} (h : Houses t path q)
    {name : String} (hName : IsName name) :
    t.locate (Path.join path name) = .ok (q ++ [name]) := by
  rw [FileTree.locate_join h.nonempty h.noNul hName, h.located t fun _ h => h]
  exact walk_name hName h.anchored.directory

/-- A directory that has been made is there. It has added directories at most, and its path may
have led nowhere before. -/
theorem houses_of_makeDirectory {t t' : FileTree} {path : String} (hPath : path ≠ "")
    (h : t.makeDirectory path = .ok t') :
    ∃ q, Houses t' path q ∧ (∃ new, t'.entries = t.entries ++ new) ∧
      (t.locate path = .ok q ∨ t.locate path = .error .notFound) := by
  by_cases hNul : '\x00' ∈ path.toList
  · have hContains : path.toList.contains '\x00' = true := by simpa using hNul
    rw [makeDirectory, if_pos hContains] at h
    cases h
  have hMake : ∀ s : FileTree, s.makeDirectory path =
      s.makeAll (if path.startsWith "/" then ["/"] else []) (namesOf path) := by
    intro s
    rw [makeDirectory, toList_contains_eq_false hNul]
    simp only [Bool.false_eq_true, if_false]
  have hStart : Anchored t (if path.startsWith "/" then ["/"] else []) := by
    refine .fixed ?_
    split <;> decide
  rw [hMake] at h
  obtain ⟨q, hMakes⟩ := exists_makes hStart (fun n hn => not_mem_of_mem_namesOf hn) h
  refine ⟨q, ⟨hPath, hNul, hMakes.anchored, fun t'' hKeeps => ?_, fun t'' hKeeps => ?_⟩,
    hMakes.grown, ?_⟩
  · rw [locate_eq hPath hNul]
    exact (hMakes.later t'' hKeeps).1
  · rw [hMake]
    exact (hMakes.later t'' hKeeps).2
  · rw [locate_eq hPath hNul]
    exact hMakes.before

end Workflow.FileTree
