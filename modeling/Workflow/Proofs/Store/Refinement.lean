/-
Workflow.Proofs.Store.Refinement — a store in files and a store in memory.

Both kinds of store are asked the same things. A directory of snapshots has
one file for each run in memory, in the same order, and that file has the
text of the last snapshot. A snapshot that takes the place of another one is
written under a name of its own first; such a name ends otherwise than the
names of all files that stay, so it is gone again when the snapshot is in its
place.

* `StoreRequest`, `StoreAnswer` — what a store is asked, what it answers.
* `FileTree.filed` — the files of a store in memory.
* `FileStore.Mirrors` — a tree of files that shows a store in memory;
  `mirrors_initial`, `mirrors_filed`.
* `FileStore.answer_eq` — one request.
* `FileStore.answers_eq_iff` — the answers to any number of requests.
-/
import Workflow.Proofs.Files.Tree
import Workflow.Proofs.Run.Bookkeeping
import Workflow.Proofs.Store.Codec
import Workflow.Store.Files
import Workflow.Store.Memory

namespace Workflow

/-! ## Requests -/

/-- What a store can be asked. -/
inductive StoreRequest where
  | save (snapshot : Snapshot)
  | load (runId : String)
  | list

/-- What a store can answer. -/
inductive StoreAnswer where
  | saved
  | loaded (snapshot : Option Snapshot)
  | listed (runIds : List String)
deriving DecidableEq

/-- What a store in memory answers. -/
def MemoryStore.answer : StoreRequest → StateM MemoryStore StoreAnswer
  | .save snapshot => fun m => (.saved, m.save snapshot)
  | .load runId => fun m => (.loaded (m.load runId), m)
  | .list => fun m => (.listed m.list, m)

/-- What a store in files answers. -/
def FileStore.answer {m : Type → Type} [Monad m] [FileSystem m] (s : FileStore) :
    StoreRequest → m (Except StoreError StoreAnswer)
  | .save snapshot => do return (← s.save snapshot).map fun () => .saved
  | .load runId => do return (← s.load runId).map .loaded
  | .list => do return (← s.list).map .listed

/-- An answer in which outputs of null are forgotten. -/
def StoreAnswer.forgetNulls : StoreAnswer → StoreAnswer
  | .loaded snapshot => .loaded (snapshot.map Snapshot.forgetNulls)
  | a => a

/-- The id of a run that names a file: it has no slash and no null character in it, and the names
made from it are not too long. -/
structure FileStore.IsRunId (runId : String) : Prop where
  nonempty : runId ≠ ""
  noSlash : '/' ∉ runId.toList
  noNul : '\x00' ∉ runId.toList
  short : (runId ++ ".json.tmp").utf8ByteSize ≤ FileTree.nameLimit

/-- A request about a run whose id names a file; a snapshot that is saved can be written, and its
value reads back from its text. -/
def StoreRequest.Fits : StoreRequest → Prop
  | .save snapshot =>
    FileStore.IsRunId snapshot.runId ∧ snapshot.Sound ∧ snapshot.encode.ReadsBack
  | .load runId => FileStore.IsRunId runId
  | .list => True

/-! ## Names of files -/

namespace FileStore.IsRunId

variable {runId other : String}

theorem isName_append (h : IsRunId runId) {more : String} (hSlash : '/' ∉ more.toList)
    (hNul : '\x00' ∉ more.toList) (hLong : 2 ≤ more.toList.length)
    (hShort : (runId ++ more).utf8ByteSize ≤ FileTree.nameLimit) :
    FileTree.IsName (runId ++ more) := by
  have hText : (runId ++ more).toList = runId.toList ++ more.toList := String.toList_append
  have hLength : 3 ≤ (runId ++ more).toList.length := by
    have hSome := List.length_pos_iff.mpr (String.toList_eq_nil_iff.not.mpr h.nonempty)
    rw [hText, List.length_append]
    omega
  have hOther : ∀ name : String, name.toList.length < 3 → runId ++ more ≠ name := by
    rintro name hFew rfl
    omega
  refine ⟨?_, ?_, hOther "" (by decide), hOther "." (by decide), hOther ".." (by decide), hShort⟩
  · rw [hText]
    exact fun hMem => (List.mem_append.mp hMem).elim h.noSlash hSlash
  · rw [hText]
    exact fun hMem => (List.mem_append.mp hMem).elim h.noNul hNul

/-- The name of the file of a run. -/
theorem isName (h : IsRunId runId) : FileTree.IsName (runId ++ ".json") := by
  refine h.isName_append (by decide) (by decide) (by decide) (Nat.le_trans ?_ h.short)
  simp only [String.utf8ByteSize_append]
  exact Nat.add_le_add_left (by decide) _

/-- The name of the draft of a snapshot. -/
theorem isName_draft (h : IsRunId runId) : FileTree.IsName (runId ++ ".json.tmp") :=
  h.isName_append (by decide) (by decide) (by decide) h.short

theorem divide?_file (h : IsRunId runId) :
    Path.divide? (runId ++ ".json").toList = some (runId.toList, ['j', 's', 'o', 'n']) := by
  rw [String.toList_append]
  exact Path.divide?_eq (String.toList_eq_nil_iff.not.mpr h.nonempty) nofun (by decide)

/-- A draft has another name than every file that stays. -/
theorem draft_ne : other ++ ".json" ≠ runId ++ ".json.tmp" := by
  intro hSame
  have hLast := congrArg (fun s : String => s.toList.getLast?) hSame
  simp at hLast

theorem file_inj : runId ++ ".json" = other ++ ".json" ↔ runId = other := by
  rw [← String.toList_inj, String.toList_append, String.toList_append, List.append_left_inj,
    String.toList_inj]

end FileStore.IsRunId

/-! ## Files for snapshots -/

namespace Dict

variable {α : Type}

/-- A known key keeps its place. -/
theorem insert_of_mem {d : Dict α} {key : String} (hKeys : (keys d).Nodup) (h : key ∈ keys d)
    (value : α) : insert d key value = d.map fun e => if e.1 = key then (key, value) else e := by
  induction d with
  | nil => cases h
  | cons e rest ih =>
    obtain ⟨hFirst, hRest⟩ := List.nodup_cons.mp hKeys
    rw [insert, List.map_cons]
    split
    · rename_i hSame
      have hKept : (rest.map fun e => if e.1 = key then (key, value) else e) = rest.map id := by
        refine List.map_congr_left fun f hf => if_neg fun hAgain => ?_
        exact hFirst (List.mem_map.mpr ⟨f, hf, hAgain.trans hSame.symm⟩)
      rw [hKept, List.map_id, hSame]
    · rename_i hOther
      rw [ih hRest ((List.mem_cons.mp h).resolve_left fun hSame => hOther hSame.symm)]

end Dict

namespace FileTree

/-- The file of a snapshot, in a directory. -/
def fileOf (place : List String) (e : String × Snapshot) : List String × Entry :=
  (place ++ [e.1 ++ ".json"], .file e.2.encode.pretty)

/-- A tree with a file for each snapshot of a store in memory, in a directory. -/
def filed (t : FileTree) (place : List String) (m : MemoryStore) : FileTree :=
  ⟨t.entries ++ m.snapshots.map (fileOf place)⟩

/-- A place with nothing right below it. -/
def IsBare (t : FileTree) (place : List String) : Prop :=
  ∀ e ∈ t.entries, e.1 ≠ [] → e.1.dropLast ≠ place

variable {t : FileTree} {place : List String} {m : MemoryStore}

theorem IsBare.ne (h : IsBare t place) (name : String) : ∀ e ∈ t.entries, e.1 ≠ place ++ [name] := by
  intro e he hSame
  exact h e he (hSame ▸ List.append_ne_nil_of_right_ne_nil _ nofun) (hSame ▸ List.dropLast_concat)

theorem entry?_inside (t : FileTree) {name : String} (hName : IsName name) :
    t.entry? (place ++ [name]) = (t.entries.find? fun (p, _) => p = place ++ [name]).map (·.2) := by
  rw [ entry?, isFixed_append hName.noSlash hName.notAbove]
  simp only [Bool.false_eq_true, if_false]

theorem IsBare.find? (h : IsBare t place) (name : String) :
    (t.entries.find? fun (p, _) => p = place ++ [name]) = none :=
  List.find?_eq_none.mpr fun e he => by simpa using h.ne name e he

theorem fileOf_fst_eq_iff {e : String × Snapshot} {name : String} :
    (fileOf place e).1 = place ++ [name] ↔ e.1 ++ ".json" = name := by
  simp [fileOf]

/-- The file of a run has the text of its last snapshot. -/
theorem entry?_filed (h : IsBare t place) {runId : String} (hRun : FileStore.IsRunId runId) :
    entry? (filed t place m) (place ++ [runId ++ ".json"]) =
      (m.load runId).map fun s => .file s.encode.pretty := by
  rw [entry?_inside _ hRun.isName, filed, List.find?_append, h.find?, Option.none_or,
    MemoryStore.load]
  induction m.snapshots with
  | nil => rfl
  | cons e rest ih =>
    by_cases hSame : e.1 = runId
    · rw [Dict.find?, if_pos hSame, List.map_cons, List.find?_cons_of_pos]
      · rfl
      · exact decide_eq_true (fileOf_fst_eq_iff.mpr (hSame ▸ rfl))
    · rw [Dict.find?, if_neg hSame, ← ih, List.map_cons, List.find?_cons_of_neg]
      exact fun hPath => hSame (FileStore.IsRunId.file_inj.mp
        (fileOf_fst_eq_iff.mp (of_decide_eq_true hPath)))

/-- No file that stays has the name of a draft. -/
theorem entry?_filed_draft (h : IsBare t place) {runId : String} (hRun : FileStore.IsRunId runId) :
    entry? (filed t place m) (place ++ [runId ++ ".json.tmp"]) = none := by
  rw [entry?_inside _ hRun.isName_draft, filed, List.find?_append, h.find?, Option.none_or,
    Option.map_eq_none_iff, List.find?_eq_none]
  intro e he
  obtain ⟨entry, -, rfl⟩ := List.mem_map.mp he
  simp only [decide_eq_true_eq, fileOf_fst_eq_iff]
  exact FileStore.IsRunId.draft_ne

/-- A snapshot that is put into the file of its run is the last one in memory. -/
theorem put_filed (h : IsBare t place) (hKeys : (Dict.keys m.snapshots).Nodup) {s : Snapshot}
    (hRun : FileStore.IsRunId s.runId) :
    (filed t place m).put (place ++ [s.runId ++ ".json"]) (.file s.encode.pretty) =
      filed t place (m.save s) := by
  by_cases hMem : s.runId ∈ Dict.keys m.snapshots
  · obtain ⟨e, he, hSame⟩ := List.mem_map.mp hMem
    have hAny : ((filed t place m).entries.any fun (p, _) => p = place ++ [s.runId ++ ".json"]) =
        true := by
      refine List.any_eq_true.mpr ⟨fileOf place e, ?_, ?_⟩
      · exact List.mem_append_right _ (List.mem_map_of_mem he)
      · exact decide_eq_true (fileOf_fst_eq_iff.mpr (congrArg (· ++ ".json") hSame))
    have hBase : (t.entries.map fun (p, old) => if p = place ++ [s.runId ++ ".json"] then
        (p, Entry.file s.encode.pretty) else (p, old)) = t.entries := by
      refine (List.map_congr_left fun e he => ?_).trans (List.map_id _)
      exact if_neg (h.ne _ e he)
    rw [put, if_pos hAny, filed, filed, List.map_append, hBase, MemoryStore.save,
      Dict.insert_of_mem hKeys hMem, List.map_map, List.map_map]
    refine congrArg (fun files => FileTree.mk (t.entries ++ files)) (List.map_congr_left fun e _ => ?_)
    by_cases hRunOf : e.1 = s.runId
    · have hPath : (fileOf place e).1 = place ++ [s.runId ++ ".json"] :=
        fileOf_fst_eq_iff.mpr (hRunOf ▸ rfl)
      simp only [Function.comp_apply, if_pos hRunOf]
      exact (if_pos hPath).trans (hPath ▸ rfl)
    · have hPath : (fileOf place e).1 ≠ place ++ [s.runId ++ ".json"] := fun hSame =>
        hRunOf (FileStore.IsRunId.file_inj.mp (fileOf_fst_eq_iff.mp hSame))
      simp only [Function.comp_apply, if_neg hRunOf]
      exact if_neg hPath
  · have hNone : m.load s.runId = none := by
      rw [MemoryStore.load, ← Option.not_isSome_iff_eq_none, ← Dict.contains_eq_isSome_find?,
        Dict.contains_iff_mem_keys]
      exact hMem
    rw [put_of_none (by rw [entry?_filed h hRun, hNone]; rfl), filed, filed, MemoryStore.save,
      Dict.insert_of_not_mem hMem, List.map_append, ← List.append_assoc]
    rfl

/-! ## A draft takes its place -/

section Draft

variable {entries : List (List String × Entry)} {draft target : List String} {old e : Entry}

theorem entry?_append_other (h : draft ≠ target) :
    entry? ⟨entries ++ [(draft, old)]⟩ target = entry? ⟨entries⟩ target := by
  have hNone : ([(draft, old)].find? fun (p, _) => p = target) = none := by
    simpa using h
  rw [ entry?, entry?, List.find?_append, hNone, Option.or_none]

/-- Something is put beside a draft, and then the draft is taken away. -/
theorem put_beside_draft (h : draft ≠ target) (hDraft : ∀ e ∈ entries, e.1 ≠ draft) :
    ((⟨entries ++ [(draft, old)]⟩ : FileTree).put target e).entries.filter (fun (p, _) => p ≠ draft) =
      ((⟨entries⟩ : FileTree).put target e).entries := by
  have hAny : ((entries ++ [(draft, old)]).any fun (p, _) => p = target) =
      entries.any fun (p, _) => p = target := by
    simp [h]
  unfold put
  simp only [hAny]
  split
  · have hKept : ∀ f ∈ entries.map fun (p, old) => if p = target then (p, e) else (p, old),
        decide (f.1 ≠ draft) = true := by
      intro f hf
      obtain ⟨⟨p, old⟩, hOld, rfl⟩ := List.mem_map.mp hf
      refine decide_eq_true ?_
      dsimp only
      split <;> exact hDraft (p, old) hOld
    rw [List.map_append, List.filter_append, List.filter_eq_self.mpr hKept]
    simp [h]
  · have hKept : ∀ f ∈ entries, decide (f.1 ≠ draft) = true := fun f hf =>
      decide_eq_true (hDraft f hf)
    rw [List.filter_append, List.filter_append, List.filter_eq_self.mpr hKept]
    simp [h.symm]

end Draft

/-- The draft of a snapshot is given the name of the file of its run. -/
theorem rename_filed {directory : String} (hPath : Houses t directory place) (h : IsBare t place)
    (hKeys : (Dict.keys m.snapshots).Nodup) {s : Snapshot} (hRun : FileStore.IsRunId s.runId) :
    ((filed t place m).put (place ++ [s.runId ++ ".json.tmp"]) (.file s.encode.pretty)).rename
        (Path.join directory (s.runId ++ ".json.tmp")) (Path.join directory (s.runId ++ ".json")) =
      .ok (filed t place (m.save s)) := by
  have hNone := @entry?_filed_draft t place m h s.runId hRun
  have hThere := entry?_put_of_none hNone (.file s.encode.pretty)
  have hPut := put_of_none hNone (.file s.encode.pretty)
  have hOther : place ++ [s.runId ++ ".json.tmp"] ≠ place ++ [s.runId ++ ".json"] := by
    simp [FileStore.IsRunId.draft_ne.symm]
  have hDraft : ∀ e ∈ (filed t place m).entries, e.1 ≠ place ++ [s.runId ++ ".json.tmp"] := by
    intro e he hSame
    rw [entry?_inside _ hRun.isName_draft, Option.map_eq_none_iff, List.find?_eq_none] at hNone
    exact hNone e he (decide_eq_true hSame)
  generalize hDrafted : (filed t place m).put (place ++ [s.runId ++ ".json.tmp"])
    (.file s.encode.pretty) = drafted at hThere hPut
  have hKeeps : Keeps t drafted :=
    .of_append ((congrArg FileTree.entries hPut).trans (List.append_assoc ..))
  have hPath := hPath.keeps hKeeps
  have hRead : drafted.read (Path.join directory (s.runId ++ ".json.tmp")) =
      .ok s.encode.pretty := by
    rw [read, hPath.locate_join hRun.isName_draft]
    simp only [bind, Except.bind, hThere]
    rfl
  have hWrite : drafted.write (Path.join directory (s.runId ++ ".json")) s.encode.pretty =
      .ok (drafted.put (place ++ [s.runId ++ ".json"]) (.file s.encode.pretty)) := by
    have hTarget : drafted.entry? (place ++ [s.runId ++ ".json"]) =
        (m.load s.runId).map fun s => .file s.encode.pretty := by
      rw [hPut, entry?_append_other hOther]
      exact entry?_filed h hRun
    rw [write, hPath.locate_join hRun.isName]
    simp only [bind, Except.bind, hTarget]
    cases m.load s.runId <;> rfl
  rw [rename, hRead, hPath.locate_join hRun.isName_draft]
  simp only [bind, Except.bind, hWrite]
  rw [hPut, ← put_filed h hKeys hRun]
  exact congrArg (fun entries => Except.ok (FileTree.mk entries)) (put_beside_draft hOther hDraft)

end FileTree

/-! ## A tree that mirrors a store in memory -/

namespace FileStore

open FileTree

variable {directory : String} {start t f : FileTree} {place : List String} {m : MemoryStore}

/-- A tree of files that shows in a directory what a store has in memory. The directory need not be
there while the store is empty. -/
structure Mirrors (directory : String) (t : FileTree) (place : List String) (m : MemoryStore)
    (f : FileTree) : Prop where
  made : f.makeDirectory directory = .ok (t.filed place m)
  read : ∀ runId, IsRunId runId → f.read (Path.join directory (runId ++ ".json")) =
    ((m.load runId).map fun s => s.encode.pretty).elim (.error .notFound) .ok
  names : f.names directory = .ok ((Dict.keys m.snapshots).map (· ++ ".json")) ∨
    m = .empty ∧ f.names directory = .error .notFound

theorem names_of_located {f : FileTree} (hLocated : f.locate directory = .ok place)
    (hDirectory : f.entry? place = some .directory) :
    f.names directory = .ok (f.entries.filterMap fun (p, _) =>
      if p ≠ [] ∧ p.dropLast = place then p.getLast? else none) := by
  rw [FileTree.names, hLocated]
  simp only [bind, Except.bind, FileTree.directoryFault?, hDirectory]
  rfl

/-- There are no names right below a place with nothing there. -/
theorem isBare_iff : IsBare t place ↔ (t.entries.filterMap fun (p, _) =>
    if p ≠ [] ∧ p.dropLast = place then p.getLast? else none) = [] := by
  rw [List.filterMap_eq_nil_iff]
  refine ⟨fun h e he => if_neg fun hInside => h e he hInside.1 hInside.2, fun h e he hSome hUp => ?_⟩
  have hNone : e.1.getLast? = none := (if_pos ⟨hSome, hUp⟩).symm.trans (h e he)
  exact hSome (List.getLast?_eq_none_iff.mp hNone)

/-- The names in a directory that has nothing but the files of a store. -/
theorem names_filed (hPath : Houses t directory place) (h : IsBare t place) (m : MemoryStore) :
    (t.filed place m).names directory = .ok ((Dict.keys m.snapshots).map (· ++ ".json")) := by
  have hHere := hPath.keeps (.of_append rfl : Keeps t (t.filed place m))
  have hFiles : (m.snapshots.map (fileOf place)).filterMap (fun (p, _) =>
      if p ≠ [] ∧ p.dropLast = place then p.getLast? else none) =
        (Dict.keys m.snapshots).map (· ++ ".json") := by
    rw [List.filterMap_map, Dict.keys, List.map_map, ← List.filterMap_eq_map]
    refine List.filterMap_congr fun e _ => ?_
    simp [fileOf]
  rw [names_of_located (hHere.located _ fun _ h => h) hHere.anchored.directory, filed,
    List.filterMap_append, isBare_iff.mp h, hFiles, List.nil_append]

theorem mirrors_filed (hPath : Houses t directory place) (h : IsBare t place) (m : MemoryStore) :
    Mirrors directory t place m (t.filed place m) where
  made := hPath.made _ (.of_append rfl)
  read runId hRun := by
    have hHere := hPath.keeps (.of_append rfl : Keeps t (t.filed place m))
    rw [FileTree.read, hHere.locate_join hRun.isName]
    simp only [bind, Except.bind, entry?_filed h hRun]
    cases m.load runId <;> rfl
  names := .inl (names_filed hPath h m)

/-- Where no directory is there are no names and no texts. -/
theorem nothing_there (hSome : directory ≠ "") (hNul : '\x00' ∉ directory.toList)
    (h : f.locate directory = .error .notFound ∨
      f.locate directory = .ok place ∧ f.entry? place = none) :
    f.names directory = .error .notFound ∧
      ∀ name, IsName name → f.read (Path.join directory name) = .error .notFound := by
  constructor
  · rcases h with hNowhere | ⟨hLocated, hEntry⟩
    · rw [FileTree.names, hNowhere]
      rfl
    · rw [FileTree.names, hLocated]
      simp only [bind, Except.bind, FileTree.directoryFault?, hEntry]
      rfl
  · intro name hName
    rw [FileTree.read, FileTree.locate_join hSome hNul hName]
    rcases h with hNowhere | ⟨hLocated, hEntry⟩
    · rw [hNowhere]
      rfl
    · rw [hLocated]
      simp only [bind, Except.bind, walk_of_none hEntry]

/-- A directory that can be made and is empty then shows an empty store, whether it has been there
before or not. -/
theorem mirrors_initial (hMade : start.makeDirectory directory = .ok t)
    (hEmpty : t.names directory = .ok []) :
    ∃ place, Houses t directory place ∧ IsBare t place ∧
      Mirrors directory t place .empty start := by
  have hSome : directory ≠ "" := by
    rintro rfl
    cases hEmpty
  obtain ⟨place, hPath, ⟨new, hNew⟩, hBefore⟩ := houses_of_makeDirectory hSome hMade
  have hTree : t = ⟨start.entries ++ new⟩ := congrArg FileTree.mk hNew
  have hBare : IsBare t place := by
    rw [names_of_located (hPath.located _ fun _ h => h) hPath.anchored.directory] at hEmpty
    exact isBare_iff.mpr (Except.ok.inj hEmpty)
  have hBareStart : IsBare start place := fun e he =>
    hBare e (hNew ▸ List.mem_append_left new he)
  have hStart : start.makeDirectory directory = .ok (t.filed place .empty) := by
    rw [hMade, filed]
    exact congrArg (fun entries => Except.ok (FileTree.mk entries)) (List.append_nil _).symm
  refine ⟨place, hPath, hBare, ?_⟩
  by_cases hThere : start.locate directory = .ok place ∧ start.entry? place = some .directory
  · obtain ⟨hLocated, hEntry⟩ := hThere
    refine ⟨hStart, fun runId hRun => ?_, .inl ?_⟩
    · rw [FileTree.read, FileTree.locate_join hSome hPath.noNul hRun.isName, hLocated]
      simp only [bind, Except.bind, walk_name hRun.isName hEntry]
      rw [entry?_inside _ hRun.isName, hBareStart.find?]
      rfl
    · rw [names_of_located hLocated hEntry, isBare_iff.mp hBareStart]
      rfl
  · -- a file cannot have stood where the directory has been made
    have hNothing : start.locate directory = .error .notFound ∨
        start.locate directory = .ok place ∧ start.entry? place = none := by
      refine hBefore.symm.imp_right fun hLocated => ⟨hLocated, ?_⟩
      cases hEntry : start.entry? place with
      | none => rfl
      | some e =>
        have hStays := hTree ▸ hPath.anchored.directory
        rw [entry?_append_of_some hEntry] at hStays
        exact absurd ⟨hLocated, hEntry.trans hStays⟩ hThere
    obtain ⟨hNames, hRead⟩ := nothing_there hSome hPath.noNul hNothing
    exact ⟨hStart, fun runId hRun => hRead _ hRun.isName, .inr ⟨rfl, hNames⟩⟩

/-! ## One request -/

/-- The snapshots in memory are those of different runs, and each was fit to be saved. -/
structure Keeping (m : MemoryStore) : Prop where
  keys : (Dict.keys m.snapshots).Nodup
  fits : ∀ runId s, m.load runId = some s → s.runId = runId ∧ (StoreRequest.save s).Fits

theorem keeping_empty : Keeping .empty := ⟨List.nodup_nil, nofun⟩

theorem Keeping.save (h : Keeping m) {s : Snapshot} (hs : (StoreRequest.save s).Fits) :
    Keeping (m.save s) where
  keys := Dict.nodup_keys_insert h.keys ..
  fits runId found hFound := by
    rw [MemoryStore.load, MemoryStore.save, Dict.find?_insert] at hFound
    split at hFound
    · rename_i hSame
      exact Option.some.inj hFound ▸ ⟨hSame, hs⟩
    · exact h.fits runId found hFound

theorem Keeping.isRunId (h : Keeping m) {runId : String} (hMem : runId ∈ Dict.keys m.snapshots) :
    IsRunId runId := by
  rw [← Dict.contains_iff_mem_keys, Dict.contains_eq_isSome_find?] at hMem
  obtain ⟨s, hLoad⟩ := Option.isSome_iff_exists.mp hMem
  obtain ⟨hSame, hFits⟩ := h.fits runId s hLoad
  exact hSame ▸ hFits.1

theorem draftOf_join {runId : String} (hSome : directory ≠ "") (hRun : IsRunId runId) :
    draftOf (Path.join directory (runId ++ ".json")) =
      Path.join directory (runId ++ ".json.tmp") := by
  have hExtension : (Path.extension? (Path.join directory (runId ++ ".json"))).isSome = true := by
    rw [Path.extension?, Path.name_join hSome hRun.isName.noSlash, hRun.divide?_file]
    rfl
  rw [draftOf, if_pos hExtension, Path.join_append hSome hRun.isName.noSlash (by decide),
    String.append_assoc]
  rfl

theorem save_eq (hPath : Houses t directory place) (hBare : IsBare t place) (hKeeping : Keeping m)
    (h : Mirrors directory t place m f) {s : Snapshot} (hRun : IsRunId s.runId) :
    (FileStore.save ⟨directory⟩ s : StateM FileTree _) f = (.ok (), t.filed place (m.save s)) := by
  have hDraft : (t.filed place m).write (Path.join directory (s.runId ++ ".json.tmp"))
      s.encode.pretty =
      .ok ((t.filed place m).put (place ++ [s.runId ++ ".json.tmp"]) (.file s.encode.pretty)) := by
    have hHere := hPath.keeps (.of_append rfl : Keeps t (t.filed place m))
    rw [FileTree.write, hHere.locate_join hRun.isName_draft]
    simp only [bind, Except.bind, entry?_filed_draft hBare hRun]
    rfl
  have hRename := rename_filed hPath hBare hKeeping.keys hRun
  simp only [FileStore.save, pathOf, draftOf_join hPath.nonempty hRun, bind, StateT.bind,
    FileSystem.makeDirectory, FileSystem.write, FileSystem.rename, FileTree.change, h.made, hDraft,
    hRename]
  rfl

/-- What a saved snapshot is read as. -/
theorem load_eq (hKeeping : Keeping m) (h : Mirrors directory t place m f) {runId : String}
    (hRun : IsRunId runId) :
    (FileStore.load ⟨directory⟩ runId : StateM FileTree _) f =
      (.ok ((m.load runId).map Snapshot.forgetNulls), f) := by
  have hRead := h.read runId hRun
  cases hLoad : m.load runId with
  | none =>
    rw [hLoad] at hRead
    simp only [Option.map_none, Option.elim_none] at hRead
    simp only [FileStore.load, bind, StateT.bind, FileSystem.read, pathOf, hRead]
    rfl
  | some s =>
    obtain ⟨-, -, hSound, hText⟩ := hKeeping.fits runId s hLoad
    rw [hLoad] at hRead
    simp only [Option.map_some, Option.elim_some] at hRead
    simp only [FileStore.load, bind, StateT.bind, FileSystem.read, pathOf, hRead,
      Snapshot.read?_pretty hSound hText]
    rfl

theorem list_eq (hKeeping : Keeping m) (h : Mirrors directory t place m f) :
    (FileStore.list ⟨directory⟩ : StateM FileTree _) f = (.ok m.list, f) := by
  have hExtension : ((Dict.keys m.snapshots).map (· ++ ".json")).filter
      (fun n => Path.extension? n = some "json") = (Dict.keys m.snapshots).map (· ++ ".json") := by
    refine List.filter_eq_self.mpr fun n hn => ?_
    obtain ⟨runId, hMem, rfl⟩ := List.mem_map.mp hn
    have hRun := hKeeping.isRunId hMem
    rw [Path.extension?, Path.name_of_no_slash hRun.isName.noSlash, hRun.divide?_file]
    rfl
  have hStem : ((Dict.keys m.snapshots).map (· ++ ".json")).map Path.stem =
      Dict.keys m.snapshots := by
    rw [List.map_map]
    refine (List.map_congr_left fun runId hMem => ?_).trans (List.map_id _)
    have hRun := hKeeping.isRunId hMem
    simp only [Function.comp_apply, Path.stem, Path.name_of_no_slash hRun.isName.noSlash,
      hRun.divide?_file, String.ofList_toList, id]
  rcases h.names with hNames | ⟨rfl, hNames⟩
  · simp only [FileStore.list, bind, StateT.bind, FileSystem.names, hNames, hExtension, hStem]
    rfl
  · have hNone : MemoryStore.empty.list = [] := List.mergeSort_nil
    simp only [FileStore.list, bind, StateT.bind, FileSystem.names, hNames, hNone]
    rfl

/-- To one request a store in files gives the answer of the store in memory, without outputs of null,
and mirrors that store afterwards. -/
theorem answer_eq (hPath : Houses t directory place) (hBare : IsBare t place)
    (hKeeping : Keeping m) (h : Mirrors directory t place m f) {request : StoreRequest}
    (hFits : request.Fits) :
    ∃ f', (answer ⟨directory⟩ request : StateM FileTree _) f =
        (.ok (MemoryStore.answer request m).1.forgetNulls, f') ∧
      Mirrors directory t place (MemoryStore.answer request m).2 f' ∧
      Keeping (MemoryStore.answer request m).2 := by
  cases request with
  | save s =>
    have hSave := save_eq hPath hBare hKeeping h hFits.1
    refine ⟨t.filed place (m.save s), ?_, mirrors_filed hPath hBare _, hKeeping.save hFits⟩
    simp only [answer, bind, StateT.bind, hSave]
    rfl
  | load runId =>
    have hLoad := load_eq hKeeping h hFits
    refine ⟨f, ?_, h, hKeeping⟩
    simp only [answer, bind, StateT.bind, hLoad]
    rfl
  | list =>
    have hList := list_eq hKeeping h
    refine ⟨f, ?_, h, hKeeping⟩
    simp only [answer, bind, StateT.bind, hList]
    rfl

end FileStore

/-! ## Any number of requests -/

/-- What an empty store in memory answers to one request after another. -/
def MemoryStore.answers (requests : List StoreRequest) : List StoreAnswer :=
  (requests.mapM MemoryStore.answer MemoryStore.empty).1

/-- What a store in files answers to one request after another. -/
def FileStore.answers (s : FileStore) (start : FileTree) (requests : List StoreRequest) :
    List (Except StoreError StoreAnswer) :=
  ((requests.mapM s.answer : StateM FileTree _) start).1

namespace FileStore

open FileTree

variable {directory : String} {start t f : FileTree} {place : List String} {m : MemoryStore}

theorem mapM_answer_eq (hPath : Houses t directory place) (hBare : IsBare t place)
    (hKeeping : Keeping m) (h : Mirrors directory t place m f) {requests : List StoreRequest}
    (hFits : ∀ r ∈ requests, r.Fits) :
    ((requests.mapM (answer ⟨directory⟩) : StateM FileTree _) f).1 =
      (requests.mapM MemoryStore.answer m).1.map fun a => .ok a.forgetNulls := by
  induction requests generalizing m f with
  | nil => rfl
  | cons request rest ih =>
    obtain ⟨hFirst, hRest⟩ := List.forall_mem_cons.mp hFits
    obtain ⟨f', hAnswer, hMirrors, hKept⟩ := answer_eq hPath hBare hKeeping h hFirst
    have hMore := ih hKept hMirrors hRest
    rw [List.mapM_cons, List.mapM_cons]
    simp only [bind, StateT.bind, hAnswer]
    exact congrArg (_ :: ·) hMore

/-- From an empty directory on, a store in files answers as an empty store in memory does, without
outputs of null. -/
theorem answers_eq (hMade : start.makeDirectory directory = .ok t)
    (hEmpty : t.names directory = .ok []) {requests : List StoreRequest}
    (hFits : ∀ r ∈ requests, r.Fits) :
    answers ⟨directory⟩ start requests =
      (MemoryStore.answers requests).map fun a => .ok a.forgetNulls := by
  obtain ⟨place, hPath, hBare, hMirrors⟩ := mirrors_initial hMade hEmpty
  exact mapM_answer_eq hPath hBare keeping_empty hMirrors hFits

end FileStore

theorem StoreAnswer.forgetNulls_eq_self_iff {a : StoreAnswer} :
    a.forgetNulls = a ↔ ∀ s, a = .loaded (some s) → s.NullFree := by
  cases a with
  | saved => exact ⟨fun _ _ => nofun, fun _ => rfl⟩
  | listed runIds => exact ⟨fun _ _ => nofun, fun _ => rfl⟩
  | loaded snapshot =>
    cases snapshot with
    | none => exact ⟨fun _ _ => nofun, fun _ => rfl⟩
    | some s =>
      simp [forgetNulls, Snapshot.forgetNulls_eq_self_iff]

/-- From an empty directory on, a store in files answers as an empty store in memory does, except
that a step whose output was null is loaded as a step without an output. So all answers are the same
exactly if no step gave null in any snapshot that is loaded. The directory may be one that is yet to
be made. -/
theorem FileStore.answers_eq_iff {directory : String} {start t : FileTree}
    (hMade : start.makeDirectory directory = .ok t) (hEmpty : t.names directory = .ok [])
    {requests : List StoreRequest} (hFits : ∀ r ∈ requests, r.Fits) :
    FileStore.answers ⟨directory⟩ start requests =
        (MemoryStore.answers requests).map (fun a => .ok a.forgetNulls) ∧
      (FileStore.answers ⟨directory⟩ start requests = (MemoryStore.answers requests).map .ok ↔
        ∀ s, .loaded (some s) ∈ MemoryStore.answers requests → s.NullFree) := by
  have hAnswers := answers_eq hMade hEmpty hFits
  refine ⟨hAnswers, ?_⟩
  rw [hAnswers, List.map_inj_left]
  simp only [Except.ok.injEq, StoreAnswer.forgetNulls_eq_self_iff]
  exact ⟨fun h s hs => h _ hs s rfl, fun h a ha s hs => h s (hs ▸ ha)⟩

/-! ## A run of two steps -/

/-- A run that ends as soon as it has started. -/
def Script.direct (input : Json) : Script where
  steps := [.plain "start" .start [], .plain "end" .finish ["start"]]
  input := input
  cues := [.conclude]

/-- A step that was completed at the first attempt. -/
def StepResult.direct (stepId : String) (output : Json) : StepResult :=
  { StepResult.initial stepId with
    status := .completed
    output := some output
    attempt := 1
    startedAt := some ⟨0, 0⟩
    completedAt := some ⟨0, 0⟩ }

/-- The last snapshot of `Script.direct`. -/
def Snapshot.direct (input : Json) : Snapshot :=
  { runId := "run"
    workflowId := "workflow"
    workflowName := "workflow"
    status := .completed
    input := input
    vars := [("start", input), ("end", .obj [("start", input)])]
    stepResults :=
      [("start", .direct "start" input), ("end", .direct "end" (.obj [("start", input)]))]
    completed := ["end", "start"]
    failed := []
    error := none
    startedAt := ⟨0, 0⟩
    completedAt := some ⟨0, 0⟩
    updatedAt := ⟨0, 0⟩ }

theorem Instant.sound_zero : Instant.Sound ⟨0, 0⟩ := ⟨by decide, by decide, by decide⟩

theorem StepResult.sound_direct {output : Json} (h : output.Proper Json.Num.InRange)
    (stepId : String) : (StepResult.direct stepId output).Sound where
  output := by
    rintro v ⟨⟩
    exact h
  attempt := (by decide : 1 < Nat.pow 2 32)
  retryDelays := nofun
  startedAt := by
    rintro i ⟨⟩
    exact Instant.sound_zero
  completedAt := by
    rintro i ⟨⟩
    exact Instant.sound_zero
  iterations := nofun

theorem Snapshot.sound_direct {input : Json} (h : input.Proper Json.Num.InRange) :
    (Snapshot.direct input).Sound := by
  have hEnd : (Json.obj [("start", input)]).Proper Json.Num.InRange :=
    .obj (List.nodup_singleton _) (List.forall_mem_singleton.mpr h)
  have hKeys : ["start", "end"].Nodup := by decide
  exact
    { input := h
      vars := ⟨hKeys, List.forall_mem_cons.mpr ⟨h, List.forall_mem_singleton.mpr hEnd⟩⟩
      steps := hKeys
      stepResults := List.forall_mem_cons.mpr ⟨StepResult.sound_direct h "start",
        List.forall_mem_singleton.mpr (StepResult.sound_direct hEnd "end")⟩
      startedAt := Instant.sound_zero
      completedAt := by
        rintro i ⟨⟩
        exact Instant.sound_zero
      updatedAt := Instant.sound_zero }

theorem FileStore.isRunId_run : IsRunId "run" := ⟨by decide, by decide, by decide, by decide⟩

theorem StoreRequest.fits_save_direct {input : Json} (h : input.Proper Json.Num.InRange)
    (hNumbers : (Snapshot.direct input).encode.Proper Json.Num.ReadsBack)
    (hDepth : Json.depth (Snapshot.direct input).encode ≤ Json.depthLimit) :
    (StoreRequest.save (.direct input)).Fits :=
  ⟨FileStore.isRunId_run, Snapshot.sound_direct h, Json.readsBack hNumbers hDepth⟩

theorem FileTree.makeDirectory_runs :
    FileTree.empty.makeDirectory "runs" = .ok ⟨[(["runs"], .directory)]⟩ := by
  decide +kernel

theorem FileTree.names_runs :
    (⟨[(["runs"], .directory)]⟩ : FileTree).names "runs" = .ok [] := by
  decide +kernel

/-- A store in files that is asked for a run before and after its last snapshot is saved: the
directory is made meanwhile, and both stores give the same answers. -/
theorem FileStore.answers_of_direct :
    FileTree.empty.makeDirectory "runs" = .ok ⟨[(["runs"], .directory)]⟩ ∧
      (⟨[(["runs"], .directory)]⟩ : FileTree).names "runs" = .ok [] ∧
      (∀ r ∈ [.load "run", .save (.direct (.str "eu")), .list, .load "run"],
        StoreRequest.Fits r) ∧
      FileStore.answers ⟨"runs"⟩ .empty
          [.load "run", .save (.direct (.str "eu")), .list, .load "run"] =
        [.ok (.loaded none), .ok .saved, .ok (.listed ["run"]),
          .ok (.loaded (some (.direct (.str "eu"))))] := by
  have hFits : ∀ r ∈ [.load "run", .save (.direct (.str "eu")), .list, .load "run"],
      StoreRequest.Fits r := by
    have hSave : (StoreRequest.save (.direct (.str "eu"))).Fits :=
      StoreRequest.fits_save_direct (.str _) (Json.proper_of_isProper (by decide +kernel))
        (by decide +kernel)
    simp only [List.forall_mem_cons]
    exact ⟨isRunId_run, hSave, trivial, isRunId_run, nofun⟩
  have hMemory : MemoryStore.answers
      [.load "run", .save (.direct (.str "eu")), .list, .load "run"] =
      [.loaded none, .saved, .listed ["run"], .loaded (some (.direct (.str "eu")))] := by
    have hList : Text.sorted ["run"] = ["run"] := List.mergeSort_singleton _
    exact congrArg (fun runIds => [StoreAnswer.loaded none, .saved, .listed runIds,
      .loaded (some (Snapshot.direct (.str "eu")))]) hList
  have hNullFree : (Snapshot.direct (.str "eu")).NullFree := by decide +kernel
  have hSame := (FileStore.answers_eq_iff FileTree.makeDirectory_runs FileTree.names_runs
    hFits).2.mpr (by
      rw [hMemory]
      intro s hs
      simp only [List.mem_cons, StoreAnswer.loaded.injEq, Option.some.injEq, reduceCtorEq, false_or,
        List.not_mem_nil, or_false] at hs
      exact hs ▸ hNullFree)
  exact ⟨FileTree.makeDirectory_runs, FileTree.names_runs, hFits,
    hSame.trans (congrArg _ hMemory)⟩

/-- The last snapshot of a run whose input was null shows a step that gave null. It is loaded from
memory as it is, and from its file without that output. -/
theorem FileStore.loses_null :
    (∃ g t, Graph.compile false (Script.direct .null).steps = .ok g ∧
      Course.Publishes ((Script.direct .null).submission [] g) t ∧
      t.state.snapshot ⟨0, 0⟩ = .direct .null) ∧
    (∀ r ∈ [.save (.direct .null), .load "run"], StoreRequest.Fits r) ∧
    MemoryStore.answers [.save (.direct .null), .load "run"] =
      [.saved, .loaded (some (.direct .null))] ∧
    FileStore.answers ⟨"runs"⟩ .empty [.save (.direct .null), .load "run"] =
      [.ok .saved, .ok (.loaded (some (Snapshot.direct .null).forgetNulls))] ∧
    (Snapshot.direct .null).forgetNulls ≠ .direct .null := by
  have hFits : ∀ r ∈ [.save (.direct .null), .load "run"], StoreRequest.Fits r := by
    have hSave : (StoreRequest.save (.direct .null)).Fits :=
      StoreRequest.fits_save_direct .null (Json.proper_of_isProper (by decide +kernel))
        (by decide +kernel)
    exact List.forall_mem_cons.mpr ⟨hSave, List.forall_mem_singleton.mpr isRunId_run⟩
  refine ⟨?_, hFits, rfl, answers_eq FileTree.makeDirectory_runs FileTree.names_runs hFits, ?_⟩
  · have hShows : (Script.direct .null).showsWith [] (fun g p =>
        { p.scheduler.state.snapshot ⟨0, 0⟩ with completed := ["end", "start"], failed := [] } =
          Snapshot.direct .null ∧
        (g.indices.filter fun i => p.scheduler.state.completed.get i).map g.idOf =
          ["start", "end"] ∧
        (g.indices.filter fun i => p.scheduler.state.failed.get i).map g.idOf = []) := by
      decide +kernel
    obtain ⟨g, p, hCompile, hRun, hSnapshot, hCompleted, hFailed⟩ :=
      Script.exists_of_showsWith hShows
    have hSorted : RunState.markedIds p.scheduler.state.completed = ["end", "start"] := by
      have hOrder : Text.inOrder "start" "end" = false := by decide +kernel
      have hMerge : Text.sorted ["start", "end"] = ["start"].merge ["end"] Text.inOrder := by
        rw [Text.sorted, List.mergeSort]
        simp
      rw [RunState.markedIds, hCompleted, hMerge, List.merge, hOrder]
      simp
    have hNone : RunState.markedIds p.scheduler.state.failed = [] := by
      rw [RunState.markedIds, hFailed]
      exact List.mergeSort_nil
    refine ⟨g, p.scheduler, hCompile, .turns _ hRun, ?_⟩
    rw [← hSnapshot, ← hSorted, ← hNone]
    rfl
  · rw [ne_eq, Snapshot.forgetNulls_eq_self_iff]
    decide +kernel

end Workflow
