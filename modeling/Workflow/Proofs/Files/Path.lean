/-
Workflow.Proofs.Files.Path — the parts of a path.

A path is cut at its slashes, so a name without a slash is the last name of
every path that it is joined to. The names in front of it are those of the
directory, less an empty one where the directory ends in a slash.

* `Text.piecesFrom_append_slash` — a text with a slash in it, cut there.
* `Path.toList_join` — a name in a directory.
* `FileTree.namesOf_join`, `Path.name_join` — its last name and those in
  front.
* `Path.divide?_eq` — a name with an extension.
-/
import Mathlib.Data.List.TakeWhile
import Workflow.Files.Path
import Workflow.Files.Tree
import Workflow.Proofs.Text.Pieces

namespace Workflow

namespace Text

theorem piecesFrom_slash (piece rest : List Char) :
    piecesFrom '/' [] piece ('/' :: rest) = piece.reverse :: piecesFrom '/' [] [] rest := by
  rw [piecesFrom]
  rfl

theorem piecesFrom_other {c : Char} (h : c ≠ '/') (piece rest : List Char) :
    piecesFrom '/' [] piece (c :: rest) = piecesFrom '/' [] (c :: piece) rest := by
  have hNone : afterPrefix? ['/'] (c :: rest) = none := if_neg fun hSame => h hSame.symm
  rw [piecesFrom]
  split
  · rename_i hSome
    cases hNone.symm.trans hSome
  · rfl

/-- What stands in front of a slash is cut up for itself. -/
theorem piecesFrom_append_slash (cs rest piece : List Char) :
    piecesFrom '/' [] piece (cs ++ '/' :: rest) =
      piecesFrom '/' [] piece cs ++ piecesFrom '/' [] [] rest := by
  induction cs generalizing piece with
  | nil => rw [List.nil_append, piecesFrom_slash, piecesFrom, List.singleton_append]
  | cons c cs ih =>
    by_cases hSlash : c = '/'
    · subst hSlash
      rw [List.cons_append, piecesFrom_slash, piecesFrom_slash, ih, List.cons_append]
    · rw [List.cons_append, piecesFrom_other hSlash, piecesFrom_other hSlash, ih]

theorem piecesFrom_of_no_slash {cs : List Char} (h : '/' ∉ cs) (piece : List Char) :
    piecesFrom '/' [] piece cs = [piece.reverse ++ cs] := by
  induction cs generalizing piece with
  | nil => rw [piecesFrom, List.append_nil]
  | cons c cs ih =>
    obtain ⟨hFirst, hRest⟩ := not_or.mp (mt List.mem_cons.mpr h)
    rw [piecesFrom_other (Ne.symm hFirst), ih hRest, List.reverse_cons, List.append_assoc,
      List.singleton_append]

end Text

/-! ## A name in a directory -/

namespace Path

theorem startsWith_eq_false {name : String} (hName : '/' ∉ name.toList) :
    name.startsWith "/" = false := by
  rw [← Bool.not_eq_true, String.startsWith_string_iff]
  rintro ⟨rest, hText⟩
  exact hName (hText ▸ List.mem_cons_self ..)

/-- The characters of a path in a directory: those of the directory, a slash, and the name. The slash
may be the last one of the directory. -/
theorem toList_join {directory name : String} (hDirectory : directory ≠ "")
    (hName : '/' ∉ name.toList) :
    ∃ front, (join directory name).toList = front ++ '/' :: name.toList ∧
      (directory.toList = front ∨ directory.toList = front ++ ['/']) := by
  have hSome : directory.isEmpty = false := by simpa using hDirectory
  rw [join, startsWith_eq_false hName, hSome]
  simp only [Bool.or_self, Bool.false_eq_true, if_false]
  split
  · rename_i hEnds
    rw [String.endsWith_eq_endsWith_toSlice, String.Slice.endsWith_string_iff,
      String.copy_toSlice] at hEnds
    obtain ⟨front, hText⟩ := hEnds
    exact ⟨front, by rw [String.toList_append, ← hText]; simp, .inr hText.symm⟩
  · exact ⟨directory.toList, by simp, .inl rfl⟩

/-- The last name of a path in a directory. -/
theorem name_join {directory file : String} (hDirectory : directory ≠ "")
    (hFile : '/' ∉ file.toList) : name (join directory file) = file.toList := by
  obtain ⟨front, hText, -⟩ := toList_join hDirectory hFile
  have hTake : ∀ c ∈ file.toList.reverse, (c != '/') = true := fun c hc =>
    bne_iff_ne.mpr fun hSame => hFile (hSame ▸ List.mem_reverse.mp hc)
  rw [name, hText, List.reverse_append, List.reverse_cons, List.append_assoc,
    List.takeWhile_append_of_pos hTake, List.singleton_append,
    List.takeWhile_cons_of_neg (by decide), List.append_nil, List.reverse_reverse]

/-- A name without a slash is its own last name. -/
theorem name_of_no_slash {file : String} (hFile : '/' ∉ file.toList) : name file = file.toList := by
  have hTake : ∀ c ∈ file.toList.reverse, (c != '/') = true := fun c hc =>
    bne_iff_ne.mpr fun hSame => hFile (hSame ▸ List.mem_reverse.mp hc)
  rw [name, ← List.append_nil file.toList.reverse, List.takeWhile_append_of_pos hTake,
    List.takeWhile_nil, List.append_nil, List.reverse_reverse]

/-- What is added to a name is added to its path. -/
theorem join_append {directory file more : String} (hDirectory : directory ≠ "")
    (hFile : '/' ∉ file.toList) (hMore : '/' ∉ more.toList) :
    join directory file ++ more = join directory (file ++ more) := by
  have hSome : directory.isEmpty = false := by simpa using hDirectory
  have hBoth : '/' ∉ (file ++ more).toList := by
    rw [String.toList_append]
    exact fun hMem => (List.mem_append.mp hMem).elim hFile hMore
  rw [join, join, startsWith_eq_false hFile, startsWith_eq_false hBoth, hSome]
  simp only [Bool.or_self, Bool.false_eq_true, if_false]
  split <;> simp only [String.append_assoc]

/-- A name with something before its last point and something behind it. -/
theorem divide?_eq {before behind : List Char} (hBefore : before ≠ []) (hBehind : behind ≠ [])
    (hPoint : '.' ∉ behind) : divide? (before ++ '.' :: behind) = some (before, behind) := by
  have hTake : ∀ c ∈ behind.reverse, (c != '.') = true := fun c hc =>
    bne_iff_ne.mpr fun hSame => hPoint (hSame ▸ List.mem_reverse.mp hc)
  have hLast : ((before ++ '.' :: behind).reverse.takeWhile (· != '.')).reverse = behind := by
    rw [List.reverse_append, List.reverse_cons, List.append_assoc,
      List.takeWhile_append_of_pos hTake, List.singleton_append,
      List.takeWhile_cons_of_neg (by decide), List.append_nil, List.reverse_reverse]
  have hLength : (before ++ '.' :: behind).length = before.length + (behind.length + 1) := by simp
  have hFirst : (before ++ '.' :: behind).take
      ((before ++ '.' :: behind).length - behind.length - 1) = before := by
    rw [hLength, Nat.add_comm behind.length 1, ← Nat.add_assoc, Nat.add_sub_cancel,
      Nat.add_sub_cancel, List.take_left]
  have hParts : ¬ ((decide (before ++ '.' :: behind = ['.', '.']) || before.isEmpty ||
      decide (behind.length = (before ++ '.' :: behind).length)) = true) := by
    simp only [Bool.or_eq_true, decide_eq_true_eq, List.isEmpty_iff, not_or]
    refine ⟨⟨fun hDots => ?_, hBefore⟩, by omega⟩
    have hBeforeLength := List.length_pos_iff.mpr hBefore
    have hBehindLength := List.length_pos_iff.mpr hBehind
    have hDotsLength := congrArg List.length hDots
    simp only [hLength, List.length_cons, List.length_nil] at hDotsLength
    omega
  rw [divide?]
  simp only [hLast, hFirst]
  exact if_neg hParts

end Path

namespace FileTree

theorem not_mem_of_mem_namesOf {path n : String} (h : n ∈ namesOf path) : '/' ∉ n.toList := by
  obtain ⟨piece, hPiece, rfl⟩ := List.mem_map.mp h
  rw [String.toList_ofList, ← List.singleton_infix_iff]
  have hCut := Text.cut_splitOn (List.cons_ne_nil '/' []) path.toList
  exact hCut.not_infix (List.cons_ne_nil _ _) piece hPiece

/-- The names of a path in a directory are those of the directory, less an empty last one, and the
name in the directory. -/
theorem namesOf_join {directory name : String} (hDirectory : directory ≠ "")
    (hName : '/' ∉ name.toList) :
    ∃ names, namesOf (Path.join directory name) = names ++ [name] ∧
      (namesOf directory = names ∨ namesOf directory = names ++ [""]) := by
  obtain ⟨front, hText, hFront⟩ := Path.toList_join hDirectory hName
  refine ⟨(Text.splitOn ['/'] front).map String.ofList, ?_, ?_⟩
  · rw [namesOf, hText, Text.splitOn, Text.piecesFrom_append_slash,
      Text.piecesFrom_of_no_slash hName, List.map_append]
    simp [Text.splitOn]
  · refine hFront.imp (fun hSame => by rw [namesOf, hSame]) fun hSlash => ?_
    rw [namesOf, hSlash, Text.splitOn, Text.piecesFrom_append_slash, Text.piecesFrom,
      List.map_append]
    rfl

theorem startsWith_slash_iff (path : String) :
    path.startsWith "/" = true ↔ path.toList.head? = some '/' := by
  rw [String.startsWith_string_iff]
  cases path.toList with
  | nil => exact ⟨fun h => absurd (List.prefix_nil.mp h) nofun, nofun⟩
  | cons c cs =>
    refine ⟨fun ⟨rest, hText⟩ => congrArg some (List.cons.inj hText).1.symm, fun h => ?_⟩
    obtain rfl := Option.some.inj h
    exact ⟨cs, rfl⟩

/-- A path starts at the root if its directory does. -/
theorem startsWith_join {directory name : String} (hDirectory : directory ≠ "")
    (hName : '/' ∉ name.toList) :
    (Path.join directory name).startsWith "/" = directory.startsWith "/" := by
  obtain ⟨front, hText, hFront⟩ := Path.toList_join hDirectory hName
  rw [Bool.eq_iff_iff, startsWith_slash_iff, startsWith_slash_iff, hText]
  cases front with
  | nil =>
    rcases hFront with hSame | hSlash
    · exact absurd (String.toList_eq_nil_iff.mp hSame) hDirectory
    · rw [hSlash]
      exact ⟨fun _ => rfl, fun _ => rfl⟩
  | cons c front =>
    rcases hFront with hSame | hSlash
    · rw [hSame]
      exact Iff.rfl
    · rw [hSlash]
      exact Iff.rfl

end FileTree

end Workflow
