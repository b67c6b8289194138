/-
Workflow.Proofs.Expr.Obstruction — templates that crash, region by region.

The opening braces of a region are the first behind the region before it.
A template is split region by region, and what decides its split is the
region alone: one that is closed leads to the next, one that is not ends
the split, and one with a character beyond ASCII outside of quotations
crashes it.

* `Opens`, `cutAtPair` — the first opening braces, and the cut there.
* `segmentsFrom_eq` — the pieces of a template by its first region.
* `HasObstruction` — a region with a character in the way, behind regions
  that are closed.
* `segmentsFrom_eq_crash_iff` — the templates that crash are those.
-/
import Workflow.Proofs.Expr.Quotation

namespace Workflow.Expr

/-! ## Opening braces -/

/-- Everywhere is a place for opening braces. -/
def Anywhere {α : Type} (_before : List α) : Prop := True

/-- The first opening braces. -/
def Opens (cs before after : List Char) : Prop := FirstPair '\x7b' Anywhere cs before after

section

variable {α : Type} [DecidableEq α] {x : α} {cs before after : List α}

/-- Cut a list at the first two elements in a row that are `x`. -/
def cutAtPair (x : α) : List α → Option (List α × List α)
  | [] => none
  | a :: rest =>
    if a = x ∧ rest.head? = some x then some ([], rest.tail)
    else (cutAtPair x rest).map fun cut => (a :: cut.1, cut.2)

theorem firstPair_of_cutAtPair (h : cutAtPair x cs = some (before, after)) :
    FirstPair x Anywhere cs before after := by
  fun_induction cutAtPair x cs generalizing before with
  | case1 => cases h
  | case2 a rest hPair =>
    obtain ⟨rfl, hSecond⟩ := hPair
    obtain ⟨more, rfl⟩ := List.head?_eq_some_iff.mp hSecond
    cases h
    have hAnywhere : Anywhere ([] : List α) := trivial
    exact .start hAnywhere more
  | case3 a rest hNot ih =>
    obtain ⟨cut, hCut, hEq⟩ := Option.map_eq_some_iff.mp h
    cases hEq
    exact (firstPair_cons fun hStart => hNot hStart.2).mpr (ih hCut)

theorem not_pairAt_of_cutAtPair (h : cutAtPair x cs = none) (before after : List α) :
    ¬ PairAt x Anywhere cs before after := by
  fun_induction cutAtPair x cs generalizing before with
  | case1 => exact fun hAt => by simpa using hAt.eq
  | case2 => cases h
  | case3 a rest hNot ih =>
    intro hAt
    obtain ⟨more, -, hMore⟩ := (pairAt_cons fun hStart => hNot hStart.2).mp hAt
    exact ih (Option.map_eq_none_iff.mp h) more hMore

theorem length_of_cutAtPair (h : cutAtPair x cs = some (before, after)) :
    cs.length = before.length + after.length + 2 := by
  rw [(firstPair_of_cutAtPair h).eq]
  simp only [List.length_append, List.length_cons]
  omega

end

/-! ## One region after the other -/

@[simp] theorem byteLength_cons (c : Char) (cs : List Char) :
    byteLength (c :: cs) = c.utf8Size + byteLength cs := rfl

/-- The pieces of a template from opening braces on, which stand at a position behind a text. -/
def regionFrom (position : Nat) (text after : List Char) : Except Fault (List Segment) :=
  match findClose none after with
  | .crash => .error .crash
  | .unclosed => .error (.error (.unclosedRegion position))
  | .closed body rest =>
    match segmentsFrom (position + 4 + byteLength body) [] rest with
    | .ok more => .ok (withText text (.region body (position + 2) :: more))
    | .error e => .error e

theorem segmentsFrom_open (position : Nat) (text after : List Char) :
    segmentsFrom position text ('\x7b' :: '\x7b' :: after) = regionFrom position text after := by
  rw [segmentsFrom, regionFrom]
  split
  · simp only [*]
  · simp only [*]
  · rename_i body rest hFind
    cases hMore : segmentsFrom (position + 4 + byteLength body) [] rest <;>
      simp only [hFind, hMore]

/-- A template by its first region, if it has one. -/
theorem segmentsFrom_eq (position : Nat) (text cs : List Char) :
    segmentsFrom position text cs =
      match cutAtPair '\x7b' cs with
      | none => .ok (withText (cs.reverse ++ text) [])
      | some (before, after) =>
        regionFrom (position + byteLength before) (before.reverse ++ text) after := by
  fun_induction cutAtPair '\x7b' cs generalizing position text with
  | case1 => simp [segmentsFrom]
  | case2 a rest hPair =>
    obtain ⟨rfl, hSecond⟩ := hPair
    obtain ⟨more, rfl⟩ := List.head?_eq_some_iff.mp hSecond
    exact segmentsFrom_open position text more
  | case3 a rest hNot ih =>
    rw [segmentsFrom, ih]
    · cases cutAtPair '\x7b' rest with
      | none => simp
      | some cut => simp [Nat.add_assoc]
    · rintro after rfl rfl
      exact hNot ⟨rfl, rfl⟩

/-! ## Regions with a character in the way -/

/-- Some region has a character in the way, and all regions in front of it are closed. -/
inductive HasObstruction : List Char → Prop where
  | here {cs before after : List Char} :
    Opens cs before after → Obstructed .outside after → HasObstruction cs
  | later {cs before after body rest : List Char} :
    Opens cs before after → Closes .outside after body rest → HasObstruction rest →
    HasObstruction cs

theorem hasObstruction_iff {cs before after : List Char} (h : Opens cs before after) :
    HasObstruction cs ↔ Obstructed .outside after ∨
      ∃ body rest, Closes .outside after body rest ∧ HasObstruction rest := by
  constructor
  · rintro (⟨hOpen, hHere⟩ | ⟨hOpen, hCloses, hLater⟩)
    · obtain ⟨-, rfl⟩ := FirstPair.unique hOpen h
      exact .inl hHere
    · obtain ⟨-, rfl⟩ := FirstPair.unique hOpen h
      exact .inr ⟨_, _, hCloses, hLater⟩
  · rintro (hHere | ⟨body, rest, hCloses, hLater⟩)
    · exact .here h hHere
    · exact .later h hCloses hLater

theorem not_hasObstruction {cs : List Char}
    (h : ∀ before after, ¬ PairAt '\x7b' Anywhere cs before after) : ¬ HasObstruction cs := by
  rintro (⟨hOpen, -⟩ | ⟨hOpen, -, -⟩) <;> exact h _ _ hOpen.toPairAt

/-- A region crashes, or leads to one that does. -/
theorem regionFrom_eq_crash_iff {position : Nat} {text after : List Char} :
    regionFrom position text after = .error .crash ↔ Obstructed .outside after ∨
      ∃ body rest, (Closes .outside after body rest ∧ Plain .outside body) ∧
        segmentsFrom (position + 4 + byteLength body) [] rest = .error .crash := by
  simp only [← findClose_eq_crash_iff, ← findClose_eq_closed_iff, regionFrom]
  cases hFind : findClose none after with
  | crash => simp
  | unclosed => simp
  | closed body rest =>
    cases hMore : segmentsFrom (position + 4 + byteLength body) [] rest <;>
      simp [and_assoc, hMore]

/-- The split takes the regions as they come, and so does the induction. -/
theorem segmentsFrom_eq_crash_iff (position : Nat) (text cs : List Char) :
    segmentsFrom position text cs = .error .crash ↔ HasObstruction cs := by
  induction hLength : cs.length using Nat.strongRecOn generalizing position text cs with
  | _ n ih =>
  subst hLength
  rw [segmentsFrom_eq]
  cases hCut : cutAtPair '\x7b' cs with
  | none => exact iff_of_false nofun (not_hasObstruction (not_pairAt_of_cutAtPair hCut))
  | some cut =>
    obtain ⟨before, after⟩ := cut
    rw [hasObstruction_iff (firstPair_of_cutAtPair hCut), regionFrom_eq_crash_iff]
    have hRest (position : Nat) {body rest : List Char}
        (hCloses : Closes .outside after body rest) :
        segmentsFrom position [] rest = .error .crash ↔ HasObstruction rest := by
      refine ih rest.length ?_ _ _ _ rfl
      have hCs := length_of_cutAtPair hCut
      have hAfter := congrArg List.length hCloses.eq
      simp only [List.length_append, List.length_cons] at hAfter
      omega
    constructor
    · rintro (hHere | ⟨body, rest, ⟨hCloses, -⟩, hLater⟩)
      · exact .inl hHere
      · exact .inr ⟨body, rest, hCloses, (hRest _ hCloses).mp hLater⟩
    · rintro (hHere | ⟨body, rest, hCloses, hLater⟩)
      · exact .inl hHere
      -- A region behind one with a character in the way is not reached.
      · by_cases hPlain : Plain .outside body
        · exact .inr ⟨body, rest, ⟨hCloses, hPlain⟩, (hRest _ hCloses).mpr hLater⟩
        · exact .inl (.inl ⟨body, rest, hCloses, hPlain⟩)

end Workflow.Expr
