/-
Workflow.Text.Search — one text inside another.

* `occursIn` — whether a text occurs in another.
* `splitOn` — the pieces between the occurrences of a separator.
* `replaceFirst` — a text with the first occurrence of another replaced.
-/

namespace Workflow.Text

/-- What follows a given beginning. -/
def afterPrefix? : List Char → List Char → Option (List Char)
  | [], cs => some cs
  | _ :: _, [] => none
  | p :: ps, c :: cs => if p = c then afterPrefix? ps cs else none

/-- What follows a given beginning is what is left when the beginning is dropped. -/
theorem eq_append_of_afterPrefix? {pre cs rest : List Char}
    (h : afterPrefix? pre cs = some rest) : cs = pre ++ rest := by
  induction pre generalizing cs with
  | nil => simpa [afterPrefix?] using h
  | cons p ps ih =>
    cases cs with
    | nil => simp [afterPrefix?] at h
    | cons c cs =>
      by_cases hc : p = c
      · subst hc
        simp only [afterPrefix?, if_true] at h
        simp [ih h]
      · simp [afterPrefix?, hc] at h

/-- The pieces between the matches of a separator, found from the left; `piece` holds the
characters of the current piece, the last one first. -/
def piecesFrom (sep : Char) (more : List Char) (piece : List Char) :
    List Char → List (List Char)
  | [] => [piece.reverse]
  | c :: rest =>
    match _h : afterPrefix? (sep :: more) (c :: rest) with
    | some after => piece.reverse :: piecesFrom sep more [] after
    | none => piecesFrom sep more (c :: piece) rest
termination_by cs => cs.length
decreasing_by
  · have := congrArg List.length (eq_append_of_afterPrefix? ‹_›)
    simp at this ⊢
    omega
  · simp

/-- The pieces of a text between the matches of a separator. The empty separator cuts between all
characters and leaves no piece of an empty text. -/
def splitOn (sep cs : List Char) : List (List Char) :=
  match sep with
  | [] => cs.map fun c => [c]
  | s :: more => piecesFrom s more [] cs

/-- Whether a text occurs in another. -/
def occursIn (needle : List Char) : List Char → Bool
  | [] => needle.isEmpty
  | c :: rest => (afterPrefix? needle (c :: rest)).isSome || occursIn needle rest

/-- A text with the first occurrence of another replaced. -/
def replaceFirst (target image : List Char) : List Char → List Char
  | [] => if target.isEmpty then image else []
  | c :: rest =>
    match afterPrefix? target (c :: rest) with
    | some after => image ++ after
    | none => c :: replaceFirst target image rest

end Workflow.Text
