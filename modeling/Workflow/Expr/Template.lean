/-
Workflow.Expr.Template — text with expressions in it.

A template is text with regions between double braces. A region ends at the
first closing braces outside quotation marks. A template that is one region
and white space has the value of its expression; any other is text, with
the text of each value in the place of its region. Conditions and
collections may leave the braces out.

The search for the end of a region steps over bytes, and a character of
several bytes outside quotation marks is its end: it crashes, and with it
whoever asked.

* `Segment`, `segments` — a template in pieces.
* `evaluate`, `evaluateTemplate` — the value and the text of a template.
* `evaluateCondition`, `evaluateCollection` — with braces or without.
* `checkTemplate`, `checkBare` — whether all expressions have sound form.
-/
import Workflow.Expr.Interpreter
import Workflow.Expr.Parser

namespace Workflow.Expr

/-- A piece of a template: text, or the body of a region and the place of its first byte. -/
inductive Segment where
  | text (cs : List Char)
  | region (body : List Char) (offset : Nat)
deriving DecidableEq, Repr

/-- How the search for the end of a region can come out: the body and what follows the closing
braces, no closing braces, or a crash. -/
inductive RegionEnd where
  | closed (body rest : List Char)
  | unclosed
  | crash
deriving DecidableEq, Repr

/-- Put a character in front of the body that was found. -/
def RegionEnd.push (c : Char) : RegionEnd → RegionEnd
  | .closed body rest => .closed (c :: body) rest
  | e => e

/-- Search for the end of a region. `quote` is the mark of the open quotation, if there is one;
inside a quotation a backslash takes the next character with it. -/
def findClose (quote : Option Char) : List Char → RegionEnd
  | [] => .unclosed
  | c :: rest =>
    match quote with
    | some q =>
      if c = '\\' then
        match rest with
        | [] => .unclosed
        | d :: more => ((findClose quote more).push d).push c
      else if c = q then (findClose none rest).push c
      else (findClose quote rest).push c
    | none =>
      if c = '\'' ∨ c = '"' then (findClose (some c) rest).push c
      else if c.toNat ≥ 128 then .crash
      else
        match c, rest with
        | '\x7d', '\x7d' :: more => .closed [] more
        | c, rest => (findClose none rest).push c

/-- What follows the end of a region is shorter than the text searched. -/
theorem findClose_length {quote : Option Char} {cs body rest : List Char}
    (h : findClose quote cs = .closed body rest) : body.length + rest.length + 2 = cs.length := by
  fun_induction findClose quote cs generalizing body rest <;>
    simp_all [RegionEnd.push]
  all_goals
    split at h <;> simp_all
  all_goals grind

/-- Text in front of the pieces that follow, if there is any. -/
def withText (reversed : List Char) (segments : List Segment) : List Segment :=
  if reversed.isEmpty then segments else .text reversed.reverse :: segments

/-- The pieces of a template from a byte position on; `text` holds the characters of the current
text, the last one first. -/
def segmentsFrom (position : Nat) (text : List Char) : List Char → Except Fault (List Segment)
  | [] => .ok (withText text [])
  | '\x7b' :: '\x7b' :: after =>
    match _h : findClose none after with
    | .crash => .error .crash
    | .unclosed => .error (.error (.unclosedRegion position))
    | .closed body rest =>
      match segmentsFrom (position + 4 + byteLength body) [] rest with
      | .ok more => .ok (withText text (.region body (position + 2) :: more))
      | .error e => .error e
  | c :: rest => segmentsFrom (position + c.utf8Size) (c :: text) rest
termination_by cs => cs.length
decreasing_by
  · have := findClose_length ‹_›
    simp; omega
  · simp

/-- The pieces of a template. -/
def segments (template : List Char) : Except Fault (List Segment) := segmentsFrom 0 [] template

/-- The expression of a region; positions in errors are those of the template. -/
def parseRegion (body : List Char) (offset : Nat) : Except EvaluationError Expr :=
  match parse body with
  | .ok e => .ok e
  | .error e => .error (e.shift offset)

/-- The value of a region. -/
def evalRegion (ctx : DataContext) (body : List Char) (offset : Nat) : CallResult :=
  match parseRegion body offset with
  | .ok e => eval ctx e
  | .error e => .error e

/-- The text of pieces, each region by the text of its value. -/
def render (ctx : DataContext) : List Segment → Except EvaluationError (List Char)
  | [] => .ok []
  | .text cs :: rest =>
    match render ctx rest with
    | .ok out => .ok (cs ++ out)
    | .error e => .error e
  | .region body offset :: rest =>
    match evalRegion ctx body offset with
    | .error e => .error e
    | .ok v =>
      match render ctx rest with
      | .ok out => .ok ((textOf v).toList ++ out)
      | .error e => .error e

/-- Whether a piece is a region. -/
def Segment.isRegion : Segment → Bool
  | .region _ _ => true
  | .text _ => false

/-- Whether a piece is nothing but white space. -/
def Segment.isBlank : Segment → Bool
  | .text cs => cs.all Text.isBlank
  | .region _ _ => false

/-- The only region of pieces that are otherwise blank. -/
def soleRegion? (parts : List Segment) : Option (List Char × Nat) :=
  match parts.filter fun s => !s.isBlank with
  | [.region body offset] => some (body, offset)
  | _ => none

/-- An error of an expression as a fault. -/
def asFault {α : Type} : Except EvaluationError α → Except Fault α
  | .ok v => .ok v
  | .error e => .error (.error e)

/-- The value of a template: that of its only region, the template itself if it has none, and
otherwise its text with all regions replaced. -/
def evaluate (ctx : DataContext) (template : String) : Except Fault Json :=
  match segments template.toList with
  | .error fault => .error fault
  | .ok parts =>
    if parts.any Segment.isRegion then
      match soleRegion? parts with
      | some (body, offset) => asFault (evalRegion ctx body offset)
      | none => asFault ((render ctx parts).map fun cs => .str (String.ofList cs))
    else .ok (.str template)

/-- The text of a template with all regions replaced. -/
def evaluateTemplate (ctx : DataContext) (template : String) : Except Fault String :=
  match segments template.toList with
  | .error fault => .error fault
  | .ok parts => asFault ((render ctx parts).map String.ofList)

/-- Whether a text has opening braces. -/
def hasRegion : List Char → Bool
  | '\x7b' :: '\x7b' :: _ => true
  | _ :: rest => hasRegion rest
  | [] => false

/-- The value of a template, or of an expression without braces. -/
def evaluateBare (ctx : DataContext) (text : String) : Except Fault Json :=
  if hasRegion text.toList then evaluate ctx text
  else asFault (evalRegion ctx text.toList 0)

/-- The truth of a condition, which must not be an array or an object. -/
def evaluateCondition (ctx : DataContext) (text : String) : Except Fault Bool :=
  match evaluateBare ctx text with
  | .error fault => .error fault
  | .ok v =>
    match v with
    | .arr _ => .error (.error (.notACondition .array))
    | .obj _ => .error (.error (.notACondition .object))
    | v => .ok (truthy v)

/-- The items of a collection, which must be an array. -/
def evaluateCollection (ctx : DataContext) (text : String) : Except Fault (List Json) :=
  match evaluateBare ctx text with
  | .error fault => .error fault
  | .ok v =>
    match v with
    | .arr items => .ok items
    | v => .error (.error (.notIterable (typeOf v)))

/-- Whether the expressions of pieces have sound form. -/
def checkSegments : List Segment → Except EvaluationError Unit
  | [] => .ok ()
  | .text _ :: rest => checkSegments rest
  | .region body offset :: rest =>
    match parseRegion body offset with
    | .ok _ => checkSegments rest
    | .error e => .error e

/-- Whether the expressions of a template have sound form. -/
def checkTemplate (template : String) : Except Fault Unit :=
  match segments template.toList with
  | .error fault => .error fault
  | .ok parts => asFault (checkSegments parts)

/-- Whether a condition or collection has sound form. -/
def checkBare (text : String) : Except Fault Unit :=
  if hasRegion text.toList then checkTemplate text
  else asFault ((parseRegion text.toList 0).map fun _ => ())

end Workflow.Expr
