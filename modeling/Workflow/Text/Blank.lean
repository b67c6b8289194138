/-
Workflow.Text.Blank — white space.

`isBlank` is the Unicode property White_Space, which separates tokens in
expressions and is what `trim` removes at both ends of a text.
-/

namespace Workflow.Text

/-- White space: the ASCII blanks from tab to carriage return, the space, and the
fourteen further code points of the property. -/
def isBlank (c : Char) : Bool :=
  let n := c.toNat
  (9 ≤ n && n ≤ 13) || n == 0x20 || n == 0x85 || n == 0xA0 || n == 0x1680 ||
    (0x2000 ≤ n && n ≤ 0x200A) || n == 0x2028 || n == 0x2029 || n == 0x202F ||
    n == 0x205F || n == 0x3000

/-- Core's white space is blank. -/
theorem isBlank_of_isWhitespace {c : Char} (h : c.isWhitespace = true) : isBlank c = true := by
  simp only [Char.isWhitespace, Bool.or_eq_true, decide_eq_true_eq] at h
  rcases h with ((h | h) | h) | h <;> subst h <;> decide

/-- Drop white space in front. -/
def trimStart (cs : List Char) : List Char := cs.dropWhile isBlank

/-- Drop white space at the end. -/
def trimEnd (cs : List Char) : List Char := (cs.reverse.dropWhile isBlank).reverse

/-- Drop white space at both ends. -/
def trim (cs : List Char) : List Char := trimEnd (trimStart cs)

/-- Whether a text has no character other than white space. -/
def isBlankText (text : String) : Bool := text.toList.all isBlank

/-- `trim` on texts. -/
def trimText (text : String) : String := String.ofList (trim text.toList)

end Workflow.Text
