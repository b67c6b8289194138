/-
Workflow.Proofs.Text.Blank — white space against letters and numerals.

White space ends a name wherever it stands, because no character is white
space and a letter or a numeral. Beyond ASCII this is a fact about the tables
of the two properties: their ranges keep clear of the eight ranges of white
space.

* `asciiBlanks`, `blankRanges` — the white space in ASCII and beyond it.
* `isLetterOrNumeral_eq_false_of_isBlank` — white space is no letter and no numeral.
-/
import Workflow.Text.Blank
import Workflow.Text.Letter

namespace Workflow.Text

/-- The white space beyond ASCII. -/
def blankRanges : CodeRanges :=
  [(0x85, 0x85), (0xA0, 0xA0), (0x1680, 0x1680), (0x2000, 0x200A), (0x2028, 0x2029),
    (0x202F, 0x202F), (0x205F, 0x205F), (0x3000, 0x3000)]

theorem contains_blankRanges {c : Char} (hLarge : 128 ≤ c.toNat) (h : isBlank c = true) :
    blankRanges.contains c = true := by
  simp only [isBlank, Bool.or_eq_true, Bool.and_eq_true, decide_eq_true_eq, beq_iff_eq] at h
  simp only [CodeRanges.contains, blankRanges, List.any_cons, List.any_nil, Bool.or_eq_true,
    Bool.and_eq_true, decide_eq_true_eq]
  omega

/-! ## Ranges that keep clear of each other -/

/-- No range of the one set meets a range of the other. -/
def CodeRanges.disjoint (as bs : CodeRanges) : Bool :=
  as.all fun a => bs.all fun b => decide (a.2 < b.1) || decide (b.2 < a.1)

theorem CodeRanges.not_contains_of_disjoint {as bs : CodeRanges} {c : Char}
    (h : as.disjoint bs = true) (hc : bs.contains c = true) : as.contains c = false := by
  simp only [disjoint, List.all_eq_true, Bool.or_eq_true, decide_eq_true_eq] at h
  simp only [contains, List.any_eq_true, List.any_eq_false, Bool.and_eq_true, decide_eq_true_eq]
    at hc ⊢
  obtain ⟨b, hb, hFirst, hLast⟩ := hc
  intro a ha hInside
  have := h a ha b hb
  omega

/-- The ranges that one line lists. -/
def CodeRanges.ofLine (cs : List Char) : CodeRanges :=
  ((cutAt (· == ' ') cs).filter (· != [])).map wordRange

/-- A table is gone through line by line; a line of it is given as its characters, which is how the
kernel computes with it fast. -/
theorem CodeRanges.disjoint_ofLines_cons {cs : List Char} {lines : List String} {bs : CodeRanges}
    (hLine : (ofLine cs).disjoint bs = true) (hLines : (ofLines lines).disjoint bs = true) :
    (ofLines (String.ofList cs :: lines)).disjoint bs = true := by
  have hCons : ofLines (String.ofList cs :: lines) = ofLine cs ++ ofLines lines := by
    simp only [ofLines, ofLine, words, List.flatMap_cons, String.toList_ofList, List.map_append]
  rw [hCons, disjoint, List.all_append]
  exact Bool.and_eq_true_iff.mpr ⟨hLine, hLines⟩

theorem alphabeticRanges_disjoint : alphabeticRanges.disjoint blankRanges = true := by
  unfold alphabeticRanges
  repeat refine CodeRanges.disjoint_ofLines_cons (by decide +kernel) ?_
  rfl

theorem numericRanges_disjoint : numericRanges.disjoint blankRanges = true := by
  unfold numericRanges
  repeat refine CodeRanges.disjoint_ofLines_cons (by decide +kernel) ?_
  rfl

/-! ## White space -/

/-- The white space of ASCII. -/
def asciiBlanks : List Char := ['\t', '\n', '\x0b', '\x0c', '\r', ' ']

theorem mem_asciiBlanks {c : Char} (hSmall : c.toNat < 128) (h : isBlank c = true) :
    c ∈ asciiBlanks := by
  have hCode : c.toNat ∈ asciiBlanks.map Char.toNat := by
    simp only [isBlank, Bool.or_eq_true, Bool.and_eq_true, decide_eq_true_eq, beq_iff_eq] at h
    simp only [asciiBlanks, List.map_cons, List.map_nil, List.mem_cons, List.not_mem_nil, or_false]
    change c.toNat = 9 ∨ c.toNat = 10 ∨ c.toNat = 11 ∨ c.toNat = 12 ∨ c.toNat = 13 ∨ c.toNat = 32
    omega
  obtain ⟨blank, hBlank, hSame⟩ := List.mem_map.mp hCode
  rwa [Char.toNat_inj.mp hSame] at hBlank

theorem isLetterOrNumeral_eq_false_of_ascii_blank {c : Char} (hSmall : c.toNat < 128)
    (h : isBlank c = true) : isLetterOrNumeral c = false := by
  have hNone : asciiBlanks.all (!isLetterOrNumeral ·) = true := by decide +kernel
  rw [← Bool.not_eq_true']
  exact List.all_eq_true.mp hNone c (mem_asciiBlanks hSmall h)

/-- White space is no letter and no numeral. -/
theorem isLetterOrNumeral_eq_false_of_isBlank {c : Char} (h : isBlank c = true) :
    isLetterOrNumeral c = false := by
  by_cases hSmall : c.toNat < 128
  · exact isLetterOrNumeral_eq_false_of_ascii_blank hSmall h
  · have hRanges := contains_blankRanges (Nat.le_of_not_lt hSmall) h
    rw [isLetterOrNumeral, isLetter, isNumeral, if_neg hSmall, if_neg hSmall,
      CodeRanges.not_contains_of_disjoint alphabeticRanges_disjoint hRanges,
      CodeRanges.not_contains_of_disjoint numericRanges_disjoint hRanges]
    rfl

end Workflow.Text
