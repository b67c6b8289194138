/-
Workflow.Proofs.Expr.Regions — templates region by region.

The regions of a template are parsed and evaluated one after the other, up
to the first one that has an error. Its error is that of the template, and
what stands behind it is not read, not even to see whether its form is
sound.

* `HaveValues`, `Halts` — pieces whose regions all have values, and pieces
  with a region that has an error and stands before all others that do.
* `evaluate_of_haveValues`, `Halts.evaluate` — the value of a template.
* `Halts.checkSegments` — an error that is none of form leaves the form of
  the pieces to those behind it.
* `Masked`, `masked_iff` — a malformed region behind a path that leads
  nowhere, and when a malformed template is taken for a missing value.
-/
import Workflow.Proofs.Expr.Derivation
import Workflow.Proofs.Expr.Split

namespace Workflow.Expr

/-- The regions of pieces have values. -/
def HaveValues (ctx : DataContext) (parts : List Segment) : Prop :=
  ∀ body offset, .region body offset ∈ parts → ∃ v, evalRegion ctx body offset = .ok v

/-- The first region without a value has an error; the last argument is what stands behind it. -/
inductive Halts (ctx : DataContext) (e : EvaluationError) : List Segment → List Segment → Prop where
  | here {body : List Char} {offset : Nat} {back : List Segment} :
    evalRegion ctx body offset = .error e → Halts ctx e (.region body offset :: back) back
  | text {cs : List Char} {parts back : List Segment} :
    Halts ctx e parts back → Halts ctx e (.text cs :: parts) back
  | value {body : List Char} {offset : Nat} {v : Json} {parts back : List Segment} :
    evalRegion ctx body offset = .ok v → Halts ctx e parts back →
    Halts ctx e (.region body offset :: parts) back

section

variable {ctx : DataContext} {e : EvaluationError} {parts back : List Segment}

theorem haveValues_or_halts (ctx : DataContext) (parts : List Segment) :
    HaveValues ctx parts ∨ ∃ e back, Halts ctx e parts back := by
  induction parts with
  | nil => exact .inl nofun
  | cons part parts ih =>
    cases part with
    | text cs =>
      rcases ih with hValues | ⟨e, back, hHalts⟩
      · exact .inl fun body offset hMem => hValues body offset (by simpa using hMem)
      · exact .inr ⟨e, back, .text hHalts⟩
    | region body offset =>
      cases hRegion : evalRegion ctx body offset with
      | error e => exact .inr ⟨e, parts, .here hRegion⟩
      | ok v =>
        rcases ih with hValues | ⟨e, back, hHalts⟩
        · refine .inl fun body' offset' hMem => ?_
          rcases List.mem_cons.mp hMem with hHere | hMore
          · cases hHere
            exact ⟨v, hRegion⟩
          · exact hValues body' offset' hMore
        · exact .inr ⟨e, back, .value hRegion hHalts⟩

theorem HaveValues.tail {part : Segment} (h : HaveValues ctx (part :: parts)) :
    HaveValues ctx parts :=
  fun body offset hMem => h body offset (List.mem_cons_of_mem _ hMem)

theorem Halts.exists_region (h : Halts ctx e parts back) :
    ∃ body offset, .region body offset ∈ parts ∧ evalRegion ctx body offset = .error e := by
  induction h with
  | here hRegion => exact ⟨_, _, List.mem_cons_self, hRegion⟩
  | text _ ih | value _ _ ih =>
    obtain ⟨body, offset, hMem, hRegion⟩ := ih
    exact ⟨body, offset, List.mem_cons_of_mem _ hMem, hRegion⟩

/-! ## The value of a template -/

theorem render_of_haveValues (h : HaveValues ctx parts) : ∃ out, render ctx parts = .ok out := by
  induction parts with
  | nil => exact ⟨[], rfl⟩
  | cons part parts ih =>
    obtain ⟨out, hOut⟩ := ih h.tail
    cases part with
    | text cs => exact ⟨cs ++ out, by simp [render, hOut]⟩
    | region body offset =>
      obtain ⟨v, hRegion⟩ := h body offset List.mem_cons_self
      exact ⟨(textOf v).toList ++ out, by simp [render, hRegion, hOut]⟩

theorem Halts.render (h : Halts ctx e parts back) : render ctx parts = .error e := by
  induction h with
  | here hRegion => simp [Expr.render, hRegion]
  | text _ ih => simp [Expr.render, ih]
  | value hRegion _ ih => simp [Expr.render, hRegion, ih]

/-- Every region of pieces is the only one if there is an only one. -/
theorem mem_iff_of_soleRegion? {body : List Char} {offset : Nat}
    (h : soleRegion? parts = some (body, offset)) (body' : List Char) (offset' : Nat) :
    .region body' offset' ∈ parts ↔ body' = body ∧ offset' = offset := by
  have hFilter : parts.filter (fun s => !s.isBlank) = [.region body offset] := by
    unfold soleRegion? at h
    split at h
    · rename_i hOne
      cases h
      exact hOne
    · cases h
  have hMem : .region body' offset' ∈ parts.filter (fun s => !s.isBlank) ↔
      .region body' offset' ∈ parts := by
    simp [Segment.isBlank]
  rw [← hMem, hFilter]
  simp

variable {text : String}

theorem evaluate_of_haveValues (hParts : segments text.toList = .ok parts)
    (h : HaveValues ctx parts) : ∃ v, evaluate ctx text = .ok v := by
  obtain ⟨out, hOut⟩ := render_of_haveValues h
  unfold evaluate
  simp only [hParts]
  split
  · split
    · rename_i body offset hSole
      obtain ⟨v, hRegion⟩ := h body offset ((mem_iff_of_soleRegion? hSole _ _).mpr ⟨rfl, rfl⟩)
      exact ⟨v, by rw [hRegion]; rfl⟩
    · exact ⟨.str (String.ofList out), by rw [hOut]; rfl⟩
  · exact ⟨.str text, rfl⟩

theorem Halts.evaluate (hParts : segments text.toList = .ok parts) (h : Halts ctx e parts back) :
    evaluate ctx text = .error (.error e) := by
  obtain ⟨body, offset, hMem, hRegion⟩ := h.exists_region
  have hAny : parts.any Segment.isRegion = true := List.any_eq_true.mpr ⟨_, hMem, rfl⟩
  unfold Expr.evaluate
  simp only [hParts, if_pos hAny]
  split
  · rename_i hSole
    obtain ⟨rfl, rfl⟩ := (mem_iff_of_soleRegion? hSole _ _).mp hMem
    rw [hRegion]
    rfl
  · rw [h.render]
    rfl

/-! ## Sound form -/

theorem EvaluationError.IsSyntactic.shift (h : e.IsSyntactic) (offset : Nat) :
    (e.shift offset).IsSyntactic := by
  cases e <;> exact h

theorem parseRegion_error {body : List Char} {offset : Nat} (h : parseRegion body offset = .error e) :
    e.IsSyntactic := by
  unfold parseRegion at h
  split at h
  · cases h
  · rename_i hParse
    cases h
    exact ((parse_yields body).of_error hParse).shift offset

/-- A region that has a value, or an error that is none of form, has been parsed. -/
theorem exists_parseRegion {body : List Char} {offset : Nat}
    (h : ∀ error, evalRegion ctx body offset = .error error → ¬ error.IsSyntactic) :
    ∃ e, parseRegion body offset = .ok e := by
  cases hParse : parseRegion body offset with
  | ok e => exact ⟨e, rfl⟩
  | error error =>
    have hRegion : evalRegion ctx body offset = .error error := by rw [evalRegion, hParse]
    exact absurd (parseRegion_error hParse) (h error hRegion)

theorem exists_parseRegion_of_value {body : List Char} {offset : Nat} {v : Json}
    (h : evalRegion ctx body offset = .ok v) : ∃ e, parseRegion body offset = .ok e :=
  exists_parseRegion fun error hError => by
    rw [h] at hError
    cases hError

theorem checkSegments_of_haveValues (h : HaveValues ctx parts) : checkSegments parts = .ok () := by
  induction parts with
  | nil => rfl
  | cons part parts ih =>
    cases part with
    | text cs => exact ih h.tail
    | region body offset =>
      obtain ⟨v, hRegion⟩ := h body offset List.mem_cons_self
      obtain ⟨e, hParse⟩ := exists_parseRegion_of_value hRegion
      simp only [checkSegments, hParse, ih h.tail]

/-- A region with an error that is none of form has sound form, as all before it. -/
theorem Halts.checkSegments (h : Halts ctx e parts back) (hError : ¬ e.IsSyntactic) :
    checkSegments parts = checkSegments back := by
  induction h with
  | here hRegion =>
    obtain ⟨e, hParse⟩ := exists_parseRegion fun error h => by
      rw [hRegion] at h
      cases h
      exact hError
    simp only [Expr.checkSegments, hParse]
  | text _ ih => exact ih
  | value hRegion _ ih =>
    obtain ⟨e, hParse⟩ := exists_parseRegion_of_value hRegion
    simp only [Expr.checkSegments, hParse, ih]

/-! ## Malformed templates that are taken for missing values -/

/-- The first region without a value has a path that leads nowhere, and a malformed region stands
behind it. -/
def Masked (ctx : DataContext) (text : String) : Prop :=
  ∃ parts path back, segments text.toList = .ok parts ∧
    Halts ctx (.undefinedPath path) parts back ∧ checkSegments back ≠ .ok ()

theorem Masked.evaluate (h : Masked ctx text) :
    ∃ path, evaluate ctx text = .error (.error (.undefinedPath path)) := by
  obtain ⟨parts, path, back, hParts, hHalts, -⟩ := h
  exact ⟨path, hHalts.evaluate hParts⟩

/-- A template that cannot be split has a region without an end, or crashes. -/
theorem segmentsFrom_error {position : Nat} {text cs : List Char} {fault : Fault}
    (h : segmentsFrom position text cs = .error fault) :
    fault = .crash ∨ ∃ opening, fault = .error (.unclosedRegion opening) := by
  fun_induction segmentsFrom position text cs with
  | case1 => cases h
  | case2 =>
    cases h
    exact .inl rfl
  | case3 position =>
    cases h
    exact .inr ⟨position, rfl⟩
  | case4 => cases h
  | case5 position text after body rest hFind error hError ih =>
    cases h
    exact ih hError
  | case6 position text c rest hNotOpen ih => exact ih h

theorem asFault_eq_ok_iff {α : Type} {r : Except EvaluationError α} {a : α} :
    asFault r = .ok a ↔ r = .ok a := by
  cases r <;> simp [asFault]

/-- The masked templates are the malformed ones that are evaluated to a value or to a path that leads
nowhere, and so taken for sound. -/
theorem masked_iff (ctx : DataContext) (text : String) :
    Masked ctx text ↔ checkTemplate text ≠ .ok () ∧
      ((∃ v, evaluate ctx text = .ok v) ∨
        ∃ path, evaluate ctx text = .error (.error (.undefinedPath path))) := by
  unfold checkTemplate
  constructor
  · intro hMasked
    refine ⟨?_, .inr hMasked.evaluate⟩
    obtain ⟨parts, path, back, hParts, hHalts, hBack⟩ := hMasked
    simpa [hParts, asFault_eq_ok_iff, hHalts.checkSegments nofun] using hBack
  · rintro ⟨hCheck, hMissing⟩
    cases hParts : segments text.toList with
    | error fault =>
      have hFault : evaluate ctx text = .error fault := by simp [evaluate, hParts]
      rw [hFault] at hMissing
      obtain ⟨v, hValue⟩ | ⟨path, hPath⟩ := hMissing
      · cases hValue
      · cases hPath
        rcases segmentsFrom_error hParts with hCrash | ⟨opening, hUnclosed⟩
        · cases hCrash
        · cases hUnclosed
    | ok parts =>
      rw [hParts] at hCheck
      simp only [ne_eq, asFault_eq_ok_iff] at hCheck
      rcases haveValues_or_halts ctx parts with hValues | ⟨e, back, hHalts⟩
      · exact absurd (checkSegments_of_haveValues hValues) hCheck
      · rw [hHalts.evaluate hParts] at hMissing
        obtain ⟨v, hValue⟩ | ⟨path, hPath⟩ := hMissing
        · cases hValue
        · cases hPath
          exact ⟨parts, path, back, hParts, hHalts, by rwa [← hHalts.checkSegments nofun]⟩

end

end Workflow.Expr
