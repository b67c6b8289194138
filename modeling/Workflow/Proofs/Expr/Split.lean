/-
Workflow.Proofs.Expr.Split — which texts can be split into regions.

The evaluation of a template crashes only while the template is split, and
whether it does depends on the text alone: a region with a character of
several bytes outside quotation marks crashes whatever it is evaluated on.
A text of single bytes never does.

* `Splits` — a text that can be split.
* `evaluate_eq_crash_iff`, `evaluateCondition_eq_crash_iff`,
  `evaluateCollection_eq_crash_iff`, `evaluateTemplate_eq_crash_iff`,
  `checkTemplate_eq_crash_iff` — evaluation and check crash on the others.
* `splits_of_ascii` — texts of single bytes can be split.
-/
import Workflow.Expr.Template

namespace Workflow.Expr

/-- Whether a text can be split into its regions. -/
def Splits (text : String) : Prop := segments text.toList ≠ .error .crash

/-! ## Crashes depend on the text alone -/

theorem asFault_ne_crash {α : Type} (r : Except EvaluationError α) : asFault r ≠ .error .crash := by
  cases r <;> simp [asFault]

theorem evaluate_eq_crash_iff (ctx : DataContext) (text : String) :
    evaluate ctx text = .error .crash ↔ ¬ Splits text := by
  unfold evaluate Splits
  cases hParts : segments text.toList with
  | error fault => simp
  | ok parts =>
    simp only [ne_eq, reduceCtorEq, not_false_eq_true, not_true_eq_false, iff_false]
    split
    · split <;> exact asFault_ne_crash _
    · simp

/-- A text without braces has nothing to split. -/
theorem segmentsFrom_of_not_hasRegion {cs : List Char} (h : hasRegion cs = false) (position : Nat)
    (text : List Char) : segmentsFrom position text cs ≠ .error .crash := by
  fun_induction segmentsFrom position text cs with
  | case1 => simp
  | case2 position text after hFind => simp [hasRegion] at h
  | case3 position text after hFind => simp [hasRegion] at h
  | case4 position text after body rest hFind more hMore ih => simp [hasRegion] at h
  | case5 position text after body rest hFind e hError ih => simp [hasRegion] at h
  | case6 position text c rest hNotOpen ih =>
    refine ih ?_
    rw [hasRegion] at h
    · exact h
    · exact hNotOpen

theorem evaluateBare_eq_crash_iff (ctx : DataContext) (text : String) :
    evaluateBare ctx text = .error .crash ↔ ¬ Splits text := by
  unfold evaluateBare
  split
  · exact evaluate_eq_crash_iff ctx text
  · rename_i hNone
    have hSplits : Splits text :=
      segmentsFrom_of_not_hasRegion (by simpa using hNone) 0 []
    simp [hSplits, asFault_ne_crash]

theorem evaluateCondition_eq_crash_iff (ctx : DataContext) (text : String) :
    evaluateCondition ctx text = .error .crash ↔ ¬ Splits text := by
  rw [← evaluateBare_eq_crash_iff ctx]
  unfold evaluateCondition
  cases evaluateBare ctx text with
  | error fault => simp
  | ok v => cases v <;> simp

theorem evaluateCollection_eq_crash_iff (ctx : DataContext) (text : String) :
    evaluateCollection ctx text = .error .crash ↔ ¬ Splits text := by
  rw [← evaluateBare_eq_crash_iff ctx]
  unfold evaluateCollection
  cases evaluateBare ctx text with
  | error fault => simp
  | ok v => cases v <;> simp

theorem evaluateTemplate_eq_crash_iff (ctx : DataContext) (text : String) :
    evaluateTemplate ctx text = .error .crash ↔ ¬ Splits text := by
  unfold evaluateTemplate Splits
  cases segments text.toList with
  | error fault => simp
  | ok parts => simp [asFault_ne_crash]

theorem checkTemplate_eq_crash_iff (text : String) :
    checkTemplate text = .error .crash ↔ ¬ Splits text := by
  unfold checkTemplate Splits
  cases segments text.toList with
  | error fault => simp
  | ok parts => simp [asFault_ne_crash]

/-! ## Texts of single bytes -/

theorem findClose_ne_crash_of_ascii {quote : Option Char} {cs : List Char}
    (h : ∀ c ∈ cs, c.toNat < 128) : findClose quote cs ≠ .crash := by
  have hPush : ∀ c (e : RegionEnd), e ≠ .crash → e.push c ≠ .crash := by
    intro c e
    cases e <;> simp [RegionEnd.push]
  fun_induction findClose quote cs with
  | case1 | case2 | case8 => simp
  | case3 q d more ih =>
    exact hPush _ _ (hPush _ _ (ih fun c hc => h c (by simp [hc])))
  | case4 q more _ ih | case5 q d more _ _ ih | case6 d more _ ih | case9 c rest _ _ _ ih =>
    exact hPush _ _ (ih fun c hc => h c (by simp [hc]))
  | case7 d more _ hLarge =>
    have hSmall := h d (by simp)
    omega

/-- What follows a region is part of what has been searched. -/
theorem mem_of_findClose {quote : Option Char} {cs body rest : List Char}
    (h : findClose quote cs = .closed body rest) : ∀ c ∈ rest, c ∈ cs := by
  have hPush : ∀ c (e : RegionEnd) body rest, e.push c = .closed body rest →
      ∃ body', e = .closed body' rest := by
    intro c e body rest
    cases e <;> simp [RegionEnd.push]
  fun_induction findClose quote cs generalizing body with
  | case1 | case2 | case7 => cases h
  | case3 q d more ih =>
    obtain ⟨body', hOnce⟩ := hPush _ _ _ _ h
    obtain ⟨body'', hTwice⟩ := hPush _ _ _ _ hOnce
    exact fun c hc => by simp [ih hTwice c hc]
  | case4 q more _ ih | case5 q d more _ _ ih | case6 d more _ ih | case9 c rest _ _ _ ih =>
    obtain ⟨body', hOnce⟩ := hPush _ _ _ _ h
    exact fun c hc => by simp [ih hOnce c hc]
  | case8 more =>
    cases h
    exact fun c hc => by simp [hc]

theorem segmentsFrom_ne_crash_of_ascii {cs : List Char} (h : ∀ c ∈ cs, c.toNat < 128)
    (position : Nat) (text : List Char) : segmentsFrom position text cs ≠ .error .crash := by
  fun_induction segmentsFrom position text cs with
  | case1 => simp
  | case2 position text after hFind =>
    exact absurd hFind (findClose_ne_crash_of_ascii fun c hc => h c (by simp [hc]))
  | case3 => simp
  | case4 => simp
  | case5 position text after body rest hFind e hError ih =>
    have hRest := ih fun c hc => h c (by simp [mem_of_findClose hFind c hc])
    rw [hError] at hRest
    exact hRest
  | case6 position text c rest _ ih =>
    exact ih fun c hc => h c (by simp [hc])

/-- A text of single bytes can be split. -/
theorem splits_of_ascii {text : String} (h : ∀ c ∈ text.toList, c.toNat < 128) : Splits text :=
  segmentsFrom_ne_crash_of_ascii h 0 []

end Workflow.Expr
