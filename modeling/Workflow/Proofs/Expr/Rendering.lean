/-
Workflow.Proofs.Expr.Rendering — a template is rendered from left to right.

A template has the text of its front and then that of the rest: a character
that opens no region stands for itself, and a region for the text of its
value, wherever it stands. So two templates can be rendered one after the
other, unless a brace at the end of the first and one at the start of the
second make opening braces; all that the second template then loses is its
place, and no value depends on that.

The pieces of a template are the template cut up. Nothing is lost between
them, and all opening braces have become regions.

* `Renders` — the text of a template, character by character and region by
  region; `evaluateTemplate_eq_ok_iff`: it is what evaluation gives.
* `Renders.append` — two templates, one after the other.
* `CutUp` — pieces that a text has been cut up into, each region at its
  place; `cutUp_of_segments`: those of a template.
* `rendering_composes` — the main result.
-/
import Mathlib.Data.List.Basic
import Workflow.Proofs.Expr.Braces
import Workflow.Proofs.Expr.Split

namespace Workflow.Expr

/-! ## Templates from left to right -/

/-- Two characters at the front of a text are opening braces. -/
def OpensHere (c : Char) (rest : List Char) : Prop := c = '\x7b' ∧ rest.head? = some '\x7b'

/-- A template has a text: its characters and the texts of the values of its regions. -/
inductive Renders (ctx : DataContext) : List Char → List Char → Prop where
  | nil : Renders ctx [] []
  | char {c : Char} {rest out : List Char} :
    ¬ OpensHere c rest → Renders ctx rest out → Renders ctx (c :: rest) (c :: out)
  | region {after body rest out : List Char} {v : Json} :
    findClose none after = .closed body rest → evalRegion ctx body 0 = .ok v →
    Renders ctx rest out → Renders ctx ('\x7b' :: '\x7b' :: after) ((textOf v).toList ++ out)

section

variable {ctx : DataContext}

/-- Where a region stands is nothing to its value. -/
theorem evalRegion_eq_ok_iff {body : List Char} {offset : Nat} {v : Json} :
    evalRegion ctx body offset = .ok v ↔ evalRegion ctx body 0 = .ok v := by
  rw [← Nat.zero_add offset, evalRegion_add]
  cases evalRegion ctx body 0 <;> simp [Except.mapError]

theorem render_withText (text : List Char) (parts : List Segment) :
    render ctx (withText text parts) = (render ctx parts).map (text.reverse ++ ·) := by
  unfold withText
  cases text with
  | nil => cases h : render ctx parts <;> simp [h, Except.map]
  | cons c text =>
    simp only [List.isEmpty_cons, Bool.false_eq_true, if_false, render]
    cases render ctx parts <;> rfl

/-- The text of a template is made of what stands in hand and of the text of what is left. -/
theorem renders_of_render {position : Nat} {text cs out : List Char} {parts : List Segment}
    (hParts : segmentsFrom position text cs = .ok parts) (h : render ctx parts = .ok out) :
    ∃ more, out = text.reverse ++ more ∧ Renders ctx cs more := by
  fun_induction segmentsFrom position text cs generalizing parts out with
  | case1 position text =>
    cases hParts
    rw [render_withText] at h
    cases h
    exact ⟨[], rfl, .nil⟩
  | case2 | case3 | case5 => cases hParts
  | case4 position text after body rest hClose more hMore ih =>
    cases hParts
    rw [render_withText, render] at h
    cases hValue : evalRegion ctx body (position + 2) with
    | error e => simp [hValue, Except.map] at h
    | ok v =>
      cases hRest : render ctx more with
      | error e => simp [hValue, hRest, Except.map] at h
      | ok out' =>
        obtain ⟨out'', rfl, hRenders⟩ := ih hMore hRest
        simp only [hValue, hRest, Except.map, Except.ok.injEq] at h
        exact ⟨_, h.symm, .region hClose (evalRegion_eq_ok_iff.mp hValue) hRenders⟩
  | case6 position text c rest hNot ih =>
    obtain ⟨more, rfl, hRenders⟩ := ih hParts h
    refine ⟨c :: more, by simp, .char ?_ hRenders⟩
    rintro ⟨rfl, hSecond⟩
    obtain ⟨after, rfl⟩ := List.head?_eq_some_iff.mp hSecond
    exact hNot after rfl rfl

/-- A template that has a text can be cut up, and its pieces have that text. -/
theorem Renders.exists_render {cs out : List Char} (h : Renders ctx cs out) (position : Nat)
    (text : List Char) : ∃ parts, segmentsFrom position text cs = .ok parts ∧
      render ctx parts = .ok (text.reverse ++ out) := by
  induction h generalizing position text with
  | nil => exact ⟨withText text [], by rw [segmentsFrom], by rw [render_withText]; rfl⟩
  | @char c rest out hNot _ ih =>
    obtain ⟨parts, hParts, hRender⟩ := ih (position + c.utf8Size) (c :: text)
    refine ⟨parts, ?_, by simpa using hRender⟩
    rw [segmentsFrom]
    · exact hParts
    · rintro after rfl rfl
      exact hNot ⟨rfl, rfl⟩
  | @region after body rest out v hClose hValue _ ih =>
    obtain ⟨parts, hParts, hRender⟩ := ih (position + 4 + byteLength body) []
    refine ⟨withText text (.region body (position + 2) :: parts), ?_, ?_⟩
    · simp only [segmentsFrom_open, regionFrom, hClose, hParts]
    · rw [render_withText, render, evalRegion_eq_ok_iff.mpr hValue, hRender]
      rfl

theorem evaluateTemplate_eq_ok_iff {template out : String} :
    evaluateTemplate ctx template = .ok out ↔ Renders ctx template.toList out.toList := by
  unfold evaluateTemplate segments
  constructor
  · intro h
    cases hParts : segmentsFrom 0 [] template.toList with
    | error fault => simp [hParts] at h
    | ok parts =>
      cases hRender : render ctx parts with
      | error e => simp [hParts, hRender, Except.map, asFault] at h
      | ok cs =>
        obtain ⟨more, rfl, hRenders⟩ := renders_of_render hParts hRender
        simp only [hParts, hRender, Except.map, asFault, Except.ok.injEq] at h
        simpa [← h] using hRenders
  · intro h
    obtain ⟨parts, hParts, hRender⟩ := h.exists_render 0 []
    simp [hParts, hRender, Except.map, asFault]

/-! ## One template after the other -/

theorem FirstPair.append {α : Type} {x : α} {Free : List α → Prop} {cs before after : List α}
    (h : FirstPair x Free cs before after) (more : List α) :
    FirstPair x Free (cs ++ more) before (after ++ more) := by
  obtain ⟨⟨rfl, hFree⟩, hFirst⟩ := h
  refine ⟨⟨by simp, hFree⟩, fun before' after' hAt => Nat.le_of_not_lt fun hShorter => ?_⟩
  -- An earlier pair ends within the list, and so it is one of the list.
  have hEnds : before' ++ [x, x] <+: before ++ x :: x :: after := by
    have hWhole : before' ++ [x, x] <+: (before ++ x :: x :: after) ++ more :=
      ⟨after', by rw [hAt.eq]; simp⟩
    refine List.prefix_of_prefix_length_le hWhole (List.prefix_append _ _) ?_
    simp only [List.length_append, List.length_cons, List.length_nil]
    omega
  obtain ⟨after'', hEq⟩ := hEnds
  have hLe := hFirst before' after'' ⟨by rw [← hEq]; simp, hAt.free⟩
  omega

/-- The end of a region is found before anything that stands behind it is read. -/
theorem findClose_append {cs body rest : List Char} (h : findClose none cs = .closed body rest)
    (more : List Char) : findClose none (cs ++ more) = .closed body (rest ++ more) := by
  obtain ⟨hCloses, hPlain⟩ := findClose_eq_closed_iff.mp h
  exact findClose_eq_closed_iff.mpr ⟨hCloses.append more, hPlain⟩

/-- A brace at the end of a template and one at the start of the next. -/
def BraceMeetsBrace (as bs : List Char) : Prop :=
  as.getLast? = some '\x7b' ∧ bs.head? = some '\x7b'

/-- The induction goes along the first template; at its end the second one begins. -/
theorem Renders.append {as bs x y : List Char} (ha : Renders ctx as x) (hb : Renders ctx bs y)
    (hSeam : ¬ BraceMeetsBrace as bs) : Renders ctx (as ++ bs) (x ++ y) := by
  induction ha with
  | nil => exact hb
  | @char c rest out hNot _ ih =>
    have hLast {d : Char} (h : rest.getLast? = some d) : (c :: rest).getLast? = some d := by
      simp [List.getLast?_cons, h]
    refine .char ?_ (ih fun hMeets => hSeam ⟨hLast hMeets.1, hMeets.2⟩)
    rintro ⟨rfl, hSecond⟩
    cases rest with
    | nil => exact hSeam ⟨rfl, hSecond⟩
    | cons d rest => exact hNot ⟨rfl, hSecond⟩
  | @region after body rest out v hClose hValue _ ih =>
    have hLast {d : Char} (h : rest.getLast? = some d) :
        ('\x7b' :: '\x7b' :: after).getLast? = some d := by
      rw [(findClose_eq_closed_iff.mp hClose).1.eq]
      simp [List.getLast?_cons, List.getLast?_append, h]
    rw [List.append_assoc]
    exact .region (findClose_append hClose bs) hValue
      (ih fun hMeets => hSeam ⟨hLast hMeets.1, hMeets.2⟩)

end

/-! ## Pieces -/

/-- A piece as it is written in a template. -/
def Segment.written : Segment → List Char
  | .text cs => cs
  | .region body _ => '\x7b' :: '\x7b' :: (body ++ ['\x7d', '\x7d'])

/-- What is written in front of the body of a region that stands behind some pieces. -/
def inFront (before : List Segment) : List Char :=
  before.flatMap Segment.written ++ ['\x7b', '\x7b']

/-- A text is cut up into pieces: they are the text as it is written, no opening braces are left in
them, and every region is at the place of its body, in bytes behind a position. -/
structure CutUp (position : Nat) (cs : List Char) (parts : List Segment) : Prop where
  written : parts.flatMap Segment.written = cs
  closed : ∀ text, .text text ∈ parts → ¬ ['\x7b', '\x7b'] <:+: text
  place : ∀ before body offset after, parts = before ++ .region body offset :: after →
    offset = position + byteLength (inFront before)

theorem byteLength_append (as bs : List Char) :
    byteLength (as ++ bs) = byteLength as + byteLength bs := by
  induction as with
  | nil => simp [byteLength]
  | cons c as ih => rw [List.cons_append, byteLength_cons, byteLength_cons, ih, Nat.add_assoc]

section

variable {position : Nat} {front cs : List Char} {parts : List Segment}

/-- No opening braces stand in front of the first ones. -/
theorem Opens.not_infix {before after : List Char} (h : Opens cs before after) :
    ¬ ['\x7b', '\x7b'] <:+: before := by
  rintro ⟨front, back, rfl⟩
  have hLe := h.first front (back ++ '\x7b' :: '\x7b' :: after) ⟨by rw [h.eq]; simp, trivial⟩
  simp only [List.length_append, List.length_cons, List.length_nil] at hLe
  omega

theorem CutUp.nil (position : Nat) : CutUp position [] [] := ⟨rfl, nofun, fun before _ _ _ h => by
  cases before <;> cases h⟩

theorem CutUp.text (h : ¬ ['\x7b', '\x7b'] <:+: front)
    (hParts : CutUp (position + byteLength front) cs parts) :
    CutUp position (front ++ cs) (withText front.reverse parts) := by
  unfold withText
  cases front with
  | nil => simpa [byteLength] using hParts
  | cons c front =>
    rw [if_neg (by simp), List.reverse_reverse]
    refine ⟨by rw [List.flatMap_cons, hParts.written]; rfl, fun more hMem => ?_,
      fun before body offset after hEq => ?_⟩
    · rcases List.mem_cons.mp hMem with hFirst | hMore
      · cases hFirst
        exact h
      · exact hParts.closed more hMore
    · cases before with
      | nil => cases hEq
      | cons part before =>
        obtain ⟨rfl, hRest⟩ := List.cons.inj hEq
        rw [hParts.place before body offset after hRest, inFront, inFront, List.flatMap_cons,
          List.append_assoc, byteLength_append (Segment.written _), Segment.written, Nat.add_assoc]

theorem CutUp.region (body : List Char) (hParts : CutUp (position + 4 + byteLength body) cs parts) :
    CutUp position ('\x7b' :: '\x7b' :: (body ++ '\x7d' :: '\x7d' :: cs))
      (.region body (position + 2) :: parts) := by
  refine ⟨by simp [hParts.written, Segment.written], fun more hMem => ?_,
    fun before body' offset after hEq => ?_⟩
  · rcases List.mem_cons.mp hMem with hFirst | hMore
    · cases hFirst
    · exact hParts.closed more hMore
  · cases before with
    | nil =>
      cases hEq
      rfl
    | cons part before =>
      obtain ⟨rfl, hRest⟩ := List.cons.inj hEq
      have hBraces : byteLength ['\x7d', '\x7d'] = 2 := by decide
      have hOpen : '\x7b'.utf8Size = 1 := by decide
      rw [hParts.place before body' offset after hRest, inFront, inFront, List.flatMap_cons,
        List.append_assoc, byteLength_append (Segment.written _), Segment.written, byteLength_cons,
        byteLength_cons, byteLength_append body, hBraces, hOpen]
      omega

/-- The split takes one region after the other, and so does the induction. -/
theorem cutUp_of_segmentsFrom (h : segmentsFrom position [] cs = .ok parts) :
    CutUp position cs parts := by
  induction hLength : cs.length using Nat.strongRecOn generalizing position cs parts with
  | _ n ih =>
  subst hLength
  rw [segmentsFrom_eq] at h
  cases hCut : cutAtPair '\x7b' cs with
  | none =>
    rw [hCut] at h
    cases h
    have hNone : ¬ ['\x7b', '\x7b'] <:+: cs := by
      rintro ⟨front, back, rfl⟩
      exact not_pairAt_of_cutAtPair hCut front back ⟨by simp, trivial⟩
    simpa using CutUp.text hNone (.nil (position + byteLength cs))
  | some cut =>
    obtain ⟨before, after⟩ := cut
    have hOpens : Opens cs before after := firstPair_of_cutAtPair hCut
    rw [hCut] at h
    simp only [regionFrom] at h
    split at h
    · cases h
    · cases h
    · rename_i body rest hClose
      split at h
      · rename_i more hMore
        cases h
        obtain rfl := (findClose_eq_closed_iff.mp hClose).1.eq
        have hShorter : rest.length < cs.length := by
          rw [hOpens.eq]
          simp only [List.length_append, List.length_cons]
          omega
        have hRest := ih rest.length hShorter hMore rfl
        rw [hOpens.eq, List.append_nil]
        exact .text hOpens.not_infix (.region body hRest)
      · cases h

end

/-- Templates can be rendered one after the other, unless a brace at the end of one meets a brace at
the start of the next. And a template that can be split is cut up into its pieces. -/
theorem rendering_composes :
    (∀ (ctx : DataContext) (a b x y : String), evaluateTemplate ctx a = .ok x →
      evaluateTemplate ctx b = .ok y → ¬ BraceMeetsBrace a.toList b.toList →
      evaluateTemplate ctx (a ++ b) = .ok (x ++ y)) ∧
    ∀ (template : String) (parts : List Segment), segments template.toList = .ok parts →
      CutUp 0 template.toList parts := by
  refine ⟨fun ctx a b x y ha hb hSeam => ?_, fun template parts h => cutUp_of_segmentsFrom h⟩
  rw [evaluateTemplate_eq_ok_iff] at ha hb ⊢
  rw [String.toList_append, String.toList_append]
  exact ha.append hb hSeam

/-- A template that ends with a brace. -/
def openEnded : String := "é\x7b\x7b '\x7d\x7d' \x7d\x7d\x7b"

/-- A brace that is part of a text is rendered with it, and one at the end waits in vain. -/
theorem rendering_of_openEnded :
    evaluateTemplate quotedContext (openEnded ++ "n=\x7b\x7b !$json \x7d\x7d") =
        .ok ("é\x7d\x7d\x7b" ++ "n=false") ∧
      CutUp 0 openEnded.toList
        [.text ['é'], .region [' ', '\'', '\x7d', '\x7d', '\'', ' '] 4, .text ['\x7b']] :=
  ⟨rendering_composes.1 quotedContext openEnded _ _ _ (by decide +kernel) (by decide +kernel)
      fun h => absurd h.2 (by decide),
    rendering_composes.2 openEnded _ (by decide +kernel)⟩

end Workflow.Expr
