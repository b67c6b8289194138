/-
Workflow.Proofs.Expr.Confinement — what an expression can see.

The value of an expression is put together from the values of some of its
parts: of all operands in front of the first error, of one branch of a
conditional, of the right side of a logical operator only where the left
does not decide. Data comes in at two places alone, at the roots and at the
clock of `Date.now`. So two contexts that agree on what the evaluation comes
to there give the same result, and what an expression does not name it
cannot see. A bare name is no way out: where the value of one is asked for,
the whole evaluation has an error.

* `Asks`, `Comes` — whose values an evaluation asks for, at once and in the
  end.
* `eval_congr`, `eval_eq_of_comes` — the value of an expression by those of
  the parts that it asks for, and by the data that it comes to.
* `roots`, `callsNow`, `AgreeOn` — the data that an expression names.
* `NamesBare`, `Asks.error` — bare names, and errors that are passed on.
* `evaluation_confined` — the main result.
-/
import Mathlib.Logic.Relation
import Workflow.Proofs.Expr.Regions

namespace Workflow.Expr

/-! ## Members and methods -/

section

/-- The expression is a bare name. -/
def IsName : Expr → Prop
  | .identifier _ => True
  | _ => False

variable (ctx : DataContext) {object : Expr} (hObject : ¬ object.IsName)

include hObject

theorem not_identifier (space : String) : object = .identifier space → False := by
  rintro rfl
  exact hObject trivial

theorem eval_member (property : String) : eval ctx (.member object property) =
    match eval ctx object with
    | .ok target => memberOf target property (path (.member object property))
    | .error e => .error e := by
  have hNot := not_identifier hObject
  rw [eval]
  all_goals first | exact hNot | rfl

theorem eval_method (method : String) (args : List Expr) :
    eval ctx (.call (.member object method) args) =
      match eval ctx object with
      | .error e => .error e
      | .ok target =>
        match evalAll ctx args with
        | .ok vs => callMethod target method vs
        | .error e => .error e := by
  have hNot := not_identifier hObject
  rw [eval]
  all_goals first | exact hNot | rfl

end

/-! ## Parts that are asked for -/

/-- What a call needs before its arguments: a function by its name, a namespace, or the value that has
the method. -/
inductive Ready (ctx : DataContext) : Expr → Prop where
  | global {function} (hKnown : globalFunctions.contains function = true) :
      Ready ctx (.identifier function)
  | space {space property} (hKnown : space = "Math" ∨ space = "Date") :
      Ready ctx (.member (.identifier space) property)
  | method {object property v} (hObject : ¬ object.IsName)
      (hValue : eval ctx object = .ok v) : Ready ctx (.member object property)

/-- The evaluation of an expression asks for the value of a part of it. -/
inductive Asks (ctx : DataContext) : Expr → Expr → Prop where
  | item {front e back vs} (hFront : evalAll ctx front = .ok vs) :
      Asks ctx (.array (front ++ e :: back)) e
  | object {object property} (hObject : ¬ object.IsName) :
      Asks ctx (.member object property) object
  | indexed {object key} : Asks ctx (.index object key) object
  | key {object key v} (hValue : eval ctx object = .ok v) : Asks ctx (.index object key) key
  | target {object method args} (hObject : ¬ object.IsName) :
      Asks ctx (.call (.member object method) args) object
  | argument {callee front e back vs} (hReady : Ready ctx callee)
      (hFront : evalAll ctx front = .ok vs) : Asks ctx (.call callee (front ++ e :: back)) e
  | operand {op operand} : Asks ctx (.unary op operand) operand
  | left {op left right} : Asks ctx (.binary op left right) left
  | right {op left right v} (hValue : eval ctx left = .ok v) :
      Asks ctx (.binary op left right) right
  | first {op left right} : Asks ctx (.logical op left right) left
  | second {op left right v} (hValue : eval ctx left = .ok v)
      (hOpen : truthy v = true ↔ op = .and) : Asks ctx (.logical op left right) right
  | test {test consequent alternate} : Asks ctx (.conditional test consequent alternate) test
  | consequent {test consequent alternate v} (hValue : eval ctx test = .ok v)
      (hTrue : truthy v = true) : Asks ctx (.conditional test consequent alternate) consequent
  | alternate {test consequent alternate v} (hValue : eval ctx test = .ok v)
      (hFalse : truthy v = false) : Asks ctx (.conditional test consequent alternate) alternate

/-- The evaluation of an expression comes to another one: it asks for its value, or for that of a part
whose evaluation comes to it. -/
def Comes (ctx : DataContext) : Expr → Expr → Prop := Relation.ReflTransGen (Asks ctx)

theorem sizeOf_lt_of_mem_append (front : List Expr) (e : Expr) (back : List Expr) :
    sizeOf e < sizeOf (front ++ e :: back) :=
  List.sizeOf_lt_of_mem (by simp)

/-- What is asked for is smaller. -/
theorem Asks.sizeOf_lt {ctx : DataContext} {e t : Expr} (h : Asks ctx e t) :
    sizeOf t < sizeOf e := by
  cases h with
  | @item front _ back _ _ | @argument _ front _ back _ _ _ =>
    have := sizeOf_lt_of_mem_append front t back
    simp
    omega
  | _ =>
    simp
    try omega

/-! ## Results -/

section

variable {c₁ c₂ : DataContext} {e : Expr}

/-- Expressions come out alike if each does that is come to. -/
theorem evalAll_congr {es : List Expr} (h : ∀ front e back vs, es = front ++ e :: back →
    evalAll c₁ front = .ok vs → eval c₁ e = eval c₂ e) : evalAll c₁ es = evalAll c₂ es := by
  induction es with
  | nil => simp [evalAll]
  | cons e rest ih =>
    have hFirst := h [] e rest [] rfl (by rw [evalAll])
    rw [evalAll, evalAll, ← hFirst]
    cases hValue : eval c₁ e with
    | error err => rfl
    | ok v =>
      have hRest : evalAll c₁ rest = evalAll c₂ rest := by
        refine ih fun front t back vs hSplit hFront => ?_
        refine h (e :: front) t back (v :: vs) (by rw [hSplit]; rfl) ?_
        rw [evalAll, hValue, hFront]
      simp only [hRest]

/-- Only `now` looks at the clock. -/
theorem callDate_congr {name : String} (args : List Json) {now₁ now₂ : Instant}
    (h : name = "now" → now₁ = now₂) : callDate name args now₁ = callDate name args now₂ := by
  by_cases hName : name = "now"
  · rw [h hName]
  · unfold callDate
    dsimp only
    split
    · contradiction
    · rfl
    · rfl
    · rfl

/-- A call of the clock. -/
def nowCall (args : List Expr) : Expr := .call (.member (.identifier "Date") "now") args

/-- An expression comes out alike in two contexts if the parts do that its evaluation asks for, and if
the contexts agree on the data at its head. -/
theorem eval_congr (hAsked : ∀ t, Asks c₁ e t → eval c₁ t = eval c₂ t)
    (hRoot : ∀ n, e = .root n → c₁.root? n = c₂.root? n)
    (hNow : ∀ args, e = nowCall args → c₁.now = c₂.now) : eval c₁ e = eval c₂ e := by
  -- no induction: the parts are related by hypothesis, so one unfolding is enough
  cases e with
  | literal v => simp only [eval]
  | array items =>
    have hItems : evalAll c₁ items = evalAll c₂ items :=
      evalAll_congr fun front t back vs hSplit hFront => hAsked t (hSplit ▸ .item hFront)
    simp only [eval, hItems]
  | root n => simp only [eval, hRoot n rfl]
  | identifier n => simp only [eval]
  | member object property =>
    cases object with
    | identifier space => simp only [eval]
    | _ =>
      have hObject := hAsked _ (.object id)
      rw [eval_member c₁ id, eval_member c₂ id, hObject]
  | index object key =>
    have hObject := hAsked _ .indexed
    rw [eval, eval, ← hObject]
    cases hValue : eval c₁ object with
    | error err => rfl
    | ok v =>
      have hKey := hAsked _ (.key hValue)
      simp only [hKey]
  | call callee args =>
    have hArgs (hReady : Ready c₁ callee) : evalAll c₁ args = evalAll c₂ args :=
      evalAll_congr fun front t back vs hSplit hFront =>
        hAsked t (hSplit ▸ .argument hReady hFront)
    cases callee with
    | identifier function =>
      rw [eval, eval]
      split
      · rename_i hKnown
        rw [hArgs (.global hKnown)]
      · rfl
    | member object method =>
      cases object with
      | identifier space =>
        rw [eval, eval]
        split
        · rename_i hMath
          rw [hArgs (.space (.inl hMath))]
        · split
          · rename_i hDate
            rw [hArgs (.space (.inr hDate))]
            split
            · refine callDate_congr _ fun hName => hNow args ?_
              rw [hDate, hName]
              rfl
            · rfl
          · rfl
      | _ =>
        have hObject := hAsked _ (.target id)
        rw [eval_method c₁ id, eval_method c₂ id, ← hObject]
        split
        · rfl
        · rename_i hValue
          rw [hArgs (.method id hValue)]
    | _ =>
      rw [eval, eval]
      all_goals
        intros
        contradiction
  | unary op operand =>
    have hOperand := hAsked _ .operand
    simp only [eval, hOperand]
  | binary op left right =>
    have hLeft := hAsked _ .left
    rw [eval, eval, ← hLeft]
    cases hValue : eval c₁ left with
    | error err => rfl
    | ok v =>
      have hRight := hAsked _ (.right hValue)
      simp only [hRight]
  | logical op left right =>
    have hLeft := hAsked _ .first
    rw [eval, eval, ← hLeft]
    cases hValue : eval c₁ left with
    | error err => rfl
    | ok v =>
      have hRight (hOpen : truthy v = true ↔ op = .and) := hAsked _ (.second hValue hOpen)
      cases op <;> cases hTruth : truthy v <;> simp [hTruth] at hRight ⊢ <;> exact hRight
  | conditional test consequent alternate =>
    have hTest := hAsked _ .test
    rw [eval, eval, ← hTest]
    cases hValue : eval c₁ test with
    | error err => rfl
    | ok v =>
      cases hTruth : truthy v with
      | true => simpa [hTruth] using hAsked _ (.consequent hValue hTruth)
      | false => simpa [hTruth] using hAsked _ (.alternate hValue hTruth)

/-- An expression comes out alike in two contexts that agree on the roots that its evaluation comes to,
and on the clock if it comes to a call of it. -/
theorem eval_eq_of_comes (e : Expr)
    (hRoots : ∀ n, Comes c₁ e (.root n) → c₁.root? n = c₂.root? n)
    (hNow : ∀ args, Comes c₁ e (nowCall args) → c₁.now = c₂.now) : eval c₁ e = eval c₂ e := by
  refine eval_congr (fun t hAsk => ?_) (fun n hRoot => ?_) (fun args hCall => ?_)
  · have := hAsk.sizeOf_lt
    exact eval_eq_of_comes t (fun n hComes => hRoots n (hComes.head hAsk))
      fun args hComes => hNow args (hComes.head hAsk)
  · exact hRoots n (hRoot ▸ .refl)
  · exact hNow args (hCall ▸ .refl)
termination_by sizeOf e

end

/-! ## Data that is named -/

mutual

/-- The roots that are named in an expression. -/
def roots : Expr → List String
  | .literal _ | .identifier _ => []
  | .root name => [name]
  | .array items => rootsOfAll items
  | .member object _ => roots object
  | .index object key => roots object ++ roots key
  | .call callee args => roots callee ++ rootsOfAll args
  | .unary _ operand => roots operand
  | .binary _ left right => roots left ++ roots right
  | .logical _ left right => roots left ++ roots right
  | .conditional test consequent alternate => roots test ++ roots consequent ++ roots alternate

/-- The roots that are named in expressions. -/
def rootsOfAll : List Expr → List String
  | [] => []
  | e :: rest => roots e ++ rootsOfAll rest

end

/-- The clock, as the callee of a call. -/
def isNow : Expr → Bool
  | .member (.identifier space) property => space == "Date" && property == "now"
  | _ => false

mutual

/-- Whether a call of the clock is in an expression. -/
def callsNow : Expr → Bool
  | .literal _ | .identifier _ | .root _ => false
  | .array items => anyCallsNow items
  | .member object _ => callsNow object
  | .index object key => callsNow object || callsNow key
  | .call callee args => isNow callee || callsNow callee || anyCallsNow args
  | .unary _ operand => callsNow operand
  | .binary _ left right => callsNow left || callsNow right
  | .logical _ left right => callsNow left || callsNow right
  | .conditional test consequent alternate =>
    callsNow test || callsNow consequent || callsNow alternate

/-- Whether a call of the clock is in one of some expressions. -/
def anyCallsNow : List Expr → Bool
  | [] => false
  | e :: rest => callsNow e || anyCallsNow rest

end

theorem mem_rootsOfAll {name : String} {es : List Expr} :
    name ∈ rootsOfAll es ↔ ∃ e ∈ es, name ∈ e.roots := by
  induction es with
  | nil => simp [rootsOfAll]
  | cons e rest ih => simp [rootsOfAll, ih]

theorem anyCallsNow_iff {es : List Expr} :
    anyCallsNow es = true ↔ ∃ e ∈ es, e.callsNow = true := by
  induction es with
  | nil => simp [anyCallsNow]
  | cons e rest ih => simp [anyCallsNow, ih]

/-- Two contexts agree on the data that an expression names. -/
structure AgreeOn (e : Expr) (c₁ c₂ : DataContext) : Prop where
  roots : ∀ name ∈ e.roots, c₁.root? name = c₂.root? name
  clock : e.callsNow = true → c₁.now = c₂.now

variable {ctx : DataContext} {e t : Expr}

/-- What is asked for names no more. -/
theorem Asks.named (h : Asks ctx e t) :
    (∀ name ∈ t.roots, name ∈ e.roots) ∧ (t.callsNow = true → e.callsNow = true) := by
  cases h with
  | item | argument =>
    constructor
    · intro name hMem
      simp only [Expr.roots, List.mem_append, mem_rootsOfAll]
      grind
    · intro hCalls
      simp only [callsNow, Bool.or_eq_true, anyCallsNow_iff]
      grind
  | _ =>
    constructor
    · intro name hMem
      simp only [Expr.roots, List.mem_append]
      grind
    · intro hCalls
      simp only [callsNow, Bool.or_eq_true]
      grind

theorem Comes.named (h : Comes ctx e t) :
    (∀ name ∈ t.roots, name ∈ e.roots) ∧ (t.callsNow = true → e.callsNow = true) := by
  induction h with
  | refl => exact ⟨fun _ => id, id⟩
  | tail _ hAsk ih =>
    obtain ⟨hRoots, hCalls⟩ := hAsk.named
    exact ⟨fun name hMem => ih.1 name (hRoots name hMem), fun hNow => ih.2 (hCalls hNow)⟩

/-- An expression comes out alike in two contexts that agree on the data that it names. -/
theorem AgreeOn.eval_eq {c₁ c₂ : DataContext} (h : AgreeOn e c₁ c₂) : eval c₁ e = eval c₂ e := by
  refine eval_eq_of_comes e (fun n hComes => h.roots n ?_) fun args hComes => h.clock ?_
  · exact hComes.named.1 n (by simp [Expr.roots])
  · exact hComes.named.2 (by simp [nowCall, callsNow, isNow])

/-! ## Texts -/

/-- The expressions of the regions of pieces. -/
def treesOf (parts : List Segment) : List Expr :=
  parts.filterMap fun
    | .text _ => none
    | .region body offset => (parseRegion body offset).toOption

/-- The expressions of a template. -/
def trees (template : String) : List Expr :=
  match segments template.toList with
  | .ok parts => treesOf parts
  | .error _ => []

/-- The expressions of a text that may leave its braces out. -/
def bareTrees (text : String) : List Expr :=
  if hasRegion text.toList then trees text else (parseRegion text.toList 0).toOption.toList

section

variable {c₁ c₂ : DataContext} {parts : List Segment} {text : String}

theorem evalRegion_congr {body : List Char} {offset : Nat}
    (h : ∀ e, parseRegion body offset = .ok e → AgreeOn e c₁ c₂) :
    evalRegion c₁ body offset = evalRegion c₂ body offset := by
  unfold evalRegion
  split
  · rename_i e hParse
    exact (h e hParse).eval_eq
  · rfl

theorem evalRegion_congr_of_mem (h : ∀ e ∈ treesOf parts, AgreeOn e c₁ c₂) {body : List Char}
    {offset : Nat} (hMem : .region body offset ∈ parts) :
    evalRegion c₁ body offset = evalRegion c₂ body offset :=
  evalRegion_congr fun e hParse =>
    h e (List.mem_filterMap.mpr ⟨_, hMem, by simp [hParse, Except.toOption]⟩)

theorem render_congr (h : ∀ e ∈ treesOf parts, AgreeOn e c₁ c₂) :
    render c₁ parts = render c₂ parts := by
  have hRegions : ∀ body offset, .region body offset ∈ parts →
      evalRegion c₁ body offset = evalRegion c₂ body offset :=
    fun body offset => evalRegion_congr_of_mem h
  clear h
  induction parts with
  | nil => rfl
  | cons part parts ih =>
    have hRest := ih fun body offset hMem =>
      hRegions body offset (List.mem_cons_of_mem part hMem)
    cases part with
    | text cs => simp only [render, hRest]
    | region body offset => simp only [render, hRest, hRegions body offset List.mem_cons_self]

theorem evaluateTemplate_congr (h : ∀ e ∈ trees text, AgreeOn e c₁ c₂) :
    evaluateTemplate c₁ text = evaluateTemplate c₂ text := by
  unfold evaluateTemplate
  unfold trees at h
  cases hParts : segments text.toList with
  | error fault => rfl
  | ok parts =>
    rw [hParts] at h
    simp only [render_congr h]

theorem evaluate_congr (h : ∀ e ∈ trees text, AgreeOn e c₁ c₂) :
    evaluate c₁ text = evaluate c₂ text := by
  unfold evaluate
  unfold trees at h
  cases hParts : segments text.toList with
  | error fault => rfl
  | ok parts =>
    rw [hParts] at h
    dsimp only at h ⊢
    split
    · split
      · rename_i hSole
        rw [evalRegion_congr_of_mem h ((mem_iff_of_soleRegion? hSole _ _).mpr ⟨rfl, rfl⟩)]
      · rw [render_congr h]
    · rfl

theorem evaluateBare_congr (h : ∀ e ∈ bareTrees text, AgreeOn e c₁ c₂) :
    evaluateBare c₁ text = evaluateBare c₂ text := by
  unfold evaluateBare
  unfold bareTrees at h
  split
  · rename_i hRegion
    rw [if_pos hRegion] at h
    exact evaluate_congr h
  · rename_i hRegion
    rw [if_neg hRegion] at h
    rw [evalRegion_congr fun e hParse => h e (by simp [hParse, Except.toOption])]

end

/-! ## Bare names -/

/-- A bare name stands at the head of an expression where only a value, a function or a namespace is of
use, and is none of these. -/
inductive NamesBare : Expr → String → Prop where
  | value {n} : NamesBare (.identifier n) n
  | space {n property} (hUnknown : n ≠ "Math") : NamesBare (.member (.identifier n) property) n
  | function {n args} (hUnknown : globalFunctions.contains n = false) :
      NamesBare (.call (.identifier n) args) n
  | method {n property args} (hUnknown : n ≠ "Math" ∧ n ≠ "Date") :
      NamesBare (.call (.member (.identifier n) property) args) n

/-- The error says that nobody knows a name, or a member of it. -/
inductive EvaluationError.Rejects (name : String) : EvaluationError → Prop where
  | identifier : Rejects name (.unknownIdentifier name)
  | member {property} : Rejects name (.unknownIdentifier (name ++ "." ++ property))
  | function : Rejects name (.unknownFunction name)
  | method {property} : Rejects name (.unknownFunction (name ++ "." ++ property))

/-- A bare name has no value. -/
theorem NamesBare.error {name : String} (h : NamesBare e name) :
    ∃ err, eval ctx e = .error err ∧ err.Rejects name := by
  cases h with
  | value => exact ⟨_, by rw [eval], .identifier⟩
  | space hUnknown => exact ⟨_, by rw [eval, if_neg hUnknown], .member⟩
  | function hUnknown => exact ⟨_, by rw [eval, hUnknown]; rfl, .function⟩
  | method hUnknown =>
    exact ⟨_, by rw [eval, if_neg hUnknown.1, if_neg hUnknown.2], .method⟩

theorem evalAll_error {front : List Expr} {vs : List Json} (back : List Expr)
    {err : EvaluationError} (hFront : evalAll ctx front = .ok vs) (h : eval ctx e = .error err) :
    evalAll ctx (front ++ e :: back) = .error err := by
  induction front generalizing vs with
  | nil => rw [List.nil_append, evalAll, h]
  | cons first front ih =>
    rw [evalAll] at hFront
    split at hFront
    · cases hFront
    · rename_i v hFirst
      split at hFront
      · cases hFront
      · rename_i rest hRest
        rw [List.cons_append, evalAll, hFirst, ih hRest]

/-- The first error of a part that is asked for is that of the whole. -/
theorem Asks.error (h : Asks ctx e t) {err : EvaluationError} (hError : eval ctx t = .error err) :
    eval ctx e = .error err := by
  cases h with
  | item hFront => rw [eval, evalAll_error _ hFront hError]
  | object hObject => rw [eval_member ctx hObject, hError]
  | indexed => rw [eval, hError]
  | key hValue => rw [eval, hValue, hError]
  | target hObject => rw [eval_method ctx hObject, hError]
  | argument hReady hFront =>
    have hArgs := fun back => evalAll_error back hFront hError
    cases hReady with
    | global hKnown => rw [eval, hKnown, hArgs]; rfl
    | space hKnown =>
      rcases hKnown with rfl | rfl
      · rw [eval, hArgs]
        rfl
      · rw [eval, hArgs]
        rfl
    | method hObject hValue => rw [eval_method ctx hObject, hValue, hArgs]
  | operand => rw [eval, hError]
  | left => rw [eval, hError]
  | right hValue => rw [eval, hValue, hError]
  | first => rw [eval, hError]
  | @second op _ _ v hValue hOpen =>
    cases op with
    | and =>
      have hTruth : truthy v = true := hOpen.mpr rfl
      simp [eval, hValue, hTruth, hError]
    | or =>
      have hTruth : truthy v = false := by
        rw [← Bool.not_eq_true]
        intro hTrue
        cases hOpen.mp hTrue
      simp [eval, hValue, hTruth, hError]
  | test => rw [eval, hError]
  | consequent hValue hTrue => simp [eval, hValue, hTrue, hError]
  | alternate hValue hFalse => simp [eval, hValue, hFalse, hError]

theorem Comes.error (h : Comes ctx e t) {err : EvaluationError} (hError : eval ctx t = .error err) :
    eval ctx e = .error err := by
  induction h with
  | refl => exact hError
  | tail _ hAsk ih => exact ih (hAsk.error hError)

/-- What an expression can see: it comes out alike in all contexts that agree on the roots that it names
and, if it calls the clock, on the time; so it always comes out the same if it does neither. The same
holds of texts with expressions in them. An evaluation that comes to a bare name, other than a known
function or namespace, has an error about that name. -/
theorem evaluation_confined :
    (∀ e c₁ c₂, AgreeOn e c₁ c₂ → eval c₁ e = eval c₂ e) ∧
    (∀ e : Expr, e.roots = [] → e.callsNow = false → ∀ c₁ c₂, eval c₁ e = eval c₂ e) ∧
    (∀ text c₁ c₂, (∀ e ∈ trees text, AgreeOn e c₁ c₂) →
      evaluate c₁ text = evaluate c₂ text ∧
        evaluateTemplate c₁ text = evaluateTemplate c₂ text) ∧
    (∀ text c₁ c₂, (∀ e ∈ bareTrees text, AgreeOn e c₁ c₂) →
      evaluateCondition c₁ text = evaluateCondition c₂ text ∧
        evaluateCollection c₁ text = evaluateCollection c₂ text) ∧
    ∀ ctx e t name, Comes ctx e t → NamesBare t name →
      ∃ err, eval ctx e = .error err ∧ err.Rejects name := by
  refine ⟨fun e c₁ c₂ => AgreeOn.eval_eq, ?_, ?_, ?_, ?_⟩
  · intro e hRoots hClock c₁ c₂
    refine AgreeOn.eval_eq ⟨fun name hMem => ?_, fun hCalls => ?_⟩
    · rw [hRoots] at hMem
      cases hMem
    · rw [hClock] at hCalls
      cases hCalls
  · exact fun text c₁ c₂ hAgree => ⟨evaluate_congr hAgree, evaluateTemplate_congr hAgree⟩
  · intro text c₁ c₂ hAgree
    unfold evaluateCondition evaluateCollection
    rw [evaluateBare_congr hAgree]
    exact ⟨rfl, rfl⟩
  · intro ctx e t name hComes hBare
    obtain ⟨err, hError, hRejects⟩ := hBare.error
    exact ⟨err, hComes.error hError, hRejects⟩

/-- A context with an item, outputs of steps and a time. -/
def itemContext (item : Json) (node : Dict Json) (now : Instant) : DataContext where
  json := item
  node := node
  context := []
  workflow := .null
  execution := .null
  now := now

/-- Two contexts with the same item, and nothing else in common. -/
theorem agreeOn_item {e : Expr} (hRoots : e.roots.all (· == "json") = true)
    (hClock : e.callsNow = false) : AgreeOn e (itemContext (.str "Ada") [] ⟨0, 0⟩)
      (itemContext (.str "Ada") [("a", .null)] ⟨1, 0⟩) where
  roots name hMem := by
    obtain rfl : name = "json" := by simpa using List.all_eq_true.mp hRoots name hMem
    rfl
  clock hCalls := by
    rw [hClock] at hCalls
    cases hCalls

/-- A call that would leave the process, behind an operand that does not decide. -/
def escape : Expr :=
  .logical .or (.literal (.bool false)) (.call (.member (.identifier "process") "exit") [])

/-- An item is all that a text about it can see, and the process is out of reach. -/
theorem confined_to_item :
    (let here := itemContext (.str "Ada") [] ⟨0, 0⟩
    let there := itemContext (.str "Ada") [("a", .null)] ⟨1, 0⟩
    eval here (.root "json") = eval there (.root "json") ∧
      eval here (.call (.identifier "len") [.literal (.str "Ada")]) =
        eval there (.call (.identifier "len") [.literal (.str "Ada")]) ∧
      evaluateTemplate here "Hello, \x7b\x7b $json \x7d\x7d!" =
        evaluateTemplate there "Hello, \x7b\x7b $json \x7d\x7d!" ∧
      evaluateCondition here "$json == 'Ada'" = evaluateCondition there "$json == 'Ada'" ∧
      ∃ err, eval here escape = .error err ∧ err.Rejects "process") := by
  have hTemplate : (trees "Hello, \x7b\x7b $json \x7d\x7d!").all
      (fun e => e.roots.all (· == "json") && !e.callsNow) = true := by
    decide +kernel
  have hCondition : (bareTrees "$json == 'Ada'").all
      (fun e => e.roots.all (· == "json") && !e.callsNow) = true := by
    decide +kernel
  simp only [List.all_eq_true, Bool.and_eq_true, Bool.not_eq_true'] at hTemplate hCondition
  obtain ⟨hTree, hConstant, hText, hBare, hNames⟩ := evaluation_confined
  refine ⟨hTree _ _ _ (agreeOn_item rfl rfl), hConstant _ rfl rfl _ _, ?_, ?_, ?_⟩
  · exact (hText _ _ _ fun e hMem =>
      agreeOn_item (List.all_eq_true.mpr (hTemplate e hMem).1) (hTemplate e hMem).2).2
  · exact (hBare _ _ _ fun e hMem =>
      agreeOn_item (List.all_eq_true.mpr (hCondition e hMem).1) (hCondition e hMem).2).1
  · refine hNames _ _ _ _ (.single (.second (v := .bool false) (by rw [eval]) ?_)) (.method ?_)
    · decide
    · decide

end Workflow.Expr
