/-
Workflow.Proofs.Expr.Outcome — evaluation finds no fault with form.

Once a text has been parsed, its form is settled. Whatever goes wrong when
the tree is evaluated is about values: a name that nobody knows, a path
that leads nowhere, a type that does not fit, a number out of range. So
positions in the text, which only errors of form carry, come from the parse
alone.

* `EvaluationError.IsOfForm`, `OfValues` — errors of form, and outcomes that
  have none.
* `OfValues.bind` — outcomes one after the other; with it, one lemma for
  each function that expressions may call.
* `eval_ofValues` — the main result.
-/
import Workflow.Expr.Interpreter

namespace Workflow.Expr

/-- The error says that a text has no sound form. -/
def EvaluationError.IsOfForm : EvaluationError → Prop
  | .badSyntax _ _ | .unclosedRegion _ => True
  | _ => False

/-- An outcome is no error of form. -/
structure OfValues {α : Type} (outcome : Except EvaluationError α) : Prop where
  not_form : ∀ e, outcome = .error e → ¬ e.IsOfForm

section

variable {α β : Type}

theorem OfValues.ok (a : α) : OfValues (.ok a) := ⟨nofun⟩

theorem OfValues.error {e : EvaluationError} (h : ¬ e.IsOfForm) :
    OfValues (.error e : Except EvaluationError α) := by
  refine ⟨?_⟩
  rintro e' hError
  cases hError
  exact h

theorem OfValues.bind {outcome : Except EvaluationError α} {f : α → Except EvaluationError β}
    (h : OfValues outcome) (hf : ∀ a, OfValues (f a)) : OfValues (outcome >>= f) := by
  cases outcome with
  | ok a => exact hf a
  | error e => exact .error (h.not_form e rfl)

/-- An error stays what it is when it is passed on. -/
theorem OfValues.of_error {outcome : Except EvaluationError α} (h : OfValues outcome)
    {e : EvaluationError} (hError : outcome = .error e) :
    OfValues (.error e : Except EvaluationError β) :=
  .error (h.not_form e hError)

end

/-! ## Arguments -/

theorem ofValues_argumentError {α : Type} (function : String) (problem : ArgumentProblem) :
    OfValues (argumentError (α := α) function problem) :=
  .error id

theorem ofValues_asNumber (v : Json) (what : String) : OfValues (asNumber v what) := by
  unfold asNumber
  split
  · exact .ok _
  · exact .error id

theorem ofValues_asText (v : Json) (what : String) : OfValues (asText v what) := by
  unfold asText
  split
  · exact .ok _
  · exact .error id

theorem ofValues_asNumbers (what : String) (vs : List Json) : OfValues (asNumbers what vs) := by
  induction vs with
  | nil => exact .ok _
  | cons v rest ih => exact (ofValues_asNumber v what).bind fun x => ih.bind fun xs => .ok _

theorem ofValues_checkCount (function : String) (args : List Json) (least most : Nat) :
    OfValues (checkCount function args least most) := by
  unfold checkCount
  split
  · exact ofValues_argumentError ..
  · exact .ok _

theorem ofValues_oneArgument (function : String) (args : List Json) :
    OfValues (oneArgument function args) := by
  unfold oneArgument
  split
  · exact .ok _
  · exact ofValues_argumentError ..

theorem ofValues_oneOrTwoArguments (function : String) (args : List Json) :
    OfValues (oneOrTwoArguments function args) := by
  unfold oneOrTwoArguments
  split
  · exact .ok _
  · exact .ok _
  · exact ofValues_argumentError ..

theorem ofValues_twoArguments (function : String) (args : List Json) :
    OfValues (twoArguments function args) := by
  unfold twoArguments
  split
  · exact .ok _
  · exact ofValues_argumentError ..

theorem ofValues_optionalArgument (function : String) (args : List Json) :
    OfValues (optionalArgument function args) := by
  unfold optionalArgument
  split
  · exact .ok _
  · exact .ok _
  · exact ofValues_argumentError ..

theorem ofValues_numericOperands (function : String) (args : List Json) :
    OfValues (numericOperands function args) := by
  unfold numericOperands
  split
  all_goals
    dsimp only
    split
    · exact ofValues_argumentError ..
    · exact ofValues_asNumbers ..

theorem ofValues_numberResult (x : Float) : OfValues (numberResult x) := by
  unfold numberResult
  split
  · exact .ok _
  · split
    · exact .ok _
    · exact .error id

/-! ## Functions -/

theorem ofValues_numberOfText (function text : String) : OfValues (numberOfText function text) := by
  unfold numberOfText
  split
  · exact .ok _
  · exact ofValues_argumentError ..

theorem ofValues_lengthOf (v : Json) : OfValues (lengthOf v) := by
  cases v <;> first | exact .ok _ | exact .error id

theorem ofValues_integerOf (v : Json) : OfValues (integerOf v) := by
  cases v with
  | num n => exact ofValues_numberResult _
  | bool b => exact ofValues_numberResult _
  | str s => exact (ofValues_numberOfText ..).bind fun x => ofValues_numberResult _
  | _ => exact .error id

theorem ofValues_floatOf (v : Json) : OfValues (floatOf v) := by
  cases v with
  | num n => exact ofValues_numberResult _
  | str s => exact (ofValues_numberOfText ..).bind fun x => ofValues_numberResult _
  | _ => exact .error id

theorem ofValues_sumOf (v : Json) : OfValues (sumOf v) := by
  cases v with
  | arr items => exact (ofValues_asNumbers ..).bind fun xs => ofValues_numberResult _
  | _ => exact .error id

theorem ofValues_callGlobal (name : String) (args : List Json) :
    OfValues (callGlobal name args) := by
  unfold callGlobal
  split
  case h_1 => exact (ofValues_oneArgument ..).bind fun v => ofValues_lengthOf v
  case h_2 => exact (ofValues_oneArgument ..).bind fun v => .ok _
  case h_3 => exact (ofValues_oneArgument ..).bind fun v => ofValues_integerOf v
  case h_4 => exact (ofValues_oneArgument ..).bind fun v => ofValues_floatOf v
  case h_5 => exact (ofValues_oneArgument ..).bind fun v => .ok _
  case h_6 => exact (ofValues_oneArgument ..).bind fun v => ofValues_sumOf v
  case h_7 => exact (ofValues_numericOperands ..).bind fun xs => ofValues_numberResult _
  case h_8 => exact (ofValues_numericOperands ..).bind fun xs => ofValues_numberResult _
  case h_9 =>
    refine (ofValues_oneArgument ..).bind fun v => ?_
    exact (ofValues_asNumber ..).bind fun x => ofValues_numberResult _
  case h_10 =>
    refine (ofValues_oneOrTwoArguments ..).bind fun vw => ?_
    refine (ofValues_asNumber ..).bind fun x => ?_
    dsimp only
    split
    · exact (ofValues_asNumber ..).bind fun d => ofValues_numberResult _
    · exact ofValues_numberResult _
  case h_11 => exact .error id

theorem ofValues_mathConstant (name : String) : OfValues (mathConstant name) := by
  unfold mathConstant
  split
  · exact ofValues_numberResult _
  · exact ofValues_numberResult _
  · exact .error id

theorem ofValues_numberFunction (function : String) (f : Float → Float) (args : List Json) :
    OfValues (numberFunction function f args) := by
  refine (ofValues_oneArgument ..).bind fun v => ?_
  exact (ofValues_asNumber ..).bind fun x => ofValues_numberResult _

theorem ofValues_callMath (name : String) (args : List Json) : OfValues (callMath name args) := by
  unfold callMath
  dsimp only
  split
  case h_1 | h_2 | h_3 | h_4 => exact ofValues_numberFunction ..
  case h_5 =>
    refine (ofValues_oneArgument ..).bind fun v => (ofValues_asNumber ..).bind fun x => ?_
    split
    · exact ofValues_argumentError ..
    · exact ofValues_numberResult _
  case h_6 =>
    refine (ofValues_twoArguments ..).bind fun vw => (ofValues_asNumber ..).bind fun base => ?_
    exact (ofValues_asNumber ..).bind fun exponent => ofValues_numberResult _
  case h_7 | h_8 => exact (ofValues_numericOperands ..).bind fun xs => ofValues_numberResult _
  case h_9 => exact .error id

theorem ofValues_instantOf (function : String) (v : Json) : OfValues (instantOf function v) := by
  unfold instantOf
  split
  · split
    · exact .ok _
    · exact ofValues_argumentError ..
  · split
    · exact .ok _
    · split
      · exact .ok _
      · exact ofValues_argumentError ..
  · exact .error id

theorem ofValues_callDate (name : String) (args : List Json) (now : Instant) :
    OfValues (callDate name args now) := by
  unfold callDate
  dsimp only
  split
  case h_1 => exact (ofValues_checkCount ..).bind fun _ => .ok _
  case h_2 =>
    refine (ofValues_oneArgument ..).bind fun v => ?_
    exact (ofValues_instantOf ..).bind fun i => .ok _
  case h_3 =>
    refine (ofValues_oneOrTwoArguments ..).bind fun vw => (ofValues_instantOf ..).bind fun i => ?_
    split
    case h_1 =>
      refine (ofValues_asText ..).bind fun pattern => ?_
      split
      · exact .ok _
      · exact ofValues_argumentError ..
    case h_2 =>
      refine (OfValues.ok defaultPattern).bind fun pattern => ?_
      split
      · exact .ok _
      · exact ofValues_argumentError ..
  case h_4 => exact .error id

/-! ## Methods -/

/-- A method of a value has an outcome that is no error of form, if there is such a method. -/
theorem ofValues_stringMethod {s method : String} {args : List Json} {outcome : CallResult}
    (h : stringMethod s method args = some outcome) : OfValues outcome := by
  unfold stringMethod at h
  dsimp only at h
  split at h
  case h_11 => cases h
  all_goals
    obtain rfl := Option.some.inj h
  case h_1 | h_2 | h_3 => exact (ofValues_checkCount ..).bind fun _ => .ok _
  case h_4 => exact .ok _
  case h_5 =>
    refine (ofValues_optionalArgument ..).bind fun v => ?_
    split
    · exact .ok _
    · exact (ofValues_asText ..).bind fun sep => .ok _
  case h_6 | h_7 | h_8 =>
    exact (ofValues_oneArgument ..).bind fun v => (ofValues_asText ..).bind fun text => .ok _
  case h_9 =>
    refine (ofValues_twoArguments ..).bind fun vw => (ofValues_asText ..).bind fun target => ?_
    exact (ofValues_asText ..).bind fun image => .ok _
  case h_10 =>
    refine (ofValues_oneOrTwoArguments ..).bind fun vw => (ofValues_asNumber ..).bind fun x => ?_
    split
    · exact (ofValues_asNumber ..).bind fun y => .ok _
    · exact .ok _

theorem ofValues_arrayMethod {items : List Json} {method : String} {args : List Json}
    {outcome : CallResult} (h : arrayMethod items method args = some outcome) :
    OfValues outcome := by
  unfold arrayMethod at h
  split at h
  case h_3 => cases h
  all_goals
    obtain rfl := Option.some.inj h
  case h_1 =>
    refine (ofValues_optionalArgument ..).bind fun v => ?_
    dsimp only
    split
    · exact (ofValues_asText ..).bind fun sep => .ok _
    · exact .ok _
  case h_2 => exact (ofValues_oneArgument ..).bind fun v => .ok _

theorem ofValues_numberMethod {n : Json.Num} {method : String} {args : List Json}
    {outcome : CallResult} (h : numberMethod n method args = some outcome) :
    OfValues outcome := by
  unfold numberMethod at h
  split at h
  case h_3 => cases h
  all_goals
    obtain rfl := Option.some.inj h
  case h_1 =>
    refine (ofValues_optionalArgument ..).bind fun v => ?_
    have hFixed (digits : Float) : OfValues (if 0.0 ≤ digits && digits ≤ 100.0 then
        pure (Json.str (Number.fixedText (Number.clampToInt 0 mostFixedDigits digits).toNat
          n.toFloat))
        else argumentError "toFixed" (.digitsRange mostFixedDigits)) := by
      split
      · exact .ok _
      · exact ofValues_argumentError ..
    dsimp only
    split
    · exact (ofValues_asNumber ..).bind fun digits => hFixed digits
    · exact hFixed 0.0
  case h_2 => exact .ok _

theorem ofValues_callMethod (target : Json) (method : String) (args : List Json) :
    OfValues (callMethod target method args) := by
  have hFound {found : Option CallResult} (h : ∀ outcome, found = some outcome → OfValues outcome) :
      OfValues (found.getD (.error (.unknownMethod method (typeOf target)))) := by
    cases found with
    | none => exact .error id
    | some outcome => exact h outcome rfl
  refine hFound fun outcome h => ?_
  split at h
  · exact ofValues_stringMethod h
  · exact ofValues_arrayMethod h
  · exact ofValues_numberMethod h
  · cases h

/-! ## Access and operators -/

theorem ofValues_memberOf (target : Json) (property path : String) :
    OfValues (memberOf target property path) := by
  unfold memberOf
  split
  · split
    · exact .ok _
    · exact .error id
  · split
    · exact .ok _
    · exact .error id
  · split
    · exact .ok _
    · exact .error id
  · exact .error id

theorem ofValues_itemOf (target key : Json) (path : String) :
    OfValues (itemOf target key path) := by
  unfold itemOf
  split
  · split
    · exact .ok _
    · exact .error id
  · split
    · exact .ok _
    · exact .error id
  · exact ofValues_memberOf ..
  · exact .error id
  · exact .error id

theorem ofValues_orderTest (op : BinaryOp) (left right : Json) (test : Ordering → Bool) :
    OfValues (orderTest op left right test) := by
  unfold orderTest
  split
  · exact .ok _
  · exact .error id

theorem ofValues_arithmetic (op : BinaryOp) (left right : Json) {f : Float → Float → CallResult}
    (hf : ∀ x y, OfValues (f x y)) : OfValues (arithmetic op left right f) :=
  (ofValues_asNumber ..).bind fun x => (ofValues_asNumber ..).bind fun y => hf x y

theorem ofValues_compute (op : BinaryOp) (left right : Json) :
    OfValues (compute op left right) := by
  cases op with
  | equal | notEqual => exact .ok _
  | less | lessEqual | greater | greaterEqual => exact ofValues_orderTest ..
  | add =>
    unfold compute
    dsimp only
    split
    · exact .ok _
    · exact .ok _
    · exact ofValues_arithmetic _ _ _ fun x y => ofValues_numberResult _
  | sub | mul => exact ofValues_arithmetic _ _ _ fun x y => ofValues_numberResult _
  | div | rem =>
    refine ofValues_arithmetic _ _ _ fun x y => ?_
    split
    · exact .error id
    · exact ofValues_numberResult _

/-! ## Expressions -/

mutual

/-- The value of an expression may be missing, but not because of its form. -/
theorem eval_ofValues (ctx : DataContext) (e : Expr) : OfValues (eval ctx e) := by
  cases e with
  | literal v =>
    rw [eval]
    exact .ok v
  | array items =>
    rw [eval]
    split
    · exact .ok _
    · exact (evalAll_ofValues ctx items).of_error ‹_›
  | root n =>
    rw [eval]
    split
    · exact .ok _
    · exact .error id
  | identifier n =>
    rw [eval]
    exact .error id
  | member object property =>
    have hObject := eval_ofValues ctx object
    cases object with
    | identifier space =>
      rw [eval]
      split
      · exact ofValues_mathConstant _
      · exact .error id
    | _ =>
      rw [eval]
      · split
        · exact ofValues_memberOf ..
        · exact hObject.of_error ‹_›
      · nofun
  | index object key =>
    rw [eval]
    split
    · exact (eval_ofValues ctx object).of_error ‹_›
    · split
      · exact (eval_ofValues ctx key).of_error ‹_›
      · exact ofValues_itemOf ..
  | call callee args =>
    have hArgs := evalAll_ofValues ctx args
    cases callee with
    | identifier function =>
      rw [eval]
      split
      · split
        · exact ofValues_callGlobal ..
        · exact hArgs.of_error ‹_›
      · exact .error id
    | member object method =>
      have hObject := eval_ofValues ctx object
      cases object with
      | identifier space =>
        rw [eval]
        split
        · split
          · exact ofValues_callMath ..
          · exact hArgs.of_error ‹_›
        · split
          · split
            · exact ofValues_callDate ..
            · exact hArgs.of_error ‹_›
          · exact .error id
      | _ =>
        rw [eval]
        · split
          · exact hObject.of_error ‹_›
          · split
            · exact ofValues_callMethod ..
            · exact hArgs.of_error ‹_›
        · nofun
    | _ =>
      rw [eval]
      · exact .error id
      all_goals nofun
  | unary op operand =>
    rw [eval]
    split
    · exact (eval_ofValues ctx operand).of_error ‹_›
    · split
      · exact .ok _
      · split
        · exact ofValues_numberResult _
        · exact (ofValues_asNumber ..).of_error ‹_›
  | binary op left right =>
    rw [eval]
    split
    · exact (eval_ofValues ctx left).of_error ‹_›
    · split
      · exact (eval_ofValues ctx right).of_error ‹_›
      · exact ofValues_compute ..
  | logical op left right =>
    rw [eval]
    split
    · exact (eval_ofValues ctx left).of_error ‹_›
    · split
      · exact .ok _
      · exact .ok _
      · exact eval_ofValues ctx right
  | conditional test consequent alternate =>
    rw [eval]
    split
    · exact (eval_ofValues ctx test).of_error ‹_›
    · split
      · exact eval_ofValues ctx consequent
      · exact eval_ofValues ctx alternate

theorem evalAll_ofValues (ctx : DataContext) (es : List Expr) : OfValues (evalAll ctx es) := by
  cases es with
  | nil =>
    rw [evalAll]
    exact .ok _
  | cons e rest =>
    rw [evalAll]
    split
    · exact (eval_ofValues ctx e).of_error ‹_›
    · split
      · exact (evalAll_ofValues ctx rest).of_error ‹_›
      · exact .ok _

end

end Workflow.Expr
