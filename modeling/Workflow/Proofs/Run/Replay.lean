/-
Workflow.Proofs.Run.Replay — runs along a script.

A script says what happens in a run, turn by turn: which of the calls that
have not come to an end ends and how, which of the retries to come is due,
which command arrives, and when the run is concluded. A run that is played
along a script is a run that can be.

* `Cue`, `Script` — what happens in a turn; a workflow, an input and turns.
* `Course.replay?`, `reaches_of_play?` — a run along a script is a run.
* `Script.shows`, `exists_of_shows` — checking what a script leads to.
* `Script.submission`, `exists_of_showsWith` — the same for a run that is
  submitted with variables.
-/
import Mathlib.Logic.Relation
import Workflow.Proofs.Run.Course

namespace Workflow

variable {g : Graph}

namespace Scheduler

/-- Go on as far as possible, but for a number of rounds at most. -/
def advanceWithin : Nat → Scheduler g → Option (Scheduler g)
  | 0, _ => none
  | n + 1, s =>
    if s.isOver then some s
    else
      let settled := s.settle
      if settled.paused then some settled
      else
        let next := settled.readySteps.foldl startReady settled
        if Closer next s then advanceWithin n next else some next

theorem advance_of_advanceWithin {n : Nat} {s t : Scheduler g} (h : advanceWithin n s = some t) :
    s.advance = t := by
  induction n generalizing s with
  | zero => cases h
  | succ n ih =>
    rw [advanceWithin] at h
    rw [advance]
    split at h
    · rename_i hOver
      rw [if_pos hOver]
      exact Option.some.inj h
    · rename_i hOpen
      rw [if_neg hOpen]
      dsimp only at h ⊢
      split at h
      · rename_i hPaused
        rw [if_pos hPaused]
        exact Option.some.inj h
      · rename_i hActive
        rw [if_neg hActive]
        split at h
        · rename_i hCloser
          rw [if_pos hCloser]
          exact ih h
        · rename_i hStuck
          rw [if_neg hStuck]
          exact Option.some.inj h

end Scheduler

/-- What happens in a turn. Calls and retries are counted in the order in which they have been asked
for, from zero. -/
inductive Cue where
  | command (c : Command)
  | answer (position : Nat) (outcome : Outcome)
  | due (position : Nat)
  | conclude

namespace Course

/-- The time at which everything happens in a script. -/
def scriptTime : Instant := ⟨0, 0⟩

/-- The scheduler reads a message at a time, if it can come. -/
def readAt? (now : Instant) (n : Nat) (p : Course g) (m : Message g) : Option (Course g) :=
  if p.scheduler.isOver || p.scheduler.conclude.state.isFinal || !decide (p.Expects m) then none
  else
    let s : Scheduler g := { p.scheduler with now }
    let noted := match m with
      | .command c => s.obey c
      | .event e => s.note e
    (noted.advanceWithin n).map fun s => grant { p.settle m with scheduler := s }

theorem of_readAt? {now : Instant} {n : Nat} {p q : Course g} {m : Message g}
    (h : p.readAt? now n m = some q) :
    p.scheduler.isOver = false ∧ p.scheduler.conclude.state.isFinal = false ∧ p.Expects m ∧
      q = p.read m now := by
  unfold readAt? at h
  split at h
  · cases h
  · rename_i hOpen
    simp only [Bool.or_eq_true, Bool.not_eq_true', decide_eq_false_iff_not, not_or, not_not,
      Bool.not_eq_true] at hOpen
    obtain ⟨⟨hOpen, hMore⟩, hExpected⟩ := hOpen
    dsimp only at h
    obtain ⟨s, hAdvance, rfl⟩ := Option.map_eq_some_iff.mp h
    have hHandle : Process.handle { p.scheduler with now } m = s := by
      cases m <;> exact Scheduler.advance_of_advanceWithin hAdvance
    refine ⟨hOpen, hMore, hExpected, ?_⟩
    rw [read, hHandle]

/-- The scheduler reads a message, if it can come. -/
def read? (n : Nat) (p : Course g) (m : Message g) : Option (Course g) := p.readAt? scriptTime n m

theorem turn_of_read? {n : Nat} {p q : Course g} {m : Message g} (h : p.read? n m = some q) :
    Turn p q := by
  obtain ⟨hOpen, hMore, hExpected, rfl⟩ := of_readAt? h
  exact .read m scriptTime hOpen hMore hExpected

/-- One turn along a script. -/
def turn? (n : Nat) (p : Course g) : Cue → Option (Course g)
  | .command c => p.read? n (.command c)
  | .answer position outcome =>
    p.calls[position]?.bind fun (i, token) => p.read? n (.event (.finished i token outcome))
  | .due position => p.wakes[position]?.bind fun i => p.read? n (.event (.retryDue i))
  | .conclude => if p.scheduler.isOver then none else some (p.conclude scriptTime)

theorem turn_of_turn? {n : Nat} {p q : Course g} {cue : Cue} (h : p.turn? n cue = some q) :
    Turn p q := by
  cases cue with
  | command c => exact turn_of_read? h
  | answer position outcome =>
    obtain ⟨_, _, hRead⟩ := Option.bind_eq_some_iff.mp h
    exact turn_of_read? hRead
  | due position =>
    obtain ⟨_, _, hRead⟩ := Option.bind_eq_some_iff.mp h
    exact turn_of_read? hRead
  | conclude =>
    simp only [turn?] at h
    split at h
    · cases h
    · rename_i hOpen
      obtain rfl := Option.some.inj h
      exact .conclude scriptTime (by simpa using hOpen)

/-- The beginning of a run with an input and no variables. -/
def start? (g : Graph) (n : Nat) (input : Json) : Option (Course g) :=
  let s : Scheduler g := Scheduler.initial
    (RunState.initial g "run" "workflow" "workflow" input [] scriptTime) none
  ({ s with now := scriptTime }.enter.advanceWithin n).map fun s => grant ⟨s, [], [], []⟩

section

variable (ok : Scheduler g → Prop) [DecidablePred ok]

/-- Go on along a script, if the scheduler is always in a certain condition. -/
def replay? (n : Nat) : List Cue → Course g → Option (Course g)
  | [], p => if ok p.scheduler then some p else none
  | cue :: cues, p => if ok p.scheduler then (p.turn? n cue).bind (replay? n cues) else none

/-- A run along a script. -/
def play? (n : Nat) (input : Json) (cues : List Cue) : Option (Course g) :=
  (start? g n input).bind (replay? ok n cues)

variable {ok}

theorem reaches_of_replay? {n : Nat} {cues : List Cue} {p q : Course g}
    (hReach : ok p.scheduler → Reaches ok p) (h : replay? ok n cues p = some q) :
    Reaches ok q := by
  induction cues generalizing p with
  | nil =>
    unfold replay? at h
    split at h
    · rename_i hOk
      cases h
      exact hReach hOk
    · cases h
  | cons cue cues ih =>
    unfold replay? at h
    split at h
    · rename_i hOk
      obtain ⟨next, hTurn, hRest⟩ := Option.bind_eq_some_iff.mp h
      exact ih (fun hNext => (hReach hOk).turn (turn_of_turn? hTurn) hNext) hRest
    · cases h

theorem turns_of_replay? {n : Nat} {cues : List Cue} {p q : Course g}
    (h : replay? ok n cues p = some q) : Relation.ReflTransGen Turn p q := by
  induction cues generalizing p with
  | nil =>
    unfold replay? at h
    split at h
    · cases h
      exact .refl
    · cases h
  | cons cue cues ih =>
    unfold replay? at h
    split at h
    · obtain ⟨next, hTurn, hRest⟩ := Option.bind_eq_some_iff.mp h
      exact (ih hRest).head (turn_of_turn? hTurn)
    · cases h

/-- What a run along a script comes to can be come to. -/
theorem reaches_of_play? {n : Nat} {input : Json} {cues : List Cue} {q : Course g}
    (h : play? ok n input cues = some q) : Reaches ok q := by
  obtain ⟨p, hStart, hReplay⟩ := Option.bind_eq_some_iff.mp h
  refine reaches_of_replay? (fun hOk => ?_) hReplay
  unfold start? at hStart
  obtain ⟨s, hAdvance, rfl⟩ := Option.map_eq_some_iff.mp hStart
  obtain rfl := Scheduler.advance_of_advanceWithin hAdvance
  exact .start "run" "workflow" "workflow" input [] scriptTime scriptTime none hOk

end

end Course

/-! ## Workflows with a script -/

/-- A step without settings. -/
def Step.plain (id : String) (kind : StepKind) (dependsOn : List String) : Step :=
  { id, kind, dependsOn, name := none, inputMapping := [], condition := none, trueBranch := none,
    falseBranch := none, loopConfig := none, retryPolicy := none, errorConfig := none,
    timeout := none, config := .null }

/-- A handler of all errors of some steps. -/
def Step.handler (id : String) (guarded : List String) (action : RecoveryAction) : Step :=
  { Step.plain id .errorHandler guarded with errorConfig := some ⟨[], action, none⟩ }

/-- A failure in an executor. -/
def StepError.boom : StepError := ⟨.execution, .unknown, "boom"⟩

/-- A workflow, the input of a run and what happens in the run. -/
structure Script where
  steps : List Step
  input : Json
  cues : List Cue

namespace Script

/-- More rounds than a turn of a short script takes. -/
def rounds : Nat := 20

variable (script : Script) (ok : (g : Graph) → Scheduler g → Prop) [∀ g, DecidablePred (ok g)]
  (goal : (g : Graph) → Course g → Prop) [∀ g, DecidablePred (goal g)]

/-- Whether the run along a script has a scheduler that is always in a certain condition, and
reaches a goal. -/
def shows : Bool :=
  match Graph.compile false script.steps with
  | .error _ => false
  | .ok g => (Course.play? (ok g) rounds script.input script.cues).any fun p => goal g p

variable {script ok goal}

theorem exists_of_shows (h : script.shows ok goal = true) :
    ∃ g p, Graph.compile false script.steps = .ok g ∧ Course.Reaches (ok g) p ∧ goal g p := by
  unfold shows at h
  split at h
  · cases h
  · rename_i g hCompile
    obtain ⟨p, hPlay, hGoal⟩ := (Option.any_eq_true _ _).mp h
    exact ⟨g, p, hCompile, Course.reaches_of_play? hPlay, of_decide_eq_true hGoal⟩

section

variable (vars : Dict Json)

/-- The scheduler of the run along a script that is submitted with some variables. -/
def submission (script : Script) (g : Graph) : Scheduler g :=
  Scheduler.initial (RunState.initial g "run" "workflow" "workflow" script.input vars
    Course.scriptTime) none

/-- Whether the run along a script that is submitted with some variables reaches a goal. -/
def showsWith (script : Script) (goal : (g : Graph) → Course g → Prop)
    [∀ g, DecidablePred (goal g)] : Bool :=
  match Graph.compile false script.steps with
  | .error _ => false
  | .ok g =>
    (((script.submission vars g).enter.advanceWithin rounds).bind fun s =>
      Course.replay? (fun _ => True) rounds script.cues (Course.grant ⟨s, [], [], []⟩)).any
        fun p => goal g p

variable {vars}

theorem exists_of_showsWith (h : script.showsWith vars goal = true) :
    ∃ g p, Graph.compile false script.steps = .ok g ∧
      Relation.ReflTransGen Course.Turn
        (Course.start (script.submission vars g) Course.scriptTime) p ∧ goal g p := by
  unfold showsWith at h
  split at h
  · cases h
  · rename_i g hCompile
    obtain ⟨p, hPlay, hGoal⟩ := (Option.any_eq_true _ _).mp h
    obtain ⟨s, hAdvance, hReplay⟩ := Option.bind_eq_some_iff.mp hPlay
    obtain rfl := Scheduler.advance_of_advanceWithin hAdvance
    exact ⟨g, p, hCompile, Course.turns_of_replay? hReplay, of_decide_eq_true hGoal⟩

end

/-! ## Failures and their handlers -/

/-- A step fails, and its handler does its work. -/
def handled (last : String) : Script where
  steps := [.plain "start" .start [], .plain "a" .action ["start"],
    .handler "h" ["a"] .continueRun, .plain "end" .finish [last]]
  input := .null
  cues := [.answer 0 (.error .boom), .answer 0 (.ok []), .conclude]

/-- A step fails, its handler fails as well, and the handler of that handler does its work. -/
def handlerHandled (last : String) : Script where
  steps := [.plain "start" .start [], .plain "a" .action ["start"],
    .handler "h" ["a"] .continueRun, .handler "g" ["h"] .continueRun, .plain "end" .finish [last]]
  input := .null
  cues := [.answer 0 (.error .boom), .answer 0 (.error .boom), .answer 0 (.ok []), .conclude]

/-! ## Conditions -/

/-- A condition takes one of two branches, which meet again. -/
def forked : Script where
  steps := [.plain "start" .start [],
    { Step.plain "c" .condition ["start"] with
      condition := some "true", trueBranch := some "a", falseBranch := some "b" },
    .plain "a" .action [], .plain "b" .action [], .plain "end" .finish ["a", "b"]]
  input := .null
  cues := [.answer 0 (.ok []), .conclude]

/-! ## Loops -/

/-- A loop calls an action for each of two items. -/
def looped : Script where
  steps := [.plain "start" .start [],
    { Step.plain "l" .loop ["start"] with loopConfig := some ⟨"[true,false]", 10, "a"⟩ },
    .plain "a" .action [], .plain "end" .finish ["l"]]
  input := .null
  cues := [.answer 0 (.ok []), .answer 0 (.ok []), .conclude]

/-- A loop is given up while a step of its body is under way, and starts again with that step before
the first attempt of the step has come to an end. -/
def reopened : Script where
  steps := [.plain "start" .start [],
    { Step.plain "l" .loop ["start"] with
      loopConfig := some ⟨"[true]", 10, "a"⟩
      retryPolicy := some { RetryPolicy.standard with maxRetries := 1 } },
    .plain "a" .action [], .plain "b" .action ["a"], .plain "c" .action ["a"],
    .plain "end" .finish ["l"]]
  input := .null
  cues := [.answer 0 (.ok []), .answer 0 (.error .boom), .due 0, .answer 1 (.ok [])]

/-- A loop calls an action that may be tried again once, for each of two items; it fails once for the
first one and twice for the second one. -/
def exhausted : Script where
  steps := [.plain "start" .start [],
    { Step.plain "l" .loop ["start"] with loopConfig := some ⟨"[true,false]", 10, "a"⟩ },
    { Step.plain "a" .action [] with
      retryPolicy := some { RetryPolicy.standard with maxRetries := 1 } },
    .plain "end" .finish ["l"]]
  input := .null
  cues := [.answer 0 (.error .boom), .due 0, .answer 0 (.ok []), .answer 0 (.error .boom), .due 0,
    .answer 0 (.error .boom)]

end Script

end Workflow
