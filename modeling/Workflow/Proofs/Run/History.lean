/-
Workflow.Proofs.Run.History — what has happened in a run, moment by moment.

A run is a sequence of acts of its scheduler: it takes note of a message,
promotes a step, ends the round of a loop or starts a step. A moment is an
act together with the scheduler that performs it, and the history of a run
is the list of its moments, the earliest one first.

* `Act`, `Moment` — what a scheduler does at one moment.
* `Scheduler.Leads` — a scheduler goes on by itself, act by act;
  `exists_leads_advance`.
* `Course.History` — the history of a run; every run has one.
* `Act.keeps_coherent` — what every move and every message of a coherent
  scheduler keep, every act keeps.
* `History.induction`, `induction_at` — what every act keeps holds
  throughout, and at every moment.
* `History.invariant` — what every move and every message keep holds at
  every moment.
* `History.record_of_settled` — what is settled for good keeps its record.
-/
import Workflow.Proofs.Run.Accounts
import Workflow.Proofs.Run.Record
import Workflow.Proofs.Run.Rest

namespace Workflow

/-- What a scheduler does at one moment. -/
inductive Act (g : Graph) where
  | read (m : Message g)
  | promote (i : g.Index)
  | close (loop : g.Index)
  | start (i : g.Index)

/-- An act and the scheduler that performs it. -/
structure Moment (g : Graph) where
  scheduler : Scheduler g
  act : Act g

variable {g : Graph}

namespace Act

/-- What a scheduler is after an act. -/
def apply (s : Scheduler g) : Act g → Scheduler g
  | read m => s.heed m
  | promote i => s.promote i
  | close loop => s.closeRound loop
  | start i => s.startStep i

/-- Whether an act is not for nothing: a step that is promoted is decided, a round that is ended is
through, and a step that is started is ready. -/
def IsPossible (s : Scheduler g) : Act g → Prop
  | read _ => True
  | promote i => s.promotion? i ≠ none
  | close loop => s.RoundOver loop
  | start i => s.statusOf i = .ready

/-- Whether a scheduler does this by itself, without being told anything. -/
def IsOwn : Act g → Prop
  | read _ => False
  | promote _ | close _ | start _ => True

end Act

/-- The scheduler after a moment. -/
def Moment.next (m : Moment g) : Scheduler g := m.act.apply m.scheduler

namespace Scheduler

/-- By these moments a scheduler comes from one state to another without being told anything. -/
inductive Leads (s : Scheduler g) : List (Moment g) → Scheduler g → Prop
  | nil : Leads s [] s
  | snoc {log : List (Moment g)} {t : Scheduler g} {act : Act g} (hBefore : Leads s log t)
      (hOpen : t.isOver = false) (hOwn : act.IsOwn) (hPossible : act.IsPossible t) :
      Leads s (log ++ [⟨t, act⟩]) (act.apply t)

theorem Leads.trans {s t u : Scheduler g} {log log' : List (Moment g)} (h : s.Leads log t)
    (h' : t.Leads log' u) : s.Leads (log ++ log') u := by
  induction h' with
  | nil => simpa using h
  | snoc _ hOpen hOwn hPossible ih =>
    rw [← List.append_assoc]
    exact ih.snoc hOpen hOwn hPossible

theorem Leads.single {s : Scheduler g} (act : Act g) (hOpen : s.isOver = false) (hOwn : act.IsOwn)
    (hPossible : act.IsPossible s) : s.Leads [⟨s, act⟩] (act.apply s) :=
  .snoc .nil hOpen hOwn hPossible

/-! ## Going on by oneself -/

theorem isOver_promote (s : Scheduler g) (i : g.Index) : (s.promote i).isOver = s.isOver :=
  congrArg (fun d : Desk g => d.status.isFinal || d.crashed) (desk_promote s i)

theorem isOver_closeRound (s : Scheduler g) (loop : g.Index) :
    (s.closeRound loop).isOver = s.isOver :=
  congrArg (fun d : Desk g => d.status.isFinal || d.crashed) (desk_closeRound s loop)

theorem exists_leads_promote {s : Scheduler g} (hOpen : s.isOver = false) (i : g.Index) :
    ∃ log, s.Leads log (s.promote i) := by
  cases hPromotion : s.promotion? i with
  | none =>
    refine ⟨[], ?_⟩
    simp only [promote, hPromotion]
    exact .nil
  | some promotion =>
    exact ⟨_, .single (.promote i) hOpen trivial (by simp [Act.IsPossible, hPromotion])⟩

theorem exists_leads_closeRound {s : Scheduler g} (hOpen : s.isOver = false) (loop : g.Index) :
    ∃ log, s.Leads log (s.closeRound loop) := by
  by_cases hOver : s.RoundOver loop
  · exact ⟨_, .single (.close loop) hOpen trivial hOver⟩
  · refine ⟨[], ?_⟩
    rw [closeRound_of_not_over hOver]
    exact .nil

theorem exists_leads_startReady (s : Scheduler g) (i : g.Index) :
    ∃ log, s.Leads log (s.startReady i) := by
  unfold startReady
  split
  · exact ⟨[], .nil⟩
  · split
    · rename_i hOpen hReady
      exact ⟨_, .single (.start i) (by simpa using hOpen) trivial hReady⟩
    · exact ⟨[], .nil⟩

theorem exists_leads_settle {s : Scheduler g} (hOpen : s.isOver = false) :
    ∃ log, s.Leads log s.settle := by
  have hKept : s.settle.isOver = false ∧ ∃ log, s.Leads log s.settle := by
    refine settle_keeps (P := fun t => t.isOver = false ∧ ∃ log, s.Leads log t) ?_ ?_
      ⟨hOpen, [], .nil⟩
    · rintro t i ⟨hOpen, log, hLeads⟩
      obtain ⟨more, hMore⟩ := exists_leads_promote hOpen i
      exact ⟨(isOver_promote t i).trans hOpen, _, hLeads.trans hMore⟩
    · rintro t loop ⟨hOpen, log, hLeads⟩
      obtain ⟨more, hMore⟩ := exists_leads_closeRound hOpen loop
      exact ⟨(isOver_closeRound t loop).trans hOpen, _, hLeads.trans hMore⟩
  exact hKept.2

theorem exists_leads_foldl_startReady (steps : List g.Index) (s : Scheduler g) :
    ∃ log, s.Leads log (steps.foldl startReady s) := by
  induction steps generalizing s with
  | nil => exact ⟨[], .nil⟩
  | cons i rest ih =>
    obtain ⟨log, hLeads⟩ := exists_leads_startReady s i
    obtain ⟨more, hMore⟩ := ih (s.startReady i)
    exact ⟨_, hLeads.trans hMore⟩

/-- A scheduler that goes on as far as possible does so act by act. -/
theorem exists_leads_advance (s : Scheduler g) : ∃ log, s.Leads log s.advance := by
  have hRound (s : Scheduler g) (hOpen : s.isOver = false) :
      ∃ log, s.Leads log (s.settle.readySteps.foldl startReady s.settle) := by
    obtain ⟨log, hLeads⟩ := exists_leads_settle hOpen
    obtain ⟨more, hMore⟩ := exists_leads_foldl_startReady s.settle.readySteps s.settle
    exact ⟨_, hLeads.trans hMore⟩
  induction s using advance_sweeps with
  | ended s _ hSame =>
    rw [hSame]
    exact ⟨[], .nil⟩
  | paused s hOpen _ hSame =>
    rw [hSame]
    exact exists_leads_settle hOpen
  | more s hOpen _ hSame ih =>
    rw [hSame]
    obtain ⟨log, hLeads⟩ := hRound s hOpen
    obtain ⟨more, hMore⟩ := ih
    exact ⟨_, hLeads.trans hMore⟩
  | last s hOpen _ _ hSame =>
    rw [hSame]
    exact hRound s hOpen

end Scheduler

/-! ## Histories -/

namespace Course

/-- What has happened in a run that has come to a point, from its beginning. -/
inductive History : Course g → List (Moment g) → Prop
  | start (runId workflowId workflowName : String) (input : Json) (vars : Dict Json)
      (created now : Instant) (stepTimeout : Option Duration) {log : List (Moment g)}
      (hLeads : Scheduler.Leads ({ Scheduler.initial
        (RunState.initial g runId workflowId workflowName input vars created) stepTimeout
          with now } : Scheduler g).enter log ({ Scheduler.initial
        (RunState.initial g runId workflowId workflowName input vars created) stepTimeout
          with now } : Scheduler g).launch) :
      History (start (Scheduler.initial
        (RunState.initial g runId workflowId workflowName input vars created) stepTimeout) now) log
  | conclude {p : Course g} {log : List (Moment g)} (hBefore : History p log) (now : Instant)
      (hOpen : p.scheduler.isOver = false) : History (p.conclude now) log
  | read {p : Course g} {log more : List (Moment g)} (hBefore : History p log) (m : Message g)
      (now : Instant) (hOpen : p.scheduler.isOver = false)
      (hMore : p.scheduler.conclude.state.isFinal = false) (hExpected : p.Expects m)
      (hLeads : Scheduler.Leads (({ p.scheduler with now } : Scheduler g).heed m) more
        (Process.handle { p.scheduler with now } m)) :
      History (p.read m now) (log ++ ⟨{ p.scheduler with now }, .read m⟩ :: more)

/-- A run can come to a point if and only if something can have happened by which it has come
there. -/
theorem reached_iff_history {p : Course g} : Reached p ↔ ∃ log, History p log := by
  constructor
  · intro hReach
    induction hReach with
    | start runId workflowId workflowName input vars created now stepTimeout _ =>
      obtain ⟨log, hLeads⟩ := Scheduler.exists_leads_advance (Scheduler.enter { Scheduler.initial
        (RunState.initial g runId workflowId workflowName input vars created) stepTimeout
          with now })
      exact ⟨log, .start runId workflowId workflowName input vars created now stepTimeout hLeads⟩
    | turn _ hTurn _ ih =>
      obtain ⟨log, hBefore⟩ := ih
      cases hTurn with
      | conclude now hOpen => exact ⟨log, hBefore.conclude now hOpen⟩
      | read m now hOpen hMore hExpected =>
        rename_i p _ _
        obtain ⟨more, hLeads⟩ := Scheduler.exists_leads_advance
          (({ p.scheduler with now } : Scheduler g).heed m)
        rw [← Scheduler.handle_eq] at hLeads
        exact ⟨_, hBefore.read m now hOpen hMore hExpected hLeads⟩
  · rintro ⟨log, h⟩
    induction h with
    | start runId workflowId workflowName input vars created now stepTimeout _ =>
      exact .start runId workflowId workflowName input vars created now stepTimeout trivial
    | conclude _ now hOpen ih => exact ih.turn (.conclude now hOpen) trivial
    | read _ m now hOpen hMore hExpected _ ih =>
      exact ih.turn (.read m now hOpen hMore hExpected) trivial

end Course

/-! ## What holds throughout -/

namespace Act

/-- An act is a message that is taken note of and dealt with, or it is made of moves alone. -/
theorem deals_or_goes (hg : g.Sound) {s : Scheduler g} (hOpen : s.isOver = false) {act : Act g}
    (hPossible : act.IsPossible s) :
    (∃ m hand t, act = .read m ∧ Scheduler.Receives s m hand t ∧
      Scheduler.Deals hand t (act.apply s)) ∨ act.IsOwn ∧ Scheduler.Goes .free s (act.apply s) := by
  cases act with
  | read m =>
    have hFinal : s.state.isFinal = false := (Bool.or_eq_false_iff.mp hOpen).1
    obtain ⟨hand, t, hReceives, hDeals⟩ := Scheduler.heed_deals hg hFinal m
    exact .inl ⟨m, hand, t, rfl, hReceives, hDeals⟩
  | promote i => exact .inr ⟨trivial, .free, Scheduler.promote_moves s i, .inl rfl⟩
  | close loop => exact .inr ⟨trivial, .free, Scheduler.closeRound_moves s loop, .inl rfl⟩
  | start i =>
    exact .inr ⟨trivial, .head (.begin hPossible hOpen) (Scheduler.begin_deals hg s i).goes⟩

/-- What every move and every message keep, every act keeps. -/
theorem keeps (hg : g.Sound) {P : Hand g → Scheduler g → Prop}
    (hMove : ∀ hand s hand' s', Scheduler.Move hand s hand' s' → P hand s → P hand' s')
    (hReceives : ∀ s m hand s', s.isOver = false → Scheduler.Receives s m hand s' → P .free s →
      P hand s')
    {s : Scheduler g} (hOpen : s.isOver = false) {act : Act g} (hPossible : act.IsPossible s)
    (h : P .free s) : ∃ hand, Scheduler.AtRest hand (act.apply s) ∧ P hand (act.apply s) := by
  rcases act.deals_or_goes hg hOpen hPossible with ⟨m, hand, t, -, hReceive, hDeals⟩ |
    ⟨-, hand', hMoves, hAtRest⟩
  · exact hDeals.invariant (fun _ _ _ _ _ => hMove _ _ _ _)
      (hReceives s m hand t hOpen hReceive h)
  · exact ⟨hand', hAtRest, hMoves.invariant hMove h⟩

/-- What every move and every message of a coherent scheduler keep, every act keeps. -/
theorem keeps_coherent (hg : g.Sound) {Q : Hand g → Scheduler g → Prop}
    (hMove : ∀ hand s hand' s', Scheduler.Move hand s hand' s' → s.board.Coherent hand →
      Q hand s → Q hand' s')
    (hReceives : ∀ s m hand s', Scheduler.Receives s m hand s' → s.board.Coherent .free →
      Q .free s → Q hand s')
    {s : Scheduler g} (hOpen : s.isOver = false) {act : Act g} (hPossible : act.IsPossible s)
    (hCoherent : s.board.Coherent .free) (h : Q .free s) :
    ∃ hand, Scheduler.AtRest hand (act.apply s) ∧ (act.apply s).board.Coherent hand ∧
      Q hand (act.apply s) :=
  keeps hg (P := fun hand s => s.board.Coherent hand ∧ Q hand s)
    (fun _ _ _ _ hMoved ⟨hCoherent, hQ⟩ =>
      ⟨hCoherent.rule hg (hMoved.rule hg), hMove _ _ _ _ hMoved hCoherent hQ⟩)
    (fun _ _ _ _ _ hReceive ⟨hCoherent, hQ⟩ =>
      ⟨hCoherent.notice hg hReceive.notice, hReceives _ _ _ _ hReceive hCoherent hQ⟩)
    hOpen hPossible ⟨hCoherent, h⟩

theorem coherent (hg : g.Sound) {s : Scheduler g} (hOpen : s.isOver = false) {act : Act g}
    (hPossible : act.IsPossible s) (hCoherent : s.board.Coherent .free) :
    ∃ hand, Scheduler.AtRest hand (act.apply s) ∧ (act.apply s).board.Coherent hand := by
  obtain ⟨hand, hAtRest, hNext, -⟩ := keeps_coherent hg (Q := fun _ _ => True)
    (fun _ _ _ _ _ _ h => h) (fun _ _ _ _ _ _ h => h) hOpen hPossible hCoherent trivial
  exact ⟨hand, hAtRest, hNext⟩

end Act

namespace Course

theorem History.reached {p : Course g} {log : List (Moment g)} (h : History p log) : Reached p :=
  reached_iff_history.mpr ⟨log, h⟩

/-- What every act and every change between two turns keep holds throughout, also before what has
been asked for in the last turn is granted. -/
theorem History.induction (hg : g.Sound) {P : List (Moment g) → Scheduler g → Prop}
    (hEnter : ∀ s : Scheduler g, s.IsFresh → P [] s.enter)
    (hAct : ∀ log s (act : Act g), s.isOver = false → act.IsPossible s → s.board.Coherent .free →
      P log s → P (log ++ [⟨s, act⟩]) (act.apply s))
    (hConclude : ∀ log s, s.isOver = false → P log s → P log s.conclude)
    (hNote : ∀ log s now, P log s → P log { s with requests := [], now })
    {p : Course g} {log : List (Moment g)} (h : History p log) :
    P log { p.scheduler with requests := p.asked } := by
  -- between two acts nothing is in hand, unless the scheduler has crashed
  let Q (log : List (Moment g)) (s : Scheduler g) : Prop :=
    P log s ∧ ∃ hand, Scheduler.AtRest hand s ∧ s.board.Coherent hand
  have hStep : ∀ log s (act : Act g), s.isOver = false → act.IsPossible s → Q log s →
      Q (log ++ [⟨s, act⟩]) (act.apply s) := by
    rintro log s act hOpen hPossible ⟨hP, hand, hAtRest, hCoherent⟩
    obtain rfl := hAtRest.free hOpen
    exact ⟨hAct log s act hOpen hPossible hCoherent hP,
      Act.coherent hg hOpen hPossible hCoherent⟩
  have hLeads : ∀ before s log t, Q before s → Scheduler.Leads s log t → Q (before ++ log) t := by
    intro before s log t hQ hLeads
    induction hLeads with
    | nil => simpa using hQ
    | snoc _ hOpen _ hPossible ih =>
      rw [← List.append_assoc]
      exact hStep _ _ _ hOpen hPossible ih
  have hQuiet : ∀ log s now, Q log s → Q log { s with requests := [], now } :=
    fun log s now hQ => ⟨hNote log s now hQ.1, hQ.2.imp fun _ h => ⟨h.1, h.2.of_slots rfl⟩⟩
  have hLater : ∀ (p : Course g) log now, History p log →
      Q log { p.scheduler with requests := p.asked } → Q log { p.scheduler with now } := by
    intro p log now h hQ
    have hGranted := hQuiet log { p.scheduler with requests := p.asked } now hQ
    have hNone := h.reached.requests_eq
    rw [← hNone] at hGranted
    exact hGranted
  suffices hAll : Q log { p.scheduler with requests := p.asked } from hAll.1
  induction h with
  | start runId workflowId workflowName input vars created now stepTimeout hLog =>
    have hFresh : ({ Scheduler.initial (RunState.initial g runId workflowId workflowName input vars
        created) stepTimeout with now } : Scheduler g).IsFresh :=
      ⟨runId, workflowId, workflowName, input, vars, created, stepTimeout, now, rfl⟩
    exact hLeads [] _ _ _ ⟨hEnter _ hFresh, .free, .inl rfl, Scheduler.coherent_enter hg hFresh⟩ hLog
  | conclude hBefore now hOpen ih =>
    rename_i p log
    obtain ⟨hP, hand, hAtRest, hCoherent⟩ := hLater p log now hBefore ih
    obtain rfl := hAtRest.free hOpen
    refine hQuiet log { p.scheduler with now }.conclude (p.conclude now).scheduler.now
      ⟨hConclude log { p.scheduler with now } hOpen hP, .free, .inl rfl, ?_⟩
    exact hCoherent.of_slots (Scheduler.slot_conclude _)
  | read hBefore m now hOpen _ _ hLog ih =>
    rename_i p log more _ _
    have hRead := hStep log { p.scheduler with now } (.read m) hOpen trivial
      (hLater p log now hBefore ih)
    rw [show log ++ ⟨{ p.scheduler with now }, .read m⟩ :: more =
      (log ++ [⟨{ p.scheduler with now }, .read m⟩]) ++ more by simp]
    exact hLeads _ _ _ _ hRead hLog

/-- What every act and every change between two turns keep holds at every moment, before and after
it. -/
theorem History.induction_at (hg : g.Sound) {P : List (Moment g) → Scheduler g → Prop}
    (hEnter : ∀ s : Scheduler g, s.IsFresh → P [] s.enter)
    (hAct : ∀ log s (act : Act g), s.isOver = false → act.IsPossible s → s.board.Coherent .free →
      P log s → P (log ++ [⟨s, act⟩]) (act.apply s))
    (hConclude : ∀ log s, s.isOver = false → P log s → P log s.conclude)
    (hNote : ∀ log s now, P log s → P log { s with requests := [], now })
    {p : Course g} {log : List (Moment g)} (h : History p log) :
    P log { p.scheduler with requests := p.asked } ∧ ∀ before m after, log = before ++ m :: after →
      P before m.scheduler ∧ P (before ++ [m]) m.next := by
  refine History.induction hg (P := fun log s => P log s ∧ ∀ before m after,
    log = before ++ m :: after → P before m.scheduler ∧ P (before ++ [m]) m.next) ?_ ?_ ?_ ?_ h
  · exact fun s hFresh => ⟨hEnter s hFresh, fun before m after hSplit => by simp at hSplit⟩
  · rintro log s act hOpen hPossible hCoherent ⟨hNow, hBefore⟩
    have hNext := hAct log s act hOpen hPossible hCoherent hNow
    refine ⟨hNext, fun before m after hSplit => ?_⟩
    rcases List.eq_nil_or_concat after with rfl | ⟨rest, last, rfl⟩
    · obtain ⟨rfl, hLast⟩ := List.append_inj' hSplit rfl
      obtain rfl := List.singleton_inj.mp hLast
      exact ⟨hNow, hNext⟩
    · rw [List.concat_eq_append, ← List.cons_append, ← List.append_assoc] at hSplit
      exact hBefore before m rest (List.append_inj' hSplit rfl).1
  · exact fun log s hOpen ⟨hNow, hBefore⟩ => ⟨hConclude log s hOpen hNow, hBefore⟩
  · exact fun log s now ⟨hNow, hBefore⟩ => ⟨hNote log s now hNow, hBefore⟩

/-- At every moment of a run nothing is in hand, and the act is not for nothing. -/
theorem History.moments (hg : g.Sound) {p : Course g} {log : List (Moment g)}
    (h : History p log) {m : Moment g} (hm : m ∈ log) :
    m.scheduler.isOver = false ∧ m.act.IsPossible m.scheduler ∧
      m.scheduler.board.Coherent .free := by
  refine History.induction hg (P := fun log _ => ∀ m ∈ log, m.scheduler.isOver = false ∧
    m.act.IsPossible m.scheduler ∧ m.scheduler.board.Coherent .free) ?_ ?_ ?_ ?_ h m hm
  · intro _ _ m hm
    cases hm
  · intro log s act hOpen hPossible hCoherent hBefore m hm
    rcases List.mem_append.mp hm with hm | hm
    · exact hBefore m hm
    · rw [List.mem_singleton.mp hm]
      exact ⟨hOpen, hPossible, hCoherent⟩
  · exact fun _ _ _ hBefore => hBefore
  · exact fun _ _ _ hBefore => hBefore

/-- What every move and every message keep in a coherent run holds before and after every moment. -/
theorem History.invariant (hg : g.Sound) {Q : Hand g → Scheduler g → Prop}
    (hEnter : ∀ s : Scheduler g, s.IsFresh → Q .free s.enter)
    (hMove : ∀ hand s hand' s', Scheduler.Move hand s hand' s' → s.board.Coherent hand →
      Q hand s → Q hand' s')
    (hReceives : ∀ s m hand s', Scheduler.Receives s m hand s' → s.board.Coherent .free →
      Q .free s → Q hand s')
    (hConclude : ∀ s : Scheduler g, Q .free s → Q .free s.conclude)
    (hNote : ∀ hand s now, Q hand s → Q hand { s with requests := [], now })
    {p : Course g} {log : List (Moment g)} (h : History p log) :
    (∀ m ∈ log, Q .free m.scheduler ∧ ∃ hand, Scheduler.AtRest hand m.next ∧ Q hand m.next) ∧
      ∃ hand, Scheduler.AtRest hand p.scheduler ∧ Q hand { p.scheduler with requests := p.asked } := by
  refine History.induction hg (P := fun log s =>
    (∀ m ∈ log, Q .free m.scheduler ∧ ∃ hand, Scheduler.AtRest hand m.next ∧ Q hand m.next) ∧
      ∃ hand, Scheduler.AtRest hand s ∧ Q hand s) ?_ ?_ ?_ ?_ h
  · exact fun s hFresh => ⟨fun m hm => absurd hm List.not_mem_nil, .free, .inl rfl, hEnter s hFresh⟩
  · rintro log s act hOpen hPossible hCoherent ⟨hBefore, hand, hAtRest, hQ⟩
    obtain rfl := hAtRest.free hOpen
    obtain ⟨hand, hAtRest', -, hNext⟩ :=
      Act.keeps_coherent hg hMove hReceives hOpen hPossible hCoherent hQ
    refine ⟨fun m hm => ?_, hand, hAtRest', hNext⟩
    rcases List.mem_append.mp hm with hm | hm
    · exact hBefore m hm
    · rw [List.mem_singleton.mp hm]
      exact ⟨hQ, hand, hAtRest', hNext⟩
  · rintro log s hOpen ⟨hBefore, hand, hAtRest, hQ⟩
    obtain rfl := hAtRest.free hOpen
    exact ⟨hBefore, .free, .inl rfl, hConclude s hQ⟩
  · rintro log s now ⟨hBefore, hand, hAtRest, hQ⟩
    exact ⟨hBefore, hand, hAtRest, hNote hand s now hQ⟩

end Course

/-! ## What is settled for good -/

/-- A moment changes nothing about a step that is settled for good. -/
theorem Moment.record_of_closed (hg : g.Sound) {m : Moment g} (hOpen : m.scheduler.isOver = false)
    (hPossible : m.act.IsPossible m.scheduler) (hCoherent : m.scheduler.board.Coherent .free)
    {i : g.Index} (hClosed : m.scheduler.board.Closed .free i) :
    m.next.record i = m.scheduler.record i := by
  obtain ⟨_, -, -, -, hRecord⟩ := Act.keeps_coherent hg
    (Q := fun hand s => s.board.Closed hand i ∧ s.record i = m.scheduler.record i)
    (fun _ _ _ _ hMove hCoherent ⟨hClosed, hRecord⟩ =>
      ⟨hClosed.rule hg (hMove.rule hg) hCoherent,
        (hMove.record_of_closed hg hCoherent hClosed).trans hRecord⟩)
    (fun _ _ _ _ hReceives _ ⟨hClosed, hRecord⟩ =>
      ⟨hClosed.notice hReceives.notice, (hReceives.record_of_closed hClosed).trans hRecord⟩)
    hOpen hPossible hCoherent ⟨hClosed, rfl⟩
  exact hRecord

/-- A step outside of all bodies that handles no errors keeps its record from the moment at which it
is settled. -/
theorem Course.History.record_of_settled (hg : g.Sound) {p : Course g} {log : List (Moment g)}
    (h : Course.History p log) {i : g.Index} (hKind : g.kindOf i ≠ .errorHandler)
    (hOuter : ∀ loop, i ∉ g.body loop) {m : Moment g} (hm : m ∈ log) :
    ((m.scheduler.statusOf i).isSettled → p.scheduler.record i = m.scheduler.record i) ∧
      ((m.next.statusOf i).isSettled → p.scheduler.record i = m.next.record i) := by
  refine Course.History.induction hg (P := fun log s => ∀ m ∈ log,
    ((m.scheduler.statusOf i).isSettled → s.record i = m.scheduler.record i) ∧
      ((m.next.statusOf i).isSettled → s.record i = m.next.record i)) ?_ ?_ ?_ ?_ h m hm
  · intro _ _ m hm
    cases hm
  · intro log s act hOpen hPossible hCoherent hBefore m hm
    have hKept : (s.statusOf i).isSettled → (act.apply s).record i = s.record i := fun hSettled =>
      Moment.record_of_closed (m := ⟨s, act⟩) hg hOpen hPossible hCoherent
        (hCoherent.closed_of_kind hg hKind hOuter hSettled)
    have hLater : ∀ t : Scheduler g, (t.statusOf i).isSettled → s.record i = t.record i →
        (act.apply s).record i = t.record i := by
      intro t hSettled hSame
      have hStatus : s.statusOf i = t.statusOf i := congrArg (·.1.status) hSame
      exact (hKept (hStatus ▸ hSettled)).trans hSame
    rcases List.mem_append.mp hm with hm | hm
    · obtain ⟨hScheduler, hNext⟩ := hBefore m hm
      exact ⟨fun hSettled => hLater _ hSettled (hScheduler hSettled),
        fun hSettled => hLater _ hSettled (hNext hSettled)⟩
    · rw [List.mem_singleton.mp hm]
      exact ⟨hKept, fun _ => rfl⟩
  · intro log s _ hBefore m hm
    rw [s.record_conclude]
    exact hBefore m hm
  · exact fun _ _ _ hBefore => hBefore

end Workflow
