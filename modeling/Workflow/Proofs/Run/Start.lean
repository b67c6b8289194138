/-
Workflow.Proofs.Run.Start — what the start of a step comes to.

A step that starts has begun a new attempt. Then its expressions are
evaluated, and it fails, is completed at once, or is handed to the executor;
a loop forgets the rounds of its former attempt and begins the first of a
new one, or is completed without any. All that is said about starts is said
of these few ends.

* `Scheduler.dataContext_forget`, `startFault?_forget` — what a step sees
  does not depend on rounds that are through.
* `Scheduler.Starts` — the ends of a start.
* `Scheduler.starts` — every start comes to one of them.
-/
import Workflow.Proofs.Run.Fault

namespace Workflow.Scheduler

variable {g : Graph}

/-- What a step sees does not depend on the rounds of loops that are through. -/
theorem dataContext_forget (s : Scheduler g) (i j : g.Index) (iterations : List Iteration) :
    (s.mapState fun st => st.mapResult j fun r => { r with iterations }).dataContext i =
      s.dataContext i := by
  have hResult (k : g.Index) : ((s.mapState fun st => st.mapResult j fun r =>
      { r with iterations }).state.result k).status = (s.state.result k).status ∧
      ((s.mapState fun st => st.mapResult j fun r =>
        { r with iterations }).state.result k).output = (s.state.result k).output := by
    unfold mapState RunState.mapResult RunState.result
    rw [PerStep.get_update]
    split
    · rename_i h
      subst h
      exact ⟨rfl, rfl⟩
    · exact ⟨rfl, rfl⟩
  have hOutputs : (s.mapState fun st => st.mapResult j fun r =>
      { r with iterations }).state.outputs = s.state.outputs := by
    unfold RunState.outputs
    simp only [hResult]
  unfold dataContext
  rw [hOutputs]
  rfl

theorem startFault?_forget (s : Scheduler g) (i : g.Index) (iterations : List Iteration) :
    (s.mapState fun st => st.mapResult i fun r => { r with iterations }).startFault? i =
      s.startFault? i := by
  simp only [startFault?, dataContext_forget]

/-- What the start of a step comes to. A fault of a loop is met after it has forgotten its former
rounds. -/
inductive Starts (s : Scheduler g) (i : g.Index) : Scheduler g → Prop
  | failed {fault} (hFault : (s.begin i).startFault? i = some fault) :
      Starts s i ((s.begin i).failStart i fault)
  | failedLoop {fault} (hFault : (s.begin i).startFault? i = some fault) :
      Starts s i (((s.begin i).mapState fun st => st.mapResult i fun r =>
        { r with iterations := [] }).failStart i fault)
  | completed {output} (hKind : g.kindOf i = .start ∨ g.kindOf i = .finish)
      (hFault : (s.begin i).startFault? i = none) : Starts s i ((s.begin i).complete i output)
  | decided {taken output} (hKind : g.kindOf i = .condition)
      (hFault : (s.begin i).startFault? i = none) :
      Starts s i (((s.begin i).mapControl i fun c => { c with branch := some taken }).complete i
        output)
  | called {own} (hKind : g.kindOf i = .agent ∨ g.kindOf i = .action ∨ g.kindOf i = .errorHandler)
      (hFault : (s.begin i).startFault? i = none)
      (hInput : resolveInput ((s.begin i).dataContext i) (g.step i).inputMapping = .ok own) :
      Starts s i ((s.begin i).dispatch i)
  | emptyLoop {config all} (hKind : g.kindOf i = .loop)
      (hFault : (s.begin i).startFault? i = none) (hConfig : (g.step i).loopConfig = some config)
      (hAll : Expr.evaluateCollection ((s.begin i).dataContext i) config.collectionExpr = .ok all)
      (hNone : all.take config.maxIterations = []) :
      Starts s i ((((s.begin i).mapState fun st => st.mapResult i fun r =>
        { r with iterations := [] }).resetBody i).complete i (loopOutput []))
  | openLoop {config all} (hKind : g.kindOf i = .loop)
      (hFault : (s.begin i).startFault? i = none) (hConfig : (g.step i).loopConfig = some config)
      (hAll : Expr.evaluateCollection ((s.begin i).dataContext i) config.collectionExpr = .ok all)
      (hSome : all.take config.maxIterations ≠ []) :
      Starts s i ((((s.begin i).mapState fun st => st.mapResult i fun r =>
        { r with iterations := [] }).resetBody i).mapControl i fun c =>
          { c with frame := some ⟨all.take config.maxIterations, 0, []⟩ })

variable {s : Scheduler g} {i : g.Index}

theorem starts_runEnd (hKind : g.kindOf i = .finish) : s.Starts i ((s.begin i).runEnd i) := by
  unfold runEnd
  split
  · rename_i hInput
    exact .failed (by simp [startFault?, hKind, hInput])
  all_goals
    rename_i hInput
    exact .completed (.inr hKind) (by simp [startFault?, hKind, hInput])

theorem starts_runCondition (hKind : g.kindOf i = .condition) :
    s.Starts i ((s.begin i).runCondition i) := by
  unfold runCondition
  dsimp only
  split
  · rename_i hFault
    exact .failed (by simp [startFault?, hKind, hFault])
  · rename_i hTaken
    exact .decided hKind (by simp [startFault?, hKind, hTaken])

theorem starts_startLoop (hKind : g.kindOf i = .loop) :
    s.Starts i ((s.begin i).startLoop i) := by
  unfold startLoop
  dsimp only
  split
  · rename_i hConfig
    have hFault : (s.begin i).startFault? i =
        some (.error (StepError.of .evaluation "loop step has no loopConfig")) := by
      simp [startFault?, hKind, hConfig]
    exact .failedLoop hFault
  · rename_i config hConfig
    rw [dataContext_forget]
    split
    · rename_i hFault
      exact .failedLoop (by simp [startFault?, hKind, hConfig, hFault])
    · rename_i all hAll
      have hNoFault : (s.begin i).startFault? i = none := by
        simp [startFault?, hKind, hConfig, hAll]
      split
      · rename_i hEmpty
        exact .emptyLoop hKind hNoFault hConfig hAll (List.isEmpty_iff.mp hEmpty)
      · rename_i hSome
        exact .openLoop hKind hNoFault hConfig hAll (mt List.isEmpty_iff.mpr hSome)

theorem starts_dispatch
    (hKind : g.kindOf i = .agent ∨ g.kindOf i = .action ∨ g.kindOf i = .errorHandler) :
    s.Starts i ((s.begin i).dispatch i) := by
  cases hInput : resolveInput ((s.begin i).dataContext i) (g.step i).inputMapping with
  | error fault =>
    have hFault : (s.begin i).startFault? i = some fault := by
      rcases hKind with h | h | h <;> simp [startFault?, h, hInput]
    simp only [dispatch, hInput]
    exact .failed hFault
  | ok own =>
    have hNoFault : (s.begin i).startFault? i = none := by
      rcases hKind with h | h | h <;> simp [startFault?, h, hInput]
    exact .called hKind hNoFault hInput

variable (s) (i)

/-- Every start comes to one of these ends. -/
theorem starts : s.Starts i (s.startStep i) := by
  unfold startStep
  dsimp only
  split
  · rename_i hKind
    exact .completed (.inl hKind) (by simp [startFault?, hKind])
  · exact starts_runEnd ‹_›
  · exact starts_runCondition ‹_›
  · exact starts_startLoop ‹_›
  all_goals exact starts_dispatch (by simp_all)

end Workflow.Scheduler
