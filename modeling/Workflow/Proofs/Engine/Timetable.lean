/-
Workflow.Proofs.Engine.Timetable — runs along a timetable.

A timetable says what happens in a run over time, turn by turn, and at what
time: which call ends and how, which timer has run out, which command
arrives, and when the run is concluded. A run that is played along a
timetable is a run that can be.

* `Clocked.turn?`, `play?`, `reached_of_play?` — a run along a timetable.
* `Clocked.keepsTimetable`, `exists_of_timetable` — checking what it comes
  to.
-/
import Workflow.Proofs.Engine.Clock

namespace Workflow

namespace Clocked

variable {g : Graph} {c c' : Clocked g} {i : g.Index}

section

variable (n : Nat)

/-- One turn along a timetable. Calls are counted in the order in which they have been asked for, and
timers in the order in which they have been set. -/
def turn? (c : Clocked g) (now : Nat) (cue : Cue) : Option (Clocked g) :=
  if c.now ≤ now then
    match cue with
    | .command k => (c.course.readAt? (Course.scriptTime.addMillis now) n (.command k)).map fun p =>
        wind p now c.timers
    | .answer position outcome => c.course.calls[position]?.bind fun call =>
        (c.course.readAt? (Course.scriptTime.addMillis now) n
          (.event (.finished call.1 call.2 outcome))).map fun p => wind p now c.timers
    | .due position => c.timers[position]?.bind fun timer =>
        if timer.2 ≤ now then
          (c.course.readAt? (Course.scriptTime.addMillis now) n (.event (.retryDue timer.1))).map
            fun p => wind p now (c.timers.erase timer)
        else none
    | .conclude =>
      if c.course.scheduler.isOver then none
      else some { c with course := c.course.conclude (Course.scriptTime.addMillis now), now }
  else none

variable {n}

theorem reads_of_due? {now position : Nat} {due : Nat} (h : c.turn? n now (.due position) = some c')
    (hTimer : c.timers[position]? = some (i, due)) :
    Reads Course.scriptTime (.event (.retryDue i)) c c' := by
  unfold turn? at h
  split at h
  · rename_i hLater
    dsimp only at h
    rw [hTimer] at h
    simp only [Option.bind_some, Option.ite_none_right_eq_some, Option.map_eq_some_iff] at h
    obtain ⟨hDue, p, hRead, rfl⟩ := h
    obtain ⟨hOpen, hMore, hExpected, rfl⟩ := Course.of_readAt? hRead
    exact .intro hLater hOpen hMore hExpected (.due (List.mem_of_getElem? hTimer) hDue)
  · cases h

theorem turn_of_turn? {now : Nat} {cue : Cue} (h : c.turn? n now cue = some c') :
    Turn Course.scriptTime c c' := by
  have hAll := h
  unfold turn? at h
  split at h
  · rename_i hLater
    cases cue with
    | command k =>
      obtain ⟨p, hRead, rfl⟩ := Option.map_eq_some_iff.mp h
      obtain ⟨hOpen, hMore, hExpected, rfl⟩ := Course.of_readAt? hRead
      exact .read (.intro hLater hOpen hMore hExpected (.other rfl))
    | answer position outcome =>
      obtain ⟨call, -, hSome⟩ := Option.bind_eq_some_iff.mp h
      obtain ⟨p, hRead, rfl⟩ := Option.map_eq_some_iff.mp hSome
      obtain ⟨hOpen, hMore, hExpected, rfl⟩ := Course.of_readAt? hRead
      exact .read (.intro hLater hOpen hMore hExpected (.other rfl))
    | due position =>
      obtain ⟨timer, hTimer, -⟩ := Option.bind_eq_some_iff.mp h
      exact .read (reads_of_due? hAll hTimer)
    | conclude =>
      dsimp only at h
      split at h
      · cases h
      · rename_i hOpen
        obtain rfl := Option.some.inj h
        exact .conclude hLater (by simpa using hOpen)
  · cases h

/-- What a run without input that begins at time zero comes to along a timetable. -/
def play? (g : Graph) (n : Nat) (timetable : List (Nat × Cue)) : Option (Clocked g) :=
  (Course.start? g n .null).bind fun p =>
    timetable.foldlM (fun c entry => c.turn? n entry.1 entry.2) (wind p 0 [])

theorem reached_of_play? {timetable : List (Nat × Cue)} (h : play? g n timetable = some c) :
    Reached Course.scriptTime c := by
  obtain ⟨p, hStart, hRest⟩ := Option.bind_eq_some_iff.mp h
  have hBegun : Reached Course.scriptTime (wind p 0 []) := by
    unfold Course.start? at hStart
    obtain ⟨s, hAdvance, rfl⟩ := Option.map_eq_some_iff.mp hStart
    obtain rfl := Scheduler.advance_of_advanceWithin hAdvance
    exact .start "run" "workflow" "workflow" .null [] Course.scriptTime 0 none
  clear hStart h
  generalize wind p 0 [] = first at hBegun hRest
  induction timetable generalizing first with
  | nil =>
    cases hRest
    exact hBegun
  | cons entry timetable ih =>
    obtain ⟨next, hTurn, hLast⟩ := Option.bind_eq_some_iff.mp hRest
    exact ih next (hBegun.turn (turn_of_turn? hTurn)) hLast

end

/-- Whether a timetable in a run of a workflow leads to a goal. -/
def keepsTimetable (steps : List Step) (timetable : List (Nat × Cue))
    (goal : (g : Graph) → Clocked g → Prop) [∀ g, DecidablePred (goal g)] : Bool :=
  match Graph.compile false steps with
  | .error _ => false
  | .ok g => (play? g Script.rounds timetable).any fun c => goal g c

theorem exists_of_timetable {steps : List Step} {timetable : List (Nat × Cue)}
    {goal : (g : Graph) → Clocked g → Prop} [∀ g, DecidablePred (goal g)]
    (h : keepsTimetable steps timetable goal = true) :
    ∃ g c, Graph.compile false steps = .ok g ∧ Reached Course.scriptTime c ∧ goal g c := by
  unfold keepsTimetable at h
  split at h
  · cases h
  · rename_i g hCompile
    obtain ⟨c, hPlay, hGoal⟩ := (Option.any_eq_true _ _).mp h
    exact ⟨g, c, hCompile, reached_of_play? hPlay, of_decide_eq_true hGoal⟩

end Clocked

end Workflow
