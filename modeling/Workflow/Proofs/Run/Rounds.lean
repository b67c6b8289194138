/-
Workflow.Proofs.Run.Rounds — the rounds of a loop.

A loop that is completed has gone through one round for each of its items,
one after the other, since it started for the last time. What it remembers
of a round is what the steps of its body have given in this round: no
output comes from an earlier round or from an attempt that has been given
up.

* `Round` — an item, the moments of a round and the end of it.
* `Yields` — the moments that a step has its output from.
* `Scheduler.InRound`, `Round.IsNumber` — a round under way; a round that is
  through.
* `Traced.act` — every act keeps to the rounds of a loop.
* `Course.loop_rounds` — what a completed loop has done and remembers.
-/
import Workflow.Proofs.Graph.Wired
import Workflow.Proofs.Run.Body
import Workflow.Proofs.Run.Order

namespace Workflow

variable {g : Graph}

/-! ## Outputs by id -/

/-- A dictionary holds the entries of a list in which no key has two values. -/
theorem Dict.find?_ofEntries {α : Type} {entries : List (String × α)}
    (hUnique : ∀ key v w, (key, v) ∈ entries → (key, w) ∈ entries → v = w) {key : String}
    {value : α} : Dict.find? (Dict.ofEntries entries) key = some value ↔ (key, value) ∈ entries := by
  unfold Dict.ofEntries
  induction entries using List.reverseRecOn with
  | nil => simp
  | append_singleton entries entry ih =>
    obtain ⟨k, v⟩ := entry
    have ih := ih fun key v w hv hw =>
      hUnique key v w (List.mem_append_left _ hv) (List.mem_append_left _ hw)
    rw [List.foldl_concat, Dict.find?_insert]
    by_cases hKey : k = key
    · subst hKey
      rw [if_pos rfl]
      constructor
      · rintro ⟨⟩
        simp
      · intro hMem
        rw [hUnique k v value (by simp) hMem]
    · rw [if_neg hKey, ih]
      simp [Ne.symm hKey]

/-- The outputs of the completed ones among some steps, and nothing else. -/
theorem Scheduler.find?_outputsOf (hg : g.Wired) (s : Scheduler g) (steps : List g.Index)
    {id : String} {output : Json} :
    Dict.find? (s.outputsOf steps) id = some output ↔
      ∃ i ∈ steps, g.idOf i = id ∧ s.statusOf i = .completed ∧
        (s.state.result i).output = some output := by
  have hEntry : ∀ id output, (id, output) ∈ (steps.filterMap fun i =>
      let r := s.state.result i
      if r.status = .completed then r.output.map (g.idOf i, ·) else none) ↔
      ∃ i ∈ steps, g.idOf i = id ∧ s.statusOf i = .completed ∧
        (s.state.result i).output = some output := by
    intro id output
    simp only [List.mem_filterMap, Option.ite_none_right_eq_some, Option.map_eq_some_iff,
      Prod.mk.injEq]
    constructor
    · rintro ⟨i, hi, hCompleted, _, hOutput, rfl, rfl⟩
      exact ⟨i, hi, rfl, hCompleted, hOutput⟩
    · rintro ⟨i, hi, rfl, hCompleted, hOutput⟩
      exact ⟨i, hi, hCompleted, output, hOutput, rfl, rfl⟩
  unfold outputsOf
  rw [Dict.find?_ofEntries, hEntry]
  intro key v w hv hw
  obtain ⟨i, -, hi, -, hOutput⟩ := (hEntry key v).mp hv
  obtain ⟨j, -, hj, -, hOutput'⟩ := (hEntry key w).mp hw
  obtain rfl := hg.ids i j (hi.trans hj.symm)
  exact Option.some.inj (hOutput.symm.trans hOutput')

/-! ## Rounds -/

/-- The moments that a step has its output from: it has started and been completed at once, or it has
started with a call, and the call has come to an end. -/
inductive Yields (moments : List (Moment g)) (i : g.Index) : Json → Prop
  | atOnce {s : Scheduler g} {output : Json} (hStart : ⟨s, .start i⟩ ∈ moments)
      (hCompleted : (s.startStep i).statusOf i = .completed)
      (hOutput : ((s.startStep i).state.result i).output = some output) : Yields moments i output
  | later {s t : Scheduler g} {token : Nat} {output : Dict Json}
      (hOrder : [⟨s, .start i⟩, ⟨t, .read (.event (.finished i token (.ok output)))⟩].Sublist
        moments)
      (hPlaced : ((s.startStep i).controlOf i).call = some token)
      (hAwaited : (t.controlOf i).call = some token) : Yields moments i (.obj output)

theorem Yields.append {moments more : List (Moment g)} {i : g.Index} {output : Json}
    (h : Yields moments i output) : Yields (moments ++ more) i output := by
  cases h with
  | atOnce hStart hCompleted hOutput =>
    exact .atOnce (List.mem_append_left _ hStart) hCompleted hOutput
  | later hOrder hPlaced hAwaited =>
    exact .later (hOrder.trans (List.sublist_append_left _ _)) hPlaced hAwaited

/-- A round of a loop: its item, what has happened in it, and the scheduler that ends it. -/
structure Round (g : Graph) where
  item : Json
  moments : List (Moment g)
  closing : Scheduler g

/-- The moments of a round up to its end. -/
def Round.log (loop : g.Index) (r : Round g) : List (Moment g) :=
  r.moments ++ [⟨r.closing, .close loop⟩]

/-- What the steps of the body have given in a round, by id. -/
def Round.outputs (loop : g.Index) (r : Round g) : Dict Json := r.closing.outputsOf (g.body loop)

/-- What a loop remembers of its rounds. -/
def Round.iterations (loop : g.Index) (rounds : List (Round g)) : List Iteration :=
  rounds.mapIdx fun k r => ⟨k, r.item, r.outputs loop⟩

theorem Round.iterations_append (loop : g.Index) (rounds : List (Round g)) (r : Round g) :
    Round.iterations loop (rounds ++ [r]) =
      Round.iterations loop rounds ++ [⟨rounds.length, r.item, r.outputs loop⟩] := by
  simp [Round.iterations]

theorem Round.loopOutput_iterations (loop : g.Index) (rounds : List (Round g)) :
    Scheduler.loopOutput (Round.iterations loop rounds) =
      .obj [("count", Json.ofNat rounds.length),
        ("results", .arr (rounds.map fun r => .obj (r.outputs loop)))] := by
  have hOutputs : (Round.iterations loop rounds).map (fun it => Json.obj it.outputs) =
      rounds.map fun r => .obj (r.outputs loop) := by
    refine List.ext_getElem (by simp [Round.iterations]) fun k _ _ => ?_
    simp [Round.iterations]
  rw [Scheduler.loopOutput, hOutputs]
  simp [Round.iterations]

variable {loop : g.Index} {items : List Json} {k : Nat}

/-- A scheduler is in a round of a loop since some moments: they all belong to the round, and so does
whatever the steps of the body have given and whatever they wait for. -/
structure Scheduler.InRound (s : Scheduler g) (loop : g.Index) (items : List Json) (k : Nat)
    (moments : List (Moment g)) : Prop where
  quiet : ∀ m ∈ moments, m.act ≠ .start loop ∧ m.act ≠ .close loop
  frames : ∀ m ∈ moments, ∃ iterations,
    (m.scheduler.controlOf loop).frame = some ⟨items, k, iterations⟩
  calls : ∀ i ∈ g.body loop, ∀ token, (s.controlOf i).call = some token →
    ∃ t : Scheduler g, ⟨t, .start i⟩ ∈ moments ∧ ((t.startStep i).controlOf i).call = some token
  outputs : ∀ i ∈ g.body loop, s.statusOf i = .completed →
    ∃ output, (s.state.result i).output = some output ∧ Yields moments i output

namespace Scheduler.InRound

variable {s : Scheduler g} {moments : List (Moment g)}

/-- A round begins with a body that has not begun. -/
theorem nil (hBody : ∀ i ∈ g.body loop, s.statusOf i = .pending ∧ (s.controlOf i).call = none) :
    s.InRound loop items k [] where
  quiet _ hm := absurd hm List.not_mem_nil
  frames _ hm := absurd hm List.not_mem_nil
  calls i hi token hCall := by
    rw [(hBody i hi).2] at hCall
    cases hCall
  outputs i hi hCompleted := by
    rw [(hBody i hi).1] at hCompleted
    cases hCompleted

/-- It is a matter of the records alone. -/
theorem of_record {s' : Scheduler g} (h : s.InRound loop items k moments)
    (hRecord : ∀ i, s'.record i = s.record i) : s'.InRound loop items k moments where
  quiet := h.quiet
  frames := h.frames
  calls i hi token hCall :=
    h.calls i hi token ((congrArg (·.2.call) (hRecord i)).symm.trans hCall)
  outputs i hi hCompleted := by
    have hResult : s'.state.result i = s.state.result i := congrArg (·.1) (hRecord i)
    rw [hResult]
    exact h.outputs i hi ((congrArg StepResult.status hResult).symm.trans hCompleted)

/-- An act that leaves the loop in its round belongs to the round. -/
theorem snoc {act : Act g} (h : s.InRound loop items k moments)
    (hFrame : ∃ iterations, (s.controlOf loop).frame = some ⟨items, k, iterations⟩)
    (hStart : act ≠ .start loop) (hClose : act ≠ .close loop) (hBody : ∀ i ∈ g.body loop, Moment.Treats ⟨s, act⟩ i) :
    (act.apply s).InRound loop items k (moments ++ [⟨s, act⟩]) where
  quiet m hm := by
    rcases List.mem_append.mp hm with hm | hm
    · exact h.quiet m hm
    · rw [List.mem_singleton.mp hm]
      exact ⟨hStart, hClose⟩
  frames m hm := by
    rcases List.mem_append.mp hm with hm | hm
    · exact h.frames m hm
    · rw [List.mem_singleton.mp hm]
      exact hFrame
  calls i hi token hCall := by
    have hKept : (s.controlOf i).call = some token → ∃ t : Scheduler g,
        ⟨t, .start i⟩ ∈ moments ++ [⟨s, act⟩] ∧ ((t.startStep i).controlOf i).call = some token := by
      intro hOld
      obtain ⟨t, ht, hPlaced⟩ := h.calls i hi token hOld
      exact ⟨t, List.mem_append_left _ ht, hPlaced⟩
    cases hBody i hi with
    | leaves hSame => exact hKept ((congrArg (·.2.call) hSame).symm.trans hCall)
    | starts hAct =>
      obtain rfl : act = .start i := hAct
      exact ⟨s, by simp, hCall⟩
    | answers _ _ hDone =>
      rw [show ((act.apply s).controlOf i).call = none from hDone] at hCall
      cases hCall
    | defers _ hCalls =>
      rcases hCalls with hNone | hSame
      · rw [show ((act.apply s).controlOf i).call = none from hNone] at hCall
        cases hCall
      · exact hKept (hSame.symm.trans hCall)
  outputs i hi hCompleted := by
    cases hBody i hi with
    | leaves hSame =>
      have hResult : (act.apply s).state.result i = s.state.result i := congrArg (·.1) hSame
      obtain ⟨output, hOutput, hYields⟩ :=
        h.outputs i hi ((congrArg StepResult.status hResult).symm.trans hCompleted)
      exact ⟨output, hResult ▸ hOutput, hYields.append⟩
    | starts hAct hOutput =>
      obtain rfl : act = .start i := hAct
      obtain ⟨output, hSome⟩ := Option.ne_none_iff_exists'.mp (hOutput hCompleted)
      exact ⟨output, hSome, .atOnce (by simp) hCompleted hSome⟩
    | answers hAct hCall hDone hOutput =>
      rename_i token output
      obtain rfl : act = .read (.event (.finished i token (.ok output))) := hAct
      -- the call that comes to an end has been placed in this round
      obtain ⟨t, ht, hPlaced⟩ := h.calls i hi token hCall
      refine ⟨.obj output, hOutput, .later ?_ hPlaced hCall⟩
      exact (List.singleton_sublist.mpr ht).append (List.Sublist.refl _)
    | defers hStatus => exact absurd hCompleted hStatus

end Scheduler.InRound

/-- A round that is through: the loop has been in it from the first of its moments to its end. -/
structure Round.IsNumber (r : Round g) (loop : g.Index) (items : List Json) (k : Nat) : Prop where
  within : r.closing.InRound loop items k r.moments
  frame : ∃ iterations, (r.closing.controlOf loop).frame = some ⟨items, k, iterations⟩
  item : items[k]? = some r.item
  settled : ∀ i ∈ g.body loop, (r.closing.statusOf i).isSettled

/-! ## Loops and their rounds -/

/-- What has happened since a loop has started for the last time: some rounds that are through, one
after the other, and the rest. -/
structure Unfolds (loop : g.Index) (log : List (Moment g)) (items : List Json)
    (rounds : List (Round g)) (rest : List (Moment g)) : Prop where
  split : ∃ (before : List (Moment g)) (t : Scheduler g),
    log = before ++ ⟨t, .start loop⟩ :: (rounds.flatMap (Round.log loop) ++ rest) ∧
      t.HasItems loop items
  rounds : ∀ (k : Nat) (r : Round g), rounds[k]? = some r → r.IsNumber loop items k

namespace Unfolds

variable {log rest : List (Moment g)} {rounds : List (Round g)}

theorem start (log : List (Moment g)) {s : Scheduler g} (hItems : s.HasItems loop items) :
    Unfolds loop (log ++ [⟨s, .start loop⟩]) items [] [] where
  split := ⟨log, s, by simp, hItems⟩
  rounds _ _ hRound := by simp at hRound

theorem snoc (h : Unfolds loop log items rounds rest) (m : Moment g) :
    Unfolds loop (log ++ [m]) items rounds (rest ++ [m]) where
  split := by
    obtain ⟨before, t, rfl, hItems⟩ := h.split
    exact ⟨before, t, by simp, hItems⟩
  rounds := h.rounds

theorem close {s : Scheduler g} {item : Json} (h : Unfolds loop log items rounds rest)
    (hRound : Round.IsNumber ⟨item, rest, s⟩ loop items rounds.length) :
    Unfolds loop (log ++ [⟨s, .close loop⟩]) items (rounds ++ [⟨item, rest, s⟩]) [] where
  split := by
    obtain ⟨before, t, rfl, hItems⟩ := h.split
    exact ⟨before, t, by simp [Round.log], hItems⟩
  rounds k r hGet := by
    rw [List.getElem?_append] at hGet
    split at hGet
    · exact h.rounds k r hGet
    · rename_i hLast
      rw [List.getElem?_singleton, Option.ite_none_right_eq_some] at hGet
      obtain ⟨hk, hSame⟩ := hGet
      obtain rfl : k = rounds.length := by omega
      exact Option.some.inj hSame ▸ hRound

/-- When there is a round for each item, the items are those of the rounds. -/
theorem items_eq (h : Unfolds loop log items rounds rest) (hLength : rounds.length = items.length) :
    rounds.map Round.item = items := by
  refine List.ext_getElem (by simpa using hLength) fun k hk hk' => ?_
  rw [List.getElem_map]
  have hRound : rounds[k]? = some rounds[k] := List.getElem?_eq_getElem _
  have hItem := (h.rounds k _ hRound).item
  rw [List.getElem?_eq_getElem hk'] at hItem
  exact (Option.some.inj hItem).symm

end Unfolds

/-- A loop in a round has been through the rounds before it. -/
structure Underway (loop : g.Index) (log : List (Moment g)) (s : Scheduler g) (f : Frame)
    (rounds : List (Round g)) (current : List (Moment g)) : Prop where
  unfolds : Unfolds loop log f.items rounds current
  position : f.position = rounds.length
  iterations : f.iterations = Round.iterations loop rounds
  within : s.InRound loop f.items rounds.length current

/-- The round that ends is the next one of those that are through. -/
theorem Underway.close {log current : List (Moment g)} {s : Scheduler g} {f : Frame}
    {rounds : List (Round g)} {item : Json} (h : Underway loop log s f rounds current)
    (hFrame : (s.controlOf loop).frame = some f) (hItem : f.items[f.position]? = some item)
    (hSettled : ∀ i ∈ g.body loop, (s.statusOf i).isSettled) :
    Unfolds loop (log ++ [⟨s, .close loop⟩]) f.items (rounds ++ [⟨item, current, s⟩]) [] ∧
      f.iterations ++ [⟨f.position, item, s.outputsOf (g.body loop)⟩] =
        Round.iterations loop (rounds ++ [⟨item, current, s⟩]) := by
  have hRound : Round.IsNumber ⟨item, current, s⟩ loop f.items rounds.length := by
    refine ⟨h.within, ⟨f.iterations, ?_⟩, ?_, hSettled⟩ <;> rw [← h.position]
    · exact hFrame
    · exact hItem
  refine ⟨h.unfolds.close hRound, ?_⟩
  rw [Round.iterations_append, h.iterations, h.position]
  rfl

/-- A loop that is completed has been through a round for each item, and rests. -/
structure Finished (loop : g.Index) (log : List (Moment g)) (s : Scheduler g) (items : List Json)
    (rounds : List (Round g)) (rest : List (Moment g)) : Prop where
  unfolds : Unfolds loop log items rounds rest
  length : rounds.length = items.length
  frame : (s.controlOf loop).frame = none
  iterations : (s.state.result loop).iterations = Round.iterations loop rounds
  output : (s.state.result loop).output =
    some (Scheduler.loopOutput (Round.iterations loop rounds))
  rest : ∀ m ∈ rest, m.act ≠ .start loop ∧ ∀ i ∈ g.body loop, m.act ≠ .start i

/-- What is behind a loop agrees with what is remembered of it. -/
structure Traced (loop : g.Index) (log : List (Moment g)) (s : Scheduler g) : Prop where
  uncalled : (s.controlOf loop).call = none
  underway : ∀ f, (s.controlOf loop).frame = some f →
    ∃ rounds current, Underway loop log s f rounds current
  finished : s.statusOf loop = .completed → ∃ items rounds rest, Finished loop log s items rounds rest

namespace Traced

variable {log : List (Moment g)} {s s' : Scheduler g}

theorem of_isOut (hUncalled : (s.controlOf loop).call = none) (h : s.IsOut loop) :
    Traced loop log s where
  uncalled := hUncalled
  underway f hFrame := by
    rw [h.frame] at hFrame
    cases hFrame
  finished hCompleted := absurd hCompleted h.status

theorem of_underway {f : Frame} {rounds : List (Round g)} {current : List (Moment g)}
    (hUncalled : (s.controlOf loop).call = none) (hFrame : (s.controlOf loop).frame = some f)
    (hStatus : s.statusOf loop ≠ .completed) (h : Underway loop log s f rounds current) :
    Traced loop log s where
  uncalled := hUncalled
  underway f' hFrame' := by
    obtain rfl := Option.some.inj (hFrame.symm.trans hFrame')
    exact ⟨rounds, current, h⟩
  finished hCompleted := absurd hCompleted hStatus

theorem of_finished {items : List Json} {rounds : List (Round g)} {rest : List (Moment g)}
    (hUncalled : (s.controlOf loop).call = none) (h : Finished loop log s items rounds rest) :
    Traced loop log s where
  uncalled := hUncalled
  underway f hFrame := by
    rw [h.frame] at hFrame
    cases hFrame
  finished _ := ⟨items, rounds, rest, h⟩

/-- It is a matter of the records alone. -/
theorem of_record (h : Traced loop log s) (hRecord : ∀ i, s'.record i = s.record i) :
    Traced loop log s' where
  uncalled := (congrArg (·.2.call) (hRecord loop)).trans h.uncalled
  underway f hFrame := by
    obtain ⟨rounds, current, hUnder⟩ :=
      h.underway f ((congrArg (·.2.frame) (hRecord loop)).symm.trans hFrame)
    exact ⟨rounds, current, hUnder.unfolds, hUnder.position, hUnder.iterations,
      hUnder.within.of_record hRecord⟩
  finished hCompleted := by
    obtain ⟨items, rounds, rest, hFinished⟩ :=
      h.finished ((congrArg (·.1.status) (hRecord loop)).symm.trans hCompleted)
    have hResult : s'.state.result loop = s.state.result loop := congrArg (·.1) (hRecord loop)
    exact ⟨items, rounds, rest, hFinished.unfolds, hFinished.length,
      (congrArg (·.2.frame) (hRecord loop)).trans hFinished.frame,
      hResult ▸ hFinished.iterations, hResult ▸ hFinished.output, hFinished.rest⟩

/-- A loop that starts begins with no rounds. -/
theorem start (hg : g.Sound) (hKind : g.kindOf loop = .loop) (hCoherent : s.board.Coherent .free)
    (hReady : s.statusOf loop = .ready)
    (hUncalled : ((s.startStep loop).controlOf loop).call = none) :
    Traced loop (log ++ [⟨s, .start loop⟩]) (s.startStep loop) := by
  have hFrame : (s.board.slot loop).frame = none := by
    by_contra hSome
    have hRunning : s.statusOf loop = .running := hCoherent.running_of_frame hSome
    rw [hReady] at hRunning
    cases hRunning
  cases Scheduler.opens_startStep hg hKind hFrame with
  | out hOut => exact of_isOut hUncalled hOut
  | empty hItems hNone hIterations hOutput =>
    exact of_finished hUncalled ⟨.start log hItems, rfl, hNone, hIterations, hOutput,
      fun m hm => absurd hm List.not_mem_nil⟩
  | round hItems hSome hStatus hBody =>
    refine of_underway hUncalled hSome hStatus ⟨.start log hItems, rfl, rfl, .nil fun i hi => ?_⟩
    exact ⟨(hBody i hi).1, (hBody i hi).2.trans (hCoherent.idle loop hFrame i hi).2.1⟩

/-- A round that ends is followed by the next one, or the loop is completed. -/
theorem close (hg : g.Sound) (hCoherent : s.board.Coherent .free) (hOver : s.RoundOver loop)
    (h : Traced loop log s) (hUncalled : ((s.closeRound loop).controlOf loop).call = none) :
    Traced loop (log ++ [⟨s, .close loop⟩]) (s.closeRound loop) := by
  obtain ⟨⟨f, hFrame, hIn⟩, hBody⟩ := hOver
  have hFrame : (s.controlOf loop).frame = some f := hFrame
  obtain ⟨rounds, current, hUnder⟩ := h.underway f hFrame
  have hSettled : ∀ i ∈ g.body loop, (s.statusOf i).isSettled :=
    Scheduler.settled_of_bodySettled hBody
  have hOwn := hg.not_mem_own_body loop
  obtain ⟨-, hRunning, -⟩ := hCoherent.frame loop f hFrame
  have hRunning : s.statusOf loop = .running := hRunning
  obtain ⟨item, hItem⟩ : ∃ item, f.items[f.position] = item := ⟨_, rfl⟩
  obtain ⟨hUnfolds, hIterations⟩ :=
    hUnder.close hFrame (List.getElem?_eq_some_iff.mpr ⟨hIn, hItem⟩) hSettled
  rw [Scheduler.closeRound_of_over hFrame hIn hBody, hItem, hIterations] at hUncalled ⊢
  -- the round that is through joins the others, and an empty one begins unless it was the last
  split
  · rename_i hMore
    rw [if_pos hMore] at hUncalled
    refine of_underway hUncalled (f := ⟨f.items, f.position + 1, Round.iterations loop
      (rounds ++ [⟨item, current, s⟩])⟩) (by simp [hOwn]) ?_
      ⟨hUnfolds, by simp [hUnder.position], rfl, .nil fun i hi => ?_⟩
    · have hResult : ∀ t : Scheduler g, (t.resetBody loop).statusOf loop = t.statusOf loop := by
        simp [Scheduler.statusOf, RunState.statusOf, hOwn]
      rw [hResult]
      exact ne_of_eq_of_ne hRunning (by simp)
    · have hNe : loop ≠ i := fun h => hOwn (h ▸ hi)
      have hCall : (s.controlOf i).call = none := by
        by_contra hSome
        have hBusy : s.statusOf i = .running :=
          (hCoherent.plain i (hg.not_guards_of_mem hi)).call hSome
        have hThrough := hSettled i hi
        rw [hBusy] at hThrough
        cases hThrough
      simp [Scheduler.statusOf, RunState.statusOf, hi, hNe, StepResult.reset, StepResult.initial,
        hCall]
  · rename_i hLast
    rw [if_neg hLast] at hUncalled
    refine of_finished hUncalled ⟨hUnfolds, ?_, by simp, ?_, ?_,
      fun m hm => absurd hm List.not_mem_nil⟩
    · have hPosition := hUnder.position
      simp only [List.length_append, List.length_singleton]
      omega
    · simp [StepResult.complete]
    · simp [StepResult.complete]

/-- Every other act leaves the loop in its round, takes it out of it, or leaves it completed. -/
theorem other (hg : g.Sound) (hKind : g.kindOf loop = .loop) {act : Act g}
    (hOpen : s.isOver = false) (hPossible : act.IsPossible s) (hCoherent : s.board.Coherent .free)
    (hStart : act ≠ .start loop) (hClose : act ≠ .close loop)
    (hBack : ¬ Moment.FallsBack ⟨s, act⟩ loop) (h : Traced loop log s)
    (hUncalled : ((act.apply s).controlOf loop).call = none) :
    Traced loop (log ++ [⟨s, act⟩]) (act.apply s) := by
  rcases Moment.loop_cases (m := ⟨s, act⟩) hg hOpen hPossible hCoherent hKind h.uncalled hStart
    hClose with hOut | hFalls | ⟨hSame, hBody⟩
  · exact of_isOut hUncalled hOut
  · exact absurd hFalls hBack
  have hFrameSame : ((act.apply s).controlOf loop).frame = (s.controlOf loop).frame :=
    congrArg (·.2.frame) hSame
  have hResult : (act.apply s).state.result loop = s.state.result loop := congrArg (·.1) hSame
  refine ⟨hUncalled, fun f hFrame => ?_, fun hCompleted => ?_⟩
  · have hBefore := hFrameSame.symm.trans hFrame
    obtain ⟨rounds, current, hUnder⟩ := h.underway f hBefore
    have hIn : ¬ (act.apply s).IsOut loop := by
      rintro ⟨hNone, -⟩
      rw [hFrame] at hNone
      cases hNone
    refine ⟨rounds, current ++ [⟨s, act⟩], hUnder.unfolds.snoc _, hUnder.position,
      hUnder.iterations, hUnder.within.snoc ⟨f.iterations, ?_⟩ hStart hClose fun i hi => ?_⟩
    · rw [← hUnder.position]
      exact hBefore
    · exact Moment.member_cases (m := ⟨s, act⟩) hg hOpen hPossible hCoherent hi (hBody i hi) hIn
  · obtain ⟨items, rounds, rest, hFinished⟩ :=
      h.finished ((congrArg StepResult.status hResult).symm.trans hCompleted)
    refine ⟨items, rounds, rest ++ [⟨s, act⟩], hFinished.unfolds.snoc _, hFinished.length,
      hFrameSame.trans hFinished.frame, hResult ▸ hFinished.iterations,
      hResult ▸ hFinished.output, fun m hm => ?_⟩
    rcases List.mem_append.mp hm with hm | hm
    · exact hFinished.rest m hm
    · rw [List.mem_singleton.mp hm]
      refine ⟨hStart, ?_⟩
      -- the body of a loop that is in no round has nothing to start
      rintro i hi rfl
      have hReady : (s.board.slot i).status = .ready := hPossible
      exact (hCoherent.frame_of_up hg hi (.inl hReady)).1 hFinished.frame

/-- Every act keeps to the rounds of a loop, unless a handler completes the loop. -/
theorem act (hg : g.Sound) (hKind : g.kindOf loop = .loop) {act : Act g}
    (hOpen : s.isOver = false) (hPossible : act.IsPossible s) (hCoherent : s.board.Coherent .free)
    (hBack : ¬ Moment.FallsBack ⟨s, act⟩ loop) (h : Traced loop log s) :
    Traced loop (log ++ [⟨s, act⟩]) (act.apply s) := by
  have hUncalled : ((act.apply s).controlOf loop).call = none :=
    Moment.uncalled (m := ⟨s, act⟩) hg hOpen hPossible hCoherent hKind h.uncalled
  by_cases hStart : act = .start loop
  · subst hStart
    exact start hg hKind hCoherent hPossible hUncalled
  by_cases hClose : act = .close loop
  · subst hClose
    exact h.close hg hCoherent hPossible hUncalled
  exact h.other hg hKind hOpen hPossible hCoherent hStart hClose hBack hUncalled

end Traced

/-! ## Completed loops -/

/-- What is true of the round of a loop with a number: the steps of the body that start in it see its
item and its number, it ends when they are all through, and what is remembered of it is what they
have given in it. -/
structure Round.Ran (r : Round g) (loop : g.Index) (k : Nat) : Prop where
  quiet : ∀ m ∈ r.moments, m.act ≠ .start loop ∧ m.act ≠ .close loop
  context : ∀ m ∈ r.moments, ∀ i ∈ g.body loop, m.act = .start i →
    ((m.scheduler.begin i).dataContext i).json = r.item ∧
      ∃ fields, ((m.scheduler.begin i).dataContext i).execution = .obj fields ∧
        Dict.find? fields "iteration" = some (Json.ofNat k)
  settled : ∀ i ∈ g.body loop, (r.closing.statusOf i).isSettled
  outputs : ∀ id output, Dict.find? (r.outputs loop) id = some output ↔
    ∃ i ∈ g.body loop, g.idOf i = id ∧ r.closing.statusOf i = .completed ∧
      (r.closing.state.result i).output = some output
  sources : ∀ i ∈ g.body loop, r.closing.statusOf i = .completed →
    ∃ output, (r.closing.state.result i).output = some output ∧ Yields r.moments i output

/-- What a step of a body sees in a round. -/
theorem Scheduler.context_of_frame {s : Scheduler g} {i : g.Index} (hOwner : g.owner? i = some loop)
    {iterations : List Iteration} {item : Json} (hItem : items[k]? = some item)
    (hFrame : (s.controlOf loop).frame = some ⟨items, k, iterations⟩) :
    (s.dataContext i).json = item ∧ ∃ fields, (s.dataContext i).execution = .obj fields ∧
      Dict.find? fields "iteration" = some (Json.ofNat k) := by
  have hIn : s.frameOf? i = some ⟨items, k, iterations⟩ := by
    simp [frameOf?, hOwner, hFrame]
  unfold dataContext
  simp only [hIn, hItem, Option.getD_some, true_and]
  exact ⟨_, rfl, by simp [Dict.find?]⟩

theorem Round.IsNumber.ran (hg : g.Wired) {r : Round g} (h : r.IsNumber loop items k) :
    r.Ran loop k where
  quiet := h.within.quiet
  context m hm i hi _ := by
    obtain ⟨iterations, hFrame⟩ := h.within.frames m hm
    exact Scheduler.context_of_frame (s := m.scheduler.begin i) (hg.owner?_eq_some_iff.mpr hi)
      h.item hFrame
  settled := h.settled
  outputs _ _ := Scheduler.find?_outputsOf hg r.closing (g.body loop)
  sources := h.within.outputs

namespace Course

/-- In a run in which no handler completes a loop, what is behind the loop agrees with what is
remembered of it. -/
theorem History.traced (hg : g.Sound) {p : Course g} {log : List (Moment g)} (h : History p log)
    (hKind : g.kindOf loop = .loop) (hNoFallback : ∀ m ∈ log, ¬ m.FallsBack loop) :
    Traced loop log p.scheduler := by
  have hTraced := History.induction hg
    (P := fun log s => (∀ m ∈ log, ¬ m.FallsBack loop) → Traced loop log s) ?_ ?_ ?_ ?_ h hNoFallback
  · exact hTraced.of_record fun _ => rfl
  · intro s hFresh _
    have hSlot := Scheduler.slot_enter hg hFresh loop
    refine .of_isOut (congrArg Slot.call hSlot) ⟨congrArg Slot.frame hSlot, ?_⟩
    rcases Scheduler.status_enter hg hFresh loop with h | h | h <;> simp [h]
  · intro log s act hOpen hPossible hCoherent hBefore hNone
    have hTraced := hBefore fun m hm => hNone m (List.mem_append_left _ hm)
    exact hTraced.act hg hKind hOpen hPossible hCoherent (hNone _ (by simp))
  · exact fun log s _ hBefore hNone => (hBefore hNone).of_record s.record_conclude
  · exact fun log s now hBefore hNone => (hBefore hNone).of_record fun _ => rfl

/-- A loop that has been completed by itself, and not by the fallback of a handler, has gone through
its rounds one after the other since its last start, one for each of its items. A step of the body
becomes running only by a start in one of these rounds, where it sees the item and the number of the
round; a round ends when all steps of the body are completed or skipped. The loop remembers the
items, the numbers and the outputs of its rounds, and gives the outputs. -/
theorem loop_rounds {allowOrphans : Bool} {steps : List Step} {g : Graph}
    (hCompile : Graph.compile allowOrphans steps = .ok g) {p : Course g} {log : List (Moment g)}
    (hHistory : History p log) {loop : g.Index} (hKind : g.kindOf loop = .loop)
    (hCompleted : p.scheduler.statusOf loop = .completed)
    (hNoFallback : ∀ m ∈ log, ¬ m.FallsBack loop) :
    ∃ (before : List (Moment g)) (t : Scheduler g) (rounds : List (Round g))
      (rest : List (Moment g)),
      log = before ++ ⟨t, .start loop⟩ :: (rounds.flatMap (Round.log loop) ++ rest) ∧
      t.HasItems loop (rounds.map Round.item) ∧
      (∀ (k : Nat) (r : Round g), rounds[k]? = some r → r.Ran loop k) ∧
      (∀ m ∈ rest, m.act ≠ .start loop ∧ ∀ i ∈ g.body loop, m.act ≠ .start i) ∧
      (∀ m ∈ log, ∀ i ∈ g.body loop, m.scheduler.statusOf i ≠ .running →
        m.next.statusOf i = .running → m.act = .start i) ∧
      (p.scheduler.state.result loop).iterations =
        rounds.mapIdx (fun k r => ⟨k, r.item, r.outputs loop⟩) ∧
      (p.scheduler.state.result loop).output = some (.obj [("count", Json.ofNat rounds.length),
        ("results", .arr (rounds.map fun r => .obj (r.outputs loop)))]) := by
  have hg := Graph.wired_of_compile hCompile
  obtain ⟨items, rounds, rest, hFinished⟩ :=
    (hHistory.traced hg.toSound hKind hNoFallback).finished hCompleted
  obtain ⟨before, t, hLog, hItems⟩ := hFinished.unfolds.split
  rw [← hFinished.unfolds.items_eq hFinished.length] at hItems
  refine ⟨before, t, rounds, rest, hLog, hItems, fun k r hRound => ?_, hFinished.rest, ?_,
    hFinished.iterations, ?_⟩
  · exact (hFinished.unfolds.rounds k r hRound).ran hg
  · intro m hm i _ hBefore hAfter
    obtain ⟨hOpen, hPossible, hCoherent⟩ := hHistory.moments hg.toSound hm
    exact Moment.starts_of_running hg.toSound hOpen hPossible hCoherent hBefore hAfter
  · rw [hFinished.output, Round.loopOutput_iterations]

/-- A loop over two items goes through two rounds. -/
theorem rounds_of_looped :
    ∃ g p log, Graph.compile false Script.looped.steps = .ok g ∧ History (g := g) p log ∧
      ∃ (loop : g.Index) (before : List (Moment g)) (t : Scheduler g) (rounds : List (Round g))
        (rest : List (Moment g)), p.scheduler.statusOf loop = .completed ∧
        log = before ++ ⟨t, .start loop⟩ :: (rounds.flatMap (Round.log loop) ++ rest) ∧
        rounds.map Round.item = [.bool true, .bool false] ∧
        ∀ (k : Nat) (r : Round g), rounds[k]? = some r → r.Ran loop k := by
  have hShows : Script.looped.shows (fun _ _ => True) (fun g p => ∃ loop : g.Index,
      g.kindOf loop = StepKind.loop ∧ p.scheduler.statusOf loop = StepStatus.completed ∧
      (p.scheduler.state.result loop).iterations.map Iteration.item =
        [Json.bool true, Json.bool false] ∧
      ∀ i, g.recovery? i ≠ some RecoveryAction.fallback) := by
    decide +kernel
  obtain ⟨g, p, hCompile, hReach, loop, hKind, hCompleted, hItems, hNone⟩ :=
    Script.exists_of_shows hShows
  obtain ⟨log, hHistory⟩ := reached_iff_history.mp hReach
  have hNoFallback : ∀ m ∈ log, ¬ m.FallsBack loop := by
    rintro m - ⟨-, -, i, _, _, _, -, -, -, hAction⟩
    exact hNone i hAction
  obtain ⟨before, t, rounds, rest, hLog, -, hRan, -, -, hIterations, -⟩ :=
    loop_rounds hCompile hHistory hKind hCompleted hNoFallback
  refine ⟨g, p, log, hCompile, hHistory, loop, before, t, rounds, rest, hCompleted, hLog, ?_, hRan⟩
  rw [← hItems, hIterations]
  exact List.ext_getElem (by simp) fun k _ _ => by simp

end Course

end Workflow
