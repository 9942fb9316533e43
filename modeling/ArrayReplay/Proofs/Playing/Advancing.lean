import ArrayReplay.Proofs.Playing.Frames

/-! Ways through a program. By hand, by the timer or by turns, stepping executes every statement once
and in order. At any point it shows the environment, and has reported the diagnostics, of a replay of
the steps in front of the cursor. -/
namespace ArrayReplay

theorem Program.diagnostics_take_succ {program : Program} {n : Nat} {step : Step}
    (next : program[n]? = some step) : diagnosticsFrom .empty (program.take (n + 1)) =
      diagnosticsFrom .empty (program.take n) ++
        ((environment (program.take n)).execute step).2.toList := by
  rw [List.take_add_one, next, diagnosticsFrom_append, environment]
  exact congrArg _ (List.append_nil _)

/-- Polls that come no earlier than the next step is due. -/
def Ticker.Timely (interval : Time) : Time → List Time → Prop
  | _, [] => True
  | due, now :: more => due ≤ now ∧ Timely interval (now + interval) more

namespace Playback

/-- The action goes forward, or nowhere. -/
def Action.onward : Action → Bool
  | .stepForward => true
  | .play _ => true
  | .pause => true
  | .togglePlay _ => true
  | .cancelTimers => true
  | .poll _ => true
  | .prefer _ => true
  | .cycle _ => true
  | _ => false

def reported (p : Playback) : Action → List Diagnostic
  | .stepForward => p.stepForward.1.getD []
  | .poll now => (p.poll now).1.diagnostics
  | _ => []

def report (p : Playback) : List Action → List Diagnostic
  | [] => []
  | action :: more => p.reported action ++ (p.act action).report more

def passed (p : Playback) : List Diagnostic :=
  Program.diagnosticsFrom .empty (p.program.take p.cursor)

structure Stepping (p : Playback) : Prop extends Coherent p where
  mode_eq : p.mode = .step
  idle : p.validation.deadline = none

variable {p : Playback} {action : Action} {step : Step}

theorem stepping_after (h : Coherent p) (mode : p.mode = .step) (quiet : Quiet p) : Stepping p where
  toCoherent := h
  mode_eq := mode
  idle := quiet mode

theorem spares_of_onward (onward : action.onward = true) :
    action.edits = false ∧ action.switches = false := by
  cases action <;> first | exact ⟨rfl, rfl⟩ | cases onward

theorem stepping_act (h : Stepping p) (onward : action.onward = true) :
    Stepping (p.act action) := by
  apply stepping_after
  · exact coherent_act h.toCoherent action
  · rw [mode_act (spares_of_onward onward).2]
    exact h.mode_eq
  · apply quiet_act
    exact fun _ => h.idle

theorem program_act (h : Stepping p) (onward : action.onward = true) :
    (p.act action).program = p.program := by
  have next := stepping_act h onward
  rw [next.program_eq, source_act (spares_of_onward onward).1, h.program_eq]

/- One step forward, or none where no step is left. -/
theorem advance_eq (mode : p.mode = .step) (next : p.program[p.cursor]? = some step) :
    p.advance = (some (p.history.latest.execute step).2.toList,
      { p with
        history := p.history.push (p.history.latest.execute step).1
        cursor := p.cursor + 1 }) := by
  have left : p.canStepForward = true := by
    obtain ⟨short, -⟩ := List.getElem?_eq_some_iff.mp next
    exact canStepForward_iff.mpr ⟨mode, short⟩
  simp only [advance, left, if_true, next]

theorem advance_end (atEnd : p.program.length ≤ p.cursor) : p.advance = (none, p) := by
  have none : ¬ p.canStepForward = true := by
    intro left
    have := (canStepForward_iff.mp left).2
    omega
  rw [advance, if_neg none]

/-- The next statement of the program is executed, and what it gives rise to is found. -/
structure Executes (p : Playback) (step : Step) (found : List Diagnostic) (q : Playback) : Prop where
  next : p.program[p.cursor]? = some step
  found_eq : found = (p.environment.execute step).2.toList
  environment_eq : q.environment = (p.environment.execute step).1
  cursor_eq : q.cursor = p.cursor + 1

theorem environment_stepping (mode : p.mode = .step) : p.environment = p.history.latest := by
  rw [environment, mode]

theorem advance_executes (mode : p.mode = .step) (next : p.program[p.cursor]? = some step) :
    ∃ found, p.advance.1 = some found ∧ p.Executes step found p.advance.2 := by
  have shown := environment_stepping mode
  rw [advance_eq mode next]
  refine ⟨_, rfl, next, ?_, ?_, rfl⟩
  · rw [shown]
  · rw [shown]
    exact environment_stepping mode

theorem passed_advance (h : Aligned p) (mode : p.mode = .step) :
    p.advance.2.passed = p.passed ++ p.advance.1.getD [] := by
  cases next : p.program[p.cursor]? with
  | some step =>
    rw [advance_eq mode next]
    change Program.diagnosticsFrom .empty (p.program.take (p.cursor + 1)) = _
    rw [Program.diagnostics_take_succ next, latest_eq h]
    rfl
  | none =>
    rw [advance_end (List.getElem?_eq_none_iff.mp next)]
    exact (List.append_nil _).symm

theorem poll_eq (idle : p.validation.deadline = none) (now : Time) :
    p.poll now = p.pollAutoplay now := by
  have unfired : p.pollValidation now = ([], p) := by
    rw [pollValidation, Debounce.fire_of_idle idle]
    rfl
  rw [poll, unfired]
  rfl

theorem passed_pollAutoplay (h : Stepping p) (now : Time) :
    (p.pollAutoplay now).2.passed = p.passed ++ (p.pollAutoplay now).1.diagnostics := by
  unfold pollAutoplay
  split
  · dsimp only
    have ticked : Aligned { p with autoplay := (p.autoplay.fire now).2 } := { h.toAligned with }
    split
    · have advanced := passed_advance ticked h.mode_eq
      split
      · exact advanced
      · exact advanced
    · exact (List.append_nil _).symm
  · exact (List.append_nil _).symm

theorem passed_play (now : Time) : (p.play now).2.passed = p.passed := by
  unfold play
  split <;> rfl

/-- An action reports exactly the diagnostics of what it executes. -/
theorem passed_act (h : Stepping p) (onward : action.onward = true) :
    (p.act action).passed = p.passed ++ p.reported action := by
  have silent : ∀ {q : Playback}, q.passed = p.passed → q.passed = p.passed ++ [] := by
    intro q same
    rw [same, List.append_nil]
  cases action with
  | stepForward => exact passed_advance (aligned_pause h.toAligned) h.mode_eq
  | poll now =>
    rw [act, reported, poll_eq h.idle]
    exact passed_pollAutoplay h now
  | play now => exact silent (passed_play now)
  | togglePlay now =>
    rw [act, togglePlay]
    split
    · exact silent rfl
    · exact silent (passed_play now)
  | cycle forward =>
    rw [act, cycle]
    split <;> exact silent rfl
  | pause => exact silent rfl
  | cancelTimers => exact silent rfl
  | prefer name => exact silent rfl
  | setText text now => cases onward
  | requestChange index v now => cases onward
  | setMode mode now => cases onward
  | toggleMode now => cases onward
  | stepBack => cases onward
  | reset => cases onward

theorem run_onward (h : Stepping p) (actions : List Action)
    (onward : ∀ action ∈ actions, action.onward = true) :
    Stepping (p.after actions) ∧ (p.after actions).program = p.program ∧
      (p.after actions).passed = p.passed ++ p.report actions := by
  induction actions generalizing p with
  | nil => exact ⟨h, rfl, (List.append_nil _).symm⟩
  | cons action more ih =>
    obtain ⟨first, rest⟩ := List.forall_mem_cons.mp onward
    obtain ⟨stepping, program, passed⟩ := ih (stepping_act h first) rest
    refine ⟨stepping, program.trans (program_act h first), ?_⟩
    change ((p.act action).after more).passed = _
    rw [passed, passed_act h first, List.append_assoc]
    rfl

theorem replay_of_onward (h : Stepping p) (atStart : p.cursor = 0) (actions : List Action)
    (onward : ∀ action ∈ actions, action.onward = true) :
    (p.after actions).environment =
        (Program.replay (p.program.take (p.after actions).cursor)).environment ∧
      p.report actions =
        (Program.replay (p.program.take (p.after actions).cursor)).diagnostics := by
  obtain ⟨stepping, program, passed⟩ := run_onward h actions onward
  have nothing : p.passed = [] := by
    rw [Playback.passed, atStart]
    rfl
  rw [nothing, List.nil_append] at passed
  constructor
  · rw [environment_eq stepping.toCoherent, stepping.mode_eq, program, Program.environment_replay]
  · rw [← passed, Playback.passed, program, Program.replay, Program.replayFrom_eq]

/-- Whichever way led to its end, the program was validated on the way, and all of it is shown. -/
theorem whole_of_onward (h : Stepping p) (atStart : p.cursor = 0) {actions : List Action}
    (onward : ∀ action ∈ actions, action.onward = true)
    (atEnd : (p.after actions).cursor = p.program.length) (settings : Settings) :
    p.report actions = p.validate.diagnostics ∧
      (p.after actions).environment = (ofSource p.source settings).environment := by
  obtain ⟨shown, reports⟩ := replay_of_onward h atStart actions onward
  rw [atEnd, List.take_length] at shown reports
  refine ⟨reports, ?_⟩
  rw [shown, Program.environment_replay, h.program_eq]
  rfl

theorem after_append (p : Playback) (actions more : List Action) :
    p.after (actions ++ more) = (p.after actions).after more := List.foldl_append

/- By hand: one statement for each step forward. -/
theorem stepForward_executes (mode : p.mode = .step) (next : p.program[p.cursor]? = some step) :
    ∃ found, p.stepForward.1 = some found ∧ p.Executes step found p.stepForward.2 := by
  obtain ⟨found, reports, executes⟩ := @advance_executes p.pause _ mode next
  exact ⟨found, reports, executes.next, executes.found_eq, executes.environment_eq,
    executes.cursor_eq⟩

theorem stepForward_eq (mode : p.mode = .step) (left : p.cursor < p.program.length) :
    p.stepForward.1.isSome = true ∧ p.stepForward.2.cursor = p.cursor + 1 := by
  obtain ⟨found, reports, executes⟩ := stepForward_executes mode (List.getElem?_eq_getElem left)
  rw [reports]
  exact ⟨rfl, executes.cursor_eq⟩

theorem onward_replicate (k : Nat) :
    ∀ action ∈ List.replicate k Action.stepForward, action.onward = true := by
  intro action member
  rw [List.eq_of_mem_replicate member]
  rfl

theorem cursor_replicate (h : Stepping p) {k : Nat} (left : p.cursor + k ≤ p.program.length) :
    (p.after (List.replicate k .stepForward)).cursor = p.cursor + k := by
  induction k generalizing p with
  | zero => rfl
  | succ k ih =>
    obtain ⟨-, moved⟩ := stepForward_eq h.mode_eq (by omega)
    have next := @stepping_act p .stepForward h rfl
    have program := @program_act p .stepForward h rfl
    change (p.stepForward.2.after (List.replicate k .stepForward)).cursor = _
    change Stepping p.stepForward.2 at next
    change p.stepForward.2.program = p.program at program
    rw [ih next (by rw [program]; omega), moved]
    omega

/- By the timer: a poll executes a statement when one is due, and is the last at the end. -/
theorem onward_polls (start : Time) (times : List Time) :
    ∀ action ∈ Action.play start :: times.map .poll, action.onward = true := by
  intro action member
  rcases List.mem_cons.mp member with rfl | polls
  · rfl
  · obtain ⟨now, -, rfl⟩ := List.mem_map.mp polls
    rfl

theorem pollAutoplay_of_idle {now : Time}
    (idle : ¬ (p.playing = true ∧ p.autoplay.isDue now = true)) :
    p.pollAutoplay now = ({}, p) := by
  unfold pollAutoplay
  split
  · next playing =>
    have early : p.autoplay.isDue now = false := by simpa [playing] using idle
    simp [Ticker.fire, early]
  · rfl

theorem pollAutoplay_eq {now : Time} (playing : p.playing = true)
    (due : p.autoplay.isDue now = true) (mode : p.mode = .step)
    (next : p.program[p.cursor]? = some step) :
    p.pollAutoplay now =
      let found := (p.history.latest.execute step).2.toList
      let q := { p with
        history := p.history.push (p.history.latest.execute step).1
        cursor := p.cursor + 1
        autoplay := { p.autoplay with next := some (now + p.autoplay.interval) } }
      if p.cursor + 1 < p.program.length then ({ diagnostics := found, stepped := true }, q)
      else ({ diagnostics := found, stepped := true, finished := true }, q.pause) := by
  have ticks : p.autoplay.fire now =
      (true, { p.autoplay with next := some (now + p.autoplay.interval) }) := by
    simp [Ticker.fire, due]
  have advanced := @advance_eq { p with autoplay := (p.autoplay.fire now).2 } _ mode next
  rw [pollAutoplay, if_pos playing]
  dsimp only
  rw [advanced, ticks, if_pos rfl]
  simp only [canStepForward, mode, beq_self_eq_true, Bool.true_and, decide_eq_true_eq,
    Option.getD_some, Option.isSome_some]

theorem pollAutoplay_of_due (h : Stepping p) {now : Time} (playing : p.playing = true)
    (due : p.autoplay.isDue now = true) :
    (p.pollAutoplay now).2.cursor = p.cursor + 1 ∧
      ((p.pollAutoplay now).1.finished = true ↔ p.cursor + 1 = p.program.length) ∧
      (p.cursor + 1 < p.program.length → (p.pollAutoplay now).2.playing = true ∧
        (p.pollAutoplay now).2.autoplay = { p.autoplay with
          next := some (now + p.autoplay.interval) }) := by
  have left := (h.playing_lt playing).2
  rw [pollAutoplay_eq playing due h.mode_eq (List.getElem?_eq_getElem left)]
  dsimp only
  split
  · next short =>
    refine ⟨rfl, ⟨nofun, fun last => ?_⟩, fun _ => ⟨playing, rfl⟩⟩
    omega
  · next long =>
    refine ⟨rfl, ⟨fun _ => ?_, fun _ => rfl⟩, fun short => absurd short long⟩
    omega

theorem cursor_of_finished (h : Stepping p) {now : Time}
    (finished : (p.poll now).1.finished = true) :
    (p.poll now).2.cursor = p.program.length := by
  rw [poll_eq h.idle] at finished ⊢
  by_cases ticks : p.playing = true ∧ p.autoplay.isDue now = true
  · obtain ⟨moved, last, -⟩ := pollAutoplay_of_due h ticks.1 ticks.2
    rw [moved, last.mp finished]
  · rw [pollAutoplay_of_idle ticks] at finished
    cases finished

theorem finished_of_timely (h : Stepping p) (playing : p.playing = true) {due : Time}
    (next : p.autoplay.next = some due) {times : List Time} {now : Time}
    (left : p.cursor + times.length + 1 = p.program.length)
    (timely : Ticker.Timely p.autoplay.interval due (times ++ [now])) :
    ((p.after (times.map .poll)).poll now).1.finished = true := by
  induction times generalizing p due with
  | nil =>
    have isDue : p.autoplay.isDue now = true := by
      simpa [Ticker.isDue, next] using timely.1
    change (p.poll now).1.finished = true
    rw [poll_eq h.idle]
    exact (pollAutoplay_of_due h playing isDue).2.1.mpr left
  | cons time more ih =>
    obtain ⟨first, later⟩ := timely
    have isDue : p.autoplay.isDue time = true := by
      simpa [Ticker.isDue, next] using first
    obtain ⟨moved, -, goesOn⟩ := pollAutoplay_of_due h playing isDue
    rw [List.length_cons] at left
    obtain ⟨playing', autoplay'⟩ := goesOn (by omega)
    have stepping := @stepping_act p (.poll time) h rfl
    have program := @program_act p (.poll time) h rfl
    change ((((p.poll time).2).after (more.map .poll)).poll now).1.finished = true
    rw [act, poll_eq h.idle] at stepping program
    rw [poll_eq h.idle]
    apply ih stepping playing'
    · rw [autoplay']
    · rw [moved, program]
      omega
    · rw [autoplay']
      exact later

theorem play_eq (h : Stepping p) (left : p.cursor < p.program.length) (start : Time) :
    p.play start = (true, { p with playing := true, autoplay := p.autoplay.start start }) := by
  rw [play, if_pos (canStepForward_iff.mpr ⟨h.mode_eq, left⟩)]

theorem manual_agrees (h : Stepping p) (atStart : p.cursor = 0) (settings : Settings) :
    (∀ k < p.program.length, (p.after (.replicate k .stepForward)).stepForward.1.isSome = true) ∧
      p.report (.replicate p.program.length .stepForward) = p.validate.diagnostics ∧
      (p.after (.replicate p.program.length .stepForward)).environment =
        (ofSource p.source settings).environment := by
  have reached : ∀ k ≤ p.program.length, (p.after (.replicate k .stepForward)).cursor = k := by
    intro k bound
    rw [cursor_replicate h (by rwa [atStart, Nat.zero_add]), atStart, Nat.zero_add]
  constructor
  · intro k below
    obtain ⟨after, program, -⟩ := run_onward h _ (onward_replicate k)
    refine (stepForward_eq after.mode_eq ?_).1
    rw [reached k (Nat.le_of_lt below), program]
    exact below
  · exact whole_of_onward h atStart (onward_replicate _) (reached _ (Nat.le_refl _)) settings

theorem autoplay_agrees (h : Stepping p) (atStart : p.cursor = 0) (settings : Settings)
    (start : Time) {times : List Time} {now : Time}
    (finished : ((p.after (.play start :: times.map .poll)).poll now).1.finished = true) :
    p.report (.play start :: times.map .poll ++ [.poll now]) = p.validate.diagnostics ∧
      (p.after (.play start :: times.map .poll ++ [.poll now])).environment =
        (ofSource p.source settings).environment := by
  have onward := onward_polls start times
  obtain ⟨after, program, -⟩ := run_onward h _ onward
  apply whole_of_onward h atStart
  · exact List.forall_mem_append.mpr ⟨onward, List.forall_mem_singleton.mpr rfl⟩
  · rw [after_append, ← program]
    exact cursor_of_finished after finished

theorem autoplay_finishes (h : Stepping p) (atStart : p.cursor = 0) (start : Time)
    {times : List Time} {now : Time} (length : times.length + 1 = p.program.length)
    (timely : Ticker.Timely p.autoplay.interval start (times ++ [now])) :
    ((p.after (.play start :: times.map .poll)).poll now).1.finished = true := by
  have plays := play_eq h (by omega) start
  have started := @stepping_act p (.play start) h rfl
  rw [act, plays] at started
  change ((((p.play start).2).after (times.map .poll)).poll now).1.finished = true
  rw [plays]
  apply finished_of_timely started rfl rfl
  · change p.cursor + times.length + 1 = p.program.length
    omega
  · exact timely

/-- Executed by hand, by the timer or by turns, a program shows the same environments and reports the
same diagnostics as when it is replayed. -/
theorem stepping_agrees (source : Text) (settings : Settings) (actions : List Action)
    (stepping : ((ofSource source settings).after actions).mode = .step)
    (atStart : ((ofSource source settings).after actions).cursor = 0) :
    let p := (ofSource source settings).after actions
    let n := p.program.length
    let live := (ofSource p.source settings).environment
    ((∀ k < n, (p.after (.replicate k .stepForward)).stepForward.1.isSome = true) ∧
      p.report (.replicate n .stepForward) = p.validate.diagnostics ∧
      (p.after (.replicate n .stepForward)).environment = live) ∧
    (0 < n → ∀ start, (p.play start).1 = true ∧ ∀ times now,
      let polls : List Action := .play start :: times.map .poll
      (((p.after polls).poll now).1.finished = true →
        p.report (polls ++ [.poll now]) = p.validate.diagnostics ∧
          (p.after (polls ++ [.poll now])).environment = live) ∧
      (times.length + 1 = n → Ticker.Timely p.autoplay.interval start (times ++ [now]) →
        ((p.after polls).poll now).1.finished = true)) ∧
    ∀ moves : List Action, (∀ move ∈ moves, move.onward = true) →
      let front := p.program.take (p.after moves).cursor
      (p.after moves).environment = (Program.replay front).environment ∧
        p.report moves = (Program.replay front).diagnostics := by
  intro p n live
  have coherent : Coherent p := coherent_after (coherent_ofSource source settings) actions
  have quiet : Quiet p := quiet_after (quiet_of_live rfl) actions
  have h : Stepping p := stepping_after coherent stepping quiet
  have zero : p.cursor = 0 := atStart
  refine ⟨manual_agrees h zero settings, fun some start => ⟨?_, fun times now => ⟨?_, ?_⟩⟩,
    replay_of_onward h zero⟩
  · rw [play_eq h (zero ▸ some)]
  · exact autoplay_agrees h zero settings start
  · exact autoplay_finishes h zero start

theorem stepping_agrees_range_fault :
    let p := (ofSource "int a[2] = {1, 2};\na[5] = 7;\na[0] = 9;".toList {}).after [.toggleMode 0]
    let fault : Diagnostic := ⟨.outOfRange ['a'] .update 5 2, ⟨2, 1⟩⟩
    p.mode = .step ∧ p.cursor = 0 ∧ p.program.length = 3 ∧
      p.report [.stepForward, .stepForward, .stepForward] = [fault] ∧
      p.report [.play 10, .poll 10, .poll 500, .poll 1010, .poll 2010] = [fault] ∧
      (p.after [.stepForward, .play 5, .poll 5]).environment.get? ['a'] =
        some ⟨.int, [.int 1, .int 2]⟩ := by
  intro p fault
  have stepping : p.mode = .step := by decide +kernel
  have atStart : p.cursor = 0 := by decide +kernel
  have length : p.program.length = 3 := by decide +kernel
  have validated : p.validate.diagnostics = [fault] := by decide +kernel
  have finished : ((p.after (.play 10 :: [10, 500, 1010].map .poll)).poll 2010).1.finished = true := by
    decide +kernel
  have cursor : (p.after [.stepForward, .play 5, .poll 5]).cursor = 2 := by decide +kernel
  have front : (Program.replay (p.program.take 2)).environment.get? ['a'] =
      some ⟨.int, [.int 1, .int 2]⟩ := by decide +kernel
  have agrees := stepping_agrees _ {} [.toggleMode 0] stepping atStart
  have here : (ofSource "int a[2] = {1, 2};\na[5] = 7;\na[0] = 9;".toList {}).after
    [.toggleMode 0] = p := rfl
  rw [here] at agrees
  clear_value p
  obtain ⟨byHand, played, byTurns⟩ := agrees
  refine ⟨stepping, atStart, length, ?_, ?_, ?_⟩
  · have reports := byHand.2.1.trans validated
    rwa [length] at reports
  · have filled : 0 < p.program.length := length ▸ Nat.succ_pos 2
    exact (((played filled 10).2 [10, 500, 1010] 2010).1 finished).1.trans validated
  · obtain ⟨shown, -⟩ := byTurns [.stepForward, .play 5, .poll 5] (by decide)
    rw [shown, cursor]
    exact front

end Playback
end ArrayReplay
