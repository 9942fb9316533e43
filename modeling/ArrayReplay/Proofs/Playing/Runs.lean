import ArrayReplay.Playing.Playback
import ArrayReplay.Proofs.Replay.Sources

/-! Runs of a playback. Whatever is asked of it and in whichever order, the program is that of the
source, the history is the trail of the steps in front of the cursor, and live the environment is
that of the whole program. Only the source, the mode and the cursor are free. -/
namespace ArrayReplay

namespace Program

/-- The environments after none, one, and so on up to `n` steps of a program. -/
def trail (program : Program) (n : Nat) : List Environment :=
  (List.range (n + 1)).map fun k => environment (program.take k)

theorem trail_succ (program : Program) (n : Nat) :
    program.trail (n + 1) = program.trail n ++ [environment (program.take (n + 1))] := by
  rw [trail, List.range_succ, List.map_append]
  rfl

theorem getLast?_trail (program : Program) (n : Nat) :
    (program.trail n).getLast? = some (environment (program.take n)) := by
  cases n with
  | zero => rfl
  | succ n => rw [trail_succ, List.getLast?_concat]

theorem environment_take_succ {program : Program} {n : Nat} {step : Step}
    (next : program[n]? = some step) : environment (program.take (n + 1)) =
      ((environment (program.take n)).execute step).1 := by
  rw [List.take_add_one, next, environment, environmentFrom_append]
  rfl

end Program

namespace Playback

inductive Action where
  | setText (text : Text) (now : Time)
  | requestChange (index : Nat) (v : Value) (now : Time)
  | setMode (mode : Mode) (now : Time)
  | toggleMode (now : Time)
  | stepForward
  | stepBack
  | reset
  | play (now : Time)
  | pause
  | togglePlay (now : Time)
  | cancelTimers
  | poll (now : Time)
  | prefer (name : Option Text)
  | cycle (forward : Bool)

def act (p : Playback) : Action → Playback
  | .setText text now => p.setText text now
  | .requestChange index v now => (p.requestChange index v now).2
  | .setMode mode now => p.setMode mode now
  | .toggleMode now => p.toggleMode now
  | .stepForward => p.stepForward.2
  | .stepBack => p.stepBack.2
  | .reset => p.reset
  | .play now => (p.play now).2
  | .pause => p.pause
  | .togglePlay now => (p.togglePlay now).2
  | .cancelTimers => p.cancelTimers
  | .poll now => (p.poll now).2
  | .prefer name => p.prefer name
  | .cycle forward => p.cycle forward

def after (p : Playback) (actions : List Action) : Playback := actions.foldl act p

/-- The program, the history and the environment of the whole program are those of the source. -/
structure Aligned (p : Playback) : Prop where
  program_eq : p.program = Program.ofSource p.source
  cursor_le : p.cursor ≤ p.program.length
  history_eq : p.history.toList = p.program.trail p.cursor
  whole_eq : p.mode = .live → p.whole = p.program.environment
  at_start : p.mode = .live → p.cursor = 0 ∧ p.history = .start

/-- Playing goes on only where a step is left. -/
structure Coherent (p : Playback) : Prop extends Aligned p where
  playing_lt : p.playing = true → p.mode = .step ∧ p.cursor < p.program.length

variable {p : Playback}

theorem canStepForward_iff :
    p.canStepForward = true ↔ p.mode = .step ∧ p.cursor < p.program.length := by
  simp [canStepForward]

theorem canStepBack_iff : p.canStepBack = true ↔ p.mode = .step ∧ 0 < p.cursor := by
  simp [canStepBack]

theorem latest_eq (h : Aligned p) :
    p.history.latest = Program.environment (p.program.take p.cursor) := by
  have last := p.history.getLast?_toList
  rw [h.history_eq, Program.getLast?_trail] at last
  exact (Option.some.inj last).symm

theorem coherent_of_idle (h : Aligned p) (idle : p.playing = false) : Coherent p :=
  { h with
    playing_lt := by
      intro playing
      rw [idle] at playing
      cases playing }

theorem aligned_pause (h : Aligned p) : Aligned p.pause := { h with }

theorem coherent_pause (h : Aligned p) : Coherent p.pause := coherent_of_idle (aligned_pause h) rfl

/-- Going back to the start repairs the history, whatever it was. -/
theorem coherent_reset (program : p.program = Program.ofSource p.source)
    (whole : p.mode = .live → p.whole = p.program.environment) : Coherent p.reset where
  program_eq := program
  cursor_le := Nat.zero_le _
  history_eq := rfl
  whole_eq := whole
  at_start _ := ⟨rfl, rfl⟩
  playing_lt := nofun

theorem coherent_refresh (program : p.program = Program.ofSource p.source) (cursor : p.cursor = 0)
    (history : p.history = .start) (idle : p.playing = false) (now : Time) :
    Coherent (p.refresh now) := by
  refine coherent_of_idle ?_ idle
  constructor
  · exact program
  · exact cursor ▸ Nat.zero_le _
  · change p.history.toList = p.program.trail p.cursor
    rw [history, cursor]
    rfl
  · intro live
    rfl
  · intro live
    exact ⟨cursor, history⟩

theorem idle_of_live (h : Coherent p) (live : p.mode = .live) : p.playing = false := by
  cases playing : p.playing with
  | false => rfl
  | true =>
    have := (h.playing_lt playing).1
    rw [live] at this
    cases this

theorem coherent_setText (h : Coherent p) (text : Text) (now : Time) :
    Coherent (p.setText text now) := by
  unfold setText
  split
  · exact h
  · cases mode : p.mode with
    | live =>
      obtain ⟨cursor, history⟩ := h.at_start mode
      have idle := idle_of_live h mode
      apply coherent_refresh
      · rfl
      · exact cursor
      · exact history
      · exact idle
    | step =>
      apply coherent_reset
      · rfl
      · intro live
        cases live

theorem coherent_prefer (h : Coherent p) (name : Option Text) :
    Coherent { p with preferred := name } := { h with }

theorem coherent_requestChange (h : Coherent p) (index : Nat) (v : Value) (now : Time) :
    Coherent (p.requestChange index v now).2 := by
  unfold requestChange
  split
  · exact h
  · split
    · exact coherent_setText (coherent_prefer h _) _ now
    · exact h

theorem coherent_setMode (h : Coherent p) (mode : Mode) (now : Time) :
    Coherent (p.setMode mode now) := by
  cases mode with
  | live =>
    apply coherent_refresh
    · exact h.program_eq
    · rfl
    · rfl
    · rfl
  | step =>
    have start : Coherent ({ p with mode := .step } : Playback).reset :=
      coherent_reset h.program_eq nofun
    exact { start with }

theorem aligned_advance (h : Aligned p) : Aligned p.advance.2 := by
  unfold advance
  split
  · next left =>
    obtain ⟨stepping, short⟩ := canStepForward_iff.mp left
    split
    · next step next =>
      constructor
      · exact h.program_eq
      · exact short
      · change (p.history.push _).toList = _
        rw [History.toList_push, h.history_eq, latest_eq h, Program.trail_succ,
          Program.environment_take_succ next]
      · exact h.whole_eq
      · intro live
        cases stepping.symm.trans live
    · exact h
  · exact h

theorem playing_advance (p : Playback) : p.advance.2.playing = p.playing := by
  unfold advance
  split
  · split <;> rfl
  · rfl

theorem coherent_stepForward (h : Coherent p) : Coherent p.stepForward.2 := by
  apply coherent_of_idle
  · exact aligned_advance (aligned_pause h.toAligned)
  · exact playing_advance p.pause

theorem aligned_retreat (h : Aligned p) (back : p.canStepBack = true) :
    Aligned { p with history := (p.history.pop?.map Prod.snd).getD p.history, cursor := p.cursor - 1 }
    := by
  obtain ⟨stepping, passed⟩ := canStepBack_iff.mp back
  obtain ⟨n, cursor⟩ : ∃ n, p.cursor = n + 1 := ⟨p.cursor - 1, by omega⟩
  have whole := h.history_eq
  rw [cursor, Program.trail_succ] at whole
  obtain ⟨older, pops, front⟩ := History.pop?_of_toList (by simp [Program.trail]) whole
  have bound := h.cursor_le
  constructor
  · exact h.program_eq
  · change p.cursor - 1 ≤ p.program.length
    omega
  · change ((p.history.pop?.map Prod.snd).getD p.history).toList = p.program.trail (p.cursor - 1)
    rw [pops, cursor]
    exact front
  · exact h.whole_eq
  · intro live
    cases stepping.symm.trans live

theorem coherent_stepBack (h : Coherent p) : Coherent p.stepBack.2 := by
  simp only [stepBack]
  split
  · next back => exact coherent_of_idle (aligned_retreat (aligned_pause h.toAligned) back) rfl
  · exact coherent_pause h.toAligned

theorem coherent_play (h : Coherent p) (now : Time) : Coherent (p.play now).2 := by
  unfold play
  split
  · next left => exact { h with playing_lt := fun _ => canStepForward_iff.mp left }
  · exact h

theorem coherent_togglePlay (h : Coherent p) (now : Time) : Coherent (p.togglePlay now).2 := by
  unfold togglePlay
  split
  · exact coherent_pause h.toAligned
  · exact coherent_play h now

theorem coherent_cancelTimers (h : Coherent p) : Coherent p.cancelTimers :=
  { coherent_pause h.toAligned with }

theorem coherent_pollValidation (h : Coherent p) (now : Time) :
    Coherent (p.pollValidation now).2 := { h with }

theorem coherent_pollAutoplay (h : Coherent p) (now : Time) :
    Coherent (p.pollAutoplay now).2 := by
  unfold pollAutoplay
  split
  · dsimp only
    have ticked : Coherent { p with autoplay := (p.autoplay.fire now).2 } := { h with }
    split
    · have advanced := aligned_advance ticked.toAligned
      split
      · next left => exact { advanced with playing_lt := fun _ => canStepForward_iff.mp left }
      · exact coherent_pause advanced
    · exact ticked
  · exact h

theorem coherent_poll (h : Coherent p) (now : Time) : Coherent (p.poll now).2 :=
  coherent_pollAutoplay (coherent_pollValidation h now) now

theorem coherent_cycle (h : Coherent p) (forward : Bool) : Coherent (p.cycle forward) := by
  unfold cycle
  split
  · exact h
  · exact coherent_prefer h _

theorem coherent_ofSource (source : Text) (settings : Settings) :
    Coherent (ofSource source settings) where
  program_eq := rfl
  cursor_le := Nat.zero_le _
  history_eq := rfl
  whole_eq _ := rfl
  at_start _ := ⟨rfl, rfl⟩
  playing_lt := nofun

theorem coherent_act (h : Coherent p) (action : Action) : Coherent (p.act action) := by
  cases action with
  | setText text now => exact coherent_setText h text now
  | requestChange index v now => exact coherent_requestChange h index v now
  | setMode mode now => exact coherent_setMode h mode now
  | toggleMode now => exact coherent_setMode h p.mode.other now
  | stepForward => exact coherent_stepForward h
  | stepBack => exact coherent_stepBack h
  | reset => exact coherent_reset h.program_eq h.whole_eq
  | play now => exact coherent_play h now
  | pause => exact coherent_pause h.toAligned
  | togglePlay now => exact coherent_togglePlay h now
  | cancelTimers => exact coherent_cancelTimers h
  | poll now => exact coherent_poll h now
  | prefer name => exact coherent_prefer h name
  | cycle forward => exact coherent_cycle h forward

theorem coherent_after (h : Coherent p) (actions : List Action) : Coherent (p.after actions) := by
  induction actions generalizing p with
  | nil => exact h
  | cons action more ih => exact ih (coherent_act h action)

theorem environment_eq (h : Coherent p) : p.environment = match p.mode with
    | .live => p.program.environment
    | .step => Program.environment (p.program.take p.cursor) := by
  unfold environment
  cases mode : p.mode with
  | live => exact h.whole_eq mode
  | step => exact latest_eq h.toAligned

theorem get?_history (h : Aligned p) {k : Nat} (bound : k ≤ p.cursor) :
    p.history.get? k = some (Program.environment (p.program.take k)) := by
  rw [History.get?, h.history_eq, Program.trail, List.getElem?_map,
    List.getElem?_range (Nat.lt_succ_of_le bound)]
  rfl

/-- No snapshot holds a NaN, so equal snapshots also compare equal. -/
theorem retraced_of_aligned (h : Aligned p) : p.retraced = true := by
  unfold retraced
  rw [latest_eq h]
  apply Environment.equal_self
  apply @Program.ne_nan_environment _ p.source
  rw [← h.program_eq]
  exact List.take_subset p.cursor p.program

/-- After any actions the playback is that of its source, whatever the source was before, and a step
that is taken back leads to where the step before it had led. -/
theorem after_follows_source (source : Text) (settings : Settings) (actions : List Action) :
    let p := (ofSource source settings).after actions
    p.program = Program.ofSource p.source ∧
      p.cursor ≤ p.program.length ∧
      p.history.length = p.cursor + 1 ∧
      (∀ k ≤ p.cursor, p.history.get? k = some (Program.environment (p.program.take k))) ∧
      (p.environment = match p.mode with
        | .live => p.program.environment
        | .step => Program.environment (p.program.take p.cursor)) ∧
      (p.mode = .live → p.cursor = 0 ∧ p.history = .start ∧ p.playing = false) ∧
      (p.playing = true → p.mode = .step ∧ p.cursor < p.program.length) ∧
      (p.stepBack.1 = true → p.stepBack.2.retraced = true) := by
  intro p
  have h : Coherent p := coherent_after (coherent_ofSource source settings) actions
  refine ⟨h.program_eq, h.cursor_le, ?_, fun k => get?_history h.toAligned, environment_eq h, ?_,
    h.playing_lt, fun _ => retraced_of_aligned (coherent_stepBack h).toAligned⟩
  · rw [← History.length_toList, h.history_eq, Program.trail, List.length_map, List.length_range]
  · intro live
    obtain ⟨cursor, history⟩ := h.at_start live
    exact ⟨cursor, history, idle_of_live h live⟩

end Playback
end ArrayReplay
