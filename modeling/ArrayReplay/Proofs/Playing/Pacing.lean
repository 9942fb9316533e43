import ArrayReplay.Proofs.Playing.Advancing

namespace ArrayReplay

namespace Ticker

/-- The polls at which a timer ticks `left` times: the first that comes no earlier than `due`, then
each that is the first to come an interval after the tick before. -/
def beats (interval : Time) : Nat → Time → List Time → List Time
  | 0, _, _ => []
  | left + 1, due, times =>
    match times.dropWhile (· < due) with
    | [] => []
    | now :: more => now :: beats interval left (now + interval) more

variable {interval due now : Time} {left : Nat}

theorem beats_nil (interval : Time) (left : Nat) (due : Time) : beats interval left due [] = [] := by
  cases left <;> rfl

theorem beats_early (early : left = 0 ∨ now < due) (more : List Time) :
    beats interval left due (now :: more) = beats interval left due more := by
  cases left with
  | zero => rfl
  | succ left =>
    have before : now < due := by simpa using early
    simp only [beats, List.dropWhile_cons, decide_eq_true before, if_true]

theorem beats_due (passed : due ≤ now) (more : List Time) :
    beats interval (left + 1) due (now :: more) = now :: beats interval left (now + interval) more := by
  have notBefore : ¬ now < due := Nat.not_lt.mpr passed
  simp only [beats, List.dropWhile_cons, decide_eq_false notBefore, Bool.false_eq_true, if_false]

end Ticker

namespace Playback

variable {p : Playback} {interval due now : Time} {left : Nat}

theorem pollAutoplay_executes (h : Coherent p) (playing : p.playing = true)
    (due : p.autoplay.isDue now = true) :
    (p.pollAutoplay now).1.stepped = true ∧
      ∃ step, p.Executes step (p.pollAutoplay now).1.diagnostics (p.pollAutoplay now).2 := by
  obtain ⟨mode, short⟩ := h.playing_lt playing
  have next := List.getElem?_eq_getElem short
  have shown := environment_stepping mode
  rw [pollAutoplay_eq playing due mode next]
  dsimp only
  split
  all_goals
    refine ⟨rfl, _, next, ?_, ?_, rfl⟩
    · rw [shown]
    · rw [shown]
      exact environment_stepping mode

theorem poll_cases (h : Stepping p) (now : Time) : p.poll now = ({}, p) ∨
    ((p.poll now).1.stepped = true ∧
      ∃ step, p.Executes step (p.poll now).1.diagnostics (p.poll now).2) := by
  rw [poll_eq h.idle]
  by_cases ticks : p.playing = true ∧ p.autoplay.isDue now = true
  · exact .inr (pollAutoplay_executes h.toCoherent ticks.1 ticks.2)
  · exact .inl (pollAutoplay_of_idle ticks)

theorem stepped_of_finished (h : Coherent p) (now : Time)
    (finished : (p.poll now).1.finished = true) : (p.poll now).1.stepped = true := by
  have polled := coherent_pollValidation h now
  change ((p.pollValidation now).2.pollAutoplay now).1.finished = true at finished
  change ((p.pollValidation now).2.pollAutoplay now).1.stepped = true
  by_cases ticks : (p.pollValidation now).2.playing = true ∧
      (p.pollValidation now).2.autoplay.isDue now = true
  · exact (pollAutoplay_executes polled ticks.1 ticks.2).1
  · rw [pollAutoplay_of_idle ticks] at finished
    cases finished

theorem interval_setText (text : Text) (now : Time) (p : Playback) :
    (p.setText text now).autoplay.interval = p.autoplay.interval := by
  unfold setText
  split
  · rfl
  · cases mode : p.mode <;> rfl

theorem interval_requestChange (index : Nat) (v : Value) (now : Time) (p : Playback) :
    (p.requestChange index v now).2.autoplay.interval = p.autoplay.interval := by
  unfold requestChange
  split
  · rfl
  · split
    · exact interval_setText _ now _
    · rfl

theorem interval_setMode (mode : Mode) (now : Time) (p : Playback) :
    (p.setMode mode now).autoplay.interval = p.autoplay.interval := by
  cases mode <;> rfl

theorem interval_advance (p : Playback) :
    p.advance.2.autoplay.interval = p.autoplay.interval := by
  unfold advance
  split
  · split <;> rfl
  · rfl

theorem interval_stepBack (p : Playback) :
    p.stepBack.2.autoplay.interval = p.autoplay.interval := by
  simp only [stepBack]
  split <;> rfl

theorem interval_play (now : Time) (p : Playback) :
    (p.play now).2.autoplay.interval = p.autoplay.interval := by
  unfold play
  split <;> rfl

theorem interval_pollAutoplay (now : Time) (p : Playback) :
    (p.pollAutoplay now).2.autoplay.interval = p.autoplay.interval := by
  have ticked : (p.autoplay.fire now).2.interval = p.autoplay.interval := by
    unfold Ticker.fire
    split <;> rfl
  unfold pollAutoplay
  split
  · dsimp only
    split
    · have advanced := (interval_advance { p with autoplay := (p.autoplay.fire now).2 }).trans ticked
      split <;> exact advanced
    · exact ticked
  · rfl

theorem interval_act (p : Playback) (action : Action) :
    (p.act action).autoplay.interval = p.autoplay.interval := by
  cases action with
  | setText text now => exact interval_setText text now p
  | requestChange index v now => exact interval_requestChange index v now p
  | setMode mode now => exact interval_setMode mode now p
  | toggleMode now => exact interval_setMode p.mode.other now p
  | stepForward => exact interval_advance p.pause
  | stepBack => exact interval_stepBack p
  | reset => rfl
  | play now => exact interval_play now p
  | pause => rfl
  | togglePlay now =>
    rw [act, togglePlay]
    split
    · rfl
    · exact interval_play now p
  | cancelTimers => rfl
  | poll now => exact interval_pollAutoplay now (p.pollValidation now).2
  | prefer name => rfl
  | cycle forward =>
    rw [act, cycle]
    split <;> rfl

theorem interval_after (p : Playback) (actions : List Action) :
    (p.after actions).autoplay.interval = p.autoplay.interval := by
  induction actions generalizing p with
  | nil => rfl
  | cons action more ih => exact (ih (p.act action)).trans (interval_act p action)

/-- Playing with `left` statements ahead, the next of them due at `due`. -/
structure Paced (interval : Time) (left : Nat) (due : Time) (p : Playback) : Prop
    extends Stepping p where
  left_eq : p.cursor + left = p.program.length
  playing_iff : p.playing = true ↔ 0 < left
  interval_eq : p.autoplay.interval = interval
  next_eq : 0 < left → p.autoplay.next = some due

theorem poll_early (h : Paced interval left due p) (early : left = 0 ∨ now < due) :
    p.poll now = ({}, p) := by
  rw [poll_eq h.idle]
  apply pollAutoplay_of_idle
  rintro ⟨playing, isDue⟩
  have ahead := h.playing_iff.mp playing
  have passed : due ≤ now := by simpa [Ticker.isDue, h.next_eq ahead] using isDue
  rcases early with none | before
  · exact Nat.ne_of_gt ahead none
  · exact Nat.not_lt.mpr passed before

/-- A tick: one statement fewer is ahead, and the next is due an interval from now. -/
theorem paced_poll (h : Paced interval (left + 1) due p) (passed : due ≤ now) :
    (p.poll now).1.stepped = true ∧ ((p.poll now).1.finished = true ↔ left = 0) ∧
      Paced interval left (now + interval) (p.poll now).2 ∧
      (p.poll now).2.program = p.program := by
  have playing : p.playing = true := h.playing_iff.mpr (Nat.succ_pos left)
  have isDue : p.autoplay.isDue now = true := by
    simpa [Ticker.isDue, h.next_eq (Nat.succ_pos left)] using passed
  have whole := h.left_eq
  have stepping := @stepping_act p (.poll now) h.toStepping rfl
  have program := @program_act p (.poll now) h.toStepping rfl
  have same := interval_act p (.poll now)
  have executed := (pollAutoplay_executes h.toCoherent playing isDue).1
  obtain ⟨moved, last, goesOn⟩ := pollAutoplay_of_due h.toStepping playing isDue
  rw [act] at stepping program same
  rw [poll_eq h.idle] at stepping program same ⊢
  refine ⟨executed, last.trans (by omega), ?_, program⟩
  exact {
    stepping with
    left_eq := by
      rw [moved, program]
      omega
    playing_iff := by
      constructor
      · intro playing
        have short := (stepping.playing_lt playing).2
        rw [moved, program] at short
        omega
      · intro ahead
        exact (goesOn (by omega)).1
    interval_eq := same.trans h.interval_eq
    next_eq := by
      intro ahead
      rw [(goesOn (by omega)).2, h.interval_eq] }

def executing (p : Playback) : List Time → List Time
  | [] => []
  | now :: more =>
    let (events, q) := p.poll now
    if events.stepped then now :: q.executing more else q.executing more

theorem run_paced (h : Paced interval left due p) (times : List Time) :
    p.executing times = Ticker.beats interval left due times ∧
      (p.after (times.map .poll)).program = p.program ∧
      ∃ rest next, (p.executing times).length + rest = left ∧
        Paced interval rest next (p.after (times.map .poll)) := by
  induction times generalizing p left due with
  | nil => exact ⟨(Ticker.beats_nil interval left due).symm, rfl, left, due, Nat.zero_add left, h⟩
  | cons now more ih =>
    change p.executing (now :: more) = _ ∧ ((p.poll now).2.after (more.map .poll)).program = _ ∧
      ∃ rest next, _ ∧ Paced interval rest next ((p.poll now).2.after (more.map .poll))
    by_cases early : left = 0 ∨ now < due
    · have still := poll_early h early
      rw [Ticker.beats_early early, executing, still]
      exact ih h
    · obtain ⟨ahead, passed⟩ := not_or.mp early
      obtain ⟨n, rfl⟩ := Nat.exists_eq_succ_of_ne_zero ahead
      have passed : due ≤ now := Nat.le_of_not_lt passed
      obtain ⟨stepped, -, paced, program⟩ := paced_poll h passed
      obtain ⟨beats, programs, rest, next, count, later⟩ := ih paced
      have first : p.executing (now :: more) = now :: (p.poll now).2.executing more := by
        simp only [executing, stepped, if_true]
      rw [first, Ticker.beats_due passed, beats]
      refine ⟨rfl, programs.trans program, rest, next, ?_, later⟩
      rw [← beats, List.length_cons]
      omega

theorem paced_play (h : Stepping p) (left : p.cursor < p.program.length) (start : Time) :
    Paced p.autoplay.interval (p.program.length - p.cursor) start (p.play start).2 := by
  have stepping := @stepping_act p (.play start) h rfl
  rw [act] at stepping
  rw [play_eq h left start] at stepping ⊢
  exact {
    stepping with
    left_eq := Nat.add_sub_cancel' (Nat.le_of_lt left)
    playing_iff := ⟨fun _ => Nat.sub_pos_of_lt left, fun _ => rfl⟩
    interval_eq := rfl
    next_eq := fun _ => rfl }

theorem finished_iff (h : Paced interval left due p) (now : Time) :
    (p.poll now).1.finished = true ↔ (p.poll now).1.stepped = true ∧ left = 1 := by
  by_cases early : left = 0 ∨ now < due
  · rw [poll_early h early]
    simp
  · obtain ⟨ahead, passed⟩ := not_or.mp early
    obtain ⟨n, rfl⟩ := Nat.exists_eq_succ_of_ne_zero ahead
    obtain ⟨stepped, finished, -, -⟩ := paced_poll h (Nat.le_of_not_lt passed)
    rw [finished, stepped]
    simp

/-- Once it is started, and polled at whatever times, playing executes each statement that is left,
one a tick and no tick before its time. It goes on until the last one is executed and stops there.
No playback ever reports that it stopped without a statement executed. -/
theorem playing_paced (source : Text) (settings : Settings) (actions : List Action) :
    let p := (ofSource source settings).after actions
    (∀ now, (p.poll now).1.finished = true → (p.poll now).1.stepped = true) ∧
    ∀ start, (p.play start).1 = true → ∀ times,
      let left := p.program.length - p.cursor
      let ticks := (p.play start).2.executing times
      let r := (p.play start).2.after (times.map .poll)
      ticks = Ticker.beats settings.playInterval left start times ∧
      r.program = p.program ∧
      r.cursor = p.cursor + ticks.length ∧
      (r.playing = true ↔ ticks.length < left) ∧
      (ticks.length = left → r.cursor = p.program.length ∧ ∀ now, r.poll now = ({}, r)) ∧
      ∀ now,
        ((r.poll now).1.finished = true ↔
          (r.poll now).1.stepped = true ∧ ticks.length + 1 = left) ∧
        (r.poll now = ({}, r) ∨ ((r.poll now).1.stepped = true ∧
          ∃ step, r.Executes step (r.poll now).1.diagnostics (r.poll now).2)) := by
  intro p
  have coherent : Coherent p := coherent_after (coherent_ofSource source settings) actions
  refine ⟨stepped_of_finished coherent, fun start plays times => ?_⟩
  intro left ticks r
  obtain ⟨mode, short⟩ : p.mode = .step ∧ p.cursor < p.program.length := by
    apply canStepForward_iff.mp
    revert plays
    unfold play
    split
    · next left => exact fun _ => left
    · nofun
  have h : Stepping p := stepping_after coherent mode (quiet_after (quiet_of_live rfl) actions)
  have interval : p.autoplay.interval = settings.playInterval := interval_after _ actions
  have started := paced_play h short start
  rw [interval] at started
  have program : (p.play start).2.program = p.program := @program_act p (.play start) h rfl
  have cursor : (p.play start).2.cursor = p.cursor := by rw [play_eq h short start]
  obtain ⟨beats, same, rest, next, count, paced⟩ := run_paced started times
  have whole := paced.left_eq
  have before := started.left_eq
  rw [same] at whole
  change ticks.length + rest = left at count
  change r.cursor + rest = _ at whole
  change _ + left = _ at before
  refine ⟨beats, same.trans program, by omega, paced.playing_iff.trans (by omega), ?_, ?_⟩
  · intro all
    refine ⟨?_, fun now => poll_early paced (.inl (by omega))⟩
    rw [program] at whole
    omega
  · intro now
    refine ⟨(finished_iff paced now).trans (and_congr_right fun _ => by omega), ?_⟩
    exact poll_cases paced.toStepping now

theorem playing_paced_from_second :
    let p := (ofSource "int a[2] = {1, 2};\na[5] = 7;\na[0] = 9;".toList {}).after
      [.toggleMode 0, .stepForward]
    let times := [5, 30, 20, 1029, 1030, 4000]
    (p.play 10).1 = true ∧ (p.play 10).2.executing times = [30, 1030] ∧
      ((p.play 10).2.after (times.map .poll)).cursor = 3 := by
  intro p times
  have plays : (p.play 10).1 = true := by decide +kernel
  have left : p.program.length - p.cursor = 2 := by decide +kernel
  have cursor : p.cursor = 1 := by decide +kernel
  obtain ⟨beats, -, moved, -⟩ := (playing_paced _ {} [.toggleMode 0, .stepForward]).2 10 plays times
  have ticks : (p.play 10).2.executing times = [30, 1030] := by
    refine beats.trans ?_
    change Ticker.beats 1000 (p.program.length - p.cursor) 10 times = _
    rw [left]
    decide
  refine ⟨plays, ticks, moved.trans ?_⟩
  change p.cursor + ((p.play 10).2.executing times).length = 3
  rw [ticks, cursor]
  rfl

end Playback
end ArrayReplay
