import ArrayReplay.Proofs.Editing.Edits
import ArrayReplay.Proofs.Playing.Frames
import ArrayReplay.Session.Basic

/-! What a key can do to the text and its playback, and when. The keys are told apart here, once, and
what holds of every key is read off the few things that one can do. -/
namespace ArrayReplay

namespace EditBuffer

variable {b : EditBuffer}

theorem backspace_of_unedited (unedited : b.backspace.1 = false) : b.backspace.2 = b := by
  revert unedited
  unfold backspace
  split
  · nofun
  · split
    · nofun
    · exact fun _ => rfl

theorem delete_of_unedited (unedited : b.delete.1 = false) : b.delete.2 = b := by
  revert unedited
  unfold delete
  split
  · nofun
  · split
    · nofun
    · exact fun _ => rfl

theorem text_of_lines {c : EditBuffer} (same : c.lines = b.lines) : c.text = b.text :=
  congrArg Text.ofRows same

end EditBuffer

theorem Playback.requestChange_of_false {p : Playback} {index : Nat} {v : Value} {now : Time}
    (refused : (p.requestChange index v now).1 = false) : (p.requestChange index v now).2 = p := by
  revert refused
  unfold requestChange
  split
  · exact fun _ => rfl
  · split
    · nofun
    · exact fun _ => rfl

namespace Session

variable {s t : Session} {now : Time} {p : KeyPress}

theorem command_frame (c : Char) (now : Time) (s : Session) :
    (s.command c now).buffer = s.buffer ∧ (s.command c now).bar = s.bar ∧
      (s.command c now).helpShown = s.helpShown := by
  unfold command stepForward stepBack reset togglePlay
  repeat' split
  all_goals exact ⟨rfl, rfl, rfl⟩

theorem helpKey_frame (p : KeyPress) (s : Session) :
    let t := s.helpKey p
    t.buffer = s.buffer ∧ t.playback = s.playback ∧ t.board = s.board ∧ t.focus = s.focus ∧
      t.bar = s.bar ∧ t.status = s.status := by
  unfold helpKey
  repeat' split
  all_goals exact ⟨rfl, rfl, rfl, rfl, rfl, rfl⟩

theorem playback_stepForward (stepping : s.playback.mode = .step) (now : Time) :
    (s.stepForward now).playback = s.playback.stepForward.2 := by
  simp only [stepForward, stepping]
  split <;> next stepped => exact (congrArg Prod.snd stepped).symm

theorem playback_stepForward_live (live : s.playback.mode = .live) (now : Time) :
    (s.stepForward now).playback = s.playback := by
  simp only [stepForward, live]

theorem playback_stepBack (s : Session) : s.stepBack.playback = s.playback.stepBack.2 := by
  unfold stepBack
  split
  · next playback stepped => exact (congrArg Prod.snd stepped).symm
  · next playback stepped => split <;> exact (congrArg Prod.snd stepped).symm

theorem playback_togglePlay (now : Time) (s : Session) :
    (s.togglePlay now).playback = (s.playback.togglePlay now).2 := by
  unfold togglePlay
  split
  · next playback toggled => exact (congrArg Prod.snd toggled).symm
  · next playback toggled => split <;> exact (congrArg Prod.snd toggled).symm

theorem playback_reset (stepping : s.playback.mode = .step) : s.reset.playback = s.playback.reset := by
  simp only [reset, stepping]

theorem playback_reset_live (live : s.playback.mode = .live) : s.reset.playback = s.playback := by
  simp only [reset, live]

/-- A command is an action of the playback or none. It never edits, and only one switches the mode. -/
theorem playback_command (c : Char) (now : Time) (s : Session) :
    (s.command c now).playback = s.playback ∨
      ∃ action : Playback.Action, (s.command c now).playback = s.playback.act action ∧
        action.edits = false ∧ (action.switches = true → c = 't' ∨ c = 'm') := by
  unfold command
  split
  · exact .inl rfl
  · exact .inr ⟨.toggleMode now, rfl, rfl, fun _ => .inl rfl⟩
  · exact .inr ⟨.toggleMode now, rfl, rfl, fun _ => .inr rfl⟩
  · cases mode : s.playback.mode with
    | live => exact .inl (playback_stepForward_live mode now)
    | step => exact .inr ⟨.stepForward, playback_stepForward mode now, rfl, nofun⟩
  · exact .inr ⟨.stepBack, playback_stepBack s, rfl, nofun⟩
  · cases mode : s.playback.mode with
    | live => exact .inl (playback_reset_live mode)
    | step => exact .inr ⟨.reset, playback_reset mode, rfl, nofun⟩
  · exact .inr ⟨.togglePlay now, playback_togglePlay now s, rfl, nofun⟩
  · exact .inl rfl

theorem text_editKey {b : EditBuffer} {key : Key} (unedited : (editKey b key).1 = false) :
    (editKey b key).2.text = b.text := by
  cases key with
  | char c => cases unedited
  | enter => cases unedited
  | backspace => exact congrArg EditBuffer.text (EditBuffer.backspace_of_unedited unedited)
  | delete => exact congrArg EditBuffer.text (EditBuffer.delete_of_unedited unedited)
  | left => exact EditBuffer.text_of_lines b.lines_moveLeft
  | right => exact EditBuffer.text_of_lines b.lines_moveRight
  | up => exact EditBuffer.text_of_lines b.lines_moveUp
  | down => exact EditBuffer.text_of_lines b.lines_moveDown
  | _ => rfl

/-- Everything a key can do to the text and its playback: nothing, give a command, move the cursor or
edit in the editor, raise or lower a bar and hand the source to the editor, display another array, or
play. -/
inductive Pressed (s : Session) (now : Time) (p : KeyPress) (t : Session) : Prop where
  | aside : t.buffer = s.buffer → t.playback = s.playback → Pressed s now p t
  | command (c : Char) : s.helpShown = false → p.ctrl = true ∨ s.focus = .chart → p.key = .char c →
      t.buffer = s.buffer → t.playback = (s.command c.toLower now).playback → Pressed s now p t
  | moved : (editKey s.buffer p.key).1 = false → t.buffer = (editKey s.buffer p.key).2 →
      t.playback = s.playback → Pressed s now p t
  | edited : s.helpShown = false → p.ctrl = false → s.focus = .editor →
      (editKey s.buffer p.key).1 = true → t.buffer = (editKey s.buffer p.key).2 →
      t.playback = s.playback.setText t.buffer.text now → Pressed s now p t
  | adjusted (v : Value) : s.helpShown = false → p.ctrl = false → s.focus = .chart →
      p.key = .up ∨ p.key = .down → s.playback.mode = .live →
      t.playback = (s.playback.requestChange s.bar v now).2 →
      t.buffer = s.buffer.setText t.playback.source → Pressed s now p t
  | cycled (forward : Bool) : t.buffer = s.buffer → t.playback = s.playback.cycle forward →
      Pressed s now p t
  | played : t.buffer = s.buffer → t.playback = (s.playback.togglePlay now).2 → Pressed s now p t

theorem Pressed.clampBar (pressed : Pressed s now p t) : Pressed s now p t.clampBar := by
  cases pressed with
  | aside buffer playback => exact .aside buffer playback
  | command c closed gives letter buffer playback =>
    exact .command c closed gives letter buffer playback
  | moved unedited buffer playback => exact .moved unedited buffer playback
  | edited closed bare focus edited buffer playback =>
    exact .edited closed bare focus edited buffer playback
  | adjusted v closed bare focus vertical live playback buffer =>
    exact .adjusted v closed bare focus vertical live playback buffer
  | cycled forward buffer playback => exact .cycled forward buffer playback
  | played buffer playback => exact .played buffer playback

section
variable (closed : s.helpShown = false) (bare : p.ctrl = false)
include closed bare

theorem pressed_editorKey (focus : s.focus = .editor) : Pressed s now p (s.editorKey p.key now) := by
  cases edited : (editKey s.buffer p.key).1 with
  | true =>
    simp only [editorKey, edited, if_true]
    exact .edited closed bare focus edited rfl rfl
  | false =>
    simp only [editorKey, edited, Bool.false_eq_true, if_false]
    exact .moved edited rfl rfl

theorem pressed_adjust (focus : s.focus = .chart) (vertical : p.key = .up ∨ p.key = .down)
    (up : Bool) : Pressed s now p (s.adjust up now) := by
  unfold adjust
  split
  · exact .aside rfl rfl
  · next live =>
    split
    · exact .aside rfl rfl
    · next element found =>
      dsimp only
      split
      · next playback changed =>
        exact .adjusted _ closed bare focus vertical live (congrArg Prod.snd changed).symm rfl
      · next playback changed =>
        have same := Playback.requestChange_of_false (congrArg Prod.fst changed)
        exact .aside rfl ((congrArg Prod.snd changed).symm.trans same)

theorem pressed_chartKey (focus : s.focus = .chart) : Pressed s now p (s.chartKey p.key now) := by
  unfold chartKey
  split
  · exact .aside rfl rfl
  · exact .aside rfl rfl
  · next up => exact pressed_adjust closed bare focus (.inl up) true
  · next down => exact pressed_adjust closed bare focus (.inr down) false
  · exact .cycled false rfl rfl
  · exact .cycled true rfl rfl
  · exact .played (command_frame 'p' now s).1 (playback_togglePlay now s)
  · exact .aside rfl rfl
  · next c _ _ _ _ letter =>
    exact .command c closed (.inr focus) letter (command_frame _ now s).1 rfl
  · exact .aside rfl rfl

end

theorem pressed_press (now : Time) (p : KeyPress) (s : Session) :
    Pressed s now p (s.press now p) := by
  unfold press
  split
  · obtain ⟨buffer, playback, -⟩ := helpKey_frame p s
    exact .aside buffer playback
  · next closed =>
    have closed : s.helpShown = false := Bool.eq_false_iff.mpr closed
    split
    · next ctrl =>
      split
      · next c letter =>
        exact .command c closed (.inl ctrl) letter (command_frame _ now s).1 rfl
      · exact .aside rfl rfl
    · next bare =>
      have bare : p.ctrl = false := Bool.eq_false_iff.mpr bare
      apply Pressed.clampBar
      split
      · exact .aside rfl rfl
      · exact .aside rfl rfl
      · exact .aside rfl rfl
      · exact .aside rfl rfl
      · split
        · next focus => exact pressed_editorKey closed bare focus
        · next focus => exact pressed_chartKey closed bare focus

end Session
end ArrayReplay
