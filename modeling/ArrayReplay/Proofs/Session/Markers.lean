import ArrayReplay.Proofs.Playing.Advancing
import ArrayReplay.Proofs.Session.Agreement

/-! Markers of a stepped program. The editor marks the statement executed last and the next one by
their line numbers in the source. The rows of the editor never hold a line feed, so they are the rows
of that source, and a line number finds the row that its statement is on. -/
namespace ArrayReplay

namespace Playback

variable {p : Playback} {l : Location}

theorem lastExecuted?_eq_some (found : p.lastExecuted? = some l) :
    p.canStepBack = true ∧ ∃ step, p.program[p.cursor - 1]? = some step ∧ step.location = l := by
  unfold lastExecuted? at found
  split at found
  · next back => exact ⟨back, Option.map_eq_some_iff.mp found⟩
  · cases found

theorem nextStep?_eq_some (found : p.nextStep? = some l) :
    p.mode = .step ∧ ∃ step, p.program[p.cursor]? = some step ∧ step.location = l := by
  unfold nextStep? at found
  cases mode : p.mode with
  | live =>
    rw [mode] at found
    cases found
  | step =>
    rw [mode] at found
    exact ⟨rfl, Option.map_eq_some_iff.mp found⟩

theorem lastExecuted?_of_passed {step : Step} (back : p.canStepBack = true)
    (passed : p.program[p.cursor - 1]? = some step) : p.lastExecuted? = some step.location := by
  rw [lastExecuted?, if_pos back, passed]
  rfl

theorem nextStep?_of_left {step : Step} (mode : p.mode = .step)
    (next : p.program[p.cursor]? = some step) : p.nextStep? = some step.location := by
  rw [nextStep?, mode, next]
  rfl

theorem lastExecuted?_ne_none_iff (h : Aligned p) :
    p.lastExecuted? ≠ none ↔ p.mode = .step ∧ 0 < p.cursor := by
  rw [← canStepBack_iff]
  constructor
  · intro marked
    obtain ⟨l, found⟩ := Option.ne_none_iff_exists'.mp marked
    exact (lastExecuted?_eq_some found).1
  · intro back
    have bound := h.cursor_le
    have before := (canStepBack_iff.mp back).2
    have inside : p.cursor - 1 < p.program.length := by omega
    rw [lastExecuted?_of_passed back (List.getElem?_eq_getElem inside)]
    nofun

theorem nextStep?_ne_none_iff : p.nextStep? ≠ none ↔ p.mode = .step ∧ p.cursor < p.program.length := by
  constructor
  · intro marked
    obtain ⟨l, found⟩ := Option.ne_none_iff_exists'.mp marked
    obtain ⟨mode, step, next, -⟩ := nextStep?_eq_some found
    exact ⟨mode, (List.getElem?_eq_some_iff.mp next).1⟩
  · rintro ⟨mode, left⟩
    rw [nextStep?_of_left mode (List.getElem?_eq_getElem left)]
    nofun

theorem environment_of_passed {step : Step} (h : Coherent p) (back : p.canStepBack = true)
    (passed : p.program[p.cursor - 1]? = some step) : p.environment =
      ((Program.environment (p.program.take (p.cursor - 1))).execute step).1 := by
  obtain ⟨mode, moved⟩ := canStepBack_iff.mp back
  rw [environment_eq h, mode, ← Program.environment_take_succ passed, Nat.sub_add_cancel moved]

theorem lastExecuted?_stepForward {step : Step} (mode : p.mode = .step)
    (next : p.program[p.cursor]? = some step) :
    p.stepForward.2.lastExecuted? = some step.location := by
  rw [stepForward, @advance_eq p.pause step mode next]
  exact lastExecuted?_of_passed (canStepBack_iff.mpr ⟨mode, Nat.succ_pos _⟩) next

end Playback

namespace Session

variable {s t : Session} {key : Key}

inductive Rewritten (key : Key) (s t : Session) : Prop where
  | kept : t.buffer = s.buffer → Rewritten key s t
  | edited : t.buffer = (editKey s.buffer key).2 → Rewritten key s t
  | replaced (text : Text) : t.buffer = s.buffer.setText text → Rewritten key s t

theorem rewritten_press (now : Time) (p : KeyPress) (s : Session) :
    Rewritten p.key s (s.press now p) := by
  cases pressed_press now p s with
  | aside buffer _ => exact .kept buffer
  | command _ _ _ _ buffer _ => exact .kept buffer
  | moved _ buffer _ => exact .edited buffer
  | edited _ _ _ _ buffer _ => exact .edited buffer
  | adjusted _ _ _ _ _ _ _ buffer => exact .replaced _ buffer
  | cycled _ buffer _ => exact .kept buffer
  | played buffer _ => exact .kept buffer

theorem unbroken_editKey {b : EditBuffer} (unbroken : Text.Unbroken b.lines)
    (inRow : key ≠ .char '\n') : Text.Unbroken (editKey b key).2.lines := by
  cases key with
  | char c => exact EditBuffer.unbroken_insert unbroken fun same => inRow (congrArg Key.char same)
  | enter => exact EditBuffer.unbroken_insertBreak unbroken
  | backspace => exact EditBuffer.unbroken_backspace unbroken
  | delete => exact EditBuffer.unbroken_delete unbroken
  | left => exact (b.lines_moveLeft).symm ▸ unbroken
  | right => exact (b.lines_moveRight).symm ▸ unbroken
  | up => exact (b.lines_moveUp).symm ▸ unbroken
  | down => exact (b.lines_moveDown).symm ▸ unbroken
  | _ => exact unbroken

theorem unbroken_press {p : KeyPress} (unbroken : Text.Unbroken s.buffer.lines)
    (inRow : p.key ≠ .char '\n') (now : Time) : Text.Unbroken (s.press now p).buffer.lines := by
  cases rewritten_press now p s with
  | kept same => exact same ▸ unbroken
  | edited same => exact same ▸ unbroken_editKey unbroken inRow
  | replaced text same => exact same ▸ EditBuffer.unbroken_setText text s.buffer

theorem unbroken_after (unbroken : Text.Unbroken s.buffer.lines) (events : List Event)
    (inRows : ∀ now ctrl, .press now ⟨.char '\n', ctrl⟩ ∉ events) :
    Text.Unbroken (s.after events).buffer.lines := by
  induction events generalizing s with
  | nil => exact unbroken
  | cons event more ih =>
    refine ih ?_ fun now ctrl typed => inRows now ctrl (List.mem_cons_of_mem _ typed)
    cases event with
    | press now p =>
      apply unbroken_press unbroken
      intro feed
      apply inRows now p.ctrl
      rw [← feed]
      exact List.mem_cons_self
    | tick now => exact unbroken

/-- The line is a row of the editor that counts as a step and reads as the statement. -/
def Marks (s : Session) (line : Nat) (statement : Statement) : Prop :=
  1 ≤ line ∧ line ≤ s.buffer.lines.length ∧ ∃ row, s.buffer.lines[line - 1]? = some row ∧
    Program.isBlankOrComment row = false ∧ Statement.ofLine row = statement

theorem rows_eq_lines (unbroken : Text.Unbroken s.buffer.lines) :
    Text.rows s.buffer.text = s.buffer.lines :=
  Text.rows_ofRows (List.ne_nil_of_length_pos (Nat.zero_lt_of_lt s.buffer.row_lt)) unbroken

theorem marks_of_mem (h : Agreed s) (unbroken : Text.Unbroken s.buffer.lines) {step : Step}
    (member : step ∈ s.playback.program) : s.Marks step.location.line step.statement := by
  rw [h.coherent.program_eq, ← h.text_eq, Program.ofSource_eq, rows_eq_lines unbroken] at member
  obtain ⟨i, row, place, number, counts, reads⟩ := Program.exists_line_of_mem member
  have inside := (List.getElem?_eq_some_iff.mp place).1
  refine ⟨by omega, by omega, row, ?_, counts, reads.symm⟩
  rw [number, Nat.add_sub_cancel_left]
  exact place

/-- After any keys at any times, no line feed typed among them, the statement executed last and the
next one are marked exactly where there are such statements, and each mark stands at the row that
its statement is read from. -/
theorem markers_on_rows (source : Text) (mode : Mode) (settings : Settings) (now : Time)
    (events : List Event) (inRows : ∀ time ctrl, .press time ⟨.char '\n', ctrl⟩ ∉ events) :
    let s := (start source mode settings now).after events
    let p := s.playback
    (p.lastExecuted? ≠ none ↔ p.mode = .step ∧ 0 < p.cursor) ∧
    (p.nextStep? ≠ none ↔ p.mode = .step ∧ p.cursor < p.program.length) ∧
    (∀ l, p.lastExecuted? = some l → ∃ step, s.Marks l.line step.statement ∧
      p.program[p.cursor - 1]? = some step ∧
      p.environment = ((Program.environment (p.program.take (p.cursor - 1))).execute step).1) ∧
    ∀ l, p.nextStep? = some l → ∃ step found, s.Marks l.line step.statement ∧
      p.stepForward.1 = some found ∧ p.Executes step found p.stepForward.2 ∧
      p.stepForward.2.lastExecuted? = some l := by
  intro s p
  have h : Agreed s := agreed_after (agreed_start source mode settings now) events
  have unbroken : Text.Unbroken s.buffer.lines :=
    unbroken_after (EditBuffer.unbroken_ofText source) events inRows
  refine ⟨Playback.lastExecuted?_ne_none_iff h.coherent.toAligned, Playback.nextStep?_ne_none_iff,
    ?_, ?_⟩
  · intro l marked
    obtain ⟨back, step, passed, rfl⟩ := Playback.lastExecuted?_eq_some marked
    refine ⟨step, marks_of_mem h unbroken (List.mem_of_getElem? passed), passed, ?_⟩
    exact Playback.environment_of_passed h.coherent back passed
  · intro l marked
    obtain ⟨stepping, step, next, rfl⟩ := Playback.nextStep?_eq_some marked
    obtain ⟨found, reports, executes⟩ := Playback.stepForward_executes stepping next
    exact ⟨step, found, marks_of_mem h unbroken (List.mem_of_getElem? next), reports, executes,
      Playback.lastExecuted?_stepForward stepping next⟩

theorem markers_on_rows_below_break :
    let source := "int a[1] = {1};\n\n  a[0] = 2;".toList
    let events : List Event := [.press 0 ⟨.enter, false⟩, .press 5 ⟨.char 'n', true⟩]
    let s := (start source .step {} 0).after events
    (∀ time ctrl, .press time ⟨.char '\n', ctrl⟩ ∉ events) ∧
      s.playback.lastExecuted? = some ⟨2, 1⟩ ∧ s.Marks 2 (.declare .int ['a'] 1 [.int 1]) ∧
      s.playback.nextStep? = some ⟨4, 3⟩ ∧ s.Marks 4 (.update ['a'] 0 (.int 2)) := by
  intro source events s
  have inRows : ∀ time ctrl, .press time ⟨.char '\n', ctrl⟩ ∉ events := by
    intro time ctrl typed
    simp [events] at typed
  have last : s.playback.lastExecuted? = some ⟨2, 1⟩ := by decide +kernel
  have next : s.playback.nextStep? = some ⟨4, 3⟩ := by decide +kernel
  have passed : s.playback.program[s.playback.cursor - 1]? =
      some ⟨⟨2, 1⟩, .declare .int ['a'] 1 [.int 1]⟩ := by decide +kernel
  have left : s.playback.program[s.playback.cursor]? =
      some ⟨⟨4, 3⟩, .update ['a'] 0 (.int 2)⟩ := by decide +kernel
  have markers := markers_on_rows source .step {} 0 events inRows
  have here : (start source .step {} 0).after events = s := rfl
  rw [here] at markers
  clear_value s
  obtain ⟨-, -, behind, ahead⟩ := markers
  obtain ⟨step, marked, same, -⟩ := behind ⟨2, 1⟩ last
  cases passed.symm.trans same
  obtain ⟨step, found, marked', -, executes, -⟩ := ahead ⟨4, 3⟩ next
  cases left.symm.trans executes.next
  exact ⟨inRows, last, marked, next, marked'⟩

end Session
end ArrayReplay
