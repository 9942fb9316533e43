import ArrayReplay.Proofs.Playing.Pacing
import ArrayReplay.Proofs.Session.Selection

namespace ArrayReplay

namespace Playback

variable {p : Playback}

theorem cursor_stepForward (mode : p.mode = .step) :
    p.stepForward.2.cursor = if p.cursor < p.program.length then p.cursor + 1 else p.cursor := by
  split
  · next left => exact (stepForward_eq mode left).2
  · next none =>
    have atEnd : p.pause.program.length ≤ p.pause.cursor := Nat.not_lt.mp none
    rw [stepForward, advance_end atEnd]
    rfl

theorem cursor_stepBack (mode : p.mode = .step) : p.stepBack.2.cursor = p.cursor - 1 := by
  simp only [stepBack]
  split
  · rfl
  · next none =>
    have atStart : ¬ 0 < p.cursor := fun moved => none (canStepBack_iff.mpr ⟨mode, moved⟩)
    change p.cursor = p.cursor - 1
    omega

theorem cursor_togglePlay (now : Time) (p : Playback) : (p.togglePlay now).2.cursor = p.cursor := by
  unfold togglePlay play
  split
  · rfl
  · split <;> rfl

theorem cursor_cycle (forward : Bool) (p : Playback) : (p.cycle forward).cursor = p.cursor := by
  unfold cycle
  split <;> rfl

theorem cursor_poll (h : Coherent p) (now : Time) : (p.poll now).2.cursor = p.cursor ∨
    (p.poll now).2.cursor = p.cursor + 1 ∧ p.playing = true := by
  have polled := coherent_pollValidation h now
  change ((p.pollValidation now).2.pollAutoplay now).2.cursor = p.cursor ∨
    ((p.pollValidation now).2.pollAutoplay now).2.cursor = p.cursor + 1 ∧ p.playing = true
  by_cases ticks : (p.pollValidation now).2.playing = true ∧
      (p.pollValidation now).2.autoplay.isDue now = true
  · obtain ⟨-, step, executes⟩ := pollAutoplay_executes polled ticks.1 ticks.2
    exact .inr ⟨executes.cursor_eq, ticks.1⟩
  · rw [pollAutoplay_of_idle ticks]
    exact .inl rfl

theorem cursor_setText {text : Text} (mode : p.mode = .step) (changed : text ≠ p.source)
    (now : Time) : (p.setText text now).cursor = 0 := by
  rw [setText, if_neg changed]
  simp only [mode]
  rfl

theorem mode_toggleMode (now : Time) (p : Playback) : (p.toggleMode now).mode = p.mode.other := by
  rw [toggleMode]
  cases p.mode <;> rfl

end Playback

theorem Mode.other_ne (mode : Mode) : mode.other ≠ mode := by cases mode <;> decide

namespace Session

variable {s t : Session} {event : Event}

/-- The event gives the command with this letter: with Ctrl, or bare in the chart pane. -/
def Orders (s : Session) (letter : Char) : Event → Prop
  | .press _ p => s.helpShown = false ∧ (p.ctrl = true ∨ s.focus = .chart) ∧
      ∃ c, p.key = .char c ∧ c.toLower = letter
  | .tick _ => False

/-- The event is a key that writes: it types or erases in the editor, or raises or lowers a bar. -/
def Writes (s : Session) : Event → Prop
  | .press _ p => s.helpShown = false ∧ p.ctrl = false ∧
      (s.focus = .editor ∧
          ((∃ c, p.key = .char c) ∨ p.key = .enter ∨ p.key = .backspace ∨ p.key = .delete) ∨
        s.focus = .chart ∧ s.playback.mode = .live ∧ (p.key = .up ∨ p.key = .down))
  | .tick _ => False

theorem mode_command {c : Char} (kept : ¬ (c = 't' ∨ c = 'm')) (now : Time) (s : Session) :
    (s.command c now).playback.mode = s.playback.mode := by
  rcases playback_command c now s with same | ⟨action, acts, -, switches⟩
  · rw [same]
  · rw [acts]
    exact Playback.mode_act (Bool.eq_false_iff.mpr fun switch => kept (switches switch))

theorem cursor_command {c : Char} {now : Time} (stepping : s.playback.mode = .step)
    (still : (s.command c now).playback.mode = .step) :
    (s.command c now).playback.cursor = s.playback.cursor ∨
      c = 'n' ∧ (s.command c now).playback.cursor = s.playback.cursor + 1 ∨
      c = 'b' ∧ (s.command c now).playback.cursor + 1 = s.playback.cursor ∨
      c = 'r' ∧ (s.command c now).playback.cursor = 0 := by
  have toggled : (s.toggleMode now).playback.mode = .step → False := by
    intro same
    have other := Playback.mode_toggleMode now s.playback
    rw [stepping] at other
    cases same.symm.trans other
  revert still
  unfold command
  split
  · exact fun _ => .inl rfl
  · exact fun still => (toggled still).elim
  · exact fun still => (toggled still).elim
  · intro still
    rw [playback_stepForward stepping, Playback.cursor_stepForward stepping]
    split
    · exact .inr (.inl ⟨rfl, rfl⟩)
    · exact .inl rfl
  · intro still
    rw [playback_stepBack, Playback.cursor_stepBack stepping]
    by_cases moved : 0 < s.playback.cursor
    · exact .inr (.inr (.inl ⟨rfl, Nat.sub_add_cancel moved⟩))
    · exact .inl (by omega)
  · intro still
    rw [playback_reset stepping]
    exact .inr (.inr (.inr ⟨rfl, rfl⟩))
  · intro still
    rw [playback_togglePlay, Playback.cursor_togglePlay]
    exact .inl rfl
  · exact fun _ => .inl rfl

inductive Cause (s : Session) (event : Event) (t : Session) : Prop where
  | aside : t.buffer.text = s.buffer.text → t.playback.mode = s.playback.mode →
      t.playback.cursor = s.playback.cursor → Cause s event t
  | time (now : Time) : event = .tick now → t.buffer.text = s.buffer.text →
      t.playback = (s.playback.poll now).2 → Cause s event t
  | order (letter : Char) (now : Time) : s.Orders letter event → t.buffer.text = s.buffer.text →
      t.playback = (s.command letter now).playback → Cause s event t
  | edited (now : Time) : s.Writes event →
      t.playback = s.playback.setText t.buffer.text now → Cause s event t
  | adjusted : s.Writes event → s.playback.mode = .live → t.playback.mode = .live →
      Cause s event t

theorem editing_of_edited {b : EditBuffer} {key : Key} (edited : (editKey b key).1 = true) :
    (∃ c, key = .char c) ∨ key = .enter ∨ key = .backspace ∨ key = .delete := by
  cases key with
  | char c => exact .inl ⟨c, rfl⟩
  | enter => exact .inr (.inl rfl)
  | backspace => exact .inr (.inr (.inl rfl))
  | delete => exact .inr (.inr (.inr rfl))
  | _ => cases edited

theorem cause_press (now : Time) (p : KeyPress) (s : Session) :
    Cause s (.press now p) (s.press now p) := by
  cases pressed_press now p s with
  | aside buffer playback =>
    exact .aside (congrArg EditBuffer.text buffer) (congrArg Playback.mode playback)
      (congrArg Playback.cursor playback)
  | command c closed gives letter buffer playback =>
    exact .order c.toLower now ⟨closed, gives, c, letter, rfl⟩ (congrArg EditBuffer.text buffer)
      playback
  | moved unedited buffer playback =>
    exact .aside ((congrArg EditBuffer.text buffer).trans (text_editKey unedited))
      (congrArg Playback.mode playback) (congrArg Playback.cursor playback)
  | edited closed bare focus edited buffer playback =>
    exact .edited now ⟨closed, bare, .inl ⟨focus, editing_of_edited edited⟩⟩ playback
  | adjusted v closed bare focus vertical live playback buffer =>
    have mode := Playback.mode_requestChange s.bar v now s.playback
    rw [← playback, live] at mode
    exact .adjusted ⟨closed, bare, .inr ⟨focus, live, vertical⟩⟩ live mode
  | cycled forward buffer playback =>
    refine .aside (congrArg EditBuffer.text buffer) ?_ ?_
    · exact (congrArg Playback.mode playback).trans (Playback.sameSetting_cycle _ forward).mode_eq
    · exact (congrArg Playback.cursor playback).trans (Playback.cursor_cycle forward _)
  | played buffer playback =>
    refine .aside (congrArg EditBuffer.text buffer) ?_ ?_
    · exact (congrArg Playback.mode playback).trans (Playback.sameSetting_togglePlay _ now).mode_eq
    · exact (congrArg Playback.cursor playback).trans (Playback.cursor_togglePlay now _)

theorem cause_handle (event : Event) (s : Session) : Cause s event (s.handle event) := by
  cases event with
  | press now p => exact cause_press now p s
  | tick now => exact .time now rfl rfl rfl

/-- A command is given the same way with Ctrl and by its bare letter. -/
theorem exists_command {letter : Char} (orders : s.Orders letter event)
    (apart : letter ∉ ['[', ']', ' ', '?']) :
    ∃ now, (s.handle event).playback = (s.command letter now).playback := by
  cases event with
  | tick now => exact orders.elim
  | press now p =>
    obtain ⟨key, ctrl⟩ := p
    obtain ⟨closed, gives, c, rfl, rfl⟩ := orders
    have given : s.press now ⟨.char c, true⟩ = s.command c.toLower now := by
      simp only [press, closed, Bool.false_eq_true, if_false, if_true]
    refine ⟨now, ?_⟩
    change (s.press now ⟨.char c, ctrl⟩).playback = _
    rw [← given]
    cases ctrl with
    | true => rfl
    | false =>
      have chart : s.focus = .chart := gives.resolve_left Bool.false_ne_true
      have other : c ∉ ['[', ']', ' ', '?'] := by
        intro member
        have lower : ∀ x ∈ ['[', ']', ' ', '?'], x.toLower = x := by simp
        rw [lower c member] at apart
        exact apart member
      rw [press_letter closed chart now other]
      rfl

section
variable (cause : Cause s event t)
include cause

theorem writes_of_changed (changed : t.buffer.text ≠ s.buffer.text) : s.Writes event := by
  cases cause with
  | aside text mode cursor => exact absurd text changed
  | time now tick text playback => exact absurd text changed
  | order letter now orders text playback => exact absurd text changed
  | edited now writes playback => exact writes
  | adjusted writes live still => exact writes

theorem orders_of_switched (switched : t.playback.mode ≠ s.playback.mode) :
    s.Orders 't' event ∨ s.Orders 'm' event := by
  cases cause with
  | aside text mode cursor => exact absurd mode switched
  | time now tick text playback =>
    rw [playback] at switched
    exact absurd (@Playback.mode_act s.playback (.poll now) rfl) switched
  | order letter now orders text playback =>
    by_cases toggles : letter = 't' ∨ letter = 'm'
    · rcases toggles with rfl | rfl
      · exact .inl orders
      · exact .inr orders
    · rw [playback] at switched
      exact absurd (mode_command toggles now s) switched
  | edited now writes playback =>
    rw [playback] at switched
    exact absurd (Playback.setText_frame _ now s.playback).2.1 switched
  | adjusted writes live still => exact absurd (still.trans live.symm) switched

variable (h : Agreed s) (stepping : s.playback.mode = .step)
include h stepping

theorem cursor_of_changed (changed : t.buffer.text ≠ s.buffer.text) : t.playback.cursor = 0 := by
  cases cause with
  | aside text mode cursor => exact absurd text changed
  | time now tick text playback => exact absurd text changed
  | order letter now orders text playback => exact absurd text changed
  | edited now writes playback =>
    rw [playback]
    exact Playback.cursor_setText stepping (h.text_eq ▸ changed) now
  | adjusted writes live still => cases live.symm.trans stepping

theorem cursor_of_cause (still : t.playback.mode = .step) :
    t.playback.cursor = s.playback.cursor ∨
      t.playback.cursor = s.playback.cursor + 1 ∧
        (s.Orders 'n' event ∨ s.playback.playing = true ∧ ∃ time, event = .tick time) ∨
      t.playback.cursor + 1 = s.playback.cursor ∧ s.Orders 'b' event ∨
      t.playback.cursor = 0 ∧ (s.Orders 'r' event ∨ t.buffer.text ≠ s.buffer.text) := by
  by_cases changed : t.buffer.text ≠ s.buffer.text
  · exact .inr (.inr (.inr ⟨cursor_of_changed cause h stepping changed, .inr changed⟩))
  · cases cause with
    | aside text mode cursor => exact .inl cursor
    | time now tick text playback =>
      rw [playback]
      rcases Playback.cursor_poll h.coherent now with same | ⟨moved, playing⟩
      · exact .inl same
      · exact .inr (.inl ⟨moved, .inr ⟨playing, now, tick⟩⟩)
    | order letter now orders text playback =>
      rw [playback] at still ⊢
      rcases cursor_command stepping still with same | ⟨rfl, moved⟩ | ⟨rfl, moved⟩ | ⟨rfl, moved⟩
      · exact .inl same
      · exact .inr (.inl ⟨moved, .inl orders⟩)
      · exact .inr (.inr (.inl ⟨moved, orders⟩))
      · exact .inr (.inr (.inr ⟨moved, .inl orders⟩))
    | edited now writes playback =>
      have same : t.buffer.text = s.playback.source := (Decidable.not_not.mp changed).trans h.text_eq
      rw [playback, Playback.setText, if_pos same]
      exact .inl rfl
    | adjusted writes live _ => cases live.symm.trans stepping

end

theorem switched_of_orders (orders : s.Orders 't' event ∨ s.Orders 'm' event) :
    (s.handle event).playback.mode ≠ s.playback.mode := by
  have toggled : ∃ now, (s.handle event).playback = s.playback.toggleMode now := by
    rcases orders with orders | orders
    · exact exists_command orders (by decide)
    · exact exists_command orders (by decide)
  obtain ⟨now, playback⟩ := toggled
  rw [playback, Playback.mode_toggleMode]
  exact Mode.other_ne _

section
variable (stepping : s.playback.mode = .step)
include stepping

theorem cursor_of_forward (h : Agreed s) (orders : s.Orders 'n' event) :
    (s.handle event).playback.cursor = min (s.playback.cursor + 1) s.playback.program.length := by
  obtain ⟨now, playback⟩ := exists_command orders (by decide)
  have bound := h.coherent.cursor_le
  change _ = (s.stepForward now).playback at playback
  rw [playback, playback_stepForward stepping, Playback.cursor_stepForward stepping]
  split <;> omega

theorem cursor_of_back (orders : s.Orders 'b' event) :
    (s.handle event).playback.cursor = s.playback.cursor - 1 := by
  obtain ⟨now, playback⟩ := exists_command orders (by decide)
  change _ = s.stepBack.playback at playback
  rw [playback, playback_stepBack, Playback.cursor_stepBack stepping]

theorem cursor_of_reset (orders : s.Orders 'r' event) : (s.handle event).playback.cursor = 0 := by
  obtain ⟨now, playback⟩ := exists_command orders (by decide)
  change _ = s.reset.playback at playback
  rw [playback, playback_reset stepping]
  rfl

end

theorem press_of_shown (shown : s.helpShown = true) (now : Time) (p : KeyPress) :
    let t := s.press now p
    t.buffer = s.buffer ∧ t.playback = s.playback ∧ t.board = s.board ∧ t.focus = s.focus ∧
      t.bar = s.bar ∧ t.status = s.status := by
  simp only [press, shown, if_true]
  exact helpKey_frame p s

/-- In any session, whatever comes next: only a key that writes changes the text, in the editor and in
its playback; the mode changes by its command and by nothing else; and while stepping goes on, the
cursor stays, moves by one with its commands and with playing, or goes back to the start, by the
command for it or with another text. Help keeps all keys to itself. -/
theorem changes_ordered (source : Text) (mode : Mode) (settings : Settings) (now : Time)
    (events : List Event) (event : Event) :
    let s := (start source mode settings now).after events
    let t := s.handle event
    let p := s.playback
    let q := t.playback
    (t.buffer.text ≠ s.buffer.text ∨ q.source ≠ p.source → s.Writes event) ∧
    (q.mode ≠ p.mode ↔ s.Orders 't' event ∨ s.Orders 'm' event) ∧
    (p.mode = .step → q.mode = .step →
      (q.cursor = p.cursor ∨
        q.cursor = p.cursor + 1 ∧
          (s.Orders 'n' event ∨ p.playing = true ∧ ∃ time, event = .tick time) ∨
        q.cursor + 1 = p.cursor ∧ s.Orders 'b' event ∨
        q.cursor = 0 ∧ (s.Orders 'r' event ∨ t.buffer.text ≠ s.buffer.text)) ∧
      (s.Orders 'n' event → q.cursor = min (p.cursor + 1) p.program.length) ∧
      (s.Orders 'b' event → q.cursor = p.cursor - 1) ∧
      (s.Orders 'r' event ∨ t.buffer.text ≠ s.buffer.text → q.cursor = 0)) ∧
    (s.helpShown = true → ∀ time press, event = .press time press →
      t.buffer = s.buffer ∧ q = p ∧ t.board = s.board ∧ t.focus = s.focus ∧ t.bar = s.bar ∧
        t.status = s.status) := by
  intro s t p q
  have h : Agreed s := agreed_after (agreed_start source mode settings now) events
  have next : Agreed t := h.of_effect (effect_handle event s)
  have cause : Cause s event t := cause_handle event s
  refine ⟨fun changed => writes_of_changed cause ?_,
    ⟨orders_of_switched cause, switched_of_orders⟩, fun stepping still =>
    ⟨cursor_of_cause cause h stepping still, cursor_of_forward stepping h, cursor_of_back stepping, ?_⟩,
    ?_⟩
  · rcases changed with changed | changed
    · exact changed
    · rwa [next.text_eq, h.text_eq]
  · rintro (orders | changed)
    · exact cursor_of_reset stepping orders
    · exact cursor_of_changed cause h stepping changed
  · rintro shown time press rfl
    exact press_of_shown shown time press

end Session
end ArrayReplay
