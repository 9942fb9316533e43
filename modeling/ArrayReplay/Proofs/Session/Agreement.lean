import ArrayReplay.Proofs.Session.Presses

namespace ArrayReplay

namespace Session

inductive Event where
  | press (now : Time) (p : KeyPress)
  | tick (now : Time)

def handle (s : Session) : Event → Session
  | .press now p => s.press now p
  | .tick now => s.tick now

def after (s : Session) (events : List Event) : Session := events.foldl handle s

/-- Everything an event can do to the text and its playback: move the cursor or nothing, play, edit
the text and hand it to the playback, or change the source and hand it to the editor. -/
inductive Effect (s t : Session) : Prop where
  | still : t.buffer.text = s.buffer.text → t.playback = s.playback → Effect s t
  | played (action : Playback.Action) : action.edits = false →
      t.buffer = s.buffer → t.playback = s.playback.act action → Effect s t
  | typed (now : Time) : t.playback = s.playback.setText t.buffer.text now → Effect s t
  | raised (index : Nat) (v : Value) (now : Time) :
      t.playback = (s.playback.requestChange index v now).2 →
      t.buffer = s.buffer.setText t.playback.source → Effect s t

variable {s t : Session}

theorem effect_press (now : Time) (p : KeyPress) (s : Session) : Effect s (s.press now p) := by
  cases pressed_press now p s with
  | aside buffer playback => exact .still (congrArg EditBuffer.text buffer) playback
  | command c _ _ _ buffer playback =>
    rcases playback_command c.toLower now s with same | ⟨action, acts, spares, -⟩
    · exact .still (congrArg EditBuffer.text buffer) (playback.trans same)
    · exact .played action spares buffer (playback.trans acts)
  | moved unedited buffer playback =>
    exact .still ((congrArg EditBuffer.text buffer).trans (text_editKey unedited)) playback
  | edited _ _ _ _ _ playback => exact .typed now playback
  | adjusted v _ _ _ _ _ playback buffer => exact .raised s.bar v now playback buffer
  | cycled forward buffer playback => exact .played (.cycle forward) rfl buffer playback
  | played buffer playback => exact .played (.togglePlay now) rfl buffer playback

theorem effect_handle (event : Event) (s : Session) : Effect s (s.handle event) := by
  cases event with
  | press now p => exact effect_press now p s
  | tick now => exact .played (.poll now) rfl rfl rfl

structure Agreed (s : Session) : Prop where
  coherent : Playback.Coherent s.playback
  text_eq : s.buffer.text = s.playback.source

theorem Agreed.of_effect (h : Agreed s) (effect : Effect s t) : Agreed t := by
  cases effect with
  | still text playback => exact ⟨playback ▸ h.coherent, by rw [text, playback, h.text_eq]⟩
  | played action spares buffer playback =>
    constructor
    · rw [playback]
      exact Playback.coherent_act h.coherent action
    · rw [buffer, playback, Playback.source_act spares]
      exact h.text_eq
  | typed now playback =>
    constructor
    · rw [playback]
      exact Playback.coherent_setText h.coherent _ now
    · rw [playback]
      exact (Playback.setText_frame _ now _).1.symm
  | raised index v now playback buffer =>
    constructor
    · rw [playback]
      exact Playback.coherent_requestChange h.coherent index v now
    · rw [buffer]
      exact EditBuffer.text_setText _ _

theorem agreed_start (source : Text) (mode : Mode) (settings : Settings) (now : Time) :
    Agreed (start source mode settings now) := by
  have coherent := Playback.coherent_ofSource source settings
  have text := EditBuffer.text_ofText source
  cases mode with
  | live => exact ⟨coherent, text⟩
  | step => exact ⟨Playback.coherent_setMode coherent .step now, text⟩

theorem agreed_after (h : Agreed s) (events : List Event) : Agreed (s.after events) := by
  induction events generalizing s with
  | nil => exact h
  | cons event more ih => exact ih (h.of_effect (effect_handle event s))

/-- After any keys at any times, the editor holds the source that is played, and what is shown is a
replay of the text in the editor: all of it live, the steps in front of the cursor else. -/
theorem after_shows_text (source : Text) (mode : Mode) (settings : Settings) (now : Time)
    (events : List Event) :
    let s := (start source mode settings now).after events
    let program := Program.ofSource s.buffer.text
    s.buffer.text = s.playback.source ∧
      s.playback.environment = match s.playback.mode with
        | .live => program.environment
        | .step => Program.environment (program.take s.playback.cursor) := by
  intro s program
  have h : Agreed s := agreed_after (agreed_start source mode settings now) events
  have played : program = s.playback.program := by
    rw [h.coherent.program_eq, ← h.text_eq]
  refine ⟨h.text_eq, ?_⟩
  rw [played]
  exact Playback.environment_eq h.coherent

end Session
end ArrayReplay
