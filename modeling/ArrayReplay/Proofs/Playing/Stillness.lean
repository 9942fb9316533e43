import ArrayReplay.Proofs.Playing.Collection

namespace ArrayReplay.Playback

def Action.halts : Action → Bool
  | .stepForward => true
  | .stepBack => true
  | .reset => true
  | .cancelTimers => true
  | .setMode .step _ => true
  | _ => false

def Action.plays : Action → Bool
  | .play _ => true
  | .togglePlay _ => true
  | _ => false

/-- The action leaves the source and the mode as they are and does not start playing. -/
def Calm (p : Playback) (action : Action) : Prop :=
  (p.act action).source = p.source ∧ action.switches = false ∧ action.plays = false

/-- Neither the source changed nor the mode, and nothing played, a poll reports nothing and changes
nothing. -/
def Still (p : Playback) : Prop :=
  ∀ later, Throughout Calm p later → ∀ now, (p.after later).poll now = ({}, p.after later)

structure Paused (p : Playback) : Prop where
  playing_eq : p.playing = false
  next_eq : p.autoplay.next = none

variable {p : Playback} {action : Action}

theorem paused_pause (p : Playback) : Paused p.pause := ⟨rfl, rfl⟩

theorem paused_prefer (h : Paused p) (name : Option Text) :
    Paused { p with preferred := name } := ⟨h.playing_eq, h.next_eq⟩

theorem paused_setText (h : Paused p) (text : Text) (now : Time) : Paused (p.setText text now) := by
  unfold setText
  split
  · exact h
  · cases p.mode with
    | live => exact ⟨h.playing_eq, h.next_eq⟩
    | step => exact ⟨rfl, rfl⟩

theorem paused_requestChange (h : Paused p) (index : Nat) (v : Value) (now : Time) :
    Paused (p.requestChange index v now).2 := by
  unfold requestChange
  split
  · exact h
  · split
    · exact paused_setText (paused_prefer h _) _ now
    · exact h

theorem paused_setMode (mode : Mode) (now : Time) (p : Playback) : Paused (p.setMode mode now) := by
  cases mode <;> exact ⟨rfl, rfl⟩

theorem paused_advance (h : Paused p) : Paused p.advance.2 := by
  unfold advance
  split
  · split
    · exact ⟨h.playing_eq, h.next_eq⟩
    · exact h
  · exact h

theorem paused_stepBack (p : Playback) : Paused p.stepBack.2 := by
  simp only [stepBack]
  split <;> exact ⟨rfl, rfl⟩

theorem pollAutoplay_of_paused (h : Paused p) (now : Time) : p.pollAutoplay now = ({}, p) := by
  apply pollAutoplay_of_idle
  rintro ⟨playing, -⟩
  rw [h.playing_eq] at playing
  cases playing

theorem paused_poll (h : Paused p) (now : Time) : Paused (p.poll now).2 := by
  have polled : Paused (p.pollValidation now).2 := ⟨h.playing_eq, h.next_eq⟩
  change Paused ((p.pollValidation now).2.pollAutoplay now).2
  rw [pollAutoplay_of_paused polled]
  exact polled

theorem paused_act (h : Paused p) (silent : action.plays = false) : Paused (p.act action) := by
  cases action with
  | setText text now => exact paused_setText h text now
  | requestChange index v now => exact paused_requestChange h index v now
  | setMode mode now => exact paused_setMode mode now p
  | toggleMode now => exact paused_setMode p.mode.other now p
  | stepForward => exact paused_advance (paused_pause p)
  | stepBack => exact paused_stepBack p
  | reset => exact ⟨rfl, rfl⟩
  | pause => exact paused_pause p
  | cancelTimers => exact ⟨rfl, rfl⟩
  | poll now => exact paused_poll h now
  | prefer name => exact paused_prefer h name
  | cycle forward =>
    rw [act, cycle]
    split
    · exact h
    · exact paused_prefer h _
  | play now => cases silent
  | togglePlay now => cases silent

theorem paused_of_halts (halts : action.halts = true) : Paused (p.act action) := by
  cases action with
  | stepForward => exact paused_advance (paused_pause p)
  | stepBack => exact paused_stepBack p
  | reset => exact ⟨rfl, rfl⟩
  | cancelTimers => exact ⟨rfl, rfl⟩
  | setMode mode now => exact paused_setMode mode now p
  | _ => cases halts

theorem unarmed_of_calm (calm : Calm p action) : p.arming? action = none := by
  obtain ⟨source, switches, -⟩ := calm
  cases action with
  | setText text now => exact if_neg fun changed => changed.2 source
  | requestChange index v now => exact if_neg fun changed => changed.2 source
  | setMode mode now => cases switches
  | toggleMode now => cases switches
  | _ => rfl

theorem poll_of_paused (h : Paused p) (idle : p.validation.deadline = none) (now : Time) :
    p.poll now = ({}, p) := by
  rw [poll_eq idle, pollAutoplay_of_paused h]

theorem still_of_paused (h : Paused p) (idle : p.validation.deadline = none) : Still p := by
  intro later calm now
  induction later generalizing p with
  | nil => exact poll_of_paused h idle now
  | cons action more ih =>
    obtain ⟨here, rest⟩ := calm
    exact ih (paused_act h here.2.2) (deadline_of_unarmed idle (unarmed_of_calm here)) rest

/-- A pending collection is due in the end. -/
theorem idle_of_still (still : Still p) : p.validation.deadline = none := by
  cases pending : p.validation.deadline with
  | none => rfl
  | some deadline =>
    have collects : p.collects deadline = true := collects_iff.mpr ⟨_, pending, Nat.le_refl _⟩
    have polled := congrArg Prod.snd (still [] trivial deadline)
    have dropped := validation_poll deadline p
    rw [if_pos collects] at dropped
    change (p.poll deadline).2 = p at polled
    rw [polled] at dropped
    rw [dropped] at pending
    cases pending

theorem deadline_of_halts (halts : action.halts = true) :
    (p.act action).validation.deadline = none ↔
      p.disarms action = true ∨ p.validation.deadline = none := by
  have unarmed : p.arming? action = none := by
    cases action with
    | setMode mode now => cases mode with
      | live => cases halts
      | step => rfl
    | setText text now => cases halts
    | requestChange index v now => cases halts
    | toggleMode now => cases halts
    | _ => rfl
  rw [validation_act, unarmed]
  cases disarms : p.disarms action <;> simp [Debounce.cancel]

/-- Behind an action that stops playing, nothing is left for polls to do, unless it leaves a
collection pending: live, a change of the source made before is still reported. -/
theorem still_iff_of_halts (source : Text) (settings : Settings) (actions : List Action)
    (action : Action) (halts : action.halts = true) :
    let p := (ofSource source settings).after actions
    Still (p.act action) ↔
      p.disarms action = true ∨ p.mode = .step ∨ p.validation.isPending = false := by
  intro p
  have quiet : Quiet p := quiet_after (quiet_of_live rfl) actions
  have pending : p.validation.isPending = false ↔ p.validation.deadline = none := by
    simp [Debounce.isPending]
  rw [pending]
  constructor
  · intro still
    exact ((deadline_of_halts halts).mp (idle_of_still still)).imp_right .inr
  · intro reasons
    apply still_of_paused (paused_of_halts halts)
    apply (deadline_of_halts halts).mpr
    rcases reasons with disarms | mode | idle
    · exact .inl disarms
    · exact .inr (quiet mode)
    · exact .inr idle

theorem still_after_stepForward :
    let p := (ofSource "int a[2] = {1, 2, 3};".toList {}).after
      [.setText "int a[2] = {1, 2, 3};\na[5] = 7;".toList 0, .toggleMode 10, .play 20]
    Action.stepForward.halts = true ∧ p.playing = true ∧
      (p.act .stepForward).cursor = 1 ∧
      ((p.act .stepForward).poll 5000).1 = {} := by
  intro p
  have halts : Action.stepForward.halts = true := rfl
  have playing : p.playing = true := by decide +kernel
  have cursor : (p.act .stepForward).cursor = 1 := by decide +kernel
  have mode : p.mode = .step := by decide +kernel
  have still := (still_iff_of_halts _ {} _ .stepForward halts).mpr (.inr (.inl mode))
  exact ⟨halts, playing, cursor, congrArg Prod.fst (still [] trivial 5000)⟩

/-- Live, a collection that is pending outlasts a step in either direction and a way back to the
start, and is reported when it is due. -/
theorem not_still_of_halts :
    let p := (ofSource [] {}).after [.setText "int a[2] = {1, 2, 3};".toList 0]
    (∀ action ∈ [Action.stepForward, .stepBack, .reset],
      ((p.act action).poll 400).1.diagnostics = [⟨.tooManyValues ['a'] 2 3, ⟨1, 1⟩⟩]) ∧
    ¬ ∀ (source : Text) (settings : Settings) (actions : List Action) (action : Action),
      action.halts = true → Still (((ofSource source settings).after actions).act action) := by
  intro p
  have reports : ∀ action ∈ [Action.stepForward, .stepBack, .reset],
      ((p.act action).poll 400).1.diagnostics = [⟨.tooManyValues ['a'] 2 3, ⟨1, 1⟩⟩] := by
    decide +kernel
  refine ⟨reports, fun all => ?_⟩
  have still := all [] {} [.setText "int a[2] = {1, 2, 3};".toList 0] .reset rfl
  have silent : ((p.act .reset).poll 400).1 = {} := congrArg Prod.fst (still [] trivial 400)
  have report := reports .reset (by simp)
  rw [silent] at report
  cases report

end ArrayReplay.Playback
