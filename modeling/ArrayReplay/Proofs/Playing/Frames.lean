import ArrayReplay.Proofs.Playing.Runs

namespace ArrayReplay

theorem Debounce.fire_of_idle {d : Debounce} (idle : d.deadline = none) (now : Time) :
    d.fire now = (false, d) := by
  simp [fire, isDue, idle]

namespace Playback

def Action.edits : Action → Bool
  | .setText .. => true
  | .requestChange .. => true
  | _ => false

def Action.switches : Action → Bool
  | .setMode .. => true
  | .toggleMode _ => true
  | _ => false

/- What is not a matter of progress: the source, the mode and what is pending. -/
structure SameSetting (p q : Playback) : Prop where
  source_eq : q.source = p.source
  mode_eq : q.mode = p.mode
  validation_eq : q.validation = p.validation

variable {p q r : Playback}

theorem SameSetting.trans (first : SameSetting p q) (second : SameSetting q r) :
    SameSetting p r where
  source_eq := second.source_eq.trans first.source_eq
  mode_eq := second.mode_eq.trans first.mode_eq
  validation_eq := second.validation_eq.trans first.validation_eq

theorem sameSetting_pause (p : Playback) : SameSetting p p.pause := ⟨rfl, rfl, rfl⟩

theorem sameSetting_advance (p : Playback) : SameSetting p p.advance.2 := by
  unfold advance
  split
  · split <;> exact ⟨rfl, rfl, rfl⟩
  · exact ⟨rfl, rfl, rfl⟩

theorem sameSetting_stepForward (p : Playback) : SameSetting p p.stepForward.2 :=
  (sameSetting_pause p).trans (sameSetting_advance p.pause)

theorem sameSetting_stepBack (p : Playback) : SameSetting p p.stepBack.2 := by
  simp only [stepBack]
  split <;> exact ⟨rfl, rfl, rfl⟩

theorem sameSetting_play (p : Playback) (now : Time) : SameSetting p (p.play now).2 := by
  unfold play
  split <;> exact ⟨rfl, rfl, rfl⟩

theorem sameSetting_togglePlay (p : Playback) (now : Time) :
    SameSetting p (p.togglePlay now).2 := by
  unfold togglePlay
  split
  · exact sameSetting_pause p
  · exact sameSetting_play p now

theorem sameSetting_pollAutoplay (p : Playback) (now : Time) :
    SameSetting p (p.pollAutoplay now).2 := by
  unfold pollAutoplay
  split
  · dsimp only
    have ticked : SameSetting p { p with autoplay := (p.autoplay.fire now).2 } := ⟨rfl, rfl, rfl⟩
    split
    · have advanced := ticked.trans (sameSetting_advance _)
      split
      · exact advanced
      · exact advanced.trans (sameSetting_pause _)
    · exact ticked
  · exact ⟨rfl, rfl, rfl⟩

theorem sameSetting_cycle (p : Playback) (forward : Bool) : SameSetting p (p.cycle forward) := by
  unfold cycle
  split <;> exact ⟨rfl, rfl, rfl⟩

theorem setText_frame (text : Text) (now : Time) (p : Playback) :
    (p.setText text now).source = text ∧ (p.setText text now).mode = p.mode ∧
      (p.setText text now).preferred = p.preferred := by
  unfold setText
  split
  · next same => exact ⟨same.symm, rfl, rfl⟩
  · cases mode : p.mode with
    | live => exact ⟨rfl, rfl, rfl⟩
    | step => exact ⟨rfl, rfl, rfl⟩

theorem mode_requestChange (index : Nat) (v : Value) (now : Time) (p : Playback) :
    (p.requestChange index v now).2.mode = p.mode := by
  unfold requestChange
  split
  · rfl
  · split
    · exact (setText_frame _ now _).2.1
    · rfl

theorem source_setMode (mode : Mode) (now : Time) (p : Playback) :
    (p.setMode mode now).source = p.source := by
  cases mode <;> rfl

theorem source_act {action : Action} (spares : action.edits = false) :
    (p.act action).source = p.source := by
  cases action with
  | setText text now => cases spares
  | requestChange index v now => cases spares
  | setMode mode now => exact source_setMode mode now p
  | toggleMode now => exact source_setMode p.mode.other now p
  | stepForward => exact (sameSetting_stepForward p).source_eq
  | stepBack => exact (sameSetting_stepBack p).source_eq
  | reset => rfl
  | play now => exact (sameSetting_play p now).source_eq
  | pause => rfl
  | togglePlay now => exact (sameSetting_togglePlay p now).source_eq
  | cancelTimers => rfl
  | poll now => exact (sameSetting_pollAutoplay _ now).source_eq
  | prefer name => rfl
  | cycle forward => exact (sameSetting_cycle p forward).source_eq

theorem mode_act {action : Action} (spares : action.switches = false) :
    (p.act action).mode = p.mode := by
  cases action with
  | setText text now => exact (setText_frame text now p).2.1
  | requestChange index v now => exact mode_requestChange index v now p
  | setMode mode now => cases spares
  | toggleMode now => cases spares
  | stepForward => exact (sameSetting_stepForward p).mode_eq
  | stepBack => exact (sameSetting_stepBack p).mode_eq
  | reset => rfl
  | play now => exact (sameSetting_play p now).mode_eq
  | pause => rfl
  | togglePlay now => exact (sameSetting_togglePlay p now).mode_eq
  | cancelTimers => rfl
  | poll now => exact (sameSetting_pollAutoplay _ now).mode_eq
  | prefer name => rfl
  | cycle forward => exact (sameSetting_cycle p forward).mode_eq

/-- Diagnostics are collected later only where the whole program is shown. -/
def Quiet (p : Playback) : Prop := p.mode = .step → p.validation.deadline = none

theorem Quiet.of_sameSetting (h : Quiet p) (same : SameSetting p q) : Quiet q := by
  intro stepping
  rw [same.validation_eq]
  exact h (same.mode_eq.symm.trans stepping)

theorem quiet_of_live (live : p.mode = .live) : Quiet p := by
  intro stepping
  cases live.symm.trans stepping

theorem quiet_setText (h : Quiet p) (text : Text) (now : Time) : Quiet (p.setText text now) := by
  unfold setText
  split
  · exact h
  · cases mode : p.mode with
    | live => exact quiet_of_live rfl
    | step => exact fun _ => h mode

theorem quiet_requestChange (h : Quiet p) (index : Nat) (v : Value) (now : Time) :
    Quiet (p.requestChange index v now).2 := by
  unfold requestChange
  split
  · exact h
  · split
    · apply quiet_setText
      exact h
    · exact h

theorem quiet_setMode (mode : Mode) (now : Time) (p : Playback) : Quiet (p.setMode mode now) := by
  cases mode with
  | live => exact quiet_of_live rfl
  | step => exact fun _ => rfl

theorem quiet_pollValidation (h : Quiet p) (now : Time) : Quiet (p.pollValidation now).2 := by
  intro stepping
  have idle := h stepping
  rw [pollValidation, Debounce.fire_of_idle idle]
  exact idle

theorem quiet_act (h : Quiet p) (action : Action) : Quiet (p.act action) := by
  cases action with
  | setText text now => exact quiet_setText h text now
  | requestChange index v now => exact quiet_requestChange h index v now
  | setMode mode now => exact quiet_setMode mode now p
  | toggleMode now => exact quiet_setMode p.mode.other now p
  | stepForward => exact h.of_sameSetting (sameSetting_stepForward p)
  | stepBack => exact h.of_sameSetting (sameSetting_stepBack p)
  | reset => exact h
  | play now => exact h.of_sameSetting (sameSetting_play p now)
  | pause => exact h
  | togglePlay now => exact h.of_sameSetting (sameSetting_togglePlay p now)
  | cancelTimers => exact fun _ => rfl
  | poll now =>
    apply (quiet_pollValidation h now).of_sameSetting
    exact sameSetting_pollAutoplay _ now
  | prefer name => exact h
  | cycle forward => exact h.of_sameSetting (sameSetting_cycle p forward)

theorem quiet_after (h : Quiet p) (actions : List Action) : Quiet (p.after actions) := by
  induction actions generalizing p with
  | nil => exact h
  | cons action more ih => exact ih (quiet_act h action)

end Playback
end ArrayReplay
