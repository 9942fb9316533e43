import ArrayReplay.Proofs.Playing.Pacing

namespace ArrayReplay.Playback

/-- Actions done one after another, each of which is of the kind `P` where it is done. -/
def Throughout (P : Playback → Action → Prop) (p : Playback) : List Action → Prop
  | [] => True
  | action :: more => P p action ∧ Throughout P (p.act action) more

def arming? (p : Playback) : Action → Option Time
  | .setText text now =>
    if p.mode = .live ∧ (p.setText text now).source ≠ p.source then some now else none
  | .requestChange index v now =>
    if p.mode = .live ∧ (p.requestChange index v now).2.source ≠ p.source then some now else none
  | .setMode .live now => some now
  | .toggleMode now => if p.mode = .step then some now else none
  | _ => none

def collects (now : Time) (p : Playback) : Bool := (p.validation.fire now).1

/-- The action ends what was asked for, by a collection or without one. -/
def disarms (p : Playback) : Action → Bool
  | .cancelTimers => true
  | .setMode .step _ => true
  | .toggleMode _ => p.mode == .live
  | .poll now => p.collects now
  | _ => false

/-- The action neither asks for the diagnostics nor ends what was asked for. -/
def Spares (p : Playback) (action : Action) : Prop :=
  p.arming? action = none ∧ p.disarms action = false

/-- The last request was made at `t`, and nothing has ended it. -/
def Armed (p : Playback) (actions : List Action) (t : Time) : Prop :=
  ∃ earlier action later, actions = earlier ++ action :: later ∧
    (p.after earlier).arming? action = some t ∧ Throughout Spares ((p.after earlier).act action) later

variable {p : Playback} {action : Action} {actions : List Action} {now : Time}

theorem validation_setText (text : Text) (now : Time) (p : Playback) :
    (p.setText text now).validation =
      if p.mode = .live ∧ (p.setText text now).source ≠ p.source then p.validation.schedule now
      else p.validation := by
  rw [(setText_frame text now p).1, setText]
  by_cases same : text = p.source
  · simp only [same, if_true, ne_eq, not_true_eq_false, and_false, if_false]
  · cases mode : p.mode with
    | live =>
      simp only [same, if_false, ne_eq, not_false_eq_true, and_self, if_true]
      rfl
    | step =>
      simp only [same, if_false, reduceCtorEq, false_and]
      rfl

theorem validation_requestChange (index : Nat) (v : Value) (now : Time) (p : Playback) :
    (p.requestChange index v now).2.validation =
      if p.mode = .live ∧ (p.requestChange index v now).2.source ≠ p.source then
        p.validation.schedule now
      else p.validation := by
  unfold requestChange
  split
  · simp
  · split
    · exact validation_setText _ now { p with preferred := _ }
    · simp

theorem validation_setMode (mode : Mode) (now : Time) (p : Playback) :
    (p.setMode mode now).validation = match mode with
      | .live => p.validation.schedule now
      | .step => p.validation.cancel := by
  cases mode <;> rfl

theorem validation_poll (now : Time) (p : Playback) :
    (p.poll now).2.validation = if p.collects now then p.validation.cancel else p.validation := by
  have polled := (sameSetting_pollAutoplay (p.pollValidation now).2 now).validation_eq
  refine polled.trans ?_
  cases due : p.validation.isDue now <;> simp [collects, pollValidation, Debounce.fire, due]

theorem validation_act (p : Playback) (action : Action) :
    (p.act action).validation = match p.arming? action with
      | some t => p.validation.schedule t
      | none => if p.disarms action then p.validation.cancel else p.validation := by
  cases action with
  | setText text now =>
    rw [act, validation_setText, arming?]
    split <;> rfl
  | requestChange index v now =>
    rw [act, validation_requestChange, arming?]
    split <;> rfl
  | setMode mode now =>
    rw [act, validation_setMode]
    cases mode <;> rfl
  | toggleMode now =>
    rw [act, toggleMode, validation_setMode, arming?, disarms]
    cases mode : p.mode <;> rfl
  | poll now => exact validation_poll now p
  | stepForward => exact (sameSetting_stepForward p).validation_eq
  | stepBack => exact (sameSetting_stepBack p).validation_eq
  | play now => exact (sameSetting_play p now).validation_eq
  | togglePlay now => exact (sameSetting_togglePlay p now).validation_eq
  | cycle forward => exact (sameSetting_cycle p forward).validation_eq
  | cancelTimers => rfl
  | reset => rfl
  | pause => rfl
  | prefer name => rfl

theorem deadline_act (p : Playback) (action : Action) (deadline : Time) :
    (p.act action).validation.deadline = some deadline ↔
      (∃ t, p.arming? action = some t ∧ deadline = t + p.validation.delay) ∨
        (p.validation.deadline = some deadline ∧ Spares p action) := by
  rw [validation_act, Spares]
  cases p.arming? action with
  | some t => simp [Debounce.schedule, @eq_comm _ deadline]
  | none => cases p.disarms action <;> simp [Debounce.cancel]

theorem delay_act (p : Playback) (action : Action) :
    (p.act action).validation.delay = p.validation.delay := by
  rw [validation_act]
  split
  · rfl
  · split <;> rfl

/-- The first action of a run is the one that counts if nothing behind it asks or ends anything. -/
theorem armed_cons (p : Playback) (action : Action) (more : List Action) (t : Time) :
    Armed p (action :: more) t ↔ Armed (p.act action) more t ∨
      (p.arming? action = some t ∧ Throughout Spares (p.act action) more) := by
  constructor
  · rintro ⟨earlier, arming, later, whole, arms, spared⟩
    cases earlier with
    | nil =>
      cases whole
      exact .inr ⟨arms, spared⟩
    | cons first earlier =>
      obtain ⟨rfl, rest⟩ := List.cons.inj whole
      exact .inl ⟨earlier, arming, later, rest, arms, spared⟩
  · rintro (⟨earlier, arming, later, rfl, arms, spared⟩ | ⟨arms, spared⟩)
    · exact ⟨action :: earlier, arming, later, rfl, arms, spared⟩
    · exact ⟨[], action, more, rfl, arms, spared⟩

/-- What is pending is what was asked for last, or was pending before and left alone. -/
theorem deadline_after (p : Playback) (actions : List Action) (deadline : Time) :
    (p.after actions).validation.deadline = some deadline ↔
      (∃ t, Armed p actions t ∧ deadline = t + p.validation.delay) ∨
        (p.validation.deadline = some deadline ∧ Throughout Spares p actions) := by
  induction actions generalizing p with
  | nil =>
    have unarmed : ∀ t, ¬ Armed p [] t := by
      rintro t ⟨earlier, action, later, whole, -⟩
      cases earlier <;> cases whole
    simp [after, Throughout, unarmed]
  | cons action more ih =>
    change ((p.act action).after more).validation.deadline = _ ↔ _
    rw [ih, delay_act, deadline_act]
    simp only [armed_cons, Throughout]
    constructor
    · rintro (⟨t, armed, same⟩ | ⟨⟨t, arms, same⟩ | ⟨pending, spared⟩, rest⟩)
      · exact .inl ⟨t, .inl armed, same⟩
      · exact .inl ⟨t, .inr ⟨arms, rest⟩, same⟩
      · exact .inr ⟨pending, spared, rest⟩
    · rintro (⟨t, armed | ⟨arms, rest⟩, same⟩ | ⟨pending, spared, rest⟩)
      · exact .inl ⟨t, armed, same⟩
      · exact .inr ⟨.inl ⟨t, arms, same⟩, rest⟩
      · exact .inr ⟨.inr ⟨pending, spared⟩, rest⟩

theorem deadline_of_unarmed (idle : p.validation.deadline = none)
    (unarmed : p.arming? action = none) : (p.act action).validation.deadline = none := by
  rw [validation_act, unarmed]
  dsimp only
  split
  · rfl
  · exact idle

theorem idle_of_unarmed (idle : p.validation.deadline = none)
    (unarmed : Throughout (fun q a => q.arming? a = none) p actions) :
    (p.after actions).validation.deadline = none := by
  induction actions generalizing p with
  | nil => exact idle
  | cons action more ih => exact ih (deadline_of_unarmed idle unarmed.1) unarmed.2

theorem collects_iff : p.collects now = true ↔
    ∃ deadline, p.validation.deadline = some deadline ∧ deadline ≤ now := by
  unfold collects Debounce.fire Debounce.isDue
  cases p.validation.deadline with
  | none => simp
  | some deadline => by_cases due : deadline ≤ now <;> simp [due]

theorem collects_eq_false (idle : p.validation.deadline = none) (now : Time) :
    p.collects now = false := by
  rw [collects, Debounce.fire_of_idle idle]

theorem diagnostics_poll_live (h : Coherent p) (live : p.mode = .live) (now : Time) :
    (p.poll now).1.diagnostics = if p.collects now then p.validate.diagnostics else [] := by
  have polled := coherent_pollValidation h now
  have unplayed : ¬ ((p.pollValidation now).2.playing = true ∧
      (p.pollValidation now).2.autoplay.isDue now = true) := by
    rintro ⟨playing, -⟩
    rw [idle_of_live polled live] at playing
    cases playing
  change (p.pollValidation now).1 ++ ((p.pollValidation now).2.pollAutoplay now).1.diagnostics = _
  rw [pollAutoplay_of_idle unplayed]
  exact List.append_nil _

/-- A poll collects diagnostics exactly where they were asked for a quiet span ago or longer, and
neither asked for again nor dropped since. They are those of the source of that moment, and they are
collected once. While stepping, a poll reports nothing but what the statement it executes gives rise
to. -/
theorem collection_due (source : Text) (settings : Settings) (actions : List Action) (now : Time) :
    let start := ofSource source settings
    let p := start.after actions
    let events := (p.poll now).1
    let q := (p.poll now).2
    p.validate = (Program.ofSource p.source).replay ∧
    (p.collects now = true ↔ ∃ t, Armed start actions t ∧ t + settings.debounce ≤ now) ∧
    (match p.mode with
      | .live => events.diagnostics = if p.collects now then p.validate.diagnostics else []
      | .step => p.collects now = false ∧ (events = {} ∨
          (events.stepped = true ∧ ∃ step, p.Executes step events.diagnostics q))) ∧
    (p.collects now = true → ∀ later, Throughout (fun r a => r.arming? a = none) q later →
      ∀ next, (q.after later).collects next = false) := by
  intro start p events q
  have coherent : Coherent p := coherent_after (coherent_ofSource source settings) actions
  refine ⟨congrArg Program.replay coherent.program_eq, ?_, ?_, ?_⟩
  · rw [collects_iff]
    have fresh : start.validation.deadline = none := rfl
    constructor
    · rintro ⟨deadline, pending, passed⟩
      rcases (deadline_after start actions deadline).mp pending with ⟨t, armed, rfl⟩ | ⟨before, -⟩
      · exact ⟨t, armed, passed⟩
      · cases fresh.symm.trans before
    · rintro ⟨t, armed, passed⟩
      exact ⟨_, (deadline_after start actions _).mpr (.inl ⟨t, armed, rfl⟩), passed⟩
  · cases mode : p.mode with
    | live => exact diagnostics_poll_live coherent mode now
    | step =>
      have h : Stepping p := stepping_after coherent mode (quiet_after (quiet_of_live rfl) actions)
      refine ⟨collects_eq_false h.idle now, ?_⟩
      exact (poll_cases h now).imp_left (congrArg Prod.fst)
  · intro collects later unarmed next
    have dropped : (p.poll now).2.validation.deadline = none := by
      rw [validation_poll, if_pos collects]
      rfl
    exact collects_eq_false (idle_of_unarmed dropped unarmed) next

end ArrayReplay.Playback
