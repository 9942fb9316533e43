import ArrayReplay.Proofs.Session.Agreement

namespace ArrayReplay

/-- The bar is one of the array on display, or the first where no array or an empty one is shown. -/
def Playback.HasBar (p : Playback) (bar : Nat) : Prop :=
  match p.current? with
  | some (_, a) => bar < a.length ∨ bar = 0 ∧ a.length = 0
  | none => bar = 0

theorem Playback.hasBar_iff_of_none {p : Playback} (empty : p.current? = none) (bar : Nat) :
    p.HasBar bar ↔ bar = 0 := by
  rw [HasBar, empty]

namespace Session

def Selected (s : Session) : Prop := s.playback.HasBar s.bar

def Commands (s : Session) : Event → Prop
  | .press _ p => s.helpShown = false ∧ p.ctrl = true
  | .tick _ => False

variable {s : Session}

theorem selected_clampBar (s : Session) : Selected s.clampBar := by
  change s.playback.HasBar s.clampBar.bar
  unfold Playback.HasBar clampBar
  cases s.playback.current? with
  | none => exact Nat.min_zero _
  | some e =>
    change min s.bar (e.2.length - 1) < e.2.length ∨ min s.bar (e.2.length - 1) = 0 ∧ e.2.length = 0
    omega

theorem selected_helpKey (h : Selected s) (p : KeyPress) : Selected (s.helpKey p) := by
  obtain ⟨-, playback, -, -, bar, -⟩ := helpKey_frame p s
  rw [Selected, bar, playback]
  exact h

/-- A press goes to the help, or is a command, or ends with the bar clamped. -/
theorem press_cases (now : Time) (p : KeyPress) (s : Session) :
    (s.helpShown = true ∧ s.press now p = s.helpKey p) ∨
      (s.helpShown = false ∧ p.ctrl = true ∧ (s.press now p).bar = s.bar ∧
        (s.press now p).helpShown = false) ∨
      (p.ctrl = false ∧ Selected (s.press now p)) := by
  cases shown : s.helpShown with
  | true => exact .inl ⟨rfl, by rw [press, shown, if_pos rfl]⟩
  | false =>
    right
    cases ctrl : p.ctrl with
    | false =>
      refine .inr ⟨rfl, ?_⟩
      simp only [press, shown, ctrl, Bool.false_eq_true, if_false]
      exact selected_clampBar _
    | true =>
      refine .inl ⟨rfl, rfl, ?_⟩
      simp only [press, shown, ctrl, Bool.false_eq_true, if_false, if_true]
      split
      · next c _ =>
        obtain ⟨-, bar, help⟩ := command_frame c.toLower now s
        exact ⟨bar, help.trans shown⟩
      · exact ⟨rfl, shown⟩

def Settled (s : Session) : Prop := s.helpShown = true → Selected s

theorem settled_handle (h : Settled s) (event : Event) : Settled (s.handle event) := by
  cases event with
  | tick now => exact fun _ => selected_clampBar _
  | press now p =>
    change Settled (s.press now p)
    rcases press_cases now p s with ⟨shown, same⟩ | ⟨-, -, -, closed⟩ | ⟨-, selected⟩
    · rw [same]
      exact fun _ => selected_helpKey (h shown) p
    · intro shown
      rw [closed] at shown
      cases shown
    · exact fun _ => selected

theorem settled_after (h : Settled s) (events : List Event) : Settled (s.after events) := by
  induction events generalizing s with
  | nil => exact h
  | cons event more ih => exact ih (settled_handle h event)

theorem selected_handle_iff (h : Settled s) (event : Event) :
    Selected (s.handle event) ↔
      (s.Commands event → (s.handle event).playback.HasBar s.bar) := by
  cases event with
  | tick now => exact iff_of_true (selected_clampBar _) fun commands => commands.elim
  | press now p =>
    change Selected (s.press now p) ↔
      (s.helpShown = false ∧ p.ctrl = true → (s.press now p).playback.HasBar s.bar)
    rcases press_cases now p s with ⟨shown, same⟩ | ⟨closed, ctrl, bar, -⟩ | ⟨bare, selected⟩
    · rw [same, shown]
      exact iff_of_true (selected_helpKey (h shown) p) nofun
    · rw [Selected, bar]
      exact ⟨fun selected _ => selected, fun selected => selected ⟨closed, ctrl⟩⟩
    · rw [bare]
      exact iff_of_true selected nofun

theorem selected_toggleMode_iff (live : s.playback.mode = .live) (now : Time) :
    Selected (s.toggleMode now) ↔ s.bar = 0 := by
  apply Playback.hasBar_iff_of_none
  simp only [toggleMode, Playback.toggleMode, live]
  change Environment.empty.current? s.playback.preferred = none
  cases s.playback.preferred <;> rfl

theorem press_letter (closed : s.helpShown = false) (chart : s.focus = .chart) (now : Time)
    {c : Char} (letter : c ∉ ['[', ']', ' ', '?']) :
    s.press now ⟨.char c, false⟩ = (s.press now ⟨.char c, true⟩).clampBar := by
  simp only [List.mem_cons, List.not_mem_nil, or_false, not_or] at letter
  obtain ⟨opens, closes, space, asks⟩ := letter
  have bare : s.chartKey (.char c) now = s.command c.toLower now := by simp only [chartKey]
  simp [press, closed, chart, bare]

/-- A tick and every key leave the bar on the array on display, except a key with Ctrl: it leaves the
bar where it was, whatever is on display then. Stepping begins with nothing on display, so with Ctrl-T
every bar but the first is left behind. A bare letter in the chart pane does the same as with Ctrl and
then clamps the bar. -/
theorem selected_iff (source : Text) (mode : Mode) (settings : Settings) (now : Time)
    (events : List Event) (event : Event) :
    let s := (start source mode settings now).after events
    (Selected (s.handle event) ↔
        (s.Commands event → (s.handle event).playback.HasBar s.bar)) ∧
      (s.helpShown = false → ∀ time,
        (s.playback.mode = .live → (Selected (s.press time ⟨.char 't', true⟩) ↔ s.bar = 0)) ∧
        (s.focus = .chart → ∀ c ∉ ['[', ']', ' ', '?'],
          s.press time ⟨.char c, false⟩ = (s.press time ⟨.char c, true⟩).clampBar)) := by
  intro s
  have started : Settled (start source mode settings now) := nofun
  refine ⟨selected_handle_iff (settled_after started events) event, fun closed time =>
    ⟨fun live => ?_, fun chart c letter => press_letter closed chart time letter⟩⟩
  have toggles : s.press time ⟨.char 't', true⟩ = s.toggleMode time := by
    rw [press, closed]
    rfl
  rw [toggles]
  exact selected_toggleMode_iff live time

theorem not_selected :
    ¬ ∀ (source : Text) (mode : Mode) (settings : Settings) (now : Time) (events : List Event)
      (event : Event), Selected (((start source mode settings now).after events).handle event) := by
  intro always
  have selected := always "int a[2] = {1, 2};".toList .live {} 0
    [.press 0 ⟨.tab, false⟩, .press 1 ⟨.right, false⟩] (.press 2 ⟨.char 't', true⟩)
  have bar := (Playback.hasBar_iff_of_none (by decide +kernel) _).mp selected
  revert bar
  decide +kernel

end Session
end ArrayReplay
