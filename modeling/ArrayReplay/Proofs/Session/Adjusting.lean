import ArrayReplay.Proofs.Editing.Sites
import ArrayReplay.Proofs.Playing.Changes
import ArrayReplay.Proofs.Session.Agreement

namespace ArrayReplay

namespace Chart

@[simp] theorem kind_nudge (up : Bool) (v : Value) : (nudge up v).kind = v.kind := by
  cases v <;> rfl

theorem printable_range (code : Nat) : 0x20 ≤ printable code ∧ printable code < 0x7f := by
  unfold printable
  omega

theorem ofNat_ne_feed : ∀ code < 0x7f, 0x20 ≤ code → Char.ofNat code ≠ '\n' := by decide

theorem writable_nudge {v : Value} (number : v.kind ≠ .double) (up : Bool) :
    (nudge up v).Writable := by
  cases v with
  | int n => trivial
  | double x => exact absurd rfl number
  | char c =>
    obtain ⟨low, high⟩ := printable_range
      (if up then printable c.toNat + 1 else printable c.toNat - 1)
    exact ofNat_ne_feed _ high low

end Chart

namespace Session
open Grammar WriteBack

def arrow (up : Bool) : Key := if up then .up else .down

def arrows (presses : List (Bool × Time)) : List Event :=
  presses.map fun p => .press p.2 ⟨arrow p.1, false⟩

structure Adjustable (s : Session) : Prop where
  closed : s.helpShown = false
  chart : s.focus = .chart
  live : s.playback.mode = .live
  agreed : Agreed s

variable {s t : Session} {name : Text} {a : ArrayValue} {old v : Value}

theorem press_arrow (h : Adjustable t) (up : Bool) (now : Time) :
    t.press now ⟨arrow up, false⟩ = (t.adjust up now).clampBar := by
  cases up <;> simp [press, h.closed, h.chart, arrow, chartKey]

theorem adjust_eq (live : t.playback.mode = .live) (current : t.playback.current? = some (name, a))
    (selected : a.get? t.bar = some v) (up : Bool) (now : Time) :
    (t.adjust up now).playback =
        (t.playback.requestChange t.bar (Chart.nudge up v) now).2 ∧
      (t.adjust up now).bar = t.bar ∧ (t.adjust up now).helpShown = t.helpShown ∧
      (t.adjust up now).focus = t.focus := by
  have element : (t.playback.current?.bind fun e => e.2.get? t.bar) = some v := by
    rw [current]
    exact selected
  unfold adjust
  simp only [live, element]
  split
  · next playback changed => exact ⟨(congrArg Prod.snd changed).symm, rfl, rfl, rfl⟩
  · next playback changed => exact ⟨(congrArg Prod.snd changed).symm, rfl, rfl, rfl⟩

theorem bar_clampBar (current : t.playback.current? = some (name, a)) (inside : t.bar < a.length) :
    t.clampBar.bar = t.bar := by
  simp only [clampBar, current, Option.map_some, Option.getD_some]
  omega

/-- `t` is `s` with `v` for the selected element of the array on display, and with the source of `s` or
that source once `v` is written to it. -/
structure Adjusted (name : Text) (a : ArrayValue) (s t : Session) (v : Value) : Prop
    extends Adjustable t where
  bar_eq : t.bar = s.bar
  current : t.playback.current? = some (name, a.replace s.bar v)
  names_eq : t.playback.environment.names = s.playback.environment.names
  others : ∀ other, other ≠ name →
    t.playback.environment.get? other = s.playback.environment.get? other
  written : t.playback.source = s.playback.source ∨
    v.Writable ∧ t.playback.source = write s.playback.source name s.bar v

theorem adjusted_self (h : Adjustable s) (current : s.playback.current? = some (name, a))
    (selected : a.get? s.bar = some old) : Adjusted name a s s old := by
  obtain ⟨inside, here⟩ := List.getElem?_eq_some_iff.mp selected
  have same : a.replace s.bar old = a := by
    rw [ArrayValue.replace, ← here, List.set_getElem_self]
  exact { h with
    bar_eq := rfl
    current := by rw [same]; exact current
    names_eq := rfl
    others := fun other apart => rfl
    written := .inl rfl }

section
variable (h : Adjustable s) (current : s.playback.current? = some (name, a))
  (noKeyword : ∀ k : Kind, name ≠ k.keyword) (number : a.kind ≠ .double)
  (inside : s.bar < a.length) (held : (Text.byteSize s.playback.source : Int) ≤ Word.greatest)
include h current noKeyword inside held

theorem plain_of_current : IsPlainName name ∧ ∃ i : Int64, i.toInt = s.bar := by
  have found := Playback.found_of_current h.agreed.coherent h.live current
  have isName := Environment.get?_of_all (Program.isName_environment (List.Subset.refl _)) found
  exact ⟨⟨isName, noKeyword⟩, Playback.exists_index found inside held⟩

theorem source_of_adjusted (adjusted : Adjusted name a s t v) (writable : old.Writable) :
    write t.playback.source name s.bar old = write s.playback.source name s.bar old := by
  obtain ⟨plain, i, here⟩ := plain_of_current h current noKeyword inside held
  rcases adjusted.written with same | ⟨writable', same⟩
  · rw [same]
  · rw [same]
    exact write_write plain here writable' writable _

include number

theorem adjusted_press (adjusted : Adjusted name a s t v) (kind : v.kind = a.kind) (up : Bool)
    (now : Time) : Adjusted name a s (t.press now ⟨arrow up, false⟩) (Chart.nudge up v) := by
  have agreed := adjusted.agreed.of_effect (effect_press now ⟨arrow up, false⟩ t)
  have writable : (Chart.nudge up v).Writable := Chart.writable_nudge (kind ▸ number) up
  have kind' : (Chart.nudge up v).kind = a.kind := (Chart.kind_nudge up v).trans kind
  have uncoerced : (Chart.nudge up v).coerce (a.replace s.bar v).kind = Chart.nudge up v := by
    rw [ArrayValue.kind_replace, ← kind', Value.coerce_kind]
  have inside' : s.bar < (a.replace s.bar v).length := by rwa [ArrayValue.length_replace]
  have selected : (a.replace s.bar v).get? t.bar = some v := by
    rw [adjusted.bar_eq]
    exact List.getElem?_set_self inside
  obtain ⟨playback, bar, closed, chart⟩ := adjust_eq adjusted.live adjusted.current selected up now
  rw [adjusted.bar_eq] at playback bar
  rw [press_arrow adjusted.toAdjustable] at agreed ⊢
  obtain ⟨-, source, mode, preferred⟩ := @Playback.requestChange_present _ s.bar
    (Chart.nudge up v) now _ _ adjusted.current inside'
  rw [← playback] at source mode preferred
  rw [uncoerced, source_of_adjusted h current noKeyword inside held adjusted writable] at source
  have environment := (Playback.replay_write h.agreed.coherent h.live current inside noKeyword
    writable kind' held).1
  have live : (t.adjust up now).playback.mode = .live := mode.trans adjusted.live
  have coherent : Playback.Coherent (t.adjust up now).playback := agreed.coherent
  rw [← source, ← Playback.environment_live coherent live] at environment
  have element : (t.adjust up now).playback.environment.get? name =
      some (a.replace s.bar (Chart.nudge up v)) := by
    rw [environment, Environment.get?_replace_self, Environment.get?_of_current? current,
      Option.map_some]
  have shown : (t.adjust up now).playback.current? =
      some (name, a.replace s.bar (Chart.nudge up v)) := by
    rw [Playback.current?, preferred]
    exact Environment.current?_of_get? element
  exact {
    closed := closed.trans adjusted.closed
    chart := chart.trans adjusted.chart
    live
    agreed
    bar_eq := by
      rw [bar_clampBar shown (by simpa [bar] using inside), bar]
    current := shown
    names_eq := (congrArg Environment.names environment).trans (Environment.names_replace ..)
    others := fun other apart =>
      (congrArg (Environment.get? · other) environment).trans (Environment.get?_replace_of_ne apart)
    written := .inr ⟨writable, source⟩ }

theorem adjusted_after (adjusted : Adjusted name a s t v) (kind : v.kind = a.kind)
    (presses : List (Bool × Time)) : Adjusted name a s (t.after (arrows presses))
      (presses.foldl (fun v p => Chart.nudge p.1 v) v) := by
  induction presses generalizing t v with
  | nil => exact adjusted
  | cons p more ih =>
    exact ih (adjusted_press h current noKeyword number inside held adjusted kind p.1 p.2)
      ((Chart.kind_nudge p.1 v).trans kind)

end

/-- Raising and lowering the selected bar live moves its element by as many steps and changes nothing
else, and adds one row to the text at most, however often it is done. -/
theorem arrows_adjust (source : Text) (mode : Mode) (settings : Settings) (now : Time)
    (events : List Event) (presses : List (Bool × Time)) (name : Text) (a : ArrayValue)
    (old : Value) :
    let s := (start source mode settings now).after events
    let t := s.after (arrows presses)
    let value := presses.foldl (fun v p => Chart.nudge p.1 v) old
    s.helpShown = false → s.focus = .chart → s.playback.mode = .live →
      s.playback.current? = some (name, a) → (∀ k : Kind, name ≠ k.keyword) → a.kind ≠ .double →
      a.get? s.bar = some old → (Text.byteSize s.playback.source : Int) ≤ Word.greatest →
      t.playback.current? = some (name, ⟨a.kind, a.elements.set s.bar value⟩) ∧
        t.playback.environment.names = s.playback.environment.names ∧
        (∀ other, other ≠ name →
          t.playback.environment.get? other = s.playback.environment.get? other) ∧
        t.bar = s.bar ∧ t.buffer.text = t.playback.source ∧
        (Text.rows t.buffer.text).length ≤ (Text.rows s.buffer.text).length + 1 := by
  intro s t value closed chart live current noKeyword number selected held
  have agreed : Agreed s := agreed_after (agreed_start source mode settings now) events
  have h : Adjustable s := ⟨closed, chart, live, agreed⟩
  obtain ⟨inside, -⟩ := List.getElem?_eq_some_iff.mp selected
  have found := Playback.found_of_current agreed.coherent live current
  have kind : old.kind = a.kind := Environment.get?_of_all (Program.uniform_environment _) found
    old (List.mem_of_getElem? selected)
  have adjusted : Adjusted name a s t value := adjusted_after h current noKeyword number inside held
    (adjusted_self h current selected) kind presses
  refine ⟨adjusted.current, adjusted.names_eq, adjusted.others, adjusted.bar_eq,
    adjusted.agreed.text_eq, ?_⟩
  rw [adjusted.agreed.text_eq, agreed.text_eq]
  rcases adjusted.written with same | ⟨writable, same⟩
  · rw [same]
    exact Nat.le_succ _
  · obtain ⟨plain, i, here⟩ := plain_of_current h current noKeyword inside held
    obtain ⟨hole, stable⟩ := exists_stable plain here s.playback.source
    rw [same, stable.rows_write writable]
    exact stable.site.length_le value.text

theorem arrows_adjust_semicolon :
    let s := (start "char w[2] = \"a;\";".toList .live {} 0).after
      [.press 0 ⟨.tab, false⟩, .press 1 ⟨.right, false⟩]
    let t := s.after (arrows [(true, 2), (true, 3), (false, 4)])
    s.playback.current? = some (['w'], ⟨.char, [.char 'a', .char ';']⟩) ∧ s.bar = 1 ∧
      t.playback.current? = some (['w'], ⟨.char, [.char 'a', .char '<']⟩) ∧ t.bar = 1 := by
  intro s t
  have closed : s.helpShown = false := by decide +kernel
  have chart : s.focus = .chart := by decide +kernel
  have live : s.playback.mode = .live := by decide +kernel
  have current : s.playback.current? = some (['w'], ⟨.char, [.char 'a', .char ';']⟩) := by
    decide +kernel
  have noKeyword : ∀ k : Kind, ['w'] ≠ k.keyword := by
    intro k
    cases k <;> decide
  have bar : s.bar = 1 := by decide +kernel
  have selected : (⟨.char, [.char 'a', .char ';']⟩ : ArrayValue).get? s.bar = some (.char ';') := by
    rw [bar]
    rfl
  have adjusted := arrows_adjust "char w[2] = \"a;\";".toList .live {} 0
    [.press 0 ⟨.tab, false⟩, .press 1 ⟨.right, false⟩] [(true, 2), (true, 3), (false, 4)] ['w']
    ⟨.char, [.char 'a', .char ';']⟩ (.char ';') closed chart live current noKeyword nofun selected
    (by decide +kernel)
  obtain ⟨shown, -, -, same, -⟩ := adjusted
  have value : ([(true, 2), (true, 3), (false, 4)] : List (Bool × Time)).foldl
      (fun v p => Chart.nudge p.1 v) (.char ';') = .char '<' := by decide
  rw [value] at shown
  have here : (start "char w[2] = \"a;\";".toList .live {} 0).after
      [.press 0 ⟨.tab, false⟩, .press 1 ⟨.right, false⟩] = s := rfl
  rw [here, bar] at shown same
  exact ⟨current, bar, shown, same⟩

end Session
end ArrayReplay
