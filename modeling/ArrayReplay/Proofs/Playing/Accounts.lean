import ArrayReplay.Proofs.Playing.Runs
import Mathlib.Data.List.Basic

namespace ArrayReplay

namespace Environment

def totalBytes : List Environment → Nat
  | [] => 0
  | env :: more => env.byteSize + totalBytes more

theorem totalBytes_append (envs more : List Environment) :
    totalBytes (envs ++ more) = totalBytes envs + totalBytes more := by
  induction envs with
  | nil => exact (Nat.zero_add _).symm
  | cons env envs ih => rw [List.cons_append, totalBytes, totalBytes, ih, Nat.add_assoc]

theorem totalBytes_concat (envs : List Environment) (env : Environment) :
    totalBytes (envs ++ [env]) = totalBytes envs + env.byteSize :=
  totalBytes_append envs [env]

end Environment

namespace History
open Environment

inductive Move where
  | push (env : Environment)
  | pop
  | reset

/-- Taking back where only the start is left changes nothing. -/
def move (h : History) : Move → History
  | .push env => h.push env
  | .pop => (h.pop?.map Prod.snd).getD h
  | .reset => .start

def after (h : History) (moves : List Move) : History := moves.foldl move h

/-- Whatever is pushed on the way is taken back, and nothing else is. -/
inductive Settled : List Move → Prop where
  | nil : Settled []
  | pair {env : Environment} {inner rest : List Move} :
      Settled inner → Settled rest → Settled (.push env :: (inner ++ .pop :: rest))

variable {h older : History} {env : Environment} {moves more : List Move}

theorem after_append (h : History) (moves more : List Move) :
    h.after (moves ++ more) = (h.after moves).after more := List.foldl_append

theorem pop?_push (h : History) (env : Environment) : (h.push env).pop? = some (env, h) := by
  simp [push, pop?]

theorem move_pop_push (h : History) (env : Environment) : (h.push env).move .pop = h := by
  rw [move, pop?_push]
  rfl

theorem move_pop_of_none (bare : h.pop? = none) : h.move .pop = h := by
  rw [move, bare]
  rfl

theorem move_pop_of_some (pops : h.pop? = some (env, older)) : h.move .pop = older := by
  rw [move, pops]
  rfl

theorem pop?_eq_none_iff : h.pop? = none ↔ h.length = 1 := by
  unfold pop?
  cases later : h.later <;> simp [length, later]

theorem pop?_eq_some (pops : h.pop? = some (env, older)) :
    h.toList = older.toList ++ [env] ∧ older.bytes = h.bytes - env.byteSize := by
  unfold pop? at pops
  cases later : h.later with
  | nil =>
    rw [later] at pops
    cases pops
  | cons newest rest =>
    rw [later] at pops
    cases pops
    exact ⟨by simp [toList, later], rfl⟩

/- Nothing is left of settled moves, not even in the bytes. -/
theorem after_settled (settled : Settled moves) (h : History) : h.after moves = h := by
  induction settled generalizing h with
  | nil => rfl
  | @pair env inner rest _ _ inside behind =>
    calc h.after (.push env :: (inner ++ .pop :: rest))
        = (h.push env).after (inner ++ .pop :: rest) := rfl
      _ = (((h.push env).after inner).move .pop).after rest := after_append _ inner _
      _ = h := by rw [inside, move_pop_push, behind]

theorem settled_append (first : Settled moves) (second : Settled more) : Settled (moves ++ more) := by
  induction first with
  | nil => exact second
  | pair inside _ _ behind =>
    rw [List.cons_append, List.append_assoc, List.cons_append]
    exact .pair inside behind

/-- `env` was pushed last of those not taken back since the last reset, and `older` is the history
that it was pushed on. -/
def Newest (moves : List Move) (env : Environment) (older : History) : Prop :=
  ∃ before later, moves = before ++ .push env :: later ∧ Settled later ∧ older = start.after before

theorem pop?_of_newest (newest : Newest moves env older) :
    (start.after moves).pop? = some (env, older) := by
  obtain ⟨before, later, rfl, settled, rfl⟩ := newest
  rw [after_append]
  exact (congrArg pop? (after_settled settled _)).trans (pop?_push _ env)

/- By induction on the number of moves. A pop takes away the newest environment, and the one that it
lays open is the newest of the moves in front of that one, which are fewer. -/
theorem newest_of_pop? (pops : (start.after moves).pop? = some (env, older)) :
    Newest moves env older := by
  induction count : moves.length using Nat.strongRecOn generalizing moves env older with
  | ind n ih =>
    rcases List.eq_nil_or_concat' moves with rfl | ⟨front, last, rfl⟩
    · cases pops
    · have shorter : front.length < n := by
        rw [← count, List.length_append]
        exact Nat.lt_succ_self _
      rw [after_append] at pops
      change ((start.after front).move last).pop? = _ at pops
      cases last with
      | push newest =>
        rw [move, pop?_push] at pops
        cases pops
        exact ⟨front, [], rfl, .nil, rfl⟩
      | reset => cases pops
      | pop =>
        cases inside : (start.after front).pop? with
        | none =>
          rw [move_pop_of_none inside, inside] at pops
          cases pops
        | some top =>
          obtain ⟨newest, below⟩ := top
          rw [move_pop_of_some inside] at pops
          obtain ⟨before, later, rfl, settled, rfl⟩ := ih _ shorter inside rfl
          have fewer : before.length < n := by
            rw [List.length_append] at shorter
            omega
          obtain ⟨before', later', rfl, settled', rfl⟩ := ih _ fewer pops rfl
          refine ⟨before', later' ++ .push newest :: (later ++ [.pop]), by simp, ?_, rfl⟩
          exact settled_append settled' (.pair settled .nil)

theorem pop?_eq_some_iff : (start.after moves).pop? = some (env, older) ↔ Newest moves env older :=
  ⟨newest_of_pop?, pop?_of_newest⟩

def Counted (h : History) : Prop := h.bytes = totalBytes h.toList

theorem counted_start : Counted start := rfl

theorem bytes_of_pop? (counted : Counted h) (pops : h.pop? = some (env, older)) :
    older.bytes + env.byteSize = h.bytes ∧ Counted older := by
  obtain ⟨whole, bytes⟩ := pop?_eq_some pops
  rw [Counted, whole, totalBytes_concat] at counted
  exact ⟨by omega, by rw [Counted]; omega⟩

theorem counted_move (counted : Counted h) (m : Move) : Counted (h.move m) := by
  cases m with
  | push env =>
    rw [Counted, move, toList_push, totalBytes_concat, ← counted]
    rfl
  | pop =>
    cases pops : h.pop? with
    | none => rwa [move_pop_of_none pops]
    | some top =>
      rw [move_pop_of_some pops]
      exact (bytes_of_pop? counted pops).2
  | reset => rfl

theorem counted_after (counted : Counted h) (moves : List Move) : Counted (h.after moves) := by
  induction moves generalizing h with
  | nil => exact counted
  | cons m more ih => exact ih (counted_move counted m)

def Leads (h next : History) : Prop := ∃ moves, next = h.after moves

theorem Leads.refl (h : History) : Leads h h := ⟨[], rfl⟩

theorem leads_move (h : History) (m : Move) : Leads h (h.move m) := ⟨[m], rfl⟩

theorem Leads.trans {next last : History} (first : Leads h next) (second : Leads next last) :
    Leads h last := by
  obtain ⟨moves, rfl⟩ := first
  obtain ⟨more, rfl⟩ := second
  exact ⟨moves ++ more, (after_append h moves more).symm⟩

end History

namespace Playback
open History Environment

variable {p : Playback}

/- What each action does to the history. -/
theorem leads_setText (text : Text) (now : Time) (p : Playback) :
    Leads p.history (p.setText text now).history := by
  unfold setText
  split
  · exact .refl _
  · cases p.mode with
    | live => exact .refl _
    | step => exact leads_move _ .reset

theorem leads_requestChange (index : Nat) (v : Value) (now : Time) (p : Playback) :
    Leads p.history (p.requestChange index v now).2.history := by
  unfold requestChange
  split
  · exact .refl _
  · split
    · exact leads_setText _ now _
    · exact .refl _

theorem leads_setMode (mode : Mode) (now : Time) (p : Playback) :
    Leads p.history (p.setMode mode now).history := by
  cases mode <;> exact leads_move _ .reset

theorem leads_advance (p : Playback) : Leads p.history p.advance.2.history := by
  unfold advance
  split
  · split
    · next step _ => exact leads_move _ (.push (p.history.latest.execute step).1)
    · exact .refl _
  · exact .refl _

theorem leads_stepBack (p : Playback) : Leads p.history p.stepBack.2.history := by
  simp only [stepBack]
  split
  · exact leads_move _ .pop
  · exact .refl _

theorem history_play (now : Time) (p : Playback) : (p.play now).2.history = p.history := by
  unfold play
  split <;> rfl

theorem history_togglePlay (now : Time) (p : Playback) :
    (p.togglePlay now).2.history = p.history := by
  unfold togglePlay
  split
  · rfl
  · exact history_play now p

theorem leads_pollAutoplay (now : Time) (p : Playback) :
    Leads p.history (p.pollAutoplay now).2.history := by
  unfold pollAutoplay
  split
  · dsimp only
    split
    · have advanced := leads_advance { p with autoplay := (p.autoplay.fire now).2 }
      split <;> exact advanced
    · exact .refl _
  · exact .refl _

theorem history_cycle (forward : Bool) (p : Playback) : (p.cycle forward).history = p.history := by
  unfold cycle
  split <;> rfl

theorem leads_act (p : Playback) (action : Action) : Leads p.history (p.act action).history := by
  cases action with
  | setText text now => exact leads_setText text now p
  | requestChange index v now => exact leads_requestChange index v now p
  | setMode mode now => exact leads_setMode mode now p
  | toggleMode now => exact leads_setMode p.mode.other now p
  | stepForward => exact leads_advance p.pause
  | stepBack => exact leads_stepBack p
  | reset => exact leads_move _ .reset
  | play now => exact history_play now p ▸ .refl _
  | pause => exact .refl _
  | togglePlay now => exact history_togglePlay now p ▸ .refl _
  | cancelTimers => exact .refl _
  | poll now => exact leads_pollAutoplay now (p.pollValidation now).2
  | prefer name => exact .refl _
  | cycle forward => exact history_cycle forward p ▸ .refl _

theorem leads_after (p : Playback) (actions : List Action) :
    Leads p.history (p.after actions).history := by
  induction actions generalizing p with
  | nil => exact .refl _
  | cons action more ih => exact (leads_act p action).trans (ih (p.act action))

theorem totalBytes_trail (program : Program) (n : Nat) :
    totalBytes (program.trail n) =
      totalBytes ((List.range' 1 n).map fun k => Program.environment (program.take k)) := by
  induction n with
  | zero => rfl
  | succ n ih =>
    rw [Program.trail_succ, totalBytes_concat, ih, List.range'_concat, List.map_append,
      List.map_singleton, totalBytes_concat, Nat.one_mul, Nat.add_comm 1 n]

theorem bytes_after (source : Text) (settings : Settings) (actions : List Action) :
    let p := (ofSource source settings).after actions
    p.history.bytes =
      totalBytes ((List.range' 1 p.cursor).map fun k => Program.environment (p.program.take k)) := by
  intro p
  have h : Coherent p := coherent_after (coherent_ofSource source settings) actions
  obtain ⟨moves, led⟩ := leads_after (ofSource source settings) actions
  have counted : Counted p.history := led ▸ counted_after counted_start moves
  rw [counted, h.history_eq, totalBytes_trail]

end Playback

namespace History
open Environment

/-- Whatever is done to a new history, a pop gives the environment that was pushed last and not taken
back since the last reset, and leads to the history that it was pushed on; there is none exactly when
only the start is left. The bytes are those of all environments held, so what a pop takes off is
there; and in a playback they are those of the environments behind each step in front of the cursor. -/
theorem after_accounts (moves : List Move) (source : Text) (settings : Settings)
    (actions : List Playback.Action) :
    let h := start.after moves
    let p := (Playback.ofSource source settings).after actions
    1 ≤ h.length ∧ h.get? 0 = some .empty ∧ h.get? (h.length - 1) = some h.latest ∧
      (∀ env older, h.pop? = some (env, older) ↔ ∃ before later,
        moves = before ++ .push env :: later ∧ Settled later ∧ older = start.after before) ∧
      (h.pop? = none ↔ h.length = 1) ∧ (h.pop? = none → h.move .pop = h) ∧
      (∀ env older, h.pop? = some (env, older) →
        env = h.latest ∧ older.bytes + env.byteSize = h.bytes) ∧
      h.bytes = totalBytes h.toList ∧
      p.history.bytes =
        totalBytes ((List.range' 1 p.cursor).map fun k => Program.environment (p.program.take k)) := by
  intro h p
  have counted : Counted h := counted_after counted_start moves
  have top := h.getLast?_toList
  refine ⟨Nat.succ_pos _, rfl, ?_, fun env older => pop?_eq_some_iff, pop?_eq_none_iff,
    move_pop_of_none, fun env older pops => ⟨?_, (bytes_of_pop? counted pops).1⟩, counted,
    Playback.bytes_after source settings actions⟩
  · rw [get?, ← top, List.getLast?_eq_getElem?, length_toList]
  · rw [(pop?_eq_some pops).1, List.getLast?_concat] at top
    exact Option.some.inj top

end History
end ArrayReplay
