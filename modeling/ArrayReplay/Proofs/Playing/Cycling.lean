import ArrayReplay.Proofs.Playing.Runs
import ArrayReplay.Proofs.Replay.Catalogue
import Mathlib.Data.List.Rotate

namespace ArrayReplay

namespace Environment

variable {env : Environment} {e : Text × ArrayValue} {i : Nat}

theorem exists_place {preferred : Option Text} (shown : env.current? preferred = some e) :
    ∃ i : Nat, env.arrays[i]? = some e :=
  List.mem_iff_getElem?.mp (mem_of_get? (get?_of_current? shown))

theorem current?_of_place (distinct : env.names.Nodup) (place : env.arrays[i]? = some e) :
    env.current? (some e.1) = some e :=
  current?_of_get? (get?_of_mem distinct (List.mem_of_getElem? place))

theorem getElem?_names (place : env.arrays[i]? = some e) : env.names[i]? = some e.1 := by
  rw [names, List.getElem?_map, place, Option.map_some]

theorem idxOf_names (distinct : env.names.Nodup) (place : env.arrays[i]? = some e) :
    env.names.idxOf e.1 = i := by
  obtain ⟨inside, named⟩ := List.getElem?_eq_some_iff.mp (getElem?_names place)
  rw [← named]
  exact distinct.idxOf_getElem i inside

end Environment

namespace Playback

/-- The places by which a call moves the display, of `n` in a circle. -/
def stride (forward : Bool) (n : Nat) : Nat := if forward then 1 else n - 1

def cycles (forward : Bool) (n : Nat) (p : Playback) : Playback :=
  p.after (List.replicate n (.cycle forward))

/-- What is on display after each of so many calls. -/
def tour (forward : Bool) (n : Nat) (p : Playback) : List (Option (Text × ArrayValue)) :=
  (List.range n).map fun k => (p.cycles forward (k + 1)).current?

/-- Of `n` arrays with names of their own, that at place `i` is on display. -/
structure Shows (p : Playback) (n i : Nat) : Prop where
  distinct : p.environment.names.Nodup
  count : p.environment.arrays.length = n
  inside : i < n
  shown : p.current? = p.environment.arrays[i]?

variable {p : Playback} {forward : Bool} {n i k : Nat}

theorem stride_add_stride (inside : i < n) (forward : Bool) :
    stride forward n + stride (!forward) n = n := by
  cases forward
  · exact Nat.sub_add_cancel (Nat.one_le_of_lt inside)
  · exact Nat.add_sub_cancel' (Nat.one_le_of_lt inside)

theorem cycles_succ (forward : Bool) (n : Nat) (p : Playback) :
    p.cycles forward (n + 1) = (p.cycle forward).cycles forward n := rfl

theorem exists_cycle_eq (forward : Bool) (p : Playback) :
    ∃ name, p.cycle forward = p.prefer name := by
  unfold cycle
  split
  · exact ⟨p.preferred, rfl⟩
  · exact ⟨_, rfl⟩

theorem exists_cycles_eq (forward : Bool) (n : Nat) (p : Playback) :
    ∃ name, p.cycles forward n = p.prefer name := by
  induction n generalizing p with
  | zero => exact ⟨p.preferred, rfl⟩
  | succ n ih =>
    obtain ⟨first, once⟩ := exists_cycle_eq forward p
    obtain ⟨last, whole⟩ := ih (p.prefer first)
    exact ⟨last, by rw [cycles_succ, once, whole]; rfl⟩

theorem environment_cycle (forward : Bool) (p : Playback) :
    (p.cycle forward).environment = p.environment := by
  obtain ⟨name, once⟩ := exists_cycle_eq forward p
  rw [once]
  rfl

theorem environment_cycles (forward : Bool) (n : Nat) (p : Playback) :
    (p.cycles forward n).environment = p.environment := by
  obtain ⟨name, whole⟩ := exists_cycles_eq forward n p
  rw [whole]
  rfl

theorem cycle_of_empty (empty : p.environment.arrays = []) : p.cycle forward = p := by
  have none : p.current? = none :=
    Environment.current?_eq_none_iff.mpr (List.map_eq_nil_iff.mpr empty)
  simp only [cycle, none]

theorem nodup_names (h : Coherent p) : p.environment.names.Nodup := by
  rw [environment_eq h]
  cases p.mode <;> exact Program.nodup_names_environmentFrom List.nodup_nil

theorem exists_shows (distinct : p.environment.names.Nodup) (some : p.environment.arrays ≠ []) :
    ∃ i, p.Shows p.environment.arrays.length i := by
  have shown : p.current? ≠ none := fun none =>
    some (List.map_eq_nil_iff.mp (Environment.current?_eq_none_iff.mp none))
  obtain ⟨e, current⟩ := Option.ne_none_iff_exists'.mp shown
  obtain ⟨i, place⟩ := Environment.exists_place current
  exact ⟨i, distinct, rfl, (List.getElem?_eq_some_iff.mp place).1, current.trans place.symm⟩

theorem shows_cycle (h : p.Shows n i) (forward : Bool) :
    (p.cycle forward).Shows n ((i + stride forward n) % n) := by
  have positive := Nat.zero_lt_of_lt h.inside
  have bound : (i + stride forward n) % n < p.environment.arrays.length := by
    rw [h.count]
    exact Nat.mod_lt _ positive
  have there := List.getElem?_eq_getElem bound
  obtain ⟨e, place⟩ : ∃ e, p.environment.arrays[i]? = some e :=
    ⟨_, List.getElem?_eq_getElem (h.count ▸ h.inside)⟩
  have moved : p.cycle forward = p.prefer p.environment.names[(i + stride forward n) % n]? := by
    have current := h.shown.trans place
    have length : p.environment.names.length = n := (List.length_map _).trans h.count
    have next : (if forward then i + 1 else i + n - 1) = i + stride forward n := by
      cases forward
      · exact Nat.add_sub_assoc positive i
      · rfl
    simp only [cycle, current, Environment.idxOf_names h.distinct place, length, next]
    rfl
  constructor
  · exact (environment_cycle forward p).symm ▸ h.distinct
  · exact (environment_cycle forward p).symm ▸ h.count
  · exact Nat.mod_lt _ positive
  · rw [environment_cycle, moved, Environment.getElem?_names there, there]
    exact Environment.current?_of_place h.distinct there

theorem shows_cycles (h : p.Shows n i) (forward : Bool) (k : Nat) :
    (p.cycles forward k).Shows n ((i + k * stride forward n) % n) := by
  induction k generalizing p i with
  | zero =>
    rw [Nat.zero_mul, Nat.add_zero, Nat.mod_eq_of_lt h.inside]
    exact h
  | succ k ih =>
    have rest := ih (shows_cycle h forward)
    rw [Nat.mod_add_mod, Nat.add_assoc, Nat.add_comm (stride forward n), ← Nat.succ_mul] at rest
    exact rest

theorem current?_cycles (h : p.Shows n i) (forward : Bool) (k : Nat) :
    (p.cycles forward k).current? = p.environment.arrays[(i + k * stride forward n) % n]? := by
  rw [(shows_cycles h forward k).shown, environment_cycles]

theorem current?_cycle_cycle (distinct : p.environment.names.Nodup) (forward : Bool) :
    ((p.cycle forward).cycle (!forward)).current? = p.current? := by
  by_cases empty : p.environment.arrays = []
  · rw [cycle_of_empty empty, cycle_of_empty empty]
  · obtain ⟨i, h⟩ := exists_shows distinct empty
    have back := (shows_cycle (shows_cycle h forward) (!forward)).shown
    rw [Nat.mod_add_mod, Nat.add_assoc, stride_add_stride h.inside, Nat.add_mod_right,
      Nat.mod_eq_of_lt h.inside, environment_cycle, environment_cycle] at back
    exact back.trans h.shown.symm

theorem tour_eq (h : p.Shows n i) {order : List (Text × ArrayValue)} (length : order.length = n)
    (places : ∀ k < n,
      order[k]? = p.environment.arrays[(i + (k + 1) * stride forward n) % n]?) :
    p.tour forward n = order.map some := by
  apply List.ext_getElem?
  intro k
  rw [tour, List.getElem?_map, List.getElem?_map]
  by_cases short : k < n
  · rw [List.getElem?_range short, Option.map_some, current?_cycles h, ← places k short,
      List.getElem?_eq_getElem (length.symm ▸ short), Option.map_some]
  · rw [List.getElem?_eq_none (by rw [List.length_range]; omega),
      List.getElem?_eq_none (by omega)]
    rfl

theorem tour_forward (h : p.Shows n i) :
    p.tour true n = (p.environment.arrays.rotate (i + 1)).map some := by
  refine tour_eq h ((List.length_rotate _ _).trans h.count) fun k short => ?_
  rw [List.getElem?_rotate (h.count.symm ▸ short), h.count, stride, if_pos rfl, Nat.mul_one,
    Nat.add_left_comm, Nat.add_comm i]

theorem tour_backward (h : p.Shows n i) :
    p.tour false n = (p.environment.arrays.rotate i).reverse.map some := by
  have length := (List.length_rotate p.environment.arrays i).trans h.count
  refine tour_eq h ((List.length_reverse).trans length) fun k short => ?_
  have rounds : (k + 1) * (n - 1) = (n - 1 - k) + n * k := by
    obtain ⟨m, rfl⟩ := Nat.exists_eq_add_of_lt short
    rw [show k + m + 1 - 1 = k + m by omega, show k + m - k = m by omega, Nat.succ_mul,
      Nat.succ_mul, Nat.mul_comm k]
    omega
  rw [List.getElem?_reverse (length.symm ▸ short), length,
    List.getElem?_rotate (by rw [h.count]; omega), h.count, stride, if_neg Bool.false_ne_true,
    rounds, ← Nat.add_assoc, Nat.add_mul_mod_self_left, Nat.add_comm i]

/-- As many calls as there are arrays show every array once, in the order of declaration from the one
behind that on display, or in the opposite order from the one in front of it, and come back to where
they began. A call in the other direction takes one back. Nothing but the preferred name is touched. -/
theorem cycles_show_each (source : Text) (settings : Settings) (actions : List Action)
    (forward : Bool) :
    let p := (ofSource source settings).after actions
    let arrays := p.environment.arrays
    let round := p.tour forward arrays.length
    p.environment.names.Nodup ∧
      (arrays = [] → p.cycle forward = p) ∧
      (arrays ≠ [] → ∃ i, i < arrays.length ∧ p.current? = arrays[i]? ∧
        round = (if forward then arrays.rotate (i + 1) else (arrays.rotate i).reverse).map some ∧
        round.Perm (arrays.map some) ∧
        (p.cycles forward arrays.length).current? = p.current?) ∧
      ((p.cycle forward).cycle (!forward)).current? = p.current? ∧
      ∀ n, ∃ name, p.cycles forward n = p.prefer name := by
  intro p arrays round
  have coherent : Coherent p := coherent_after (coherent_ofSource source settings) actions
  have distinct : p.environment.names.Nodup := nodup_names coherent
  refine ⟨distinct, cycle_of_empty, fun some => ?_, current?_cycle_cycle distinct forward,
    fun n => exists_cycles_eq forward n p⟩
  obtain ⟨i, h⟩ := exists_shows distinct some
  have order : round =
      (if forward then arrays.rotate (i + 1) else (arrays.rotate i).reverse).map Option.some := by
    cases forward
    · exact tour_backward h
    · exact tour_forward h
  refine ⟨i, h.inside, h.shown, order, ?_, ?_⟩
  · rw [order]
    apply List.Perm.map
    cases forward
    · exact (List.reverse_perm _).trans (List.rotate_perm arrays i)
    · exact List.rotate_perm arrays (i + 1)
  · have back := current?_cycles h forward arrays.length
    rw [Nat.add_mul_mod_self_left, Nat.mod_eq_of_lt h.inside] at back
    exact back.trans h.shown.symm

end Playback
end ArrayReplay
