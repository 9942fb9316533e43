import ArrayReplay.Proofs.Playing.Coalescing

/-! What is on display. The board drops the oldest notices when it is full and those whose time is up,
each as soon as it happens. Of the record of all additions this leaves the newest ones that still stand:
time does not run backwards, so no notice outlives a newer one. -/
namespace ArrayReplay

def newest {α : Type} (n : Nat) (l : List α) : List α := l.drop (l.length - n)

section
variable {α : Type} {l front back : List α} {n : Nat}

theorem newest_suffix (n : Nat) (l : List α) : newest n l <:+ l := List.drop_suffix _ l

theorem length_newest_le : (newest n l).length ≤ n := by
  simp only [newest, List.length_drop]
  omega

theorem newest_of_length_le (small : l.length ≤ n) : newest n l = l := by
  rw [newest, Nat.sub_eq_zero_of_le small, List.drop_zero]

theorem newest_cons_of_le {x : α} (full : n ≤ l.length) : newest n (x :: l) = newest n l := by
  rw [newest, List.length_cons, Nat.succ_sub full, List.drop_succ_cons, newest]

/-- What has been dropped once does not come back. -/
theorem newest_newest_append (n : Nat) (front back : List α) :
    newest n (newest n front ++ back) = newest n (front ++ back) := by
  induction front with
  | nil => simp [newest]
  | cons x front ih =>
    by_cases small : (x :: front).length ≤ n
    · rw [newest_of_length_le small]
    · have full : n ≤ front.length := by simp at small; omega
      have full' : n ≤ (front ++ back).length := by simp; omega
      rw [newest_cons_of_le full, ih, List.cons_append, newest_cons_of_le full']

theorem all_of_head {p : α → Bool} {x : α}
    (onward : (x :: l).Pairwise fun x y => p x = true → p y = true) (holds : p x = true) :
    ∀ y ∈ x :: l, p y = true :=
  List.forall_mem_cons.mpr ⟨holds, fun _ member => List.rel_of_pairwise_cons onward member holds⟩

/-- A property that passes on to all later entries holds of the last ones. -/
theorem filter_newest {p : α → Bool} (onward : l.Pairwise fun x y => p x = true → p y = true)
    (n : Nat) : (newest n l).filter p = newest n (l.filter p) := by
  induction l with
  | nil => simp [newest]
  | cons x l ih =>
    have rest := onward.of_cons
    by_cases holds : p x = true
    · have all := all_of_head onward holds
      rw [List.filter_eq_self.mpr all]
      exact List.filter_eq_self.mpr fun y member => all y ((newest_suffix n _).subset member)
    · rw [List.filter_cons_of_neg holds, ← ih rest]
      by_cases small : (x :: l).length ≤ n
      · have small' : l.length ≤ n := Nat.le_of_succ_le small
        rw [newest_of_length_le small, newest_of_length_le small', List.filter_cons_of_neg holds]
      · rw [newest_cons_of_le (Nat.le_of_lt_succ (Nat.lt_of_not_le small))]

theorem filter_suffix {p : α → Bool} (onward : l.Pairwise fun x y => p x = true → p y = true) :
    l.filter p <:+ l := by
  induction l with
  | nil => exact List.suffix_refl []
  | cons x l ih =>
    by_cases holds : p x = true
    · exact ⟨[], List.filter_eq_self.mpr (all_of_head onward holds)⟩
    · rw [List.filter_cons_of_neg holds]
      exact (ih onward.of_cons).trans (List.suffix_cons x l)

theorem map_newest {β : Type} (f : α → β) (n : Nat) (l : List α) :
    (newest n l).map f = newest n (l.map f) := by
  simp only [newest, List.map_drop, List.length_map]

end

/-- At no expiration since it was added was the diagnostic as old as the lifetime. -/
def Posting.Stands (lifetime : Time) (x : Posting) : Prop :=
  ∀ now ∈ x.expirations, now - x.time < lifetime

instance (lifetime : Time) (x : Posting) : Decidable (x.Stands lifetime) :=
  inferInstanceAs (Decidable (∀ now ∈ x.expirations, _))

namespace Record
open NoticeBoard

/-- Of the newest additions those that stand, as they are shown. -/
def shown (lifetime : Time) (r : Record) : List Notice :=
  ((newest capacity r).filter fun x => x.Stands lifetime).map Posting.notice

/-- Whatever was added later is younger, and has seen no expiration that the earlier has not. -/
def Ageing (r : Record) : Prop :=
  r.Pairwise fun x y => x.time ≤ y.time ∧ y.expirations ⊆ x.expirations

variable {r : Record} {lifetime window now : Time} {x y : Posting} {calls : List Call}

theorem stands_of_younger (younger : x.time ≤ y.time ∧ y.expirations ⊆ x.expirations)
    (stands : x.Stands lifetime) : y.Stands lifetime := by
  intro now member
  have old := stands now (younger.2 member)
  exact Nat.lt_of_le_of_lt (Nat.sub_le_sub_left younger.1 now) old

theorem ageing_publish (h : Ageing r) (early : ∀ x ∈ r, x.time ≤ now) (ds : List Diagnostic) :
    Ageing (r ++ ds.map fun d => ⟨d, now, []⟩) := by
  refine List.pairwise_append.mpr ⟨h, ?_, ?_⟩
  · rw [List.pairwise_map]
    exact List.pairwise_of_forall fun _ _ => ⟨Nat.le_refl now, List.Subset.refl _⟩
  · intro x old y new
    obtain ⟨d, -, rfl⟩ := List.mem_map.mp new
    exact ⟨early x old, List.nil_subset _⟩

theorem ageing_expire (h : Ageing r) : Ageing (r.call window (.expire now)) := by
  refine List.pairwise_map.mpr (h.imp fun younger => ⟨younger.1, ?_⟩)
  exact List.append_subset.mpr ⟨List.subset_append_of_subset_left _ younger.2,
    List.subset_append_right _ _⟩

theorem stands_onward (h : Ageing r) : r.Pairwise fun x y =>
    decide (x.Stands lifetime) = true → decide (y.Stands lifetime) = true :=
  h.imp fun younger => by simpa using stands_of_younger younger

theorem shown_eq (h : Ageing r) : shown lifetime r =
    newest capacity ((r.filter fun x => x.Stands lifetime).map Posting.notice) := by
  rw [shown, filter_newest (stands_onward h), map_newest]

theorem shown_suffix (h : Ageing r) : shown lifetime r <:+ r.map Posting.notice := by
  rw [shown_eq h]
  exact (newest_suffix _ _).trans ((filter_suffix (stands_onward h)).map _)

theorem length_shown_le : (shown lifetime r).length ≤ capacity := by
  have := List.length_filter_le (fun x => decide (x.Stands lifetime)) (newest capacity r)
  have := @length_newest_le _ r capacity
  rw [shown, List.length_map]
  omega

theorem shown_oldest_first (h : Ageing r) :
    (shown lifetime r).Pairwise fun m n => m.raisedAt ≤ n.raisedAt := by
  have ordered : (r.map Posting.notice).Pairwise fun m n => m.raisedAt ≤ n.raisedAt :=
    List.pairwise_map.mpr (h.imp fun younger => younger.1)
  exact ordered.sublist (shown_suffix h).sublist

theorem shown_publish (h : Ageing r) (early : ∀ x ∈ r, x.time ≤ now) (ds : List Diagnostic) :
    let added : Record := ds.map fun d => ⟨d, now, []⟩
    newest capacity (shown lifetime r ++ added.map Posting.notice) = shown lifetime (r ++ added) := by
  intro added
  have standing : added.filter (fun x => x.Stands lifetime) = added := by
    refine List.filter_eq_self.mpr fun x member => ?_
    obtain ⟨d, -, rfl⟩ := List.mem_map.mp member
    simp [Posting.Stands]
  rw [shown_eq h, shown_eq (ageing_publish h early ds), newest_newest_append, List.filter_append,
    List.map_append, standing]

theorem stands_expired : Posting.Stands lifetime { x with expirations := x.expirations ++ [now] } ↔
    now - x.time < lifetime ∧ x.Stands lifetime := by
  simp [Posting.Stands, or_imp, forall_and, and_comm]

theorem shown_expire : (shown lifetime r).filter (fun n => now - n.raisedAt < lifetime) =
    shown lifetime (r.call window (.expire now)) := by
  simp only [shown, call, ← map_newest, List.filter_map, List.map_map, List.filter_filter]
  refine congrArg (List.map _) (List.filter_congr fun x _ => Bool.eq_iff_iff.mpr ?_)
  change (decide (now - x.time < lifetime) && decide (x.Stands lifetime)) = true ↔ _
  simp only [Bool.and_eq_true, Function.comp_apply, decide_eq_true_iff, stands_expired]

end Record

namespace NoticeBoard
open Record

variable {window lifetime now : Time} {b : NoticeBoard} {r : Record} {calls : List Call}

theorem active_call {c : Call} (active : b.active = shown b.lifetime r)
    (before : ∀ t, c.time? = some t → Remembers b r t) (h : Ageing r) :
    (b.call c).active = shown b.lifetime (r.call b.window c) ∧ Ageing (r.call b.window c) := by
  cases c with
  | publish ds now =>
    have remembers := before now rfl
    obtain ⟨-, posted, -⟩ := remembers_post remembers ds
    refine ⟨?_, ageing_publish h remembers.early _⟩
    calc ((b.post now ds).2.trim).active
      _ = newest capacity (b.post now ds).2.active := rfl
      _ = shown b.lifetime (r.call b.window (.publish ds now)) := by
        rw [posted, active]
        exact shown_publish h remembers.early _
  | expire now =>
    refine ⟨?_, ageing_expire h⟩
    calc (b.expire now).active
      _ = (shown b.lifetime r).filter (fun n => now - n.raisedAt < b.lifetime) := by rw [← active]; rfl
      _ = shown b.lifetime (r.call b.window (.expire now)) := shown_expire
  | clear => exact ⟨rfl, List.Pairwise.nil⟩

theorem active_after (ordered : Chronological calls) :
    (after window lifetime calls).active = shown lifetime (Record.after window calls) ∧
      Ageing (Record.after window calls) := by
  induction calls using List.reverseRecOn with
  | nil => exact ⟨rfl, List.Pairwise.nil⟩
  | append_singleton calls c ih =>
    obtain ⟨earlier, last⟩ := chronological_concat ordered
    obtain ⟨active, ageing⟩ := ih earlier
    obtain ⟨width, span⟩ := @spans_after window lifetime calls
    have step := @active_call (after window lifetime calls) (Record.after window calls) c
      (by rw [span, active]) (fun t time => remembers_after earlier (last t time)) ageing
    rw [width, span] at step
    simpa [after, Record.after] using step

/-- The board displays a record's newest additions, except those whose time was up. -/
structure Displays (b : NoticeBoard) (r : Record) : Prop where
  exact : b.active = shown b.lifetime r
  capped : b.active.length ≤ capacity
  latest : b.active <:+ r.map Posting.notice
  oldest_first : b.active.Pairwise fun m n => m.raisedAt ≤ n.raisedAt

/-- After any calls the board displays, of everything added since the last `clear`, the newest five
without those that were too old at an expiration: the end of what was added, the oldest first. -/
theorem active_newest (window lifetime : Time) (calls : List Call) (ordered : Chronological calls) :
    let b := after window lifetime calls
    let r := Record.after window calls
    b.Displays r ∧
      (∀ now, calls.getLast? = some (.expire now) → ∀ n ∈ b.active, now - n.raisedAt < lifetime) ∧
      ∀ ds now, Chronological (calls ++ [.publish ds now]) → b.Adds now ds (admitted window now ds r) := by
  intro b r
  have span : b.lifetime = lifetime := spans_after.2
  obtain ⟨active, ageing⟩ : b.active = shown b.lifetime r ∧ Ageing r := by
    rw [span]
    exact active_after ordered
  refine ⟨⟨active, ?_, ?_, ?_⟩, ?_, fun ds now due => adds_admitted due⟩
  · exact active ▸ length_shown_le
  · exact active ▸ shown_suffix ageing
  · exact active ▸ shown_oldest_first ageing
  · intro now last n member
    obtain ⟨earlier, rfl⟩ := List.getLast?_eq_some_iff.mp last
    have kept : n ∈ ((after window lifetime earlier).expire now).active := by
      simpa [b, after, call] using member
    have young := (List.mem_filter.mp kept).2
    rw [spans_after.2] at young
    exact of_decide_eq_true young

/-- Six were added, so the first made room; three of the others were too old when notices expired. -/
theorem active_newest_expired :
    let hint (line : Nat) : Diagnostic := ⟨.missingTerminator "a[0] = 1".toList, ⟨line, 1⟩⟩
    let calls : List Call :=
      [.publish [hint 9] 0, .clear, .publish [hint 1, hint 2, hint 3, hint 4] 1,
        .publish [hint 5, hint 6] 3, .expire 6]
    Chronological calls ∧ (after 2 5 calls).active.map Notice.line = [5, 6] ∧
      (after 2 5 calls).Displays (Record.after 2 calls) := by
  intro hint calls
  have ordered : Chronological calls := by decide
  exact ⟨ordered, by decide +kernel, (active_newest 2 5 calls ordered).1⟩

end NoticeBoard
end ArrayReplay
