import ArrayReplay.Playing.NoticeBoard
import ArrayReplay.Proofs.Replay.Wording
import Mathlib.Data.List.Induction

/-! What is left out as a repetition. The board keeps one time for each wording and forgets those that
are out of the window; beside it stands a record that forgets nothing and compares severities, lines
and messages. As long as time does not run backwards the two let the same diagnostics pass. -/
namespace ArrayReplay

/-- A diagnostic that was added, and when; and the times when notices were expired since then. -/
structure Posting where
  diagnostic : Diagnostic
  time : Time
  expirations : List Time := []
deriving DecidableEq

/-- Everything added since the board was last cleared, oldest first. -/
abbrev Record := List Posting

namespace NoticeBoard

inductive Call where
  | publish (diagnostics : List Diagnostic) (now : Time)
  | expire (now : Time)
  | clear
deriving DecidableEq

def Call.time? : Call → Option Time
  | .publish _ now => some now
  | .expire now => some now
  | .clear => none

def Call.expires : Call → Bool
  | .expire _ => true
  | _ => false

def Chronological (calls : List Call) : Prop :=
  (calls.filterMap Call.time?).Pairwise (· ≤ ·)

instance (calls : List Call) : Decidable (Chronological calls) :=
  inferInstanceAs (Decidable (List.Pairwise _ _))

def call (b : NoticeBoard) : Call → NoticeBoard
  | .publish diagnostics now => (b.publish now diagnostics).2
  | .expire now => b.expire now
  | .clear => b.clear

def after (window lifetime : Time) (calls : List Call) : NoticeBoard :=
  calls.foldl call { window, lifetime }

end NoticeBoard

namespace Record
open NoticeBoard

/-- A diagnostic that looks the same was added less than the window ago. -/
def Recalls (window now : Time) (d : Diagnostic) (r : Record) : Prop :=
  ∃ x ∈ r, x.diagnostic.Alike d ∧ now - x.time < window

instance (window now : Time) (d : Diagnostic) (r : Record) : Decidable (Recalls window now d r) :=
  inferInstanceAs (Decidable (∃ x ∈ r, _))

/-- Those of the diagnostics of one publication that are to be added: the ones that are not recalled,
also not from earlier in the same publication. -/
def admitted (window now : Time) : List Diagnostic → Record → List Diagnostic
  | [], _ => []
  | d :: more, r =>
    if Recalls window now d r then admitted window now more r
    else d :: admitted window now more (r ++ [⟨d, now, []⟩])

def call (window : Time) (r : Record) : Call → Record
  | .publish diagnostics now =>
    r ++ (admitted window now diagnostics r).map fun d => ⟨d, now, []⟩
  | .expire now => r.map fun x => { x with expirations := x.expirations ++ [now] }
  | .clear => []

def after (window : Time) (calls : List Call) : Record := calls.foldl (call window) []

end Record

namespace Posting

def notice (x : Posting) : Notice :=
  ⟨x.diagnostic.severity, x.diagnostic.location.line, x.diagnostic.message, x.time⟩

def addition (x : Posting) : Diagnostic × Time := (x.diagnostic, x.time)

end Posting

namespace Record
open NoticeBoard

variable {window now : Time} {r s : Record}

theorem recalls_iff {d : Diagnostic} : Recalls window now d r ↔
    ∃ y ∈ r.map Posting.addition, y.1.Alike d ∧ now - y.2 < window := by
  simp [Recalls, Posting.addition]

theorem admitted_congr (same : r.map Posting.addition = s.map Posting.addition)
    (ds : List Diagnostic) : admitted window now ds r = admitted window now ds s := by
  induction ds generalizing r s with
  | nil => rfl
  | cons d more ih =>
    have recalled : Recalls window now d r ↔ Recalls window now d s := by
      rw [recalls_iff, recalls_iff, same]
    have next := @ih (r ++ [⟨d, now, []⟩]) (s ++ [⟨d, now, []⟩]) (by simp [same])
    simp only [admitted, recalled, ih same, next]

theorem addition_expire (window now : Time) (r : Record) :
    (r.call window (.expire now)).map Posting.addition = r.map Posting.addition := by
  simp [call, Function.comp_def, Posting.addition]

theorem addition_call (same : r.map Posting.addition = s.map Posting.addition) (c : Call) :
    (r.call window c).map Posting.addition = (s.call window c).map Posting.addition := by
  cases c with
  | publish ds now => simp only [call, List.map_append, same, admitted_congr same]
  | expire now => rw [addition_expire, addition_expire, same]
  | clear => rfl

theorem addition_after (window : Time) (calls : List Call) :
    (after window calls).map Posting.addition =
      (after window (calls.filter (!·.expires))).map Posting.addition := by
  induction calls using List.reverseRecOn with
  | nil => rfl
  | append_singleton calls c ih =>
    have step := @addition_call window _ _ ih c
    cases c with
    | publish ds now => simpa [after, Call.expires] using step
    | expire now =>
      rw [addition_expire] at step
      simpa [after, Call.expires, addition_expire] using ih
    | clear => simpa [after, Call.expires] using step

end Record

namespace NoticeBoard
open Record

/-- From `now` on the board takes for recent what the record recalls. -/
structure Remembers (b : NoticeBoard) (r : Record) (now : Time) : Prop where
  distinct : (b.posted.map Prod.fst).Nodup
  early : ∀ x ∈ r, x.time ≤ now
  recent : ∀ later, now ≤ later → ∀ d,
    b.isRecent later d.text = true ↔ Recalls b.window later d r

variable {b : NoticeBoard} {r : Record} {now time : Time} {d : Diagnostic}

theorem Remembers.later (h : Remembers b r now) (passed : now ≤ time) : Remembers b r time where
  distinct := h.distinct
  early x member := Nat.le_trans (h.early x member) passed
  recent later behind := h.recent later (Nat.le_trans passed behind)

theorem remembers_nil (none : b.posted = []) (now : Time) : Remembers b [] now where
  distinct := by simp [none]
  early := by simp
  recent := by simp [isRecent, none, Recalls]

theorem isRecent_add_self : (b.add now d).isRecent time d.text = decide (time - now < b.window) := by
  unfold isRecent add
  rw [List.find?_cons, beq_self_eq_true]

theorem isRecent_add_of_ne {text : String} (other : text ≠ d.text) :
    (b.add now d).isRecent time text = b.isRecent time text := by
  have kept : (b.posted.filter fun e => e.1 != d.text).find? (fun e => e.1 == text) =
      b.posted.find? (fun e => e.1 == text) := by
    rw [List.find?_filter]
    congr 1
    funext e
    by_cases same : e.1 = text
    · simp [same, other]
    · simp [same]
  unfold isRecent add
  rw [List.find?_cons, beq_eq_false_iff_ne.mpr other.symm, kept]

theorem recalls_append {window : Time} {e : Diagnostic} :
    Recalls window time e (r ++ [⟨d, now, []⟩]) ↔
      Recalls window time e r ∨ d.Alike e ∧ time - now < window := by
  simp [Recalls, or_and_right, exists_or]

theorem remembers_add (h : Remembers b r now) {d : Diagnostic} :
    Remembers (b.add now d) (r ++ [⟨d, now, []⟩]) now where
  distinct := by
    have apart : d.text ∉ (b.posted.filter fun e => e.1 != d.text).map Prod.fst := by simp
    exact List.nodup_cons.mpr ⟨apart, h.distinct.sublist (List.filter_sublist.map _)⟩
  early := by
    intro x member
    rcases List.mem_append.mp member with old | new
    · exact h.early x old
    · cases List.mem_singleton.mp new
      exact Nat.le_refl now
  recent := by
    intro later behind e
    rw [recalls_append]
    by_cases alike : d.Alike e
    · rw [← Diagnostic.text_eq_iff.mpr alike, isRecent_add_self, decide_eq_true_iff]
      constructor
      · exact fun recent => .inr ⟨alike, recent⟩
      · rintro (⟨x, member, -, recent⟩ | ⟨-, recent⟩)
        · have early := h.early x member
          exact Nat.lt_of_le_of_lt (Nat.sub_le_sub_left early later) recent
        · exact recent
    · have other : e.text ≠ d.text := fun same => alike (Diagnostic.text_eq_iff.mp same.symm)
      rw [isRecent_add_of_ne other, h.recent later behind]
      simp [alike, add]

theorem remembers_post (h : Remembers b r now) (ds : List Diagnostic) :
    let added := (admitted b.window now ds r).map fun d => (⟨d, now, []⟩ : Posting)
    (post now ds b).1 = added.length ∧
      (post now ds b).2.active = b.active ++ added.map Posting.notice ∧
      Remembers (post now ds b).2 (r ++ added) now := by
  induction ds generalizing b r with
  | nil => simpa [post, admitted] using h
  | cons d more ih =>
    have same := h.recent now (Nat.le_refl now) d
    by_cases recalled : Recalls b.window now d r
    · simpa only [post, admitted, same.mpr recalled, recalled, if_true] using ih h
    · have fresh : b.isRecent now d.text = false := by simpa [recalled] using same
      obtain ⟨count, active, rest⟩ := ih (remembers_add h)
      simp only [post, admitted, recalled, fresh, Bool.false_eq_true, if_false]
      refine ⟨?_, ?_, ?_⟩
      · rw [count]
        rfl
      · rw [active]
        simp [add, Posting.notice]
      · simpa [add] using rest

theorem remembers_trim (h : Remembers b r now) : Remembers b.trim r now :=
  ⟨h.distinct, h.early, h.recent⟩

/-- What is pruned is out of the window now, and stays out of it. -/
theorem isRecent_expire (distinct : (b.posted.map Prod.fst).Nodup) (passed : now ≤ time)
    (text : String) : (b.expire now).isRecent time text = b.isRecent time text := by
  unfold isRecent expire
  generalize b.posted = posted at distinct
  induction posted with
  | nil => rfl
  | cons e more ih =>
    obtain ⟨apart, distinct⟩ := List.nodup_cons.mp distinct
    have rest := ih distinct
    by_cases kept : now - e.2 < b.window
    · rw [List.filter_cons_of_pos (by simpa using kept), List.find?_cons, List.find?_cons]
      cases e.1 == text with
      | true => rfl
      | false => exact rest
    · rw [List.filter_cons_of_neg (by simpa using kept), rest, List.find?_cons]
      by_cases same : e.1 = text
      · have gone : more.find? (fun e => e.1 == text) = none := by
          refine List.find?_eq_none.mpr fun f member => ?_
          have other : f.1 ≠ text := fun also =>
            apart (List.mem_map.mpr ⟨f, member, also.trans same.symm⟩)
          simpa using other
        have old : ¬ time - e.2 < b.window := by
          have := Nat.sub_le_sub_right passed e.2
          exact fun recent => kept (Nat.lt_of_le_of_lt this recent)
        simp only [same, beq_self_eq_true, gone, old, decide_false]
      · rw [beq_eq_false_iff_ne.mpr same]

theorem recalls_expire {window : Time} :
    Recalls window time d (r.call window (.expire now)) ↔ Recalls window time d r := by
  rw [recalls_iff, recalls_iff, addition_expire]

theorem remembers_expire (h : Remembers b r now) :
    Remembers (b.expire now) (r.call b.window (.expire now)) now where
  distinct := h.distinct.sublist (List.filter_sublist.map _)
  early := by
    intro x member
    obtain ⟨y, old, rfl⟩ := List.mem_map.mp member
    exact h.early y old
  recent := by
    intro later behind e
    rw [isRecent_expire h.distinct behind, h.recent later behind]
    exact recalls_expire.symm

theorem spans_post (now : Time) (ds : List Diagnostic) (b : NoticeBoard) :
    (post now ds b).2.window = b.window ∧ (post now ds b).2.lifetime = b.lifetime := by
  induction ds generalizing b with
  | nil => exact ⟨rfl, rfl⟩
  | cons d more ih =>
    unfold post
    split
    · exact ih b
    · exact ih (b.add now d)

theorem spans_call (b : NoticeBoard) (c : Call) :
    (b.call c).window = b.window ∧ (b.call c).lifetime = b.lifetime := by
  cases c with
  | publish ds now => exact spans_post now ds b
  | expire now => exact ⟨rfl, rfl⟩
  | clear => exact ⟨rfl, rfl⟩

variable {window lifetime : Time} {calls : List Call}

theorem spans_after : (after window lifetime calls).window = window ∧
    (after window lifetime calls).lifetime = lifetime := by
  induction calls using List.reverseRecOn with
  | nil => exact ⟨rfl, rfl⟩
  | append_singleton calls c ih =>
    have step := spans_call (after window lifetime calls) c
    rw [ih.1, ih.2] at step
    simpa [after] using step

theorem chronological_concat {c : Call} (ordered : Chronological (calls ++ [c])) :
    Chronological calls ∧ ∀ t, c.time? = some t → ∀ s ∈ calls.filterMap Call.time?, s ≤ t := by
  unfold Chronological at ordered ⊢
  rw [List.filterMap_append, List.pairwise_append] at ordered
  obtain ⟨earlier, -, last⟩ := ordered
  refine ⟨earlier, fun t time s member => last s member t ?_⟩
  simp [time]

theorem remembers_call {c : Call} (before : ∀ t, c.time? = some t → Remembers b r t)
    (passed : ∀ t, c.time? = some t → t ≤ now) :
    Remembers (b.call c) (r.call b.window c) now := by
  cases c with
  | publish ds t =>
    obtain ⟨-, -, rest⟩ := remembers_post (before t rfl) ds
    exact (remembers_trim rest).later (passed t rfl)
  | expire t => exact (remembers_expire (before t rfl)).later (passed t rfl)
  | clear => exact remembers_nil rfl now

theorem remembers_after (ordered : Chronological calls)
    (passed : ∀ t ∈ calls.filterMap Call.time?, t ≤ now) :
    Remembers (after window lifetime calls) (Record.after window calls) now := by
  -- The moment varies: before a call board and record agree from the time of that call on.
  induction calls using List.reverseRecOn generalizing now with
  | nil => exact remembers_nil rfl now
  | append_singleton calls c ih =>
    obtain ⟨earlier, last⟩ := chronological_concat ordered
    have step := @remembers_call (after window lifetime calls) (Record.after window calls) now c
      (fun t time => ih earlier (last t time)) fun t time => passed t (by simp [time])
    rw [spans_after.1] at step
    simpa [after, Record.after] using step

def Adds (b : NoticeBoard) (now : Time) (ds added : List Diagnostic) : Prop :=
  (b.publish now ds).1 = added.length ∧
    (b.post now ds).2.active =
      b.active ++ added.map fun d => ⟨d.severity, d.location.line, d.message, now⟩

theorem adds_admitted (ordered : Chronological (calls ++ [.publish ds now])) :
    (after window lifetime calls).Adds now ds (admitted window now ds (Record.after window calls)) := by
  obtain ⟨earlier, last⟩ := chronological_concat ordered
  have before := @remembers_after now window lifetime calls earlier (last now rfl)
  obtain ⟨count, active, -⟩ := remembers_post before ds
  rw [spans_after.1] at count active
  constructor
  · simpa [publish] using count
  · simpa [Function.comp_def, Posting.notice] using active

/-- The board adds those diagnostics of a publication that a record of everything added since the last
`clear` does not recall; whether and when notices were expired makes no difference to that. -/
theorem publish_coalesces (window lifetime now : Time) (calls : List Call) (ds : List Diagnostic)
    (ordered : Chronological (calls ++ [.publish ds now])) :
    let added := admitted window now ds (Record.after window calls)
    (after window lifetime calls).Adds now ds added ∧
      ∀ others, Chronological (others ++ [.publish ds now]) →
        others.filter (!·.expires) = calls.filter (!·.expires) →
        (after window lifetime others).Adds now ds added := by
  intro added
  refine ⟨adds_admitted ordered, fun others ordered' same => ?_⟩
  have additions : (Record.after window others).map Posting.addition =
      (Record.after window calls).map Posting.addition := by
    rw [addition_after window others, addition_after window calls, same]
  have passes := @adds_admitted _ window lifetime others ds ordered'
  rwa [admitted_congr additions] at passes

/-- In the third publication, line 1 was reported a moment ago and line 2 twice at once. -/
theorem publish_coalesces_repeated :
    let hint (line : Nat) : Diagnostic := ⟨.missingTerminator "a[0] = 1".toList, ⟨line, 1⟩⟩
    let calls : List Call := [.publish [hint 2] 0, .clear, .publish [hint 1] 0, .expire 1]
    let next := [hint 1, hint 2, hint 2]
    Chronological (calls ++ [.publish next 1]) ∧ (after 2 5 calls).Adds 1 next [hint 2] := by
  intro hint calls next
  have ordered : Chronological (calls ++ [.publish next 1]) := by decide
  have passes := (publish_coalesces 2 5 1 calls next ordered).1
  have added : admitted 2 1 next (Record.after 2 calls) = [hint 2] := by decide +kernel
  rw [added] at passes
  exact ⟨ordered, passes⟩

end NoticeBoard
end ArrayReplay
