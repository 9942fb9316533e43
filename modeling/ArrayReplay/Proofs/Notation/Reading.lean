import ArrayReplay.Notation.Reader
import ArrayReplay.Proofs.Notation.Grammar

/-! What the readers of single pieces read. `Crosses` says which text lies between two cursors, and
every reader that succeeds is characterized exactly: by the text it crosses and by where the run of
characters that it takes has to stop. -/
namespace ArrayReplay

namespace Cursor

/-- The text `t` lies between the cursors `c` and `d`. -/
def Crosses (c : Cursor) (t : Text) (d : Cursor) : Prop :=
  c.ahead = t ++ d.ahead ∧ d.passed = c.passed + t.length

def Stops (p : Char → Bool) (c : Cursor) : Prop := ∀ x, c.ahead.head? = some x → p x = false

theorem crosses_nil {c d : Cursor} : c.Crosses [] d ↔ c = d := by
  cases c
  cases d
  simp [Crosses, and_comm, eq_comm]

theorem crosses_append {c d : Cursor} {s t : Text} :
    c.Crosses (s ++ t) d ↔ ∃ e, c.Crosses s e ∧ e.Crosses t d := by
  constructor
  · rintro ⟨ahead, passed⟩
    refine ⟨⟨c.passed + s.length, t ++ d.ahead⟩, ⟨?_, rfl⟩, rfl, ?_⟩
    · rw [ahead, List.append_assoc]
    · rw [passed, List.length_append, Nat.add_assoc]
  · rintro ⟨e, ⟨ahead, passed⟩, ahead', passed'⟩
    refine ⟨?_, ?_⟩
    · rw [ahead, ahead', List.append_assoc]
    · rw [passed', passed, List.length_append, Nat.add_assoc]

theorem crosses_cons {c d : Cursor} {x : Char} {t : Text} :
    c.Crosses (x :: t) d ↔ ∃ e, c.Crosses [x] e ∧ e.Crosses t d :=
  crosses_append (s := [x])

theorem Crosses.trans {c d e : Cursor} {s t : Text} (first : c.Crosses s d)
    (second : d.Crosses t e) : c.Crosses (s ++ t) e :=
  crosses_append.mpr ⟨d, first, second⟩

theorem crosses_start {line t : Text} {d : Cursor} :
    (start line).Crosses t d ↔ line = t ++ d.ahead ∧ d.passed = t.length := by
  simp [Crosses, start]

/-- A run that stops where it does is the longest one. -/
theorem Crosses.longest {c d : Cursor} {run : Text} {p : Char → Bool} (crosses : c.Crosses run d)
    (all : ∀ x ∈ run, p x = true) (stops : d.Stops p) :
    c.ahead.takeWhile p = run ∧ c.ahead.dropWhile p = d.ahead := by
  rw [crosses.1, List.takeWhile_append_of_pos all, List.dropWhile_append_of_pos all]
  cases rest : d.ahead with
  | nil => simp
  | cons x rest =>
    have last := stops x (by rw [rest]; rfl)
    simp [last]

theorem skip_eq_iff {p : Char → Bool} {c d : Cursor} :
    c.skip p = d ↔ ∃ run, (∀ x ∈ run, p x = true) ∧ c.Crosses run d ∧ d.Stops p := by
  constructor
  · rintro rfl
    refine ⟨c.ahead.takeWhile p, fun x mem => ?_, ⟨?_, rfl⟩, fun x head => ?_⟩
    · exact List.all_eq_true.mp List.all_takeWhile x mem
    · exact List.takeWhile_append_dropWhile.symm
    · have first := List.head?_dropWhile_not p c.ahead
      rw [show (c.skip p).ahead.head? = (c.ahead.dropWhile p).head? from rfl] at head
      rwa [head] at first
  · rintro ⟨run, all, crosses, stops⟩
    have taken := crosses.longest all stops
    rw [skip, taken.1, taken.2, ← crosses.2]

end Cursor

namespace Reader
open Cursor Grammar

/-- The reader `m` takes the cursor from `c` to `d` and yields `a`. -/
def Reads {α : Type} (m : Reader α) (c : Cursor) (a : α) (d : Cursor) : Prop := m c = (.ok a, d)

section
variable {α β : Type} {c d : Cursor}

theorem reads_bind {m : Reader α} {f : α → Reader β} {b : β} :
    Reads (m >>= f) c b d ↔ ∃ a e, Reads m c a e ∧ Reads (f a) e b d := by
  unfold Reads
  constructor
  · intro h
    cases step : m c with
    | mk result e =>
      cases result with
      | ok a =>
        rw [bind_of_ok step] at h
        exact ⟨a, e, rfl, h⟩
      | error err =>
        rw [bind_of_error step] at h
        cases h
  · intro h
    obtain ⟨a, e, step, rest⟩ := h
    rw [bind_of_ok step]
    exact rest

theorem reads_pure {a b : α} : Reads (pure a) c b d ↔ a = b ∧ c = d := by
  change ((Except.ok a : Except ReadError α), c) = (.ok b, d) ↔ _
  simp

theorem not_reads_fail {cause : ReadError.Cause} {a : α} : ¬ Reads (fail cause) c a d := by
  simp [Reads, fail]

theorem not_reads_failAt {column : Nat} {cause : ReadError.Cause} {a : α} :
    ¬ Reads (failAt column cause) c a d := by
  simp [Reads, failAt]

theorem reads_here {e : Cursor} : Reads here c e d ↔ e = c ∧ d = c := by
  simp [Reads, here, eq_comm]

theorem reads_peek {o : Option Char} : Reads peek c o d ↔ o = c.ahead.head? ∧ d = c := by
  simp [Reads, peek, eq_comm]

theorem reads_advance {x : Char} : Reads advance c (some x) d ↔ c.Crosses [x] d := by
  cases d
  cases rest : c.ahead with
  | nil => simp [Reads, advance, Crosses, rest]
  | cons y more =>
    simp only [Reads, advance, Crosses, rest, Prod.mk.injEq, Except.ok.injEq, Option.some.injEq,
      Cursor.mk.injEq, List.singleton_append, List.cons.injEq, List.length_singleton]
    constructor
    · rintro ⟨rfl, rfl, rfl⟩
      exact ⟨⟨rfl, rfl⟩, rfl⟩
    · rintro ⟨⟨rfl, rfl⟩, rfl⟩
      exact ⟨rfl, rfl, rfl⟩

theorem reads_run {p : Char → Bool} {t : Text} :
    Reads (run p) c t d ↔ (∀ x ∈ t, p x = true) ∧ c.Crosses t d ∧ d.Stops p := by
  constructor
  · intro h
    have parts := Prod.mk.inj h
    cases Except.ok.inj parts.1
    obtain ⟨t, all, crosses, stops⟩ := skip_eq_iff.mp parts.2
    rw [(crosses.longest all stops).1]
    exact ⟨all, crosses, stops⟩
  · rintro ⟨all, crosses, stops⟩
    have skipped : c.skip p = d := skip_eq_iff.mpr ⟨t, all, crosses, stops⟩
    rw [Reads, run, (crosses.longest all stops).1, skipped]

theorem reads_ite {m n : Reader α} {p : Prop} [Decidable p] {a : α} :
    Reads (if p then m else n) c a d ↔ (p ∧ Reads m c a d) ∨ (¬ p ∧ Reads n c a d) := by
  split <;> simp [*]

end

section
variable {c d e : Cursor}

theorem isGap_iff {x : Char} : isGap x = true ↔ x = ' ' ∨ x = '\t' ∨ x = '\r' := by
  simp [isGap, or_assoc]

theorem gap_iff {t : Text} : Gap t ↔ ∀ x ∈ t, isGap x = true := by
  simp only [Gap, isGap_iff]

theorem gap_append {s t : Text} : Gap (s ++ t) ↔ Gap s ∧ Gap t := List.forall_mem_append

/-- The pieces lie between the cursors `c` and `d`, each behind a gap. -/
def Passes (pieces : List Text) (c d : Cursor) : Prop := ∃ t, Spaced pieces t ∧ c.Crosses t d

theorem passes_nil : Passes [] c d ↔ c = d := by
  constructor
  · rintro ⟨t, spaced, crosses⟩
    cases spaced
    exact crosses_nil.mp crosses
  · intro same
    exact ⟨[], .nil, crosses_nil.mpr same⟩

theorem passes_cons {piece : Text} {pieces : List Text} :
    Passes (piece :: pieces) c d ↔
      ∃ gap e, Gap gap ∧ c.Crosses (gap ++ piece) e ∧ Passes pieces e d := by
  constructor
  · rintro ⟨t, spaced, crosses⟩
    cases spaced with
    | cons gap more =>
      obtain ⟨e, first, rest⟩ := crosses_append.mp crosses
      exact ⟨_, e, gap, first, _, more, rest⟩
  · rintro ⟨gap, e, isGap, first, t, more, rest⟩
    exact ⟨_, .cons isGap more, first.trans rest⟩

theorem passes_append {ps qs : List Text} :
    Passes (ps ++ qs) c d ↔ ∃ e, Passes ps c e ∧ Passes qs e d := by
  induction ps generalizing c with
  | nil => simp [passes_nil]
  | cons piece ps ih =>
    simp only [List.cons_append, passes_cons, ih]
    constructor
    · rintro ⟨gap, e, isGap, first, m, rest, last⟩
      exact ⟨m, ⟨gap, e, isGap, first, rest⟩, last⟩
    · rintro ⟨m, ⟨gap, e, isGap, first, rest⟩, last⟩
      exact ⟨gap, e, isGap, first, m, rest, last⟩

theorem passes_of_gap {gap piece : Text} {pieces : List Text} (isGap : Gap gap)
    (crosses : c.Crosses gap e) (passes : Passes (piece :: pieces) e d) :
    Passes (piece :: pieces) c d := by
  obtain ⟨more, m, isGap', first, rest⟩ := passes_cons.mp passes
  refine passes_cons.mpr ⟨gap ++ more, m, gap_append.mpr ⟨isGap, isGap'⟩, ?_, rest⟩
  rw [List.append_assoc]
  exact crosses.trans first

theorem head_of_crosses {x : Char} {t : Text} (crosses : c.Crosses (x :: t) d) :
    c.ahead.head? = some x := by
  rw [crosses.1]
  rfl

/-- In front of a piece, a run stops that takes neither gaps nor the first character of the piece. -/
theorem stops_of_passes {p : Char → Bool} {x : Char} {piece : Text} {pieces : List Text}
    (passes : Passes ((x :: piece) :: pieces) c d) (solid : p x = false)
    (gaps : ∀ y, isGap y = true → p y = false) : c.Stops p := by
  obtain ⟨gap, e, blank, crosses, -⟩ := passes_cons.mp passes
  intro y head
  cases gap with
  | nil =>
    rw [head_of_crosses crosses] at head
    cases head
    exact solid
  | cons z gap =>
    rw [head_of_crosses crosses] at head
    cases head
    exact gaps y (gap_iff.mp blank y (by simp))

theorem reads_skipGaps {u : Unit} :
    Reads skipGaps c u d ↔ ∃ gap, Gap gap ∧ c.Crosses gap d ∧ d.Stops isGap := by
  simp only [gap_iff, ← skip_eq_iff]
  simp [Reads, skipGaps]

theorem reads_skipGaps_of_passes {x : Char} {piece : Text} {pieces : List Text}
    (passes : Passes ((x :: piece) :: pieces) c d) (solid : isGap x = false) :
    ∃ e, Reads skipGaps c () e ∧ e.Stops isGap ∧ ∃ m, e.Crosses (x :: piece) m ∧
      Passes pieces m d := by
  obtain ⟨gap, m, blank, crosses, rest⟩ := passes_cons.mp passes
  obtain ⟨e, first, second⟩ := crosses_append.mp crosses
  have stops : e.Stops isGap := by
    intro y head
    rw [head_of_crosses second] at head
    cases head
    exact solid
  exact ⟨e, reads_skipGaps.mpr ⟨gap, blank, first, stops⟩, stops, m, second, rest⟩

end

end Reader
end ArrayReplay
