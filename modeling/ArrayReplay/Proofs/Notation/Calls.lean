import ArrayReplay.Proofs.Notation.Pieces

namespace ArrayReplay

theorem Cursor.Crosses.column_le {c d : Cursor} {t : Text} (crosses : c.Crosses t d) :
    c.column ≤ d.column := by
  have passed := crosses.2
  simp only [column]
  omega

namespace Reader
open Cursor Grammar

inductive Call where
  | expect (wanted : Char)
  | eat (wanted : Char)
  | check (wanted : Char)
  | identifier
  | integer
  | literal
  | string
  | finish

namespace Call

def Yield : Call → Type
  | expect _ => Unit
  | eat _ => Bool
  | check _ => Bool
  | identifier => Text
  | integer => Int64
  | literal => Value
  | string => Text
  | finish => Unit

def reader : (call : Call) → Reader call.Yield
  | expect wanted => Reader.expect wanted
  | eat wanted => Reader.eat wanted
  | check wanted => Reader.check wanted
  | identifier => Reader.identifier
  | integer => Reader.integer
  | literal => Reader.literal
  | string => Reader.string
  | finish => Reader.finish

end Call

/-- The cursor that calls leave behind, each from where the one before it stopped. -/
def after (c : Cursor) (calls : List Call) : Cursor :=
  calls.foldl (fun c call => (call.reader c).2) c

section
variable {α β : Type} {m : Reader α} {low : Nat} {c d : Cursor} {t : Text}

/-- A reader that began at `c` goes on or stays, and reports no column before `low` or behind the place
where it stops. -/
structure Onward (low : Nat) (c : Cursor) (outcome : Except ReadError α × Cursor) : Prop where
  crosses : ∃ t, c.Crosses t outcome.2
  column : ∀ e, outcome.1 = .error e → low ≤ e.column ∧ e.column ≤ outcome.2.column

theorem onward_of_reads {a : α} (reads : Reads m c a d) (crosses : c.Crosses t d) :
    Onward low c (m c) := by
  rw [reads]
  exact ⟨⟨t, crosses⟩, nofun⟩

theorem onward_bind {f : α → Reader β} (first : Onward low c (m c))
    (next : ∀ a d t, Reads m c a d → c.Crosses t d → Onward low d (f a d)) :
    Onward low c ((m >>= f) c) := by
  obtain ⟨⟨t, crosses⟩, column⟩ := first
  cases step : m c with
  | mk result d =>
    rw [step] at crosses column
    cases result with
    | ok a =>
      rw [bind_of_ok step]
      obtain ⟨⟨u, more⟩, column⟩ := next a d t step crosses
      exact ⟨⟨t ++ u, crosses.trans more⟩, column⟩
    | error e =>
      rw [bind_of_error step]
      exact ⟨⟨t, crosses⟩, fun e' same => column e' (congrArg _ (Except.error.inj same))⟩

theorem onward_ite {n : Reader α} {p : Prop} [Decidable p] (yes : p → Onward low c (m c))
    (no : ¬ p → Onward low c (n c)) : Onward low c ((if p then m else n) c) := by
  split
  · next holds => exact yes holds
  · next fails => exact no fails

theorem onward_pure (a : α) : Onward low c ((pure a : Reader α) c) :=
  onward_of_reads (reads_pure.mpr ⟨rfl, rfl⟩) (crosses_nil.mpr rfl)

theorem onward_failAt {column : Nat} (notBefore : low ≤ column) (notBehind : column ≤ c.column)
    (cause : ReadError.Cause) : Onward low c ((failAt column cause : Reader α) c) where
  crosses := ⟨[], crosses_nil.mpr rfl⟩
  column e error := by
    cases Except.error.inj error
    exact ⟨notBefore, notBehind⟩

theorem onward_fail (notBefore : low ≤ c.column) (cause : ReadError.Cause) :
    Onward low c ((fail cause : Reader α) c) :=
  onward_failAt notBefore (Nat.le_refl _) cause

end

section
variable {low : Nat} {c d : Cursor}

theorem onward_here : Onward low c (here c) :=
  onward_of_reads (reads_here.mpr ⟨rfl, rfl⟩) (crosses_nil.mpr rfl)

theorem onward_peek : Onward low c (peek c) :=
  onward_of_reads (reads_peek.mpr ⟨rfl, rfl⟩) (crosses_nil.mpr rfl)

theorem crosses_skip (p : Char → Bool) (c : Cursor) :
    c.Crosses (c.ahead.takeWhile p) (c.skip p) :=
  ⟨List.takeWhile_append_dropWhile.symm, rfl⟩

theorem onward_run (p : Char → Bool) : Onward low c (run p c) :=
  onward_of_reads rfl (crosses_skip p c)

theorem onward_skipGaps : Onward low c (skipGaps c) := onward_of_reads rfl (crosses_skip isGap c)

theorem onward_advance : Onward low c (advance c) := by
  cases c with
  | mk passed ahead =>
    cases ahead with
    | nil => exact onward_of_reads rfl (crosses_nil.mpr rfl)
    | cons x rest => exact onward_of_reads rfl (⟨rfl, rfl⟩ : Crosses _ [x] _)

theorem onward_eatHere (w : Char) : Onward low c (eatHere w c) := by
  refine onward_bind onward_peek fun _ d _ _ _ => onward_ite (fun _ => ?_) fun _ => onward_pure false
  exact onward_bind onward_advance fun _ _ _ _ _ => onward_pure true

theorem onward_gapped {α : Type} {m : Reader α}
    (behind : ∀ e, c.column ≤ e.column → Onward c.column e (m e)) :
    Onward c.column c ((skipGaps >>= fun _ => m) c) :=
  onward_bind onward_skipGaps fun _ e _ _ crosses => behind e crosses.column_le

theorem onward_expect (w : Char) (c : Cursor) : Onward c.column c (expect w c) := by
  refine onward_gapped fun e onwards => onward_bind onward_peek fun found e' t reads _ => ?_
  obtain ⟨rfl, rfl⟩ := reads_peek.mp reads
  refine onward_ite (fun _ => ?_) fun _ => onward_fail onwards _
  exact onward_bind onward_advance fun _ _ _ _ _ => onward_pure ()

theorem onward_check (w : Char) (c : Cursor) : Onward c.column c (check w c) :=
  onward_gapped fun _ _ => onward_bind onward_peek fun _ _ _ _ _ => onward_pure _

theorem onward_eat (w : Char) (c : Cursor) : Onward c.column c (eat w c) :=
  onward_gapped fun _ _ => onward_eatHere w

theorem onward_identifier (c : Cursor) : Onward c.column c (identifier c) := by
  refine onward_gapped fun e onwards => onward_bind onward_peek fun found e' t reads _ => ?_
  obtain ⟨rfl, rfl⟩ := reads_peek.mp reads
  cases e'.ahead.head? with
  | none => exact onward_fail onwards _
  | some x => exact onward_ite (fun _ => onward_run isNamePart) fun _ => onward_fail onwards _

theorem onward_integer (c : Cursor) : Onward c.column c (integer c) := by
  refine onward_gapped fun e onwards => onward_bind onward_here fun start e' t reads _ => ?_
  obtain ⟨rfl, rfl⟩ := reads_here.mp reads
  refine onward_bind (onward_eatHere '-') fun negative m t _ first => ?_
  refine onward_bind (onward_run Char.isDigit) fun digits m' t _ second => ?_
  have behind := (first.trans second).column_le
  refine onward_ite (fun _ => onward_failAt onwards behind _) fun _ => ?_
  cases Word.ofInt? (Numeral.signedValue negative digits) with
  | none => exact onward_failAt onwards behind _
  | some n => exact onward_pure n

theorem onward_number (c : Cursor) : Onward c.column c (number c) := by
  refine onward_bind onward_here fun start c' t reads _ => ?_
  obtain ⟨rfl, rfl⟩ := reads_here.mp reads
  refine onward_bind (onward_eatHere '-') fun negative m₁ _ _ first => ?_
  refine onward_bind (onward_run Char.isDigit) fun whole m₂ _ _ second => ?_
  refine onward_bind (onward_eatHere '.') fun point m₃ _ _ third => ?_
  refine onward_ite (fun _ => onward_bind (onward_run Char.isDigit) fun fraction m₄ _ _ fourth => ?_)
    fun _ => onward_bind (onward_pure []) fun fraction m₄ _ _ fourth => ?_
  all_goals
    have behind := (first.trans (second.trans (third.trans fourth))).column_le
    refine onward_ite (fun _ => onward_failAt (Nat.le_refl _) behind _) fun _ => ?_
    refine onward_ite (fun _ => onward_pure _) fun _ => ?_
    cases Word.ofInt? (Numeral.signedValue negative whole) with
    | none => exact onward_failAt (Nat.le_refl _) behind _
    | some n => exact onward_pure _

theorem onward_character (c : Cursor) : Onward c.column c (character c) := by
  refine onward_bind onward_advance fun _ m₁ _ _ first => ?_
  refine onward_bind onward_advance fun inner m₂ _ _ second => ?_
  have onwards := (first.trans second).column_le
  cases inner with
  | none => exact onward_fail onwards _
  | some x =>
    refine onward_bind onward_advance fun close m₃ _ _ third => ?_
    have onwards := (first.trans (second.trans third)).column_le
    exact onward_ite (fun _ => onward_pure _) fun _ => onward_fail onwards _

theorem Onward.weaken {α : Type} {outcome : Except ReadError α × Cursor} {low' : Nat}
    (onward : Onward low c outcome) (less : low' ≤ low) : Onward low' c outcome where
  crosses := onward.crosses
  column e error := ⟨Nat.le_trans less (onward.column e error).1, (onward.column e error).2⟩

theorem onward_literal (c : Cursor) : Onward c.column c (literal c) := by
  refine onward_gapped fun e onwards => onward_bind onward_peek fun found e' t reads _ => ?_
  obtain ⟨rfl, rfl⟩ := reads_peek.mp reads
  cases e'.ahead.head? with
  | none => exact onward_fail onwards _
  | some x =>
    refine onward_ite (fun _ => (onward_character e').weaken onwards) fun _ => ?_
    exact onward_ite (fun _ => (onward_number e').weaken onwards) fun _ => onward_fail onwards _

theorem onward_string (c : Cursor) : Onward c.column c (Reader.string c) := by
  refine onward_bind (onward_expect '"' c) fun _ m t opens _ => ?_
  obtain ⟨gap, -, quote⟩ := passes_single.mp ((reads_expect rfl).mp opens)
  have onwards : c.column ≤ m.passed := by
    rw [quote.2, List.length_append, List.length_singleton, column]
    omega
  refine onward_bind onward_here fun start m' t reads _ => ?_
  obtain ⟨rfl, rfl⟩ := reads_here.mp reads
  refine onward_bind (onward_run (· != '"')) fun content m₁ _ _ inner => ?_
  refine onward_bind onward_advance fun close m₂ _ _ last => ?_
  have behind := (inner.trans last).column_le
  cases close with
  | none => exact onward_failAt onwards (Nat.le_of_succ_le behind) _
  | some x => exact onward_pure content

theorem onward_finish (c : Cursor) : Onward c.column c (finish c) := by
  refine onward_gapped fun e onwards => onward_bind onward_here fun e' m t reads _ => ?_
  obtain ⟨rfl, rfl⟩ := reads_here.mp reads
  refine onward_ite (fun _ => ?_) fun _ => ?_
  · have toEnd : m.Crosses m.ahead m.toEnd := ⟨(List.append_nil _).symm, rfl⟩
    exact ⟨⟨m.ahead, toEnd⟩, nofun⟩
  · exact onward_ite (fun _ => onward_pure ()) fun _ => onward_fail onwards _

theorem onward_call (call : Call) (c : Cursor) : Onward c.column c (call.reader c) := by
  cases call with
  | expect wanted => exact onward_expect wanted c
  | eat wanted => exact onward_eat wanted c
  | check wanted => exact onward_check wanted c
  | identifier => exact onward_identifier c
  | integer => exact onward_integer c
  | literal => exact onward_literal c
  | string => exact onward_string c
  | finish => exact onward_finish c

theorem crosses_after (c : Cursor) (calls : List Call) : ∃ t, c.Crosses t (after c calls) := by
  induction calls generalizing c with
  | nil => exact ⟨[], crosses_nil.mpr rfl⟩
  | cons call more ih =>
    obtain ⟨t, first⟩ := (onward_call call c).crosses
    obtain ⟨u, rest⟩ := ih (call.reader c).2
    exact ⟨t ++ u, first.trans rest⟩

end

section
variable {α : Type} {m : Reader α} {c d : Cursor} {w : Char}

def Steady (m : Reader α) : Prop := ∀ c e d, m c = (.error e, d) → d = c

theorem steady_of_total (total : ∀ c, ∃ a d, Reads m c a d) : Steady m := by
  intro c e d fails
  obtain ⟨a, d', reads⟩ := total c
  cases reads.symm.trans fails

theorem steady_fail (cause : ReadError.Cause) : Steady (fail cause : Reader α) := by
  intro c e d fails
  exact (Prod.mk.inj fails).2.symm

theorem steady_ite {n : Reader α} {p : Prop} [Decidable p] (yes : Steady m) (no : Steady n) :
    Steady (if p then m else n) := by
  split
  · exact yes
  · exact no

theorem steady_peek {f : Option Char → Reader α} (next : ∀ o, Steady (f o)) :
    Steady (peek >>= f) := fun c => next c.ahead.head? c

theorem steady_here {f : Cursor → Reader α} (next : ∀ c, Steady (f c)) : Steady (here >>= f) :=
  fun c => next c c

theorem gaps_of_steady {e : ReadError} (steady : Steady m)
    (fails : (skipGaps >>= fun _ => m) c = (.error e, d)) : d = c.skip isGap :=
  steady (c.skip isGap) e d fails

theorem exists_advance (c : Cursor) : ∃ o d, Reads advance c o d := by
  cases c with
  | mk passed ahead =>
    cases ahead with
    | nil => exact ⟨none, _, rfl⟩
    | cons x rest => exact ⟨some x, _, rfl⟩

theorem exists_advance_pure {β : Type} (b : β) (c : Cursor) :
    ∃ a d, Reads (advance >>= fun _ => pure b) c a d := by
  obtain ⟨o, d, reads⟩ := exists_advance c
  exact ⟨b, d, reads_bind.mpr ⟨o, d, reads, reads_pure.mpr ⟨rfl, rfl⟩⟩⟩

theorem gaps_of_expect {e : ReadError} (fails : expect w c = (.error e, d)) : d = c.skip isGap :=
  gaps_of_steady (steady_peek fun _ =>
    steady_ite (steady_of_total (exists_advance_pure ())) (steady_fail _)) fails

theorem gaps_of_identifier {e : ReadError} (fails : identifier c = (.error e, d)) :
    d = c.skip isGap := by
  refine gaps_of_steady (steady_peek fun found => ?_) fails
  cases found with
  | none => exact steady_fail _
  | some x => exact steady_ite (steady_of_total fun c => ⟨_, _, rfl⟩) (steady_fail _)

theorem gaps_of_finish {e : ReadError} (fails : finish c = (.error e, d)) : d = c.skip isGap :=
  gaps_of_steady (steady_here fun _ => steady_ite (steady_of_total fun c => ⟨(), c.toEnd, rfl⟩)
    (steady_ite (steady_of_total fun c => ⟨(), c, rfl⟩) (steady_fail _))) fails

theorem exists_eat (w : Char) (c : Cursor) :
    ∃ b d, Reads (eat w) c b d ∧ (b = false → d = c.skip isGap) := by
  by_cases found : (c.skip isGap).ahead.head? = some w
  · obtain ⟨rest, ahead⟩ := List.head?_eq_some_iff.mp found
    have eats : Reads (eatHere w) (c.skip isGap) true ⟨(c.skip isGap).passed + 1, rest⟩ :=
      reads_eatHere.mpr (.inl ⟨rfl, ahead, rfl⟩)
    exact ⟨true, _, reads_eat.mpr ⟨_, rfl, eats⟩, nofun⟩
  · have leaves : Reads (eatHere w) (c.skip isGap) false (c.skip isGap) :=
      reads_eatHere.mpr (.inr ⟨rfl, found, rfl⟩)
    exact ⟨false, _, reads_eat.mpr ⟨_, rfl, leaves⟩, fun _ => rfl⟩

end

section
variable {c d : Cursor}

theorem reads_identifier_iff {name : Text} : Reads identifier c name d ↔
    IsName name ∧ (c.skip isGap).Crosses name d ∧ d.Stops isNamePart := by
  rw [reads_identifier]
  refine and_congr_right fun isName => and_congr_left fun _ => passes_single_iff_skip ?_
  obtain ⟨x, rest, same, start, -⟩ := isName_iff.mp isName
  exact ⟨x, rest, same, isGap_eq_false_of_isNameStart start⟩

theorem reads_string_iff {content : Text} : Reads Reader.string c content d ↔
    '"' ∉ content ∧ (c.skip isGap).Crosses ('"' :: content ++ ['"']) d := by
  rw [reads_string]
  exact and_congr_right fun _ => passes_single_iff_skip ⟨'"', _, rfl, rfl⟩

theorem reads_literal_iff {v : Value} : Reads literal c v d ↔
    ∃ t, IsLiteral t v ∧ (c.skip isGap).Crosses t d ∧ Ends v d := by
  rw [reads_literal]
  refine exists_congr fun t => and_congr_right fun isLiteral => and_congr_left fun _ => ?_
  obtain ⟨x, rest, same, solid, -⟩ := isLiteral_solid isLiteral
  exact passes_single_iff_skip ⟨x, rest, same, solid⟩

end

/-- After any calls on a line and in front of any further one, the cursor is at a place of the line,
the call only moves it on, and an error is in a column of the line or right behind it. What only looks
and what misses its piece stop where the gaps end; what reads a piece stops right behind it. -/
theorem calls_stay_in_line (line : Text) (calls : List Call) :
    let c := after (start line) calls
    let behind := c.skip isGap
    (∀ call : Call,
      let d := (call.reader c).2
      c.passed ≤ d.passed ∧ d.passed ≤ line.length ∧ d.ahead = line.drop d.passed ∧
        ∀ e, (call.reader c).1 = .error e → 1 ≤ e.column ∧ e.column ≤ line.length + 1) ∧
    (∃ gap, Gap gap ∧ c.Crosses gap behind) ∧
    (∀ w, ∃ b, check w c = (.ok b, behind)) ∧
    (∀ w, ∃ b d, eat w c = (.ok b, d) ∧ (b = false → d = behind)) ∧
    (∀ w e d, expect w c = (.error e, d) → d = behind) ∧
    (∀ e d, identifier c = (.error e, d) → d = behind) ∧
    (∀ e d, finish c = (.error e, d) → d = behind) ∧
    (∀ name d, identifier c = (.ok name, d) ↔
      IsName name ∧ behind.Crosses name d ∧ d.Stops isNamePart) ∧
    (∀ content d, Reader.string c = (.ok content, d) ↔
      '"' ∉ content ∧ behind.Crosses ('"' :: content ++ ['"']) d) ∧
    ∀ v d, literal c = (.ok v, d) ↔ ∃ t, IsLiteral t v ∧ behind.Crosses t d ∧ Ends v d := by
  intro c behind
  refine ⟨fun call => ?_, ?_, fun w => ⟨_, rfl⟩, fun w => exists_eat w c, fun w e d => gaps_of_expect,
    fun e d => gaps_of_identifier, fun e d => gaps_of_finish, fun name d => reads_identifier_iff,
    fun content d => reads_string_iff, fun v d => reads_literal_iff⟩
  · intro d
    obtain ⟨⟨t, onwards⟩, column⟩ := onward_call call c
    obtain ⟨front, reached⟩ := crosses_after (start line) calls
    obtain ⟨whole, passed⟩ := crosses_start.mp (reached.trans onwards)
    have inside : d.passed ≤ line.length := by
      rw [passed, whole]
      exact (List.prefix_append _ _).length_le
    refine ⟨Nat.le_of_succ_le_succ onwards.column_le, inside, ?_, fun e error => ?_⟩
    · rw [whole, passed, List.drop_left]
    · obtain ⟨low, high⟩ := column e error
      exact ⟨Nat.le_trans (Nat.succ_pos _) low, Nat.le_trans high (Nat.succ_le_succ inside)⟩
  · obtain ⟨gap, blank, crosses, -⟩ := reads_skipGaps.mp (rfl : Reads skipGaps c () behind)
    exact ⟨gap, blank, crosses⟩

end Reader
end ArrayReplay
