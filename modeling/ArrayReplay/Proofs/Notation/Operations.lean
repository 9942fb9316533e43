import ArrayReplay.Proofs.Notation.Written
import ArrayReplay.Proofs.Replay.Sources

namespace ArrayReplay

namespace Grammar
variable {piece rest : Text} {pieces : List Text}

theorem Spaced.tight (spaced : Spaced pieces rest) : Spaced (piece :: pieces) (piece ++ rest) :=
  .cons (List.forall_mem_nil _) spaced

theorem Spaced.wide (spaced : Spaced pieces rest) :
    Spaced (piece :: pieces) ([' '] ++ piece ++ rest) :=
  .cons (List.forall_mem_singleton.mpr (.inl rfl)) spaced

theorem spaced_flatten (pieces : List Text) : Spaced pieces pieces.flatten := by
  induction pieces with
  | nil => exact .nil
  | cons piece pieces ih => exact .tight ih

theorem spaced_assignment (name i l : Text) :
    Spaced [name, ['['], i, [']'], ['='], l] (name ++ '[' :: i ++ [']', ' ', '=', ' '] ++ l) := by
  have literal : Spaced [l] ([' '] ++ l) := by simpa using @Spaced.wide l _ _ .nil
  simp only [List.append_assoc, List.cons_append]
  exact .tight (.tight (.tight (.tight (.wide literal))))

theorem trimmed_of_start {x : Char} (start : Reader.isNameStart x = true) (rest : Text) :
    Text.Trimmed (x :: rest ++ [';']) := by
  constructor
  · intro y head
    cases head
    exact isBlank_eq_false_of_isNameStart start
  · intro y last
    rw [List.getLast?_concat] at last
    cases last
    decide

theorem sentence_of_spaced {s : Statement} {x : Char} (form : Form pieces s)
    (spaced : Spaced pieces (x :: rest)) (start : Reader.isNameStart x = true) :
    Sentence (Text.trim (x :: rest ++ [';'])) s := by
  rw [Text.trim_of_trimmed (trimmed_of_start start rest)]
  have ends : Spaced [[';']] [';'] := Spaced.tight .nil
  have whole := spaced_append.mpr ⟨x :: rest, [';'], rfl, spaced, ends⟩
  exact ⟨pieces, _, [], [], form, whole, List.forall_mem_nil _, .inl rfl, by simp⟩

theorem isPlainName_of_form {s : Statement} {name : Text} (form : Form pieces s)
    (operates : s.isOperation = true) (target : s.target? = some name) : IsPlainName name := by
  cases form with
  | declare => cases operates
  | update plain => cases target; exact plain
  | insert plain => cases target; exact plain
  | delete plain => cases target; exact plain

end Grammar

/-- What can be done to an element of an array. -/
inductive Change where
  | update (v : Value)
  | insert (v : Value)
  | delete

namespace Change
open Grammar

def statement (name : Text) (i : Int64) : Change → Statement
  | .update v => .update name i v
  | .insert v => .insert name i v
  | .delete => .delete name i

/-- What follows the name in `a[1] = 9;`, `a.insert(1, 7);` and `a.remove(0);`. -/
def call (i : Int64) : Change → Text
  | .update v => '[' :: Numeral.ofInt i.toInt ++ [']', ' ', '=', ' '] ++ v.text
  | .insert v =>
    ['.', 'i', 'n', 's', 'e', 'r', 't', '('] ++ Numeral.ofInt i.toInt ++ [',', ' '] ++ v.text ++ [')']
  | .delete => ['.', 'r', 'e', 'm', 'o', 'v', 'e', '('] ++ Numeral.ofInt i.toInt ++ [')']

def line (name : Text) (i : Int64) (c : Change) : Text := name ++ c.call i ++ [';']

def Writable : Change → Prop
  | .update v => v.Writable
  | .insert v => v.Writable
  | .delete => True

variable {name : Text} {i : Int64} {c : Change}

theorem exists_form (plain : IsPlainName name) (writable : c.Writable) :
    ∃ pieces, Form pieces (c.statement name i) ∧ Spaced pieces (name ++ c.call i) := by
  have index := Value.isInteger_ofInt i
  cases c with
  | update v =>
    refine ⟨_, .update plain index (Value.isLiteral_text writable), ?_⟩
    have spaced := spaced_assignment name (Numeral.ofInt i.toInt) v.text
    simpa only [call, List.append_assoc, List.cons_append] using spaced
  | insert v =>
    refine ⟨_, .insert plain index (Value.isLiteral_text writable), ?_⟩
    simp only [call, List.append_assoc]
    exact .tight (.tight (.tight (.tight (.tight (.tight (.wide (.tight .nil)))))))
  | delete =>
    refine ⟨_, .delete plain index (.inl rfl), ?_⟩
    simp only [call, List.append_assoc]
    exact .tight (.tight (.tight (.tight (.tight (.tight .nil)))))

/-- Behind the name comes a character that is no part of it. -/
theorem exists_call (c : Change) (i : Int64) :
    ∃ x rest, c.call i = x :: rest ∧ Reader.isNamePart x = false ∧ Reader.isGap x = false := by
  cases c with
  | update v => exact ⟨'[', _, rfl, by decide, by decide⟩
  | insert v => exact ⟨'.', _, rfl, by decide, by decide⟩
  | delete => exact ⟨'.', _, rfl, by decide, by decide⟩

end Change

namespace Statement
open Cursor Grammar Reader

theorem ofLine_of_no_sentence {line : Text} (none : ∀ s, ¬ Sentence (Text.trim line) s)
    (ends : (Text.trim line).getLast? = some ';') :
    ofLine line = .unreadable (Text.trim line) := by
  have complete : lacksTerminator (Text.trim line) = false := by simp [lacksTerminator, ends]
  unfold ofLine
  cases reads : read (Text.trim line) with
  | ok s => exact absurd (read_eq_ok_iff.mp reads) (none s)
  | error e => simp only [reads, complete, Bool.false_eq_true, if_false]

theorem not_reads_identifier {c d : Cursor} {x : Char} {name : Text}
    (head : c.ahead.head? = some x) (noPart : isNamePart x = false) (noGap : isGap x = false) :
    ¬ Reads identifier c name d := by
  intro reads
  obtain ⟨isName, passes, -⟩ := reads_identifier.mp reads
  obtain ⟨y, rest, rfl, start, -⟩ := isName_iff.mp isName
  obtain ⟨gap, blank, crosses⟩ := passes_single.mp passes
  cases gap with
  | nil =>
    obtain rfl : x = y := Option.some.inj (head.symm.trans (head_of_crosses crosses))
    rw [isNamePart_of_isNameStart start] at noPart
    cases noPart
  | cons g gap =>
    obtain rfl : x = g := Option.some.inj (head.symm.trans (head_of_crosses crosses))
    rw [gap_iff.mp blank x List.mem_cons_self] at noGap
    cases noGap

theorem reads_word {word rest : Text} {x : Char} (isName : IsName word)
    (noPart : isNamePart x = false) :
    Reads identifier (start (word ++ x :: rest)) word ⟨word.length, x :: rest⟩ := by
  have crosses : (start (word ++ x :: rest)).Crosses word ⟨word.length, x :: rest⟩ :=
    crosses_start.mpr ⟨rfl, rfl⟩
  have passes := passes_single.mpr ⟨[], List.forall_mem_nil _, crosses⟩
  refine reads_identifier.mpr ⟨isName, passes, ?_⟩
  intro y head
  cases head
  exact noPart

/-- A keyword opens a declaration, and a declaration goes on with a name. -/
theorem not_sentence_keyword {k : Kind} {x : Char} {rest : Text} (noPart : isNamePart x = false)
    (noGap : isGap x = false) (s : Statement) : ¬ Sentence (k.keyword ++ x :: rest) s := by
  intro isSentence
  obtain ⟨d, whole⟩ : ∃ d, Reads sentence (start (k.keyword ++ x :: rest)) s d :=
    ⟨_, Prod.ext (read_eq_ok_iff.mpr isSentence) rfl⟩
  simp only [sentence, body, reads_bind] at whole
  obtain ⟨t, e, ⟨word, m, reads, declares⟩, ends⟩ := whole
  have first := @reads_word _ rest x (isName_keyword k) noPart
  obtain ⟨rfl, rfl⟩ : k.keyword = word ∧ _ = m := by simpa using first.symm.trans reads
  rw [Kind.ofKeyword?_keyword] at declares
  simp only [declaration, reads_bind] at declares
  obtain ⟨name, d, reads, others⟩ := declares
  exact not_reads_identifier rfl noPart noGap reads

theorem ofLine_keyword {k : Kind} {x : Char} {rest : Text} (noPart : isNamePart x = false)
    (noGap : isGap x = false) :
    ofLine (k.keyword ++ x :: rest ++ [';']) = .unreadable (k.keyword ++ x :: rest ++ [';']) := by
  have trim : Text.trim (k.keyword ++ x :: rest ++ [';']) = k.keyword ++ x :: rest ++ [';'] := by
    obtain ⟨y, word, same, start, -⟩ := isName_iff.mp (isName_keyword k)
    rw [same]
    exact Text.trim_of_trimmed (trimmed_of_start start (word ++ x :: rest))
  have unread := @ofLine_of_no_sentence (k.keyword ++ x :: rest ++ [';'])
  rw [trim] at unread
  apply unread
  · rw [List.append_assoc]
    exact not_sentence_keyword noPart noGap
  · exact List.getLast?_concat

variable {name : Text} {i : Int64} {c : Change}

theorem ofLine_line (plain : IsPlainName name) (writable : c.Writable) :
    ofLine (c.line name i) = c.statement name i := by
  obtain ⟨pieces, form, spaced⟩ := @Change.exists_form name i c plain writable
  obtain ⟨x, rest, rfl, start, -⟩ := isName_iff.mp plain.1
  exact ofLine_of_sentence (sentence_of_spaced form spaced start)

theorem ofLine_line_keyword (k : Kind) (i : Int64) (c : Change) :
    ofLine (c.line k.keyword i) = .unreadable (c.line k.keyword i) := by
  obtain ⟨x, rest, call, noPart, noGap⟩ := c.exists_call i
  rw [Change.line, call]
  exact ofLine_keyword noPart noGap

theorem exists_declare_iff :
    (∃ line kind size values, ofLine line = .declare kind name size values) ↔ IsName name := by
  constructor
  · intro h
    obtain ⟨line, kind, size, values, declares⟩ := h
    exact isName_of_declare declares
  · intro isName
    have blank : Gap [' '] := List.forall_mem_singleton.mpr (.inl rfl)
    have form := @Form.declare .int _ _ _ _ _ _ blank isName .absent (.empty (by decide))
    have start : isNameStart 'i' = true := by decide
    have isSentence := @sentence_of_spaced _ _ _ 'i' form (spaced_flatten _) start
    exact ⟨_, .int, 0, [], ofLine_of_sentence isSentence⟩

/-- An array can be operated on unless its name is a keyword. -/
theorem exists_operation_iff :
    (∃ line, (ofLine line).isOperation = true ∧ (ofLine line).target? = some name) ↔
      IsPlainName name := by
  constructor
  · intro h
    obtain ⟨line, operates, target⟩ := h
    rcases ofLine_sound line with isSentence | leftover | leftover
    · obtain ⟨pieces, front, gap, tail, form, -⟩ := isSentence
      exact isPlainName_of_form form operates target
    · rw [leftover] at target
      cases target
    · rw [leftover] at target
      cases target
  · intro plain
    refine ⟨Change.line name 0 .delete, ?_⟩
    rw [@ofLine_line name 0 .delete plain trivial]
    exact ⟨rfl, rfl⟩

/-- The lines that change an element of an array are read as such, if the name of the array is no
keyword, and not read at all if it is one. Its declaration is read in both cases. -/
theorem ofLine_change_of_declare {line : Text} {kind : Kind} {size : Int64} {values : List Value}
    (declares : ofLine line = .declare kind name size values) (i : Int64) (writable : c.Writable) :
    ((∀ k : Kind, name ≠ k.keyword) → ofLine (c.line name i) = c.statement name i) ∧
      ∀ k : Kind, name = k.keyword → ofLine (c.line name i) = .unreadable (c.line name i) := by
  constructor
  · intro noKeyword
    exact ofLine_line ⟨isName_of_declare declares, noKeyword⟩ writable
  · intro k keyword
    subst keyword
    exact ofLine_line_keyword k i c

theorem ofLine_change_of_declare_int :
    ofLine "int a[1] = {5};".toList = .declare .int ['a'] 1 [.int 5] ∧
      ofLine "a[0] = 6;".toList = .update ['a'] 0 (.int 6) ∧
      ofLine "int int[1] = {5};".toList = .declare .int ['i', 'n', 't'] 1 [.int 5] ∧
      ofLine "int[0] = 6;".toList = .unreadable "int[0] = 6;".toList := by
  have plain : ofLine "int a[1] = {5};".toList = .declare .int ['a'] 1 [.int 5] := by
    decide +kernel
  have keyword : ofLine "int int[1] = {5};".toList =
      .declare .int ['i', 'n', 't'] 1 [.int 5] := by decide +kernel
  have noKeyword : ∀ k : Kind, ['a'] ≠ k.keyword := by
    intro k
    cases k <;> decide
  have line : (Change.update (.int 6)).line ['a'] 0 = "a[0] = 6;".toList := by decide
  have line' : (Change.update (.int 6)).line ['i', 'n', 't'] 0 = "int[0] = 6;".toList := by decide
  have reached := (@ofLine_change_of_declare _ (.update (.int 6)) _ _ _ _ plain 0 trivial).1 noKeyword
  have missed := (@ofLine_change_of_declare _ (.update (.int 6)) _ _ _ _ keyword 0 trivial).2 .int rfl
  rw [line] at reached
  rw [line'] at missed
  exact ⟨plain, reached, keyword, missed⟩

/-- Not every array that can be declared can be changed. -/
theorem not_changes_of_declare :
    ¬ ∀ (line : Text) (kind : Kind) (name : Text) (size : Int64) (values : List Value)
        (i v : Int64), ofLine line = .declare kind name size values →
      ofLine ((Change.update (.int v)).line name i) = .update name i (.int v) ∧
        ofLine ((Change.insert (.int v)).line name i) = .insert name i (.int v) ∧
        ofLine (Change.delete.line name i) = .delete name i := by
  intro all
  have declares : ofLine "int int[1] = {5};".toList =
      .declare .int ['i', 'n', 't'] 1 [.int 5] := by decide +kernel
  have line : (Change.update (.int 6)).line ['i', 'n', 't'] 0 = "int[0] = 6;".toList := by decide
  obtain ⟨update, others⟩ := all _ _ _ _ _ 0 6 declares
  rw [line] at update
  exact absurd update (by decide +kernel)

end Statement
end ArrayReplay
