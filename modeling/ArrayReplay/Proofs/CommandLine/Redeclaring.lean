import ArrayReplay.CommandLine.Report
import ArrayReplay.Proofs.Editing.Amendment
import ArrayReplay.Proofs.Replay.Separation

namespace ArrayReplay
open Grammar

def Value.isFinite : Value → Bool
  | .double (.finite ..) => true
  | _ => false

/-- An array of integers, or of doubles that are all finite. -/
def ArrayValue.isNumeric (a : ArrayValue) : Bool :=
  match a.kind with
  | .int => true
  | .double => a.elements.all Value.isFinite
  | .char => false

namespace ArrayValue

variable {a : ArrayValue}

theorem ofValues_self (uniform : a.Uniform) : ofValues a.kind a.elements = a := by
  have kept : ∀ v ∈ a.elements, v.coerce a.kind = id v := by
    intro v member
    rw [← uniform v member, Value.coerce_kind]
    rfl
  rw [ofValues, List.map_congr_left kept, List.map_id]

theorem writable_of_isNumeric (uniform : a.Uniform) (numeric : a.isNumeric = true) :
    a.kind ≠ .char ∧ ∀ v ∈ a.elements, v.Writable := by
  unfold isNumeric at numeric
  cases kind : a.kind with
  | char =>
    rw [kind] at numeric
    cases numeric
  | int =>
    refine ⟨by decide, fun v member => ?_⟩
    have integer := (uniform v member).trans kind
    cases v with
    | int n => trivial
    | double x => cases integer
    | char c => cases integer
  | double =>
    simp only [kind] at numeric
    refine ⟨by decide, fun v member => ?_⟩
    have finite := List.all_eq_true.mp numeric v member
    unfold Value.isFinite at finite
    split at finite
    · trivial
    · cases finite

end ArrayValue

namespace Environment

variable {env : Environment} {name : Text}

theorem put_of_new {arrays : List (Text × ArrayValue)} (new : name ∉ arrays.map Prod.fst)
    (a : ArrayValue) : put name a arrays = arrays ++ [(name, a)] := by
  induction arrays with
  | nil => rfl
  | cons e more ih =>
    rw [List.map_cons, List.mem_cons, not_or] at new
    rw [put, if_neg (Ne.symm new.1), ih new.2]
    rfl

theorem declare_of_new (new : name ∉ env.names) (a : ArrayValue) :
    env.declare name a = ⟨env.arrays ++ [(name, a)]⟩ := congrArg mk (put_of_new new a)

end Environment

namespace Report
open Program

def isListPart (c : Char) : Bool :=
  c.isDigit || ['-', '.', ',', ' ', '\x7b', '\x7d'].contains c

/-- The line begins with the keyword of a kind of numbers, and its list is written in digits. -/
def listsNumbers (line : Text) : Bool :=
  ((Kind.int.keyword ++ [' ']).isPrefixOf line || (Kind.double.keyword ++ [' ']).isPrefixOf line) &&
    (line.dropWhile (· != '\x7b')).all isListPart

def declarationLine (e : Text × ArrayValue) : Text := arrayLine e.1 e.2 ++ [';']

structure Declarable (name : Text) (a : ArrayValue) : Prop where
  isName : IsName name
  isList : a.kind ≠ .char
  uniform : a.Uniform
  writable : ∀ v ∈ a.elements, v.Writable
  fits : (a.length : Int) ≤ Word.greatest

def pieces : List Value → List Text
  | [] => []
  | [v] => [v.text]
  | v :: next :: more => v.text :: [','] :: pieces (next :: more)

variable {name t gap : Text} {a : ArrayValue} {ps : List Text} {v : Value} {more : List Value}

theorem items_pieces (writable : ∀ w ∈ v :: more, w.Writable) :
    Items (pieces (v :: more)) (v :: more) := by
  induction more generalizing v with
  | nil => exact .last (Value.isLiteral_text (writable v List.mem_cons_self))
  | cons next more ih =>
    obtain ⟨now, later⟩ := List.forall_mem_cons.mp writable
    exact .more (Value.isLiteral_text now) (ih later)

theorem spaced_elements (isGap : Gap gap) (spaced : Spaced ps t) :
    Spaced (pieces (v :: more) ++ ps) (gap ++ elements (v :: more) ++ t) := by
  induction more generalizing v gap with
  | nil => exact .cons isGap spaced
  | cons next more ih =>
    have blank : Gap [' '] := List.forall_mem_singleton.mpr (.inl rfl)
    have comma : Spaced ([','] :: (pieces (next :: more) ++ ps)) _ := .tight (ih blank)
    have rest : Spaced (v.text :: _) _ := .cons isGap comma
    simpa [pieces, elements] using rest

theorem exists_initializer {kind : Kind} {vs : List Value} (isList : kind ≠ .char)
    (writable : ∀ v ∈ vs, v.Writable) : ∃ ps, Initializer kind ps vs ∧
      Spaced ps (' ' :: '\x7b' :: elements vs ++ ['\x7d']) := by
  have ends : Spaced [['\x7d']] ['\x7d'] := Spaced.tight .nil
  cases vs with
  | nil => exact ⟨_, .empty isList, .wide ends⟩
  | cons v more =>
    refine ⟨_, .items isList (items_pieces writable), ?_⟩
    have list := @spaced_elements _ [] _ v more (List.forall_mem_nil _) ends
    exact .wide list

theorem exists_form (declarable : Declarable name a) : ∃ ps i, Int64.toInt i = a.length ∧
    Form ps (.declare a.kind name i a.elements) ∧ Spaced ps (arrayLine name a) := by
  obtain ⟨i, here⟩ := Word.exists_toInt_eq declarable.fits
  obtain ⟨valuePieces, isInitializer, spaced⟩ :=
    exists_initializer declarable.isList declarable.writable
  have blank : Gap [' '] := List.forall_mem_singleton.mpr (.inl rfl)
  have isSize := IsSize.present (WriteBack.isInteger_ofNat a.length here)
  refine ⟨_, i, here, .declare blank declarable.isName isSize isInitializer, ?_⟩
  have size : Spaced _ (a.kind.keyword ++ [' '] ++ (name ++ (['['] ++ (Numeral.ofNat a.length ++
      ([']'] ++ ([' '] ++ ['='] ++ (' ' :: '\x7b' :: elements a.elements ++ ['\x7d']))))))) :=
    .tight (.tight (.tight (.tight (.tight (.wide spaced)))))
  simpa [arrayLine] using size

theorem sentence_declarationLine (declarable : Declarable name a) :
    ∃ i, Int64.toInt i = a.length ∧
      Sentence (Text.trim (declarationLine (name, a))) (.declare a.kind name i a.elements) := by
  obtain ⟨ps, i, here, form, spaced⟩ := exists_form declarable
  obtain ⟨x, word, keyword, start, -⟩ := Reader.isName_iff.mp (Statement.isName_keyword a.kind)
  refine ⟨i, here, ?_⟩
  have line : ∃ rest, arrayLine name a = x :: rest := by
    rw [arrayLine, keyword]
    exact ⟨_, rfl⟩
  obtain ⟨rest, line⟩ := line
  rw [line] at spaced
  rw [declarationLine, line]
  exact sentence_of_spaced form spaced start

theorem apply_declaration {env : Environment} {i : Int64} (uniform : a.Uniform)
    (here : i.toInt = a.length) (new : name ∉ env.names) :
    env.apply (.declare a.kind name i a.elements) = (⟨env.arrays ++ [(name, a)]⟩, none) := by
  have sized : i.toInt.toNat = a.elements.length := by
    rw [here]
    rfl
  rw [Environment.apply, Environment.declaration, if_neg (by omega)]
  simp only [sized, or_true, if_true]
  rw [ArrayValue.ofValues_self uniform, Environment.declare_of_new new]

theorem replayFrom_declarations {env : Environment} {entries : List (Text × ArrayValue)} (n : Nat)
    (declarable : ∀ e ∈ entries, Declarable e.1 e.2)
    (distinct : (env.names ++ entries.map Prod.fst).Nodup) :
    replayFrom env (ofLines n (entries.map declarationLine)) = ⟨⟨env.arrays ++ entries⟩, []⟩ := by
  induction entries generalizing env n with
  | nil => simp [ofLines, replayFrom]
  | cons e more ih =>
    obtain ⟨now, later⟩ := List.forall_mem_cons.mp declarable
    obtain ⟨i, here, isSentence⟩ := sentence_declarationLine now
    have new : e.1 ∉ env.names := by
      intro old
      exact (List.nodup_append.mp distinct).2.2 _ old _ List.mem_cons_self rfl
    have applied := apply_declaration now.uniform here new
    have rest := @ih ⟨env.arrays ++ [e]⟩ (n + 1) later (by simpa [Environment.names] using distinct)
    simp only [List.map_cons, ofLines, step?_of_sentence n isSentence, Option.toList_some,
      List.singleton_append, replayFrom, Environment.execute, applied, rest, Option.map_none,
      Option.toList_none, List.nil_append, List.append_assoc]

theorem mem_elements {c : Char} {vs : List Value} (member : c ∈ elements vs) :
    c = ',' ∨ c = ' ' ∨ ∃ v ∈ vs, c ∈ v.text := by
  fun_induction elements vs with
  | case1 => cases member
  | case2 v => exact .inr (.inr ⟨v, List.mem_cons_self, member⟩)
  | case3 v next more ih =>
    simp only [List.mem_append, List.mem_cons] at member
    rcases member with here | rfl | rfl | later
    · exact .inr (.inr ⟨v, List.mem_cons_self, here⟩)
    · exact .inl rfl
    · exact .inr (.inl rfl)
    · rcases ih later with comma | blank | ⟨w, among, inside⟩
      · exact .inl comma
      · exact .inr (.inl blank)
      · exact .inr (.inr ⟨w, List.mem_cons_of_mem _ among, inside⟩)

theorem feed_not_mem_declarationLine (declarable : Declarable name a) :
    '\n' ∉ declarationLine (name, a) := by
  have inKeyword : '\n' ∉ a.kind.keyword := by
    cases a.kind <;> decide
  have inElements : '\n' ∉ elements a.elements := by
    intro member
    rcases mem_elements member with comma | blank | ⟨v, among, inside⟩
    · exact absurd comma (by decide)
    · exact absurd blank (by decide)
    · have writable := declarable.writable v among
      exact Value.feed_not_mem_literal (Value.isLiteral_text writable) writable inside
  have inName := WriteBack.feed_not_mem_name declarable.isName
  have inLength := Value.feed_not_mem_digits (Numeral.digits_ofNat a.length)
  simp [declarationLine, arrayLine, inKeyword, inName, inLength, inElements]

theorem isListPart_of_isNumeral {t : Text} (numeral : IsNumeral t) : t.all isListPart = true := by
  apply List.all_eq_true.mpr
  intro c member
  rcases numeral c member with rfl | rfl | digit
  · decide
  · decide
  · rw [isListPart, digit, Bool.true_or]

theorem isListPart_of_writable {v : Value} (number : v.kind ≠ .char) (writable : v.Writable) :
    v.text.all isListPart = true :=
  isListPart_of_isNumeral (isNumeral_of_isLiteral (Value.isLiteral_text writable) number)

theorem isListPart_double (x : Binary64) :
    (Value.double x).text.all isListPart = (Value.double x).isFinite := by
  cases x with
  | nan => decide
  | infinite s => cases s <;> decide
  | finite s quanta h => exact @isListPart_of_writable (.double (.finite s quanta h)) nofun trivial

theorem all_elements {p : Char → Bool} (comma : p ',' = true) (blank : p ' ' = true)
    (vs : List Value) : (elements vs).all p = vs.all fun v => v.text.all p := by
  fun_induction elements vs with
  | case1 => rfl
  | case2 v => simp
  | case3 v next more ih => simp [comma, blank, ih]

theorem isListPart_elements (uniform : a.Uniform) (isList : a.kind ≠ .char) :
    (elements a.elements).all isListPart = a.isNumeric := by
  rw [all_elements rfl rfl]
  cases kind : a.kind with
  | char => exact absurd kind isList
  | int =>
    have numeric : a.isNumeric = true := by rw [ArrayValue.isNumeric, kind]
    obtain ⟨-, writable⟩ := ArrayValue.writable_of_isNumeric uniform numeric
    rw [numeric]
    apply List.all_eq_true.mpr
    intro v member
    exact isListPart_of_writable (uniform v member ▸ isList) (writable v member)
  | double =>
    have same : ∀ v ∈ a.elements, v.text.all isListPart = v.isFinite := by
      intro v member
      have double := (uniform v member).trans kind
      cases v with
      | double x => exact isListPart_double x
      | int n => cases double
      | char c => cases double
    rw [ArrayValue.isNumeric, kind, Bool.eq_iff_iff, List.all_eq_true, List.all_eq_true]
    exact forall₂_congr fun v member => by rw [same v member]

theorem behind_brace (isName : IsName name) (a : ArrayValue) :
    (arrayLine name a).dropWhile (· != '\x7b') = '\x7b' :: (elements a.elements ++ ['\x7d']) := by
  have inKeyword : '\x7b' ∉ a.kind.keyword := by
    cases a.kind <;> decide
  have inName : '\x7b' ∉ name := by
    obtain ⟨x, rest, -, -, parts⟩ := Reader.isName_iff.mp isName
    exact fun member => absurd (parts _ member) (by decide)
  have inLength : '\x7b' ∉ Numeral.ofNat a.length :=
    fun member => absurd (Numeral.digits_ofNat a.length _ member) (by decide)
  have front : '\x7b' ∉ a.kind.keyword ++ ' ' :: name ++ '[' :: Numeral.ofNat a.length ++
      [']', ' ', '=', ' '] := by simp [inKeyword, inName, inLength]
  have stops : ('\x7b' != '\x7b') = false := by decide
  have cut := Text.dropWhile_exact (Text.bne_of_not_mem front) stops (elements a.elements ++ ['\x7d'])
  simpa [arrayLine] using cut

theorem isPrefixOf_arrayLine (k : Kind) (name : Text) (a : ArrayValue) :
    (k.keyword ++ [' ']).isPrefixOf (arrayLine name a) = decide (k = a.kind) := by
  obtain ⟨kind, elements⟩ := a
  cases k <;> cases kind <;> rfl

/-- The lines of numeric arrays are told from those of all others by their text. -/
theorem listsNumbers_arrayLine (isName : IsName name) (uniform : a.Uniform) :
    listsNumbers (arrayLine name a) = a.isNumeric := by
  have list : (elements a.elements ++ ['\x7d']).all isListPart =
      (elements a.elements).all isListPart := by
    have brace : isListPart '\x7d' = true := by decide
    simp [brace]
  have opens : isListPart '\x7b' = true := by decide
  rw [listsNumbers, behind_brace isName, List.all_cons, opens, list, Bool.true_and,
    isPrefixOf_arrayLine, isPrefixOf_arrayLine]
  by_cases char : a.kind = .char
  · simp [ArrayValue.isNumeric, char]
  · rw [isListPart_elements uniform char]
    cases kind : a.kind with
    | char => exact absurd kind char
    | int => rfl
    | double => rfl

theorem listsNumbers_diagnosticLine (d : Diagnostic) : listsNumbers (diagnosticLine d) = false := by
  have number : (toString d.location.line).toList = Numeral.ofNat d.location.line := by
    simp [Numeral.ofNat]
  have digits := Numeral.digits_ofNat d.location.line
  simp only [listsNumbers, diagnosticLine, String.toList_append, List.append_assoc, number]
  cases ofNat : Numeral.ofNat d.location.line with
  | nil => exact absurd ofNat (Numeral.ofNat_ne_nil _)
  | cons c more =>
    have digit : c.isDigit = true := digits c (ofNat ▸ List.mem_cons_self)
    have noInt : 'i' ≠ c := by
      rintro rfl
      cases digit
    have noDouble : 'd' ≠ c := by
      rintro rfl
      cases digit
    simp [Kind.keyword, List.isPrefixOf, noInt, noDouble]

theorem declarable_of_mem {source : Text} (held : (source.length : Int) ≤ Word.greatest)
    {e : Text × ArrayValue} (member : e ∈ (Program.ofSource source).environment.arrays)
    (numeric : e.2.isNumeric = true) : Declarable e.1 e.2 := by
  have uniform := uniform_environment (Program.ofSource source) e member
  have short : e.2.length ≤ source.length := length_environment source e member
  obtain ⟨isList, writable⟩ := ArrayValue.writable_of_isNumeric uniform numeric
  exact ⟨isName_environment (List.Subset.refl _) e member, isList, uniform, writable, by omega⟩

theorem ofSource_declarations {entries : List (Text × ArrayValue)}
    (declarable : ∀ e ∈ entries, Declarable e.1 e.2) :
    Program.ofSource (Text.ofRows (entries.map declarationLine)) =
      ofLines 1 (entries.map declarationLine) := by
  by_cases empty : entries = []
  · rw [empty]
    rfl
  · have unbroken : Text.Unbroken (entries.map declarationLine) := by
      intro line member
      obtain ⟨e, among, rfl⟩ := List.mem_map.mp member
      exact feed_not_mem_declarationLine (declarable e among)
    rw [ofSource_eq, Text.rows_ofRows (by simpa using empty) unbroken]

theorem filter_lines (source : Text) :
    (Report.ofSource source).lines.filter listsNumbers =
      ((Program.ofSource source).replay.environment.arrays.filter fun e => e.2.isNumeric).map
        fun e => arrayLine e.1 e.2 := by
  have noDiagnostic : ∀ l : List Diagnostic, (l.map diagnosticLine).filter listsNumbers = [] := by
    intro l
    refine List.filter_eq_nil_iff.mpr fun line member => ?_
    obtain ⟨d, -, rfl⟩ := List.mem_map.mp member
    simp [listsNumbers_diagnosticLine d]
  have arrays : ∀ e ∈ (Program.ofSource source).environment.arrays,
      listsNumbers (arrayLine e.1 e.2) = e.2.isNumeric := fun e member =>
    listsNumbers_arrayLine (isName_environment (List.Subset.refl _) e member)
      (uniform_environment _ e member)
  rw [Report.ofSource]
  simp only [List.filter_append, noDiagnostic, List.nil_append, List.filter_map, environment_replay]
  exact congrArg _ (List.filter_congr arrays)

/-- The lines of a report that list numbers, each with a semicolon behind it, are a source again. Its
replay finds nothing wrong and leaves behind the arrays of integers and of finite doubles that the
reported source leaves behind, in their order. A length that no word holds could not be declared, so
the source must not be longer than that. -/
theorem replay_reported (source : Text) (held : (source.length : Int) ≤ Word.greatest) :
    let kept := (Program.ofSource source).replay.environment.arrays.filter fun e => e.2.isNumeric
    let lines := (Report.ofSource source).lines.filter listsNumbers
    let again := (Program.ofSource (Text.ofRows (lines.map (· ++ [';'])))).replay
    lines = kept.map (fun e => arrayLine e.1 e.2) ∧
      again.diagnostics = [] ∧
      again.environment = ⟨kept⟩ := by
  intro kept lines again
  have names : (kept.map Prod.fst).Nodup := by
    refine List.Nodup.sublist (List.filter_sublist.map Prod.fst) ?_
    rw [environment_replay]
    exact @nodup_names_environmentFrom .empty _ List.nodup_nil
  have declarable : ∀ e ∈ kept, Declarable e.1 e.2 := by
    intro e member
    obtain ⟨left, numeric⟩ := List.mem_filter.mp member
    rw [environment_replay] at left
    exact declarable_of_mem held left numeric
  have selected : lines = kept.map fun e => arrayLine e.1 e.2 := filter_lines source
  have declared : again = ⟨⟨kept⟩, []⟩ := by
    have terminated : lines.map (· ++ [';']) = kept.map declarationLine := by
      rw [selected, List.map_map]
      rfl
    have replayed := @replayFrom_declarations .empty kept 1 declarable names
    rw [← ofSource_declarations declarable, ← terminated] at replayed
    exact replayed
  exact ⟨selected, congrArg Replay.diagnostics declared, congrArg Replay.environment declared⟩

/-- Of five arrays three come back: not that of characters, nor that of a double that is too great. -/
theorem replay_reported_mixed :
    let source := ("int a[] = \x7b1, -9223372036854775808\x7d;\nchar c[] = \"x\";\nint e[0] = \x7b\x7d;\n" ++
      "double d[1] = \x7b-0.5\x7d;\ndouble o[1] = \x7b1.0\x7d;\no[0] = ").toList ++
        List.replicate 310 '9' ++ ".0;\na.insert(5, 1);".toList
    let again := (Program.ofSource (Text.ofRows
      (((Report.ofSource source).lines.filter listsNumbers).map (· ++ [';'])))).replay
    again.diagnostics = [] ∧ again.environment =
      ⟨[(['a'], ⟨.int, [.int 1, .int Int64.minValue]⟩), (['e'], ⟨.int, []⟩),
        (['d'], ⟨.double, [.double (Binary64.ofDecimal true ⟨5, 1⟩)]⟩)]⟩ := by
  intro source again
  have held : (source.length : Int) ≤ Word.greatest := by decide +kernel
  have kept : (Program.ofSource source).replay.environment.arrays.filter
      (fun e => e.2.isNumeric) = [(['a'], ⟨.int, [.int 1, .int Int64.minValue]⟩),
        (['e'], ⟨.int, []⟩), (['d'], ⟨.double, [.double (Binary64.ofDecimal true ⟨5, 1⟩)]⟩)] := by
    decide +kernel
  clear_value source
  obtain ⟨-, diagnostics, environment⟩ := replay_reported source held
  exact ⟨diagnostics, environment.trans (congrArg Environment.mk kept)⟩

end Report
end ArrayReplay
