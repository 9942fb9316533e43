import ArrayReplay.Notation.Statement

/-! The grammar of statements, without a reader. A statement is a sequence of pieces with gaps in
front of them, and the pieces of each form are listed. No order of reading, no position and no
failure occurs here, so that the reader has something independent to agree with. -/
namespace ArrayReplay.Grammar

/-- Characters that may stand between pieces. -/
def Gap (t : Text) : Prop := ∀ c ∈ t, c = ' ' ∨ c = '\t' ∨ c = '\r'

/-- Pieces in order, each with a gap in front of it. -/
inductive Spaced : List Text → Text → Prop where
  | nil : Spaced [] []
  | cons {gap piece rest : Text} {pieces : List Text} :
      Gap gap → Spaced pieces rest → Spaced (piece :: pieces) (gap ++ piece ++ rest)

/-- `[A-Za-z_][A-Za-z0-9_]*` -/
def IsName (t : Text) : Prop :=
  ∃ c rest, t = c :: rest ∧ (c.isAlpha = true ∨ c = '_') ∧
    ∀ d ∈ rest, d.isAlphanum = true ∨ d = '_'

/-- A name that does not open a declaration. -/
def IsPlainName (t : Text) : Prop := IsName t ∧ ∀ k : Kind, t ≠ k.keyword

def Digits (t : Text) : Prop := ∀ c ∈ t, c.isDigit = true

def sign (negative : Bool) : Text := if negative then ['-'] else []

/-- An optional minus sign and digits, as the word that has their value. -/
inductive IsInteger : Text → Int64 → Prop where
  | mk {negative : Bool} {digits : Text} {n : Int64} :
      digits ≠ [] → Digits digits → n.toInt = Numeral.signedValue negative digits →
      IsInteger (sign negative ++ digits) n

/-- The three shapes of a literal. A decimal needs digits on one side of its point at least. -/
inductive IsLiteral : Text → Value → Prop where
  | int {t : Text} {n : Int64} : IsInteger t n → IsLiteral t (.int n)
  | double {negative : Bool} {whole fraction : Text} :
      Digits whole → Digits fraction → (whole ≠ [] ∨ fraction ≠ []) →
      IsLiteral (sign negative ++ whole ++ '.' :: fraction)
        (.double (Binary64.ofDecimal negative (Decimal.ofDigits whole fraction)))
  | char (c : Char) : IsLiteral ['\'', c, '\''] (.char c)

inductive IsSize : List Text → Int64 → Prop where
  | absent : IsSize [] 0
  | present {t : Text} {n : Int64} : IsInteger t n → IsSize [t] n

/-- One literal or more, with commas between them. -/
inductive Items : List Text → List Value → Prop where
  | last {t : Text} {v : Value} : IsLiteral t v → Items [t] [v]
  | more {t : Text} {v : Value} {pieces : List Text} {vs : List Value} :
      IsLiteral t v → Items pieces vs → Items (t :: [','] :: pieces) (v :: vs)

inductive Initializer : Kind → List Text → List Value → Prop where
  | characters {content : Text} :
      '"' ∉ content → Initializer .char ['"' :: content ++ ['"']] (content.map Value.char)
  | empty {kind : Kind} : kind ≠ .char → Initializer kind [['{'], ['}']] []
  | items {kind : Kind} {pieces : List Text} {vs : List Value} :
      kind ≠ .char → Items pieces vs → Initializer kind (['{'] :: pieces ++ [['}']]) vs

/-- The pieces of each form, without the semicolon. The one gap that may not be empty, behind the
keyword of a declaration, lends its first character to the piece of the keyword. -/
inductive Form : List Text → Statement → Prop where
  | declare {kind : Kind} {name : Text} {sizePieces valuePieces : List Text} {size : Int64}
      {vs : List Value} {g : Char} :
      Gap [g] → IsName name → IsSize sizePieces size → Initializer kind valuePieces vs →
      Form ((kind.keyword ++ [g]) :: name :: ['['] :: sizePieces ++ [']'] :: ['='] :: valuePieces)
        (.declare kind name size vs)
  | update {name i l : Text} {index : Int64} {v : Value} :
      IsPlainName name → IsInteger i index → IsLiteral l v →
      Form [name, ['['], i, [']'], ['='], l] (.update name index v)
  | insert {name i l : Text} {index : Int64} {v : Value} :
      IsPlainName name → IsInteger i index → IsLiteral l v →
      Form [name, ['.'], ['i', 'n', 's', 'e', 'r', 't'], ['('], i, [','], l, [')']]
        (.insert name index v)
  | delete {name word i : Text} {index : Int64} :
      IsPlainName name → IsInteger i index →
      (word = ['r', 'e', 'm', 'o', 'v', 'e'] ∨ word = ['d', 'e', 'l', 'e', 't', 'e']) →
      Form [name, ['.'], word, ['('], i, [')']] (.delete name index)

/-- Nothing, or a comment. -/
def Tail (t : Text) : Prop := t = [] ∨ ∃ comment, t = '/' :: '/' :: comment

/-- A statement up to its semicolon, and at most a comment behind it. -/
def Sentence (t : Text) (s : Statement) : Prop :=
  ∃ pieces front gap tail, Form pieces s ∧ Spaced (pieces ++ [[';']]) front ∧ Gap gap ∧
    Tail tail ∧ t = front ++ gap ++ tail

end ArrayReplay.Grammar
