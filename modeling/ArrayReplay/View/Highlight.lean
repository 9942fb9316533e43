import ArrayReplay.Notation.Value
import ArrayReplay.Text.Alphanumeric
import ArrayReplay.View.Theme

namespace ArrayReplay.View

open Terminal

namespace Highlight

/-- What is read but not yet cut off: a word, which may be empty, or a text since its opening quote. -/
inductive Pending where
  | word (read : Text)
  | quoted (quote : Char) (read : Text)

/-- The style of a word. The names of the operations stand out only where they are called. -/
def wordStyle (word : Text) (called : Bool) : Style :=
  if (Kind.ofKeyword? word).isSome then (Style.ofColor Theme.typeName).inBold
  else if called && (word = ['i', 'n', 's', 'e', 'r', 't'] || word = ['r', 'e', 'm', 'o', 'v', 'e'] ||
      word = ['d', 'e', 'l', 'e', 't', 'e']) then .ofColor Theme.method
  else if (word.head?.any Char.isDigit) then .ofColor Theme.number
  else .ofColor Theme.text

def cut (word : Text) (next : Option Char) : List Span :=
  if word.isEmpty then [] else [⟨word, wordStyle word (next == some '(')⟩]

/-- The character goes on with a word: a letter, a digit, an underscore, or a point behind nothing but
digits. -/
def continues (word : Text) (c : Char) : Bool :=
  Text.isAlphanumeric c || c == '_' ||
    (c == '.' && !word.isEmpty && word.all Char.isDigit)

def signStyle (c : Char) (next : Option Char) : Style :=
  if c ∈ ['{', '}', '(', ')', '[', ']'] then .ofColor Theme.primary
  else if c = '-' ∧ next.any Char.isDigit then .ofColor Theme.number
  else .ofColor Theme.text

def spans : Pending → Text → Line
  | .word w, [] => cut w none
  | .quoted _ t, [] => [⟨t, .ofColor Theme.string⟩]
  | .quoted q t, c :: rest =>
    if c = q then ⟨t ++ [c], .ofColor Theme.string⟩ :: spans (.word []) rest
    else spans (.quoted q (t ++ [c])) rest
  | .word w, c :: rest =>
    if c = '/' ∧ rest.head? = some '/' then
      cut w (some c) ++ [⟨c :: rest, .ofColor Theme.comment⟩]
    else if c = '"' ∨ c = '\'' then cut w (some c) ++ spans (.quoted c [c]) rest
    else if continues w c then spans (.word (w ++ [c])) rest
    else cut w (some c) ++ ⟨[c], signStyle c rest.head?⟩ :: spans (.word []) rest

end Highlight

def highlight (row : Text) : Line := Highlight.spans (.word []) row

end ArrayReplay.View
