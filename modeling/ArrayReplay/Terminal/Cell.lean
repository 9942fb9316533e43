import ArrayReplay.Text.Basic

/-!
Styled text for a terminal. A cell shows one character in a style; a style sets only what it names and
leaves the rest to what is underneath. Every character takes one cell, and a line end, written as a line
feed with or without a carriage return in front of it, takes none.
-/
namespace ArrayReplay.Terminal

inductive Color where
  | black
  | rgb (red green blue : UInt8)
deriving DecidableEq, Repr

/-- A color, or that of the terminal, for the character and for what is behind it. -/
structure Style where
  foreground : Option Color := none
  background : Option Color := none
  bold : Bool := false
deriving DecidableEq, Repr

namespace Style

def plain : Style := {}

def ofColor (c : Color) : Style := { foreground := some c }

def ofColors (foreground background : Color) : Style :=
  { foreground := some foreground, background := some background }

def inBold (s : Style) : Style := { s with bold := true }

def onto (background : Color) (s : Style) : Style := { s with background := some background }

def overlay (base top : Style) : Style :=
  ⟨top.foreground.or base.foreground, top.background.or base.background, base.bold || top.bold⟩

end Style

structure Cell where
  glyph : Char := ' '
  style : Style := .plain
deriving DecidableEq, Repr

def Cell.blank (style : Style) : Cell := ⟨' ', style⟩

structure Span where
  text : Text
  style : Style := .plain
deriving DecidableEq

abbrev Line := List Span

/-- The characters of a text that take a cell. A carriage return is a part of the line end where a line
feed follows it, and takes a cell elsewhere. -/
def glyphs : Text → Text
  | [] => []
  | c :: rest =>
    if c = '\n' ∨ (c = '\r' ∧ rest.head? = some '\n') then glyphs rest else c :: glyphs rest

namespace Line

def text (line : Line) : Text := line.flatMap Span.text

/-- The cells of a line over a style. A line end lies within one span. -/
def cells (base : Style) (line : Line) : List Cell :=
  line.flatMap fun s => (glyphs s.text).map fun c => ⟨c, base.overlay s.style⟩

end Line
end ArrayReplay.Terminal
