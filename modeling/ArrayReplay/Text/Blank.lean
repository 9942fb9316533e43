import ArrayReplay.Text.Basic

/-!
Blank characters and trimming. A character is blank when it has the Unicode property White_Space,
which is wider than the gaps allowed inside a statement: a row may be indented with a no-break
space, but no such space may stand between two of its words.
-/
namespace ArrayReplay.Text

def isBlank (c : Char) : Bool :=
  let n := c.toNat
  (0x09 ≤ n && n ≤ 0x0d) || n == 0x20 || n == 0x85 || n == 0xa0 || n == 0x1680 ||
    (0x2000 ≤ n && n ≤ 0x200a) || n == 0x2028 || n == 0x2029 || n == 0x202f || n == 0x205f ||
    n == 0x3000

def indent (t : Text) : Text := t.takeWhile isBlank

def trimStart (t : Text) : Text := t.dropWhile isBlank

def trimEnd (t : Text) : Text := (t.reverse.dropWhile isBlank).reverse

def trim (t : Text) : Text := trimEnd (trimStart t)

theorem indent_append_trimStart (t : Text) : indent t ++ trimStart t = t :=
  List.takeWhile_append_dropWhile

theorem not_isBlank_head_trimStart {t rest : Text} {c : Char} (h : trimStart t = c :: rest) :
    isBlank c = false := by
  have := List.head?_dropWhile_not isBlank t
  simp [trimStart] at h
  simpa [h] using this

end ArrayReplay.Text
