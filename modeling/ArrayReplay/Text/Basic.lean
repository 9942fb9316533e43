/-!
Texts are lists of characters throughout: sources, rows, names and written values are taken apart
character by character, and a column is a position in such a list. Only the outermost layer turns
them into packed strings.
-/
namespace ArrayReplay

/-- A text, one entry per Unicode scalar value. -/
abbrev Text := List Char

namespace Text

def byteSize (t : Text) : Nat := t.foldr (fun c n => c.utf8Size + n) 0

@[simp] theorem byteSize_nil : byteSize [] = 0 := rfl

theorem byteSize_cons (c : Char) (t : Text) : byteSize (c :: t) = c.utf8Size + byteSize t := rfl

theorem length_le_byteSize (t : Text) : t.length ≤ byteSize t := by
  induction t with
  | nil => exact Nat.le_refl 0
  | cons c t ih =>
    have wide := c.utf8Size_pos
    rw [byteSize_cons, List.length_cons]
    omega

end Text
end ArrayReplay
