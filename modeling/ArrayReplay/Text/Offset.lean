import ArrayReplay.Text.Basic

namespace ArrayReplay.Text

def charOffsets (offset : Nat) : Text → List Nat
  | [] => []
  | c :: rest => offset :: charOffsets (offset + c.utf8Size) rest

/-- The byte offset of the character in a column, or of the end where there is no such column. -/
def byteOffset (column : Nat) (t : Text) : Nat := (charOffsets 0 t)[column]?.getD (byteSize t)

/-- The two parts of a text around a byte offset, unless the offset lies inside a character or
beyond the end. -/
def cut? (offset : Nat) : Text → Option (Text × Text)
  | [] => if offset = 0 then some ([], []) else none
  | c :: rest =>
    if offset = 0 then some ([], c :: rest)
    else if offset < c.utf8Size then none
    else (cut? (offset - c.utf8Size) rest).map fun parts => (c :: parts.1, parts.2)

theorem getElem?_charOffsets (offset column : Nat) (t : Text) :
    (charOffsets offset t)[column]? =
      if column < t.length then some (offset + byteSize (t.take column)) else none := by
  induction t generalizing offset column with
  | nil => simp [charOffsets]
  | cons c rest ih =>
    cases column with
    | zero => simp [charOffsets]
    | succ column => simp [charOffsets, ih, byteSize_cons, Nat.add_assoc]

theorem byteOffset_eq (column : Nat) (t : Text) :
    byteOffset column t = byteSize (t.take column) := by
  rw [byteOffset, getElem?_charOffsets]
  split
  · simp
  · next beyond => rw [List.take_of_length_le (by omega), Option.getD_none]

theorem cut?_byteSize (front back : Text) :
    cut? (byteSize front) (front ++ back) = some (front, back) := by
  induction front with
  | nil => cases back <;> simp [cut?]
  | cons c front ih =>
    have wide := c.utf8Size_pos
    rw [byteSize_cons, List.cons_append, cut?, if_neg (by omega), if_neg (by omega),
      Nat.add_sub_cancel_left, ih]
    rfl

/-- The offset of a column never lies inside a character. -/
theorem cut?_byteOffset (column : Nat) (t : Text) :
    cut? (byteOffset column t) t = some (t.take column, t.drop column) := by
  rw [byteOffset_eq]
  simpa using cut?_byteSize (t.take column) (t.drop column)

def cutAt (column : Nat) (t : Text) : Text × Text :=
  (cut? (byteOffset column t) t).get (by rw [cut?_byteOffset]; rfl)

theorem cutAt_eq (column : Nat) (t : Text) : cutAt column t = (t.take column, t.drop column) := by
  simp [cutAt, cut?_byteOffset]

end ArrayReplay.Text
