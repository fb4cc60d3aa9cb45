/-!
# Blanks and pieces of a text

White space is the Unicode property `White_Space`: 25 characters in ten ranges. Trimming removes
blanks at both ends of a text and keeps those inside.

A text is cut at a mark into the pieces between the marks, empty ones too: a text without a mark is
one piece, and one with `n` marks is `n + 1`.
-/

namespace SchemaMigration.Text

/-- Closed ranges of code points, to be searched for one code point. -/
abbrev Ranges := List (Nat × Nat)

/-- A code point lies in one of the ranges. -/
def Ranges.contains (ranges : Ranges) (code : Nat) : Bool :=
  ranges.any fun range => range.1 ≤ code && code ≤ range.2

/-- The code points that are white space, ascending and apart. -/
def blankRanges : Ranges :=
  [(0x09, 0x0D), (0x20, 0x20), (0x85, 0x85), (0xA0, 0xA0), (0x1680, 0x1680), (0x2000, 0x200A),
   (0x2028, 0x2029), (0x202F, 0x202F), (0x205F, 0x205F), (0x3000, 0x3000)]

/-- A blank is a character with the Unicode property `White_Space`. -/
def isBlank (c : Char) : Bool := blankRanges.contains c.toNat

/-- The text between the blanks at its two ends. -/
def trim (s : List Char) : List Char :=
  ((s.dropWhile isBlank).reverse.dropWhile isBlank).reverse

/-- The pieces of a text between its marks. -/
def pieces (mark : Char) : List Char → List (List Char)
  | [] => [[]]
  | c :: rest =>
    if c = mark then [] :: pieces mark rest
    else match pieces mark rest with
      | [] => [[c]]
      | piece :: more => (c :: piece) :: more

/-- Every mark starts one more piece. -/
theorem length_pieces (mark : Char) (s : List Char) :
    (pieces mark s).length = s.count mark + 1 := by
  induction s with
  | nil => rfl
  | cons c rest ih =>
    by_cases h : c = mark
    · simp [pieces, h, ih]
    · simp only [pieces, h, if_false, List.count_cons_of_ne h]
      split
      · next empty => simp [empty] at ih
      · next piece more cut => simpa [cut] using ih

/-- There is at least one piece. -/
theorem pieces_ne_nil (mark : Char) (s : List Char) : pieces mark s ≠ [] := by
  intro none
  have count := length_pieces mark s
  simp [none] at count

/-- The pieces of a text between its marks, as texts. -/
def split (mark : Char) (s : String) : List String := (pieces mark s.toList).map String.ofList

end SchemaMigration.Text
