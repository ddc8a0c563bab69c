/-!
# Texts

A text is a list of code points, so lengths, offsets and cuts all count code
points. Everything that is read or written as rule text is a `Text`. A `String`
is used for spellings and for messages, which are printed and never taken apart.

Three classes of separating characters are told apart, each wider than the one
before. A blank separates the parts of a rule. White space is the Unicode property
of that name; it ends an unquoted token of the grammar. The third class adds the four
information separators, and decides whether an argument may be written without
quotes. The last two classes differ, and both are needed as they are.

A place is a cut of a text in two. Its line and its column count from one, and only
the line feed ends a line. An excerpt shows the beginning of what follows the place.
-/

namespace WafRules

abbrev Text := List Char

namespace Text

/-- The text without its longest run of characters of the class at the end. -/
def trimEnd (p : Char → Bool) (s : Text) : Text := (s.reverse.dropWhile p).reverse

/-- The text without its longest runs of characters of the class at both ends. -/
def trim (p : Char → Bool) (s : Text) : Text := (trimEnd p s).dropWhile p

/-- The lines of a text. Only the line feed ends a line, so there is one line more
than there are line feeds, and the empty text is one empty line. -/
def lines (s : Text) : List Text := s.splitOn '\n'

/-- A line feed separates lines. -/
theorem lines_append (s t : Text) : lines (s ++ '\n' :: t) = lines s ++ lines t :=
  List.splitOn_append_cons_self s t

/-- The line on which a text ends. -/
def endLine (before : Text) : Nat := before.count '\n' + 1

/-- The column behind the last character of a text. -/
def endColumn (before : Text) : Nat := (before.reverse.takeWhile (· != '\n')).length + 1

/-- As much of a text as a message shows. -/
def excerpt (after : Text) : Text := after.take 20

/-- A line feed moves the place to the first column of the next line. -/
example : endLine "ab\nc".toList = 2 ∧ endColumn "ab\nc".toList = 2 ∧
    endColumn "ab\n".toList = 1 := by decide

end Text

/-- A space or a tab. -/
def isBlank (c : Char) : Bool := c == ' ' || c == '\t'

/-- The ranges of the Unicode property White_Space. -/
def whiteSpaceRanges : List (Nat × Nat) :=
  [(0x09, 0x0D), (0x20, 0x20), (0x85, 0x85), (0xA0, 0xA0), (0x1680, 0x1680),
   (0x2000, 0x200A), (0x2028, 0x2029), (0x202F, 0x202F), (0x205F, 0x205F),
   (0x3000, 0x3000)]

def isWhiteSpace (c : Char) : Bool :=
  whiteSpaceRanges.any fun (lo, hi) => lo ≤ c.toNat && c.toNat ≤ hi

/-- White space, or one of the information separators U+001C to U+001F. -/
def isSpaceOrSeparator (c : Char) : Bool :=
  isWhiteSpace c || (0x1C ≤ c.toNat && c.toNat ≤ 0x1F)

theorem isBlank_iff {c : Char} : isBlank c = true ↔ c = ' ' ∨ c = '\t' := by
  simp [isBlank]

theorem isSpaceOrSeparator_of_isWhiteSpace {c : Char} (h : isWhiteSpace c = true) :
    isSpaceOrSeparator c = true := by
  simp [isSpaceOrSeparator, h]

/-- The unit separator tells the two larger classes apart. -/
example : isWhiteSpace '\x1f' = false ∧ isSpaceOrSeparator '\x1f' = true := by decide

end WafRules
