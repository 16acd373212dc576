/-!
# Blank characters

The characters with the Unicode property `White_Space`: the separators that may stand between the
parts of a configuration block, and that trimming removes.
-/

namespace ColumnMetadata.Text

/-- The property `White_Space`: the ASCII controls from tab to carriage return, the space, and the
wider separators. A zero-width space and a byte order mark are not blank. -/
def isBlank (c : Char) : Bool :=
  let n := c.toNat
  (9 ≤ n && n ≤ 13) || n == 0x20 || n == 0x85 || n == 0xA0 || n == 0x1680 ||
  (0x2000 ≤ n && n ≤ 0x200A) || n == 0x2028 || n == 0x2029 || n == 0x202F || n == 0x205F ||
  n == 0x3000

def trimStart (cs : List Char) : List Char :=
  cs.dropWhile isBlank

def trimEnd (cs : List Char) : List Char :=
  (trimStart cs.reverse).reverse

def trim (cs : List Char) : List Char :=
  trimEnd (trimStart cs)

/-- The maximal runs of characters that are not blank, in order. The second argument is the run
read so far, backwards. -/
def wordsFrom : List Char → List Char → List (List Char)
  | [], [] => []
  | [], run => [run.reverse]
  | c :: cs, run =>
    if isBlank c then
      if run.isEmpty then wordsFrom cs [] else run.reverse :: wordsFrom cs []
    else wordsFrom cs (c :: run)

/-- The words of a text: what stands between its blanks. -/
def words (cs : List Char) : List (List Char) :=
  wordsFrom cs []

/-- A text whose ends are not blank is not shortened. -/
theorem trimStart_eq_self {c : Char} {cs : List Char} (h : isBlank c = false) :
    trimStart (c :: cs) = c :: cs := by
  simp [trimStart, h]

end ColumnMetadata.Text
