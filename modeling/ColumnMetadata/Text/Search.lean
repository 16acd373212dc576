/-!
# Searching and splitting texts

Whether a text contains another, and the parts of a text between separators. Joining the parts with
the separator gives back the text (`join_splitOnChar`).
-/

namespace ColumnMetadata.Text

def containsText (part : List Char) : List Char → Bool
  | [] => part.isEmpty
  | c :: cs => part.isPrefixOf (c :: cs) || containsText part cs

/-- The parts of a text between occurrences of a separator; there is always one part. -/
def splitOnChar (sep : Char) : List Char → List (List Char)
  | [] => [[]]
  | c :: cs =>
    if c = sep then [] :: splitOnChar sep cs
    else
      match splitOnChar sep cs with
      | [] => [[c]]
      | part :: parts => (c :: part) :: parts

def join (sep : List Char) : List (List Char) → List Char
  | [] => []
  | [part] => part
  | part :: next :: parts => part ++ sep ++ join sep (next :: parts)

theorem splitOnChar_ne_nil (sep : Char) (cs : List Char) : splitOnChar sep cs ≠ [] := by
  cases cs with
  | nil => simp [splitOnChar]
  | cons c cs =>
    unfold splitOnChar
    split
    · simp
    · split <;> simp

theorem join_splitOnChar (sep : Char) (cs : List Char) : join [sep] (splitOnChar sep cs) = cs := by
  induction cs with
  | nil => rfl
  | cons c cs ih =>
    have hne := splitOnChar_ne_nil sep cs
    unfold splitOnChar
    split
    · next h =>
      cases hs : splitOnChar sep cs with
      | nil => exact absurd hs hne
      | cons part parts => rw [hs] at ih; simp [join, ih, h]
    · cases hs : splitOnChar sep cs with
      | nil => exact absurd hs hne
      | cons part parts =>
        rw [hs] at ih
        cases parts with
        | nil => simpa [join] using ih
        | cons p ps => simpa [join] using ih

def joinStrings (sep : String) (parts : List String) : String :=
  String.ofList (join sep.toList (parts.map String.toList))

end ColumnMetadata.Text
