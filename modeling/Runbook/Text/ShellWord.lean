/-!
# Words of a shell line

A word is written bare if all its characters are safe, and otherwise between single quotes, where
only the single quote itself needs care: it is written as a double-quoted quote between two quoted
pieces. The empty word is a pair of quotes, so that it is not lost.
-/

namespace Runbook.Text

/-- Characters that mean nothing to a shell: ASCII letters and digits and a few marks. -/
def isBareChar (c : Char) : Bool := c.isAlphanum || "_@%+=:,./-".toList.contains c

/-- A character inside single quotes. -/
def shellChar (c : Char) : List Char := if c = '\'' then "'\"'\"'".toList else [c]

/-- One word, quoted if it has to be. -/
def shellWord (word : List Char) : List Char :=
  if !word.isEmpty && word.all isBareChar then word
  else '\'' :: word.flatMap shellChar ++ ['\'']

def shellLine (words : List (List Char)) : List Char := [' '].intercalate (words.map shellWord)

end Runbook.Text
