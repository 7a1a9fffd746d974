import Pseudocode.Text.Unprintable
import Pseudocode.Text.Extending

/-! # Quoted text

A quoted text stands between double quotes on one line. The line feed, the tab,
the carriage return and the null character have short escapes, the quote and
the backslash are escaped by a backslash, and a character that could not be
told apart when printed is written as `\u` and its code point in braces.
-/

namespace Pseudocode.Text

/-- A character by its code point in hexadecimal, between braces. -/
def codePoint (c : Char) : List Char :=
  ['\\', 'u', '\x7b'] ++ Nat.toDigits 16 c.toNat ++ ['\x7d']

/-- The character cannot be told apart when it is printed. -/
def isHidden (c : Char) : Bool :=
  extending.contains c || unprintable.contains c || fillers.contains c

def escape (c : Char) : List Char :=
  if c = '\n' then ['\\', 'n']
  else if c = '\t' then ['\\', 't']
  else if c = '\r' then ['\\', 'r']
  else if c = '\x00' then ['\\', '0']
  else if c = '\\' then ['\\', '\\']
  else if c = '"' then ['\\', '"']
  else if isHidden c then codePoint c
  else [c]

/-- A text between quotes, with what could not be read there escaped. -/
def quoted (text : String) : String :=
  String.ofList ('"' :: text.toList.flatMap escape ++ ['"'])

end Pseudocode.Text
