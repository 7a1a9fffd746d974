import Pseudocode.Double.Text
import Pseudocode.Text.Position
import Pseudocode.Text.Quoted

/-! # Tokens

The words of the language: keywords, symbols, names, literals, and the line
break, which ends a statement and is a token of its own.

* `Keyword.spelling` and `Symbol.spelling` say how these are written;
  `Keyword.ofSpelling?` and `Symbol.longest?` read them.
* `Token.text` is how a message names a token.
* `Located` is a token with the place it starts at.
-/

namespace Pseudocode

/-- The reserved words. -/
inductive Keyword where
  | output | input | declare | call | printInt | printReal
  | if | then | else | endIf | while | do | endWhile | repeat | until
  | int | real | bool | true | false
deriving DecidableEq, Inhabited

namespace Keyword

def all : List Keyword :=
  [.output, .input, .declare, .call, .printInt, .printReal,
   .if, .then, .else, .endIf, .while, .do, .endWhile, .repeat, .until,
   .int, .real, .bool, .true, .false]

def spelling : Keyword → String
  | .output => "OUTPUT"
  | .input => "INPUT"
  | .declare => "DECLARE"
  | .call => "CALL"
  | .printInt => "PrintfD"
  | .printReal => "PrintfF"
  | .if => "IF"
  | .then => "THEN"
  | .else => "ELSE"
  | .endIf => "ENDIF"
  | .while => "WHILE"
  | .do => "DO"
  | .endWhile => "ENDWHILE"
  | .repeat => "REPEAT"
  | .until => "UNTIL"
  | .int => "INT"
  | .real => "REAL"
  | .bool => "BOOL"
  | .true => "TRUE"
  | .false => "FALSE"

def ofSpelling? (word : String) : Option Keyword :=
  all.find? fun k => k.spelling = word

@[simp] theorem ofSpelling?_spelling (k : Keyword) : ofSpelling? k.spelling = some k := by
  cases k <;> decide

end Keyword

/-- Operators and punctuation. -/
inductive Symbol where
  | arrow | unequal | atMost | atLeast | equal | less | greater
  | plus | minus | star | slash | bang
  | openParen | closeParen | openBracket | closeBracket | comma | colon | dot
deriving DecidableEq, Inhabited

namespace Symbol

/-- Every symbol, the longer ones first. -/
def all : List Symbol :=
  [.arrow, .unequal, .atMost, .atLeast, .equal, .less, .greater,
   .plus, .minus, .star, .slash, .bang,
   .openParen, .closeParen, .openBracket, .closeBracket, .comma, .colon, .dot]

def spelling : Symbol → String
  | .arrow => "<-"
  | .unequal => "<>"
  | .atMost => "<="
  | .atLeast => ">="
  | .equal => "="
  | .less => "<"
  | .greater => ">"
  | .plus => "+"
  | .minus => "-"
  | .star => "*"
  | .slash => "/"
  | .bang => "!"
  | .openParen => "("
  | .closeParen => ")"
  | .openBracket => "["
  | .closeBracket => "]"
  | .comma => ","
  | .colon => ":"
  | .dot => "."

def longest? (cs : List Char) : Option Symbol :=
  all.find? fun s => s.spelling.toList.isPrefixOf cs

theorem spelling_ne_nil (s : Symbol) : s.spelling.toList ≠ [] := by
  cases s <;> decide

theorem longest?_isPrefix {cs : List Char} {s : Symbol} (h : longest? cs = some s) :
    s.spelling.toList <+: cs := by
  have hs : s.spelling.toList.isPrefixOf cs = true :=
    List.find?_some (p := fun s : Symbol => s.spelling.toList.isPrefixOf cs) h
  exact List.isPrefixOf_iff_prefix.1 hs

end Symbol

/-- A word of the language. -/
inductive Token where
  | keyword (k : Keyword)
  | symbol (s : Symbol)
  | name (n : String)
  | integer (n : Int32)
  | real (x : Double)
  | string (s : String)
  | newline
deriving DecidableEq, Inhabited

def Token.text : Token → String
  | .keyword k => k.spelling
  | .symbol s => s.spelling
  | .name n => s!"'{n}'"
  | .integer n => toString n.toInt
  | .real x => x.text
  | .string s => Text.quoted s
  | .newline => "end of line"

/-- A token and where it starts. -/
structure Located where
  token : Token
  pos : Position
deriving DecidableEq, Inhabited

end Pseudocode
