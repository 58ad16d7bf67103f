import TreeWalker.Value

/-!
# Tokens

A token is a symbol, a keyword, an identifier, a literal or the end of the
source, together with the text it was read from and the line on which that text
ends.  Symbols and keywords are determined by their spelling.
-/

namespace TreeWalker

/-- Punctuation and operators. -/
inductive Symbol where
  | leftParen | rightParen | leftBrace | rightBrace
  | comma | dot | minus | plus | semicolon | slash | star
  | bang | bangEqual | equal | equalEqual
  | less | lessEqual | greater | greaterEqual
deriving DecidableEq, Repr

namespace Symbol

/-- All symbols. -/
def all : List Symbol :=
  [leftParen, rightParen, leftBrace, rightBrace, comma, dot, minus, plus, semicolon, slash, star,
    bang, bangEqual, equal, equalEqual, less, lessEqual, greater, greaterEqual]

/-- The characters of a symbol. -/
def spelling : Symbol → List Char
  | leftParen => ['(']
  | rightParen => [')']
  | leftBrace => ['{']
  | rightBrace => ['}']
  | comma => [',']
  | dot => ['.']
  | minus => ['-']
  | plus => ['+']
  | semicolon => [';']
  | slash => ['/']
  | star => ['*']
  | bang => ['!']
  | bangEqual => ['!', '=']
  | equal => ['=']
  | equalEqual => ['=', '=']
  | less => ['<']
  | lessEqual => ['<', '=']
  | greater => ['>']
  | greaterEqual => ['>', '=']

/-- Name of a symbol in token listings. -/
def name : Symbol → String
  | leftParen => "LEFT_PAREN"
  | rightParen => "RIGHT_PAREN"
  | leftBrace => "LEFT_BRACE"
  | rightBrace => "RIGHT_BRACE"
  | comma => "COMMA"
  | dot => "DOT"
  | minus => "MINUS"
  | plus => "PLUS"
  | semicolon => "SEMICOLON"
  | slash => "SLASH"
  | star => "STAR"
  | bang => "BANG"
  | bangEqual => "BANG_EQUAL"
  | equal => "EQUAL"
  | equalEqual => "EQUAL_EQUAL"
  | less => "LESS"
  | lessEqual => "LESS_EQUAL"
  | greater => "GREATER"
  | greaterEqual => "GREATER_EQUAL"

/-- The symbol with a given spelling. -/
def ofSpelling? (text : List Char) : Option Symbol :=
  all.find? fun symbol => symbol.spelling == text

theorem mem_all (symbol : Symbol) : symbol ∈ all := by
  cases symbol <;> decide

@[simp]
theorem ofSpelling?_spelling (symbol : Symbol) : ofSpelling? symbol.spelling = some symbol := by
  cases symbol <;> decide

end Symbol

/-- Words that are no identifiers. -/
inductive Keyword where
  | kwAnd | kwClass | kwElse | kwFalse | kwFor | kwFun | kwIf | kwNil
  | kwOr | kwPrint | kwReturn | kwSuper | kwThis | kwTrue | kwVar | kwWhile
deriving DecidableEq, Repr

namespace Keyword

/-- All keywords. -/
def all : List Keyword :=
  [kwAnd, kwClass, kwElse, kwFalse, kwFor, kwFun, kwIf, kwNil,
    kwOr, kwPrint, kwReturn, kwSuper, kwThis, kwTrue, kwVar, kwWhile]

/-- The characters of a keyword. -/
def spelling : Keyword → List Char
  | kwAnd => ['a', 'n', 'd']
  | kwClass => ['c', 'l', 'a', 's', 's']
  | kwElse => ['e', 'l', 's', 'e']
  | kwFalse => ['f', 'a', 'l', 's', 'e']
  | kwFor => ['f', 'o', 'r']
  | kwFun => ['f', 'u', 'n']
  | kwIf => ['i', 'f']
  | kwNil => ['n', 'i', 'l']
  | kwOr => ['o', 'r']
  | kwPrint => ['p', 'r', 'i', 'n', 't']
  | kwReturn => ['r', 'e', 't', 'u', 'r', 'n']
  | kwSuper => ['s', 'u', 'p', 'e', 'r']
  | kwThis => ['t', 'h', 'i', 's']
  | kwTrue => ['t', 'r', 'u', 'e']
  | kwVar => ['v', 'a', 'r']
  | kwWhile => ['w', 'h', 'i', 'l', 'e']

/-- Name of a keyword in token listings. -/
def name (keyword : Keyword) : String :=
  String.ofList (keyword.spelling.map Char.toUpper)

/-- The keyword with a given spelling. -/
def ofSpelling? (text : List Char) : Option Keyword :=
  all.find? fun keyword => keyword.spelling == text

/-- Keywords that begin a declaration or a statement. -/
def startsStatement : Keyword → Bool
  | kwClass | kwFun | kwVar | kwFor | kwIf | kwWhile | kwPrint | kwReturn => true
  | _ => false

theorem mem_all (keyword : Keyword) : keyword ∈ all := by
  cases keyword <;> decide

@[simp]
theorem ofSpelling?_spelling (keyword : Keyword) :
    ofSpelling? keyword.spelling = some keyword := by
  cases keyword <;> decide

end Keyword

/-- What a token is.  A token list made by hand may hold kinds under other
names, which no rule of the grammar accepts. -/
inductive TokenKind where
  | symbol (symbol : Symbol)
  | keyword (keyword : Keyword)
  | identifier
  | string
  | number
  | eof
  | other (name : String)
deriving DecidableEq, Repr

namespace TokenKind

/-- Name of a kind in token listings. -/
def name : TokenKind → String
  | symbol s => s.name
  | keyword k => k.name
  | identifier => "IDENTIFIER"
  | string => "STRING"
  | number => "NUMBER"
  | eof => "EOF"
  | other name => name

/-- The kinds that the scanner makes. -/
def all : List TokenKind :=
  Symbol.all.map symbol ++ Keyword.all.map keyword ++ [identifier, string, number, eof]

/-- The kind with a given name. -/
def ofName (name : String) : TokenKind :=
  (all.find? fun kind => kind.name == name).getD (other name)

end TokenKind

/-- A token.  Only numbers and strings have a literal other than nil. -/
structure Token where
  kind : TokenKind
  lexeme : String
  literal : Value
  line : Int
deriving DecidableEq

namespace Token

/-- Text of a token in listings: the names of its kind, its lexeme and its
literal, in which numbers are written in full. -/
def listing (token : Token) : String :=
  let literal := match token.literal with
    | .number x => Value.fullNumber x
    | value => value.display
  token.kind.name ++ " " ++ token.lexeme ++ " " ++ literal

end Token

end TreeWalker
