import IncrementalC.Source.Position

/-!
Contract: the tokens of the language.

Owns:
- the lexemes: reserved words, names, integer literals, marks and the end of input;
- the names by which messages speak of a lexeme.

Does not own: how characters are grouped into lexemes.
-/

namespace IncrementalC

/-- The reserved words. -/
inductive Keyword where
  | intType
  | voidType
  | autoType
  | externWord
  | ifWord
  | elseWord
  | whileWord
  | returnWord
deriving DecidableEq, Repr

namespace Keyword

/-- Every reserved word. -/
def all : List Keyword :=
  [.intType, .voidType, .autoType, .externWord, .ifWord, .elseWord, .whileWord, .returnWord]

/-- How a reserved word is spelled. -/
def spelling : Keyword → String
  | .intType => "int"
  | .voidType => "void"
  | .autoType => "auto"
  | .externWord => "extern"
  | .ifWord => "if"
  | .elseWord => "else"
  | .whileWord => "while"
  | .returnWord => "return"

def ofSpelling? (word : String) : Option Keyword :=
  all.find? fun keyword => keyword.spelling == word

/-- The name of a reserved word in messages. -/
def describe : Keyword → String
  | .intType => "KwInt"
  | .voidType => "KwVoid"
  | .autoType => "KwAuto"
  | .externWord => "KwExtern"
  | .ifWord => "KwIf"
  | .elseWord => "KwElse"
  | .whileWord => "KwWhile"
  | .returnWord => "KwReturn"

theorem ofSpelling?_spelling (keyword : Keyword) :
    ofSpelling? keyword.spelling = some keyword := by
  cases keyword <;> decide

end Keyword

/-- Operators and delimiters. -/
inductive Mark where
  | plus
  | minus
  | star
  | slash
  | percent
  | assign
  | equal
  | notEqual
  | less
  | lessEqual
  | greater
  | greaterEqual
  | andAnd
  | orOr
  | bang
  | openParen
  | closeParen
  | openBrace
  | closeBrace
  | comma
  | semicolon
deriving DecidableEq, Repr

namespace Mark

def spelling : Mark → List Char
  | .plus => ['+']
  | .minus => ['-']
  | .star => ['*']
  | .slash => ['/']
  | .percent => ['%']
  | .assign => ['=']
  | .equal => ['=', '=']
  | .notEqual => ['!', '=']
  | .less => ['<']
  | .lessEqual => ['<', '=']
  | .greater => ['>']
  | .greaterEqual => ['>', '=']
  | .andAnd => ['&', '&']
  | .orOr => ['|', '|']
  | .bang => ['!']
  | .openParen => ['(']
  | .closeParen => [')']
  | .openBrace => ['{']
  | .closeBrace => ['}']
  | .comma => [',']
  | .semicolon => [';']

/-- The name of a mark in messages. -/
def describe : Mark → String
  | .plus => "Plus"
  | .minus => "Minus"
  | .star => "Star"
  | .slash => "Slash"
  | .percent => "Percent"
  | .assign => "Assign"
  | .equal => "EqEq"
  | .notEqual => "Neq"
  | .less => "Lt"
  | .lessEqual => "Le"
  | .greater => "Gt"
  | .greaterEqual => "Ge"
  | .andAnd => "AndAnd"
  | .orOr => "OrOr"
  | .bang => "Not"
  | .openParen => "LParen"
  | .closeParen => "RParen"
  | .openBrace => "LBrace"
  | .closeBrace => "RBrace"
  | .comma => "Comma"
  | .semicolon => "Semicolon"

end Mark

/-- What a token is, apart from where it stands. -/
inductive Lexeme where
  | keyword (word : Keyword)
  | identifier (name : String)
  | integer (value : Int64)
  | mark (symbol : Mark)
  | endOfInput
deriving DecidableEq, Repr

/-- The name of a lexeme in messages. -/
def Lexeme.describe : Lexeme → String
  | .keyword word => word.describe
  | .identifier name => "Identifier(\"" ++ name ++ "\")"
  | .integer value => "IntLiteral(" ++ toString value ++ ")"
  | .mark symbol => symbol.describe
  | .endOfInput => "Eof"

/-- A lexeme at its place in the text. -/
structure Token where
  lexeme : Lexeme
  span : Span
deriving DecidableEq, Repr

end IncrementalC
