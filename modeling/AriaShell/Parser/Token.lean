import Mathlib.Data.List.Basic
/-! The shell language's tokens, as `parser/token.hpp` declares them, and the keyword table of
`ShellLexer::initKeywords`. -/
namespace AriaShell.Parser

/-- `TokenType`, in the order of the enumeration. -/
inductive TokenType where
  | integer | float | string | identifier
  | kwIf | kwElse | kwWhile | kwFor | kwIn | kwFunc | kwReturn | kwBreak | kwContinue | kwSpawn
  | kwInt8 | kwInt16 | kwInt32 | kwInt64 | kwTbb8 | kwTbb16 | kwTbb32 | kwTbb64
  | kwString | kwBuffer | kwBool | kwGc | kwWild
  | plus | minus | star | slash | percent
  | eq | ne | lt | le | gt | ge
  | and | or | not
  | assign | plusAssign | minusAssign
  | lparen | rparen | lbrace | rbrace | lbracket | rbracket | semicolon | comma | dot | colon
  | pipe | redirectOut | redirectAppend | redirectIn | background | interpStart | newline
  | endOfFile | unknown
  deriving DecidableEq, Repr

/-- `Token::isType`: the range `KW_INT8 ..= KW_WILD` of the enumeration. -/
def TokenType.isType : TokenType → Bool
  | .kwInt8 | .kwInt16 | .kwInt32 | .kwInt64 | .kwTbb8 | .kwTbb16 | .kwTbb32 | .kwTbb64
  | .kwString | .kwBuffer | .kwBool | .kwGc | .kwWild => true
  | _ => false

/-- `SourceLocation`: line and column, both counted from 1. -/
structure SourceLocation where
  line : Nat := 1
  column : Nat := 1
  deriving DecidableEq, Repr

/-- `Token`. Its `floatValue` is left out: no modelled function reads it. -/
structure Token where
  type : TokenType
  lexeme : List Char
  location : SourceLocation
  intValue : Int := 0
  deriving DecidableEq, Repr

/-- `keywords_`, as `initKeywords` fills it. -/
def keywords : List (List Char × TokenType) :=
  [("if".toList, .kwIf), ("else".toList, .kwElse), ("while".toList, .kwWhile),
    ("for".toList, .kwFor), ("in".toList, .kwIn), ("func".toList, .kwFunc),
    ("return".toList, .kwReturn), ("break".toList, .kwBreak), ("continue".toList, .kwContinue),
    ("spawn".toList, .kwSpawn),
    ("int8".toList, .kwInt8), ("int16".toList, .kwInt16), ("int32".toList, .kwInt32),
    ("int64".toList, .kwInt64), ("tbb8".toList, .kwTbb8), ("tbb16".toList, .kwTbb16),
    ("tbb32".toList, .kwTbb32), ("tbb64".toList, .kwTbb64), ("string".toList, .kwString),
    ("buffer".toList, .kwBuffer), ("bool".toList, .kwBool), ("gc".toList, .kwGc),
    ("wild".toList, .kwWild)]

/-- `ShellLexer::identifierType`: the keyword a word spells, or `IDENTIFIER`. -/
def identifierType (text : List Char) : TokenType :=
  (keywords.lookup text).getD .identifier

theorem identifierType_ne_endOfFile (text : List Char) : identifierType text ≠ .endOfFile := by
  have hkw : ∀ p ∈ keywords, p.2 ≠ .endOfFile := by decide
  unfold identifierType
  cases h : keywords.lookup text with
  | none => decide
  | some t =>
    obtain ⟨l₁, l₂, hl, -⟩ := List.lookup_eq_some_iff.mp h
    exact hkw (text, t) (by rw [hl]; simp)

end AriaShell.Parser
