import CheckedScript.Position

/-!
Tokens: the kinds that classification and the layout passes tell apart, and a token as a kind
with its text and position.
-/

namespace CheckedScript

namespace Token

/-- The category of a token. -/
inductive Kind
  | importKeyword
  | asKeyword
  | startComment
  | comment
  | stringLiteralMarker
  | stringLiteral
  | colon
  | comma
  | execMarker
  | semicolon
  | newLine
  | whitespace
  | openParen
  | closeParen
  | openSquare
  | closeSquare
  | openBrace
  | closeBrace
  | stringType
  | stringArrayType
  | identifier
  | unknown
deriving DecidableEq, Repr, Inhabited

namespace Kind

/-- The name under which a kind appears in token dumps. -/
def name : Kind → String
  | importKeyword => "ImportKeyword"
  | asKeyword => "AsKeyword"
  | startComment => "StartComment"
  | comment => "Comment"
  | stringLiteralMarker => "StringLiteralMarker"
  | stringLiteral => "StringLiteral"
  | colon => "Colon"
  | comma => "Comma"
  | execMarker => "ExecMarker"
  | semicolon => "Semicolon"
  | newLine => "NewLine"
  | whitespace => "Whitespace"
  | openParen => "OpenParen"
  | closeParen => "CloseParen"
  | openSquare => "OpenSquare"
  | closeSquare => "CloseSquare"
  | openBrace => "OpenBrace"
  | closeBrace => "CloseBrace"
  | stringType => "StringType"
  | stringArrayType => "StringArrayType"
  | identifier => "Identifier"
  | unknown => "Unknown"

def all : List Kind :=
  [importKeyword, asKeyword, startComment, comment, stringLiteralMarker, stringLiteral, colon,
   comma, execMarker, semicolon, newLine, whitespace, openParen, closeParen, openSquare,
   closeSquare, openBrace, closeBrace, stringType, stringArrayType, identifier, unknown]

/-- The kind with the given name. -/
def ofName? (name : String) : Option Kind := all.find? fun kind => kind.name = name

end Kind

end Token

/-- A classified piece of source text. -/
structure Token where
  kind : Token.Kind
  text : String
  position : Position
deriving DecidableEq, Repr, Inhabited

end CheckedScript
