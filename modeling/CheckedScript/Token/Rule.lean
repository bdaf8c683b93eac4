import CheckedScript.Error
import CheckedScript.Fragment
import CheckedScript.Regex.Reader
import CheckedScript.Token

/-!
Classification: an ordered list of rules gives each fragment the kind of the first rule that
accepts its text. A rule accepts one text, or every text that a regular expression matches as a
whole.
-/

namespace CheckedScript.Token

/-- What texts a rule accepts. -/
inductive Test
  | exact (text : String)
  | pattern (regex : Regex)
deriving Repr

def Test.accepts (text : String) : Test → Bool
  | exact expected => expected = text
  | pattern regex => regex.occursIn text.toList

structure Rule where
  test : Test
  kind : Kind
deriving Repr

namespace Rule

def exact (text : String) (kind : Kind) : Rule := ⟨.exact text, kind⟩

/-- The rule for texts that match `pattern` from end to end. -/
def ofPattern (pattern : String) (kind : Kind) : Except CompileError Rule :=
  match Regex.ofText ("^(?:" ++ pattern ++ ")$") with
  | .ok regex => .ok ⟨.pattern regex, kind⟩
  | .error fault => .error (.classification pattern fault)

/-- Names: a letter, then letters, digits and underscores. -/
def nameRegex : Regex :=
  let letters := [('a', 'z'), ('A', 'Z')]
  .cat .start (.cat (.cat (.one ⟨false, letters⟩)
    (.star (.one ⟨false, letters ++ [('0', '9'), ('_', '_')]⟩))) .stop)

/-- The rules of the language. Keywords and `string` stand before names, which they would be. -/
def standard : List Rule :=
  [exact "import" .importKeyword,
   exact "as" .asKeyword,
   exact "string" .stringType,
   exact "#" .startComment,
   exact ":" .colon,
   exact "," .comma,
   exact "$" .execMarker,
   exact ";" .semicolon,
   exact "\n" .newLine,
   exact " " .whitespace,
   exact "\t" .whitespace,
   exact "\r" .whitespace,
   exact "(" .openParen,
   exact ")" .closeParen,
   exact "[" .openSquare,
   exact "]" .closeSquare,
   exact "\x7b" .openBrace,
   exact "\x7d" .closeBrace,
   exact "\"" .stringLiteralMarker,
   ⟨.pattern nameRegex, .identifier⟩]

end Rule

/-- The kind of the first rule that accepts `text`. -/
def classify (rules : List Rule) (text : String) : Kind :=
  match rules.find? fun rule => rule.test.accepts text with
  | some rule => rule.kind
  | none => .unknown

/-- The token for a fragment. -/
def ofFragment (rules : List Rule) (fragment : Fragment) : Token :=
  ⟨classify rules fragment.text, fragment.text, fragment.position⟩

end CheckedScript.Token
