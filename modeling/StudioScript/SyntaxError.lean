import StudioScript.Script.Method
import StudioScript.Token.Basic

/-! # Syntax errors

What can be wrong with the text of a script, with the place and the wording of each fault.  A
script with a syntax error has no calls at all.
-/

namespace StudioScript

/-- A fault in the spelling of a token. -/
inductive LexicalFault where
  | unexpectedCharacter (c : Char)
  | loneExclamationMark
  | unclosedString
  | loneMinus
  | invalidNumber (spelling : String)
  | numberOutOfRange
deriving DecidableEq, Repr

namespace LexicalFault

def message : LexicalFault → String
  | .unexpectedCharacter c => "unexpected character: '" ++ String.singleton c ++ "'"
  | .loneExclamationMark => "expected '=' after '!'"
  | .unclosedString => "unclosed string literal"
  | .loneMinus => "unexpected '-'"
  | .invalidNumber spelling => "invalid number: " ++ spelling
  | .numberOutOfRange => "number out of range"

end LexicalFault

/-- A fault in the order of tokens. -/
inductive GrammarFault where
  | expected (wanted found : TokenKind)
  | expectedName (found : TokenKind)
  | expectedLiteral (found : TokenKind)
  | expectedComparison (found : TokenKind)
  | expectedStatement (found : TokenKind)
  | expectedEndOfStatement (found : TokenKind)
  | unknownMethod (word : String)
  | unknownStatement (word : String)
  | unchainedEdit (edit : Edit)
  | chainAfter (call : String)
  | duplicateArgument (key : String)
  | memberOfNoArray (typeName : String)
deriving DecidableEq, Repr

namespace GrammarFault

def message : GrammarFault → String
  | .expected wanted found => "expected " ++ wanted.describe ++ ", got " ++ found.describe
  | .expectedName found => "expected a name, got " ++ found.describe
  | .expectedLiteral found => "expected a literal value, got " ++ found.describe
  | .expectedComparison found => "expected comparison operator, got " ++ found.describe
  | .expectedStatement found => "expected a statement, got " ++ found.describe
  | .expectedEndOfStatement found => "expected end of statement, got " ++ found.describe
  | .unknownMethod word => "unknown method '" ++ word ++ "'"
  | .unknownStatement word => "unknown statement '" ++ word ++ "'"
  | .unchainedEdit edit =>
      "'" ++ edit.name ++ "' must be chained onto a track or filter call"
  | .chainAfter call => "'" ++ call ++ "' cannot be followed by a chained call"
  | .duplicateArgument key => "duplicate argument '" ++ key ++ "'"
  | .memberOfNoArray typeName => "'in' expects an array, got " ++ typeName

end GrammarFault

/-- A fault in the text of a script. -/
inductive SyntaxFault where
  | lexical (fault : LexicalFault)
  | grammatical (fault : GrammarFault)
deriving DecidableEq, Repr

/-- A fault and the place of the character or token that it starts with. -/
structure SyntaxError where
  fault : SyntaxFault
  position : Position
deriving DecidableEq, Repr

namespace SyntaxError

def kind (e : SyntaxError) : String :=
  match e.fault with
  | .lexical _ => "LexError"
  | .grammatical _ => "ParseError"

/-- The wording of the error, without its place. -/
def message (e : SyntaxError) : String :=
  match e.fault with
  | .lexical fault => fault.message
  | .grammatical fault => fault.message

/-- The error on one line: its place, its kind and its wording. -/
def display (e : SyntaxError) : String :=
  "[" ++ toString e.position.line ++ ":" ++ toString e.position.column ++ "] " ++ e.kind ++ ": "
    ++ e.message

end SyntaxError

end StudioScript
