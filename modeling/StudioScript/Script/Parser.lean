import StudioScript.Script.Basic
import StudioScript.Token.Lexer

/-! # Parsing

`Script.ofTokens` builds a script from its tokens.  Each rule reads from the head of a token list
and returns what it read and the tokens behind it, or the first fault that it meets.  The end of
the input is never read past: the first such token ends the script.

The rules for nested literals carry a bound on their steps.  Every literal, item and argument takes
a token, so that twice the number of tokens is never exceeded (`stepsFor`).
-/

namespace StudioScript

namespace Parse

/-! ## Single tokens -/

def next (ts : List Token) : Token := ts.headD ⟨.endOfInput, .start⟩

/-- A fault at the next token, which the fault names. -/
def faultAt {α : Type} (ts : List Token) (fault : TokenKind → GrammarFault) :
    Except SyntaxError α :=
  .error ⟨.grammatical (fault (next ts).kind), (next ts).position⟩

def expect (wanted : TokenKind) (ts : List Token) : Except SyntaxError (List Token) :=
  if (next ts).kind = wanted then .ok ts.tail else faultAt ts (.expected wanted)

/-- Whether the token only ends a line. -/
def isNewline (t : Token) : Bool := t.kind == .newline

def isSeparator (t : Token) : Bool := t.kind == .newline || t.kind == .semicolon

def skipNewlines (ts : List Token) : List Token := ts.dropWhile isNewline

def skipSeparators (ts : List Token) : List Token := ts.dropWhile isSeparator

/-- The name that a token is.  The words that start statements are names elsewhere. -/
def nameOf? : TokenKind → Option String
  | .identifier word => some word
  | .track => some "track"
  | .filter => some "filter"
  | .map => some "map"
  | .forEach => some "for_each"
  | _ => none

def name (ts : List Token) : Except SyntaxError (String × List Token) :=
  match nameOf? (next ts).kind with
  | some word => .ok (word, ts.tail)
  | none => faultAt ts .expectedName

def method (ts : List Token) : Except SyntaxError (Method × List Token) := do
  let (word, rest) ← name ts
  match Method.ofName? word with
  | some m => return (m, rest)
  | none => faultAt ts fun _ => .unknownMethod word

/-! ## Literals and arguments -/

/-- A bound on the steps that reading a literal or arguments takes. -/
def stepsFor (ts : List Token) : Nat := 2 * ts.length + 1

mutual

def literalIn : Nat → List Token → Except SyntaxError (Literal × List Token)
  | 0, ts => faultAt ts .expectedLiteral
  | steps + 1, ts =>
      match (next ts).kind with
      | .string s => .ok (.string s, ts.tail)
      | .number x => .ok (.number x, ts.tail)
      | .boolean b => .ok (.boolean b, ts.tail)
      | .leftBracket => do
          let (items, rest) ← itemsIn steps (skipNewlines ts.tail)
          let rest ← expect .rightBracket rest
          return (.array items, rest)
      | .leftBrace => do
          let (args, rest) ← argumentsIn steps .rightBrace .empty (skipNewlines ts.tail)
          let rest ← expect .rightBrace rest
          return (.object (Members.ofEntries args.entries), rest)
      | _ => faultAt ts .expectedLiteral

/-- Reads the items of an array, up to its closing bracket.  A comma may stand behind the last. -/
def itemsIn : Nat → List Token → Except SyntaxError (List Literal × List Token)
  | 0, ts => faultAt ts .expectedLiteral
  | steps + 1, ts =>
      if (next ts).kind = .rightBracket then .ok ([], ts)
      else do
        let (item, rest) ← literalIn steps ts
        let rest := skipNewlines rest
        if (next rest).kind = .comma then
          let (items, rest) ← itemsIn steps (skipNewlines rest.tail)
          return (item :: items, rest)
        else return ([item], rest)

/-- Reads arguments behind those that were read, up to a closing token.  A comma may stand behind
    the last. -/
def argumentsIn : Nat → TokenKind → Arguments → List Token →
    Except SyntaxError (Arguments × List Token)
  | 0, _, _, ts => faultAt ts .expectedLiteral
  | steps + 1, closing, args, ts =>
      if (next ts).kind = closing then .ok (args, ts)
      else do
        let (key, rest) ← name ts
        let rest ← expect .assign rest
        let (value, rest) ← literalIn steps rest
        match args.add? key value with
        | none => faultAt ts fun _ => .duplicateArgument key
        | some args =>
            let rest := skipNewlines rest
            if (next rest).kind = .comma then
              argumentsIn steps closing args (skipNewlines rest.tail)
            else return (args, rest)

end

def literal (ts : List Token) : Except SyntaxError (Literal × List Token) :=
  literalIn (stepsFor ts) ts

/-- Reads the arguments of a call, up to its closing parenthesis. -/
def arguments (ts : List Token) : Except SyntaxError (Arguments × List Token) :=
  argumentsIn (stepsFor ts) .rightParen .empty (skipNewlines ts)

def parenthesized (ts : List Token) : Except SyntaxError (Arguments × List Token) := do
  let rest ← expect .leftParen ts
  let (args, rest) ← arguments rest
  let rest ← expect .rightParen rest
  return (args, rest)

/-! ## Calls -/

/-- Reads a track call behind its keyword.  A lone number is the `id`. -/
def trackCall (ts : List Token) : Except SyntaxError (Call × List Token) := do
  let rest := skipNewlines (← expect .leftParen ts)
  match (next rest).kind with
  | .number x =>
      let rest ← expect .rightParen (skipNewlines rest.tail)
      return (.track (.single "id" (.number x)), rest)
  | _ =>
      let (args, rest) ← arguments rest
      let rest ← expect .rightParen rest
      return (.track args, rest)

def comparisonOf? : TokenKind → Option Comparison
  | .equal => some .equal
  | .notEqual => some .notEqual
  | .less => some .less
  | .greater => some .greater
  | .atMost => some .atMost
  | .atLeast => some .atLeast
  | .member => some .member
  | _ => none

/-- Reads a predicate.  The operand of `in` is an array. -/
def predicate (ts : List Token) : Except SyntaxError (Predicate × List Token) := do
  let (binder, rest) ← name ts
  let rest ← expect .dot rest
  let (field, rest) ← name rest
  match comparisonOf? (next rest).kind with
  | none => faultAt rest .expectedComparison
  | some comparison =>
      let start := rest.tail
      let (operand, rest) ← literal start
      if comparison = .member ∧ operand.asArray?.isNone then
        faultAt start fun _ => .memberOfNoArray operand.typeName
      else return (⟨binder, field, comparison, operand⟩, rest)

/-- Reads an opening parenthesis, the name of a collection and a comma. -/
def collection (ts : List Token) : Except SyntaxError (String × List Token) := do
  let rest ← expect .leftParen ts
  let (collection, rest) ← name (skipNewlines rest)
  let rest ← expect .comma rest
  return (collection, skipNewlines rest)

def filterCall (ts : List Token) : Except SyntaxError (Call × List Token) := do
  let (collection, rest) ← collection ts
  let (predicate, rest) ← predicate rest
  let rest ← expect .rightParen (skipNewlines rest)
  return (.filter collection predicate, rest)

/-- Reads the function of `map` or `for_each`. -/
def itemFunction (ts : List Token) : Except SyntaxError (ItemFunction × List Token) :=
  if (next ts).kind = .atSign then do
    let (word, rest) ← name ts.tail
    return (.named word, rest)
  else do
    let (binder, rest) ← name ts
    let rest ← expect .dot rest
    let (method, rest) ← method rest
    let (args, rest) ← parenthesized rest
    return (.method binder ⟨method, args⟩, rest)

/-- Reads the parentheses of `map` or `for_each`. -/
def functionCall (ts : List Token) :
    Except SyntaxError ((String × ItemFunction) × List Token) := do
  let (collection, rest) ← collection ts
  let (function, rest) ← itemFunction rest
  let rest ← expect .rightParen (skipNewlines rest)
  return ((collection, function), rest)

def head (ts : List Token) : Except SyntaxError (Call × List Token) :=
  match (next ts).kind with
  | .track => trackCall ts.tail
  | .filter => filterCall ts.tail
  | .map => do
      let ((collection, function), rest) ← functionCall ts.tail
      return (.map collection function, rest)
  | .forEach => do
      let ((collection, function), rest) ← functionCall ts.tail
      return (.forEach collection function, rest)
  | .identifier word =>
      match Method.ofName? word with
      | none => faultAt ts fun _ => .unknownStatement word
      | some (.edit edit) => faultAt ts fun _ => .unchainedEdit edit
      | some (.utility utility) => do
          let (args, rest) ← parenthesized ts.tail
          return (.method ⟨.utility utility, args⟩, rest)
  | _ => faultAt ts .expectedStatement

/-! ## Statements -/

/-- Reads the methods chained onto a head.  A dot may stand on a later line. -/
def chainIn : Nat → List Token → Except SyntaxError (List Invocation × List Token)
  | 0, ts => .ok ([], ts)
  | steps + 1, ts =>
      let ahead := skipNewlines ts
      if (next ahead).kind = .dot then do
        let (method, rest) ← method ahead.tail
        let (args, rest) ← parenthesized rest
        let (invocations, rest) ← chainIn steps rest
        return (⟨method, args⟩ :: invocations, rest)
      else .ok ([], ts)

def statement (ts : List Token) : Except SyntaxError (Statement × List Token) := do
  let line := (next ts).position.line
  let (head, rest) ← head ts
  let ahead := skipNewlines rest
  if head.isChainable then
    let (chain, rest) ← chainIn rest.length rest
    return (⟨line, head, chain⟩, rest)
  else if (next ahead).kind = .dot then faultAt ahead fun _ => .chainAfter head.name
  else return (⟨line, head, []⟩, rest)

/-- Reads statements up to the end of the input.  Separators stand between them. -/
def statementsIn : Nat → List Token → Except SyntaxError (List Statement)
  | 0, _ => .ok []
  | steps + 1, ts =>
      let ts := skipSeparators ts
      if (next ts).kind = .endOfInput then .ok []
      else do
        let (statement, rest) ← statement ts
        match (next rest).kind with
        | .newline | .semicolon | .endOfInput =>
            let statements ← statementsIn steps rest
            return statement :: statements
        | _ => faultAt rest .expectedEndOfStatement

/-- The tokens with an end of the input behind them, at the place of the last token, if they lack
    one. -/
def closed (ts : List Token) : List Token :=
  match ts.getLast? with
  | none => [⟨.endOfInput, .start⟩]
  | some last => if last.kind = .endOfInput then ts else ts ++ [⟨.endOfInput, last.position⟩]

end Parse

namespace Script

def ofTokens (ts : List Token) : Except SyntaxError Script := do
  let ts := Parse.closed ts
  return ⟨← Parse.statementsIn ts.length ts⟩

def ofText (text : String) : Except SyntaxError Script := do
  ofTokens (← Token.ofText text)

end Script

end StudioScript
