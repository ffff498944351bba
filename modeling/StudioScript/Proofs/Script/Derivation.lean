import StudioScript.Script.Basic
import StudioScript.Token.Basic

/-! # Derivations

The published grammar (`grammarLines`), read over tokens: for each of its rules the token lists that
the rule derives, with what they write.  The published rules leave open where line feeds may stand
inside a call.  They may stand behind an opening bracket, on both sides of a comma and in front of a
closing bracket; in a predicate, and between a key and its value, they may not.  A `method` or a
`utility` is a name in any of its spellings.
-/

namespace StudioScript

namespace Grammar

variable {α : Type}

/-- `NEWLINE*` -/
def Newlines (ts : List Token) : Prop := ∀ t ∈ ts, t.kind = .newline

/-- `separator*` -/
def Separators (ts : List Token) : Prop := ∀ t ∈ ts, t.kind = .newline ∨ t.kind = .semicolon

/-- `NAME`; the words that start statements are names as well. -/
inductive Name : Token → String → Prop where
  | identifier (word p) : Name ⟨.identifier word, p⟩ word
  | track (p) : Name ⟨.track, p⟩ "track"
  | filter (p) : Name ⟨.filter, p⟩ "filter"
  | map (p) : Name ⟨.map, p⟩ "map"
  | forEach (p) : Name ⟨.forEach, p⟩ "for_each"

/-! ## Literals and arguments -/

/-- `(item ("," item)* ","?)?` -/
inductive Listed (item : List Token → α → Prop) : List Token → List α → Prop where
  | none : Listed item [] []
  | last {ts x gap} (read : item ts x) (newlines : Newlines gap) : Listed item (ts ++ gap) [x]
  -- With no item behind it the comma is the one at the end.
  | more {ts x before p after rest xs} (read : item ts x) (newlines : Newlines before)
      (newlines' : Newlines after) (others : Listed item rest xs) :
      Listed item (ts ++ (before ++ ⟨.comma, p⟩ :: (after ++ rest))) (x :: xs)

/-- Items between brackets. -/
inductive Bracketed (opening closing : TokenKind) (item : List Token → α → Prop) :
    List Token → List α → Prop where
  | mk {p gap ts xs q} (newlines : Newlines gap) (items : Listed item ts xs) :
      Bracketed opening closing item (⟨opening, p⟩ :: (gap ++ (ts ++ [⟨closing, q⟩]))) xs

/-- `NAME "=" value` -/
inductive Field (value : List Token → Literal → Prop) : List Token → String × Literal → Prop where
  | mk {t key p ts v} (name : Name t key) (read : value ts v) :
      Field value (t :: ⟨.assign, p⟩ :: ts) (key, v)

/-- `STRING | NUMBER | BOOLEAN | array | object`; no key of an object stands twice. -/
inductive Value : List Token → Literal → Prop where
  | string (s p) : Value [⟨.string s, p⟩] (.string s)
  | number (x p) : Value [⟨.number x, p⟩] (.number x)
  | boolean (b p) : Value [⟨.boolean b, p⟩] (.boolean b)
  | array {ts items} (read : Bracketed .leftBracket .rightBracket Value ts items) :
      Value ts (.array items)
  | object {ts entries} (read : Bracketed .leftBrace .rightBrace (Field Value) ts entries)
      (distinct : (entries.map Prod.fst).Nodup) : Value ts (.object (Members.ofEntries entries))

/-- `"(" kwargs? ")"`; the keys are distinct, as they are in all arguments. -/
def Parenthesized (ts : List Token) (args : Arguments) : Prop :=
  Bracketed .leftParen .rightParen (Field Value) ts args.entries

/-! ## Calls -/

/-- `"track" "(" (NUMBER | kwargs)? ")"`; a lone number is the `id`. -/
inductive TrackCall : List Token → Call → Prop where
  | number {p q before x r after s} (newlines : Newlines before) (newlines' : Newlines after) :
      TrackCall
        (⟨.track, p⟩ :: ⟨.leftParen, q⟩ ::
          (before ++ ⟨.number x, r⟩ :: (after ++ [⟨.rightParen, s⟩])))
        (.track (.single "id" (.number x)))
  | keywords {p ts args} (read : Parenthesized ts args) :
      TrackCall (⟨.track, p⟩ :: ts) (.track args)

/-- `compare_op` -/
inductive CompareOp : TokenKind → Comparison → Prop where
  | equal : CompareOp .equal .equal
  | notEqual : CompareOp .notEqual .notEqual
  | less : CompareOp .less .less
  | greater : CompareOp .greater .greater
  | atMost : CompareOp .atMost .atMost
  | atLeast : CompareOp .atLeast .atLeast

/-- `NAME "." NAME compare_op value | NAME "." NAME "in" array` -/
inductive Condition : List Token → Predicate → Prop where
  | compare {t binder p t' field op comparison q ts operand} (name : Name t binder)
      (name' : Name t' field) (compares : CompareOp op comparison) (read : Value ts operand) :
      Condition (t :: ⟨.dot, p⟩ :: t' :: ⟨op, q⟩ :: ts) ⟨binder, field, comparison, operand⟩
  | member {t binder p t' field q ts items} (name : Name t binder) (name' : Name t' field)
      (read : Bracketed .leftBracket .rightBracket Value ts items) :
      Condition (t :: ⟨.dot, p⟩ :: t' :: ⟨.member, q⟩ :: ts) ⟨binder, field, .member, .array items⟩

/-- `"@" NAME | NAME "." (method | utility) "(" kwargs? ")"` -/
inductive FunctionRef : List Token → ItemFunction → Prop where
  | named {p t word} (name : Name t word) : FunctionRef [⟨.atSign, p⟩, t] (.named word)
  | method {t binder p t' word method ts args} (name : Name t binder) (name' : Name t' word)
      (spells : Method.ofName? word = some method) (read : Parenthesized ts args) :
      FunctionRef (t :: ⟨.dot, p⟩ :: t' :: ts) (.method binder ⟨method, args⟩)

/-- `keyword "(" NAME "," content ")"` -/
inductive CollectionCall (keyword : TokenKind) (content : List Token → α → Prop) :
    List Token → String → α → Prop where
  | mk {p q gap t collection r gap' ts x gap'' s} (newlines : Newlines gap)
      (name : Name t collection) (newlines' : Newlines gap') (read : content ts x)
      (newlines'' : Newlines gap'') :
      CollectionCall keyword content
        (⟨keyword, p⟩ :: ⟨.leftParen, q⟩ ::
          (gap ++ t :: ⟨.comma, r⟩ :: (gap' ++ (ts ++ (gap'' ++ [⟨.rightParen, s⟩])))))
        collection x

/-- `utility "(" kwargs? ")"` -/
inductive UtilityCall : List Token → Call → Prop where
  | mk {t word utility ts args} (name : Name t word)
      (spells : Method.ofName? word = some (.utility utility)) (read : Parenthesized ts args) :
      UtilityCall (t :: ts) (.method ⟨.utility utility, args⟩)

/-! ## Statements -/

/-- `chain*`, with `chain : NEWLINE* "." (method | utility) "(" kwargs? ")"` -/
inductive Chain : List Token → List Invocation → Prop where
  | none : Chain [] []
  | link {gap p t word method ts args rest invocations} (newlines : Newlines gap)
      (name : Name t word) (spells : Method.ofName? word = some method)
      (read : Parenthesized ts args) (others : Chain rest invocations) :
      Chain (gap ++ ⟨.dot, p⟩ :: t :: (ts ++ rest)) (⟨method, args⟩ :: invocations)

/-- The calls that may carry a chain: `track_call | filter_call | utility_call` -/
inductive ChainableCall : List Token → Call → Prop where
  | track {ts call} (read : TrackCall ts call) : ChainableCall ts call
  | filter {ts collection predicate}
      (read : CollectionCall .filter Condition ts collection predicate) :
      ChainableCall ts (.filter collection predicate)
  | utility {ts call} (read : UtilityCall ts call) : ChainableCall ts call

/-- The calls that may not: `map_call | for_each_call` -/
inductive ItemwiseCall : List Token → Call → Prop where
  | map {ts collection function} (read : CollectionCall .map FunctionRef ts collection function) :
      ItemwiseCall ts (.map collection function)
  | forEach {ts collection function}
      (read : CollectionCall .forEach FunctionRef ts collection function) :
      ItemwiseCall ts (.forEach collection function)

/-- A statement is on the line of its first token. -/
inductive StatementRule : List Token → Statement → Prop where
  | chained {t ts head links chain} (read : ChainableCall (t :: ts) head)
      (chained : Chain links chain) :
      StatementRule (t :: ts ++ links) ⟨t.position.line, head, chain⟩
  | alone {t ts head} (read : ItemwiseCall (t :: ts) head) :
      StatementRule (t :: ts) ⟨t.position.line, head, []⟩

/-- `statement (separator+ statement)*` -/
inductive Statements : List Token → List Statement → Prop where
  | last {ts statement} (read : StatementRule ts statement) : Statements ts [statement]
  | more {ts statement gap rest statements} (read : StatementRule ts statement)
      (separators : Separators gap) (some : gap ≠ []) (others : Statements rest statements) :
      Statements (ts ++ (gap ++ rest)) (statement :: statements)

/-- `separator* (statement (separator+ statement)*)? separator* EOF` -/
inductive ScriptRule : List Token → Script → Prop where
  | empty {gap p} (separators : Separators gap) : ScriptRule (gap ++ [⟨.endOfInput, p⟩]) ⟨[]⟩
  | statements {gap ts statements gap' p} (separators : Separators gap)
      (read : Statements ts statements) (separators' : Separators gap') :
      ScriptRule (gap ++ (ts ++ (gap' ++ [⟨.endOfInput, p⟩]))) ⟨statements⟩

end Grammar

end StudioScript
