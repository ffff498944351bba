import StudioScript.Proofs.Machine
import StudioScript.Proofs.Script.Statements

/-! # Parsing with a cursor

The rules of the parser, on tokens that stay where they are: a cursor moves over them, and loops run
for as long as their condition holds.  A step has no outcome where it looks outside of the tokens,
or where a loop goes round, or a literal is nested, more often than a limit allows (`Cursor.Step`).
Whether a step does as its rule is `Cursor.Agrees`: it has the outcome of the rule, and takes the
cursor to the tokens that the rule leaves.  This holds of the steps that read single tokens, and of
the loops that skip them.
-/

namespace StudioScript

/-- Where a parser stands among tokens, all places where it has stood, and how many statements it
    has begun to read. -/
structure Cursor where
  index : Nat := 0
  trail : List Nat := [0]
  begun : Nat := 0

namespace Cursor

open Machine

/-- A step of a parser with a cursor.  Looking outside of the tokens has no outcome, and neither has
    a loop that goes round too often. -/
abbrev Step := Machine SyntaxError Cursor

variable {α β : Type}

section

variable (tokens : List Token) (limit : Nat)

/-! ## Single tokens -/

/-- The token that the cursor stands on. -/
def peek : Step Token := do
  match tokens[(← get).index]? with
  | some t => return t
  | none => stuck

def moveTo (index : Nat) : Step Unit :=
  modify fun c => { c with index, trail := index :: c.trail }

/-- Moves on by a token, though not from the end of the input, and returns the token. -/
def advance : Step Token := do
  let t ← peek tokens
  if t.kind ≠ .endOfInput then moveTo ((← get).index + 1)
  return t

def faultAt (t : Token) (fault : TokenKind → GrammarFault) : Step α :=
  throw ⟨.grammatical (fault t.kind), t.position⟩

def expect (wanted : TokenKind) : Step Unit := do
  let t ← peek tokens
  if t.kind = wanted then
    let _ ← advance tokens
  else faultAt t (.expected wanted)

def skipWhile (skips : Token → Bool) : Nat → Step Unit
  | 0 => stuck
  | rounds + 1 => do
      if skips (← peek tokens) then
        let _ ← advance tokens
        skipWhile skips rounds

def skipNewlines : Step Unit := skipWhile tokens Parse.isNewline limit

def skipSeparators : Step Unit := skipWhile tokens Parse.isSeparator limit

/-- Whether a token of the kind stands behind line feeds.  Only then they are skipped. -/
def skipsTo (kind : TokenKind) : Step Bool := do
  let start := (← get).index
  skipNewlines tokens limit
  if (← peek tokens).kind = kind then return true
  else
    moveTo start
    return false

def name : Step String := do
  let t ← peek tokens
  match Parse.nameOf? t.kind with
  | some word =>
      let _ ← advance tokens
      return word
  | none => faultAt t .expectedName

def method : Step Method := do
  let t ← peek tokens
  let word ← name tokens
  match Method.ofName? word with
  | some m => return m
  | none => faultAt t fun _ => .unknownMethod word

/-! ## Literals and arguments -/

/-- Reads a key, an equals sign and a value. -/
def argument (literal : Step Literal) : Step (String × Literal) := do
  let key ← name tokens
  expect tokens .assign
  let value ← literal
  return (key, value)

mutual

def literalIn : Nat → Step Literal
  | 0 => stuck
  | rounds + 1 => do
      let t ← peek tokens
      match t.kind with
      | .string s =>
          let _ ← advance tokens
          return .string s
      | .number x =>
          let _ ← advance tokens
          return .number x
      | .boolean b =>
          let _ ← advance tokens
          return .boolean b
      | .leftBracket =>
          let _ ← advance tokens
          skipNewlines tokens limit
          let items ← itemsIn rounds
          expect tokens .rightBracket
          return .array items
      | .leftBrace =>
          let _ ← advance tokens
          skipNewlines tokens limit
          let args ← argumentsIn .rightBrace .empty rounds
          expect tokens .rightBrace
          return .object (Members.ofEntries args.entries)
      | _ => faultAt t .expectedLiteral

/-- Reads the items of an array, up to its closing bracket. -/
def itemsIn : Nat → Step (List Literal)
  | 0 => stuck
  | rounds + 1 => do
      if (← peek tokens).kind = .rightBracket then return []
      else
        let item ← literalIn rounds
        skipNewlines tokens limit
        if (← peek tokens).kind = .comma then
          let _ ← advance tokens
          skipNewlines tokens limit
          let rest ← itemsIn rounds
          return item :: rest
        else return [item]

/-- Reads arguments behind those that were read, up to a closing token. -/
def argumentsIn (closing : TokenKind) (args : Arguments) : Nat → Step Arguments
  | 0 => stuck
  | rounds + 1 => do
      let t ← peek tokens
      if t.kind = closing then return args
      else
        let (key, value) ← argument tokens (literalIn rounds)
        match args.add? key value with
        | none => faultAt t fun _ => .duplicateArgument key
        | some args =>
            skipNewlines tokens limit
            if (← peek tokens).kind = .comma then
              let _ ← advance tokens
              skipNewlines tokens limit
              argumentsIn closing args rounds
            else return args

end

def literal : Step Literal := literalIn tokens limit limit

def arguments : Step Arguments := do
  skipNewlines tokens limit
  argumentsIn tokens limit .rightParen .empty limit

def parenthesized : Step Arguments := do
  expect tokens .leftParen
  let args ← arguments tokens limit
  expect tokens .rightParen
  return args

/-! ## Calls -/

def trackCall : Step Call := do
  expect tokens .leftParen
  skipNewlines tokens limit
  match (← peek tokens).kind with
  | .number x =>
      let _ ← advance tokens
      skipNewlines tokens limit
      expect tokens .rightParen
      return .track (.single "id" (.number x))
  | _ =>
      let args ← arguments tokens limit
      expect tokens .rightParen
      return .track args

def predicate : Step Predicate := do
  let binder ← name tokens
  expect tokens .dot
  let field ← name tokens
  let t ← advance tokens
  match Parse.comparisonOf? t.kind with
  | none => faultAt t .expectedComparison
  | some comparison =>
      let start ← peek tokens
      let operand ← literal tokens limit
      if comparison = .member ∧ operand.asArray?.isNone then
        faultAt start fun _ => .memberOfNoArray operand.typeName
      else return ⟨binder, field, comparison, operand⟩

def collection : Step String := do
  expect tokens .leftParen
  skipNewlines tokens limit
  let collection ← name tokens
  expect tokens .comma
  skipNewlines tokens limit
  return collection

def filterCall : Step Call := do
  let collection ← collection tokens limit
  let predicate ← predicate tokens limit
  skipNewlines tokens limit
  expect tokens .rightParen
  return .filter collection predicate

def itemFunction : Step ItemFunction := do
  if (← peek tokens).kind = .atSign then
    let _ ← advance tokens
    let word ← name tokens
    return .named word
  else
    let binder ← name tokens
    expect tokens .dot
    let method ← method tokens
    let args ← parenthesized tokens limit
    return .method binder ⟨method, args⟩

def functionCall : Step (String × ItemFunction) := do
  let collection ← collection tokens limit
  let function ← itemFunction tokens limit
  skipNewlines tokens limit
  expect tokens .rightParen
  return (collection, function)

def head : Step Call := do
  let t ← peek tokens
  match t.kind with
  | .track =>
      let _ ← advance tokens
      trackCall tokens limit
  | .filter =>
      let _ ← advance tokens
      filterCall tokens limit
  | .map =>
      let _ ← advance tokens
      let (collection, function) ← functionCall tokens limit
      return .map collection function
  | .forEach =>
      let _ ← advance tokens
      let (collection, function) ← functionCall tokens limit
      return .forEach collection function
  | .identifier word =>
      match Method.ofName? word with
      | none => faultAt t fun _ => .unknownStatement word
      | some (.edit edit) => faultAt t fun _ => .unchainedEdit edit
      | some (.utility utility) =>
          let _ ← advance tokens
          let args ← parenthesized tokens limit
          return .method ⟨.utility utility, args⟩
  | _ => faultAt t .expectedStatement

/-! ## Statements -/

/-- Reads the methods chained onto a head. -/
def chainIn : Nat → Step (List Invocation)
  | 0 => stuck
  | rounds + 1 => do
      if ← skipsTo tokens limit .dot then
        let _ ← advance tokens
        let method ← method tokens
        let args ← parenthesized tokens limit
        let rest ← chainIn rounds
        return ⟨method, args⟩ :: rest
      else return []

def statement : Step Statement := do
  let line := (← peek tokens).position.line
  let head ← head tokens limit
  if head.isChainable then
    let chain ← chainIn tokens limit limit
    return ⟨line, head, chain⟩
  else if ← skipsTo tokens limit .dot then
    faultAt (← peek tokens) fun _ => .chainAfter head.name
  else return ⟨line, head, []⟩

/-- Reads statements up to the end of the input, behind separators. -/
def statementsIn : Nat → Step (List Statement)
  | 0 => stuck
  | rounds + 1 => do
      if (← peek tokens).kind = .endOfInput then return []
      else
        modify fun c => { c with begun := c.begun + 1 }
        let first ← statement tokens limit
        let t ← peek tokens
        match t.kind with
        | .newline | .semicolon =>
            skipSeparators tokens limit
            let rest ← statementsIn rounds
            return first :: rest
        | .endOfInput => return [first]
        | _ => faultAt t .expectedEndOfStatement

def script : Step Script := do
  skipSeparators tokens limit
  let statements ← statementsIn tokens limit limit
  return ⟨statements⟩

end

/-! ## Places -/

/-- The place of the first end of the input. -/
def firstEnd (tokens : List Token) : Nat := tokens.findIdx (·.kind == .endOfInput)

/-- Whether tokens have an end, and the limit of rounds is enough for them. -/
structure Fits (tokens : List Token) (limit : Nat) : Prop where
  ends : firstEnd tokens < tokens.length
  enough : Parse.stepsFor tokens ≤ limit

/-- Whether the cursor does not stand, and has never stood, behind the first end of the input. -/
structure Inside (tokens : List Token) (c : Cursor) : Prop where
  index : c.index ≤ firstEnd tokens
  trail : ∀ i ∈ c.trail, i ≤ firstEnd tokens

/-- The number of tokens that are not behind the cursor. -/
def remaining (tokens : List Token) (c : Cursor) : Nat := tokens.length - c.index

/-- Whether a cursor is taken from `c` to `c'`, forwards and inside, within one statement. -/
structure Moves (tokens : List Token) (c c' : Cursor) : Prop where
  inside : c'.Inside tokens
  forward : c.index ≤ c'.index
  begun : c'.begun = c.begun

theorem Moves.refl {tokens : List Token} {c : Cursor} (inside : c.Inside tokens) :
    Moves tokens c c :=
  ⟨inside, Nat.le_refl _, rfl⟩

theorem Moves.trans {tokens : List Token} {c c' c'' : Cursor} (first : Moves tokens c c')
    (second : Moves tokens c' c'') : Moves tokens c c'' :=
  ⟨second.inside, Nat.le_trans first.forward second.forward, second.begun.trans first.begun⟩

theorem Moves.remaining_le {tokens : List Token} {c c' : Cursor} (moves : Moves tokens c c') :
    c'.remaining tokens ≤ c.remaining tokens :=
  Nat.sub_le_sub_left moves.forward _

/-- Whether a step from `c` has the outcome of a rule, and takes the cursor to what the rule
    leaves. -/
inductive Agrees (tokens : List Token) (c : Cursor) :
    Except SyntaxError (α × List Token) → Option (Except SyntaxError α × Cursor) → Prop where
  | ok {x rest c'} (left : tokens.drop c'.index = rest) (moves : Moves tokens c c') :
      Agrees tokens c (.ok (x, rest)) (some (.ok x, c'))
  | error {e c'} (moves : Moves tokens c c') : Agrees tokens c (.error e) (some (.error e, c'))

section

variable {tokens : List Token} {c : Cursor}

theorem Agrees.later {c' : Cursor} {result : Except SyntaxError (α × List Token)}
    {outcome : Option (Except SyntaxError α × Cursor)} (first : Moves tokens c c')
    (agrees : Agrees tokens c' result outcome) : Agrees tokens c result outcome := by
  cases agrees with
  | ok left moves => exact .ok left (first.trans moves)
  | error moves => exact .error (first.trans moves)

theorem Agrees.bind {result : Except SyntaxError (α × List Token)}
    {rule : α × List Token → Except SyntaxError (β × List Token)} {act : Step α}
    {next : α → Step β} (first : Agrees tokens c result (act c))
    (second : ∀ x c', Moves tokens c c' →
      Agrees tokens c' (rule (x, tokens.drop c'.index)) (next x c')) :
    Agrees tokens c (result >>= rule) ((act >>= next) c) := by
  rw [bind_apply]
  generalize act c = outcome at first
  cases first with
  | @ok x rest c' left moves =>
    subst left
    exact (second x c' moves).later moves
  | error moves => exact .error moves

theorem Agrees.of_ok {x : α} {rest : List Token} {outcome : Option (Except SyntaxError α × Cursor)}
    (agrees : Agrees tokens c (.ok (x, rest)) outcome) :
    ∃ c', outcome = some (.ok x, c') ∧ Moves tokens c c' ∧ tokens.drop c'.index = rest := by
  cases agrees with
  | ok left moves => exact ⟨_, rfl, moves, left⟩

theorem Agrees.of_error {e : SyntaxError} {outcome : Option (Except SyntaxError α × Cursor)}
    (agrees : Agrees tokens c (.error e) outcome) :
    ∃ c', outcome = some (.error e, c') ∧ Moves tokens c c' := by
  cases agrees with
  | error moves => exact ⟨_, rfl, moves⟩

/-- The cursor has moved if a rule leaves fewer tokens. -/
theorem lt_of_drop {c' : Cursor}
    (shorter : (tokens.drop c'.index).length < (tokens.drop c.index).length) :
    c.index < c'.index := by
  rw [List.length_drop, List.length_drop] at shorter
  omega

/-- The outcome of a rule that only looks at the next token. -/
theorem agrees_faultAt {fault : TokenKind → GrammarFault} (inside : c.Inside tokens) :
    Agrees tokens c (Parse.faultAt (α := α × List Token) (tokens.drop c.index) fault)
      (faultAt (α := α) (Parse.next (tokens.drop c.index)) fault c) :=
  .error (.refl inside)

end

variable {tokens : List Token} {limit : Nat}

section

variable (ends : firstEnd tokens < tokens.length)
include ends

theorem kind_firstEnd : (Parse.next (tokens.drop (firstEnd tokens))).kind = .endOfInput := by
  have found := @List.findIdx_getElem _ (fun t : Token => t.kind == .endOfInput) tokens ends
  rw [List.drop_eq_getElem_cons ends]
  exact eq_of_beq found

section

variable {c : Cursor} (inside : c.Inside tokens)
include inside

theorem remaining_pos : 0 < c.remaining tokens :=
  Nat.sub_pos_of_lt (Nat.lt_of_le_of_lt inside.index ends)

theorem remaining_lt {c' : Cursor} (forward : c.index < c'.index) :
    c'.remaining tokens < c.remaining tokens := by
  have before := Nat.lt_of_le_of_lt inside.index ends
  unfold remaining
  omega

theorem drop_eq_cons :
    tokens.drop c.index = Parse.next (tokens.drop c.index) :: (tokens.drop c.index).tail := by
  rw [List.drop_eq_getElem_cons (Nat.lt_of_le_of_lt inside.index ends)]
  rfl

theorem peek_apply : peek tokens c = some (.ok (Parse.next (tokens.drop c.index)), c) := by
  have found : tokens[c.index]? = some (Parse.next (tokens.drop c.index)) := by
    rw [← List.head?_drop, drop_eq_cons ends inside]
    rfl
  rw [peek, bind_of_ok (get_apply c), found]
  rfl

theorem index_lt_firstEnd (other : (Parse.next (tokens.drop c.index)).kind ≠ .endOfInput) :
    c.index < firstEnd tokens := by
  refine Nat.lt_of_le_of_ne inside.index fun same => other ?_
  rw [same]
  exact kind_firstEnd ends

theorem advance_apply (other : (Parse.next (tokens.drop c.index)).kind ≠ .endOfInput) :
    ∃ c', advance tokens c = some (.ok (Parse.next (tokens.drop c.index)), c') ∧
      Moves tokens c c' ∧ c.index < c'.index ∧
        tokens.drop c'.index = (tokens.drop c.index).tail := by
  refine ⟨{ c with index := c.index + 1, trail := (c.index + 1) :: c.trail }, ?_, ?_,
    Nat.lt_succ_self _, by rw [List.tail_drop]⟩
  · rw [advance, bind_of_ok (peek_apply ends inside), if_pos other]
    rfl
  · have next : c.index + 1 ≤ firstEnd tokens := index_lt_firstEnd ends inside other
    exact ⟨⟨next, List.forall_mem_cons.mpr ⟨next, inside.trail⟩⟩, Nat.le_succ _, rfl⟩

/-- At the end of the input there is nowhere to move. -/
theorem advance_apply_end (last : (Parse.next (tokens.drop c.index)).kind = .endOfInput) :
    advance tokens c = some (.ok (Parse.next (tokens.drop c.index)), c) := by
  rw [advance, bind_of_ok (peek_apply ends inside), if_neg (not_not_intro last)]
  rfl

/-- Behind a token that is not the end of the input, the cursor stands on the next. -/
theorem Agrees.advance {result : Except SyntaxError (β × List Token)} {next : Token → Step β}
    (other : (Parse.next (tokens.drop c.index)).kind ≠ .endOfInput)
    (second : ∀ c', Moves tokens c c' → c.index < c'.index →
      tokens.drop c'.index = (tokens.drop c.index).tail →
        Agrees tokens c' result (next (Parse.next (tokens.drop c.index)) c')) :
    Agrees tokens c result ((Cursor.advance tokens >>= next) c) := by
  obtain ⟨c', ran, moves, forward, left⟩ := advance_apply ends inside other
  rw [bind_of_ok ran]
  exact (second c' moves forward left).later moves

theorem Agrees.expect {wanted : TokenKind} (other : wanted ≠ .endOfInput)
    {rule : List Token → Except SyntaxError (β × List Token)} {next : Unit → Step β}
    (second : ∀ c', Moves tokens c c' → c.index < c'.index →
      Agrees tokens c' (rule (tokens.drop c'.index)) (next () c')) :
    Agrees tokens c (Parse.expect wanted (tokens.drop c.index) >>= rule)
      ((Cursor.expect tokens wanted >>= next) c) := by
  rw [Parse.expect, bind_apply, Cursor.expect, bind_of_ok (peek_apply ends inside)]
  split
  · next found =>
    obtain ⟨c', ran, moves, forward, left⟩ :=
      advance_apply ends inside (fun last => other (found.symm.trans last))
    have agrees := second c' moves forward
    rw [left] at agrees
    rw [bind_of_ok ran]
    exact agrees.later moves
  · exact .error (.refl inside)

/-- Each token that is skipped is a round, and so is the look behind the last. -/
theorem skipWhile_apply {skips : Token → Bool} (stops : ∀ p, skips ⟨.endOfInput, p⟩ = false)
    {rounds : Nat} (enough : c.remaining tokens ≤ rounds) :
    ∃ c', skipWhile tokens skips rounds c = some (.ok (), c') ∧ Moves tokens c c' ∧
      tokens.drop c'.index = (tokens.drop c.index).dropWhile skips := by
  induction rounds generalizing c with
  | zero => exact absurd (remaining_pos ends inside) (Nat.not_lt_of_le enough)
  | succ rounds inductionHypothesis =>
    rw [skipWhile, bind_of_ok (peek_apply ends inside)]
    by_cases skipped : skips (Parse.next (tokens.drop c.index)) = true
    · have other : (Parse.next (tokens.drop c.index)).kind ≠ .endOfInput := by
        intro last
        have kept := stops (Parse.next (tokens.drop c.index)).position
        rw [← last] at kept
        exact absurd (skipped.symm.trans kept) (by decide)
      obtain ⟨c', ran, moves, forward, left⟩ := advance_apply ends inside other
      have fewer := remaining_lt ends inside forward
      obtain ⟨c'', ran', moves', left'⟩ := inductionHypothesis moves.inside (by omega)
      refine ⟨c'', ?_, moves.trans moves', ?_⟩
      · rw [if_pos skipped, bind_of_ok ran, ran']
      · rw [left', left, drop_eq_cons ends inside, List.dropWhile_cons_of_pos skipped]
        rfl
    · refine ⟨c, ?_, .refl inside, ?_⟩
      · rw [if_neg skipped]
        rfl
      · rw [drop_eq_cons ends inside, List.dropWhile_cons_of_neg skipped]

theorem name_agrees : Agrees tokens c (Parse.name (tokens.drop c.index)) (name tokens c) := by
  rw [Parse.name, name, bind_of_ok (peek_apply ends inside)]
  cases named : Parse.nameOf? (Parse.next (tokens.drop c.index)).kind with
  | none => exact agrees_faultAt inside
  | some word =>
    have other : (Parse.next (tokens.drop c.index)).kind ≠ .endOfInput := by
      intro last
      rw [last] at named
      cases named
    exact .advance ends inside other fun c' moves _ left => .ok left (.refl moves.inside)

theorem method_agrees : Agrees tokens c (Parse.method (tokens.drop c.index)) (method tokens c) := by
  rw [Parse.method, method, bind_of_ok (peek_apply ends inside)]
  refine (name_agrees ends inside).bind fun word c' moves => ?_
  dsimp only
  cases Method.ofName? word with
  | some m => exact .ok rfl (.refl moves.inside)
  | none => exact .error (.refl moves.inside)

end

end

/-! ## Line feeds and separators -/

theorem Fits.two_mul_remaining_lt (fits : Fits tokens limit) (c : Cursor) :
    2 * c.remaining tokens < limit := by
  have enough := fits.enough
  unfold Parse.stepsFor at enough
  unfold remaining
  omega

theorem Fits.remaining_le (fits : Fits tokens limit) (c : Cursor) : c.remaining tokens ≤ limit := by
  have enough := fits.two_mul_remaining_lt c
  omega

section

variable (fits : Fits tokens limit) {c : Cursor} (inside : c.Inside tokens)
include fits inside

theorem skipNewlines_apply :
    ∃ c', skipNewlines tokens limit c = some (.ok (), c') ∧ Moves tokens c c' ∧
      tokens.drop c'.index = Parse.skipNewlines (tokens.drop c.index) :=
  skipWhile_apply fits.ends inside (fun _ => rfl) (fits.remaining_le c)

theorem skipSeparators_apply :
    ∃ c', skipSeparators tokens limit c = some (.ok (), c') ∧ Moves tokens c c' ∧
      tokens.drop c'.index = Parse.skipSeparators (tokens.drop c.index) :=
  skipWhile_apply fits.ends inside (fun _ => rfl) (fits.remaining_le c)

/-- Line feeds are skipped in front of a step. -/
theorem Agrees.skip {result : Except SyntaxError (β × List Token)} {next : Unit → Step β}
    (second : ∀ c', Moves tokens c c' →
      tokens.drop c'.index = Parse.skipNewlines (tokens.drop c.index) →
        Agrees tokens c' result (next () c')) :
    Agrees tokens c result ((skipNewlines tokens limit >>= next) c) := by
  obtain ⟨c', ran, moves, left⟩ := skipNewlines_apply fits inside
  rw [bind_of_ok ran]
  exact (second c' moves left).later moves

/-- A token and the line feeds behind it are passed in front of a step. -/
theorem Agrees.advance_skip {result : Except SyntaxError (β × List Token)} {next : Unit → Step β}
    (other : (Parse.next (tokens.drop c.index)).kind ≠ .endOfInput)
    (second : ∀ c', Moves tokens c c' → c.index < c'.index →
      tokens.drop c'.index = Parse.skipNewlines (tokens.drop c.index).tail →
        Agrees tokens c' result (next () c')) :
    Agrees tokens c result
      ((Cursor.advance tokens >>= fun _ => skipNewlines tokens limit >>= next) c) := by
  refine .advance fits.ends inside other fun c₁ moves₁ forward left₁ => ?_
  refine .skip fits moves₁.inside fun c₂ moves₂ left₂ => ?_
  rw [left₁] at left₂
  exact second c₂ (moves₁.trans moves₂) (Nat.lt_of_lt_of_le forward moves₂.forward) left₂

/-- Line feeds are skipped if the token that is looked for stands behind them; else the cursor goes
    back to where it was. -/
theorem skipsTo_apply (kind : TokenKind) :
    ∃ c', Moves tokens c c' ∧
      if (Parse.next (Parse.skipNewlines (tokens.drop c.index))).kind = kind then
        skipsTo tokens limit kind c = some (.ok true, c') ∧
          tokens.drop c'.index = Parse.skipNewlines (tokens.drop c.index)
      else
        skipsTo tokens limit kind c = some (.ok false, c') ∧ c'.index = c.index := by
  obtain ⟨ahead, ran, moves, left⟩ := skipNewlines_apply fits inside
  rw [skipsTo, bind_of_ok (get_apply c), bind_of_ok ran,
    bind_of_ok (peek_apply fits.ends moves.inside), left]
  split
  · exact ⟨ahead, moves, rfl, left⟩
  · refine ⟨{ ahead with index := c.index, trail := c.index :: ahead.trail }, ?_, rfl, rfl⟩
    exact ⟨⟨inside.index, List.forall_mem_cons.mpr ⟨inside.index, moves.inside.trail⟩⟩,
      Nat.le_refl _, moves.begun⟩

end

end Cursor

end StudioScript
