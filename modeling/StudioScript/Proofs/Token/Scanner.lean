import StudioScript.Proofs.Machine
import StudioScript.Proofs.Token.Places

/-! # Reading tokens with an index

The reading of tokens, on a text whose characters stay where they are: an index moves over them, and
loops go round for as long as their condition holds.  A step has no outcome where it looks at a
character behind the end of the text, or where a loop goes round more often than a limit allows
(`Scanner.Step`).  If the limit is beyond the number of characters, each step has the outcome of the
function that it stands for, behind the characters that this reads.  So every loop ends
(`Scanner.tokens_apply`), and every turn of the outermost one that is not the last takes characters
(`Scanner.turn_turns`).
-/

namespace StudioScript

/-- The characters of a kind at the head of a text, by how many they are. -/
theorem take_length_takeWhile (p : Char → Bool) (cs : List Char) :
    cs.take (cs.takeWhile p).length = cs.takeWhile p :=
  (List.prefix_iff_eq_take.mp (List.takeWhile_prefix p)).symm

theorem Position.past_append (p : Position) (part more : List Char) :
    p.past (part ++ more) = (p.past part).past more := by
  simp only [past, List.countP_append, Nat.add_assoc]

/-- The blanks at the head of a text are skipped. -/
theorem Token.ofCharsAt_dropBlanks (p : Position) (cs : List Char) :
    ofCharsAt p cs = ofCharsAt (p.past (cs.takeWhile isBlank)) (cs.dropWhile isBlank) := by
  induction cs generalizing p with
  | nil => rfl
  | cons c cs inductionHypothesis =>
    by_cases blank : isBlank c = true
    · rw [ofCharsAt, if_pos blank, inductionHypothesis, ← Position.past_append,
        List.takeWhile_cons_of_pos blank, List.dropWhile_cons_of_pos blank]
      rfl
    · rw [List.takeWhile_cons_of_neg blank, List.dropWhile_cons_of_neg blank]
      rfl

/-- Where reading has come to in a text: how many characters are before it, and the place. -/
structure Scanner where
  index : Nat := 0
  position : Position := .start

namespace Scanner

open Machine

/-- A step of reading a text.  Looking at a character behind the end of the text has no outcome, and
    neither has a loop that goes round too often. -/
abbrev Step := Machine SyntaxError Scanner

section

variable (chars : List Char) (limit : Nat)

/-! ## Characters -/

/-- The character at the index. -/
def peek : Step Char := do
  match chars[(← get).index]? with
  | some c => return c
  | none => Machine.stuck

/-- The character behind the one at the index, if there is one. -/
def peekNext? : Step (Option Char) := return chars[(← get).index + 1]?

def isAtEnd : Step Bool := return decide (chars.length ≤ (← get).index)

def advance : Step Char := do
  let c ← peek chars
  modify fun s => ⟨s.index + 1, s.position.past [c]⟩
  return c

/-- Whether the character at the index is the given one. -/
def isAt (c : Char) : Step Bool := do
  if ← isAtEnd chars then return false else return (← peek chars) == c

/-- Takes characters for as long as they are of a kind, in so many rounds at the most. -/
def takeWhileIn (p : Char → Bool) : Nat → Step (List Char)
  | 0 => stuck
  | rounds + 1 => do
      if ← isAtEnd chars then return []
      else if p (← peek chars) then
        let c ← advance chars
        let rest ← takeWhileIn p rounds
        return c :: rest
      else return []

def takeWhile (p : Char → Bool) : Step (List Char) := takeWhileIn chars p limit

def skipBlanks : Step Unit := do
  let _ ← takeWhile chars limit Token.isBlank

def skipComment : Step Unit := do
  if ← isAt chars '/' then
    if (← peekNext? chars) = some '/' then
      let _ ← takeWhile chars limit (· != '\n')

/-! ## Tokens -/

def faultAt {α : Type} (p : Position) (fault : LexicalFault) : Step α :=
  throw ⟨.lexical fault, p⟩

def mark (kind : TokenKind) : Step TokenKind := do
  let _ ← advance chars
  return kind

/-- The longer token if an equals sign follows, else what the shorter one comes to. -/
def orEquals (longer : TokenKind) (shorter : Step TokenKind) : Step TokenKind := do
  let _ ← advance chars
  if ← isAt chars '=' then
    let _ ← advance chars
    return longer
  else shorter

/-- The characters of a string up to its closing quote, which is taken with them. -/
def quotedIn (start : Position) : Nat → Step (List Char)
  | 0 => stuck
  | rounds + 1 => do
      if ← isAtEnd chars then faultAt start .unclosedString
      else
        let c ← advance chars
        if c = '"' then return []
        else if c = '\n' then faultAt start .unclosedString
        else if c = '\\' then
          if ← isAtEnd chars then faultAt start .unclosedString
          else
            let c ← advance chars
            let rest ← quotedIn start rounds
            return Lexeme.unescape c :: rest
        else
          let rest ← quotedIn start rounds
          return c :: rest

def string : Step TokenKind := do
  let start := (← get).position
  let _ ← advance chars
  let value ← quotedIn chars start limit
  return .string (String.ofList value)

/-- A point and the digits behind it, if digits follow. -/
def fraction : Step (List Char) := do
  if ← isAt chars '.' then
    if (← peekNext? chars).any Char.isDigit then
      let point ← advance chars
      let digits ← takeWhile chars limit Char.isDigit
      return point :: digits
    else return []
  else return []

def sign : Step (List Char) := do
  if ← isAt chars '-' then
    let minus ← advance chars
    return [minus]
  else return []

def number : Step TokenKind := do
  let start := (← get).position
  let sign ← sign chars
  let whole ← takeWhile chars limit Char.isDigit
  let fraction ← fraction chars limit
  let spelling := sign ++ (whole ++ fraction)
  match Number.ofChars? spelling with
  | none => faultAt start (.invalidNumber (String.ofList spelling))
  | some value =>
      if value.isFinite then return .number value else faultAt start .numberOutOfRange

def word : Step TokenKind := do
  let spelling ← takeWhile chars limit Lexeme.continuesWord
  return Lexeme.wordKind (String.ofList spelling)

/-- The token that starts with the given character, which is the one at the index. -/
def lexeme : Char → Step TokenKind
  | '(' => mark chars .leftParen
  | ')' => mark chars .rightParen
  | '[' => mark chars .leftBracket
  | ']' => mark chars .rightBracket
  | '{' => mark chars .leftBrace
  | '}' => mark chars .rightBrace
  | ',' => mark chars .comma
  | ';' => mark chars .semicolon
  | '@' => mark chars .atSign
  | '=' => orEquals chars .equal (return .assign)
  | '<' => orEquals chars .atMost (return .less)
  | '>' => orEquals chars .atLeast (return .greater)
  | '!' => do
      let start := (← get).position
      orEquals chars .notEqual (faultAt start .loneExclamationMark)
  | '"' => string chars limit
  | '-' => do
      if (← peekNext? chars).any (fun c => c.isDigit || c = '.') then number chars limit
      else faultAt (← get).position .loneMinus
  | '.' => do
      if (← peekNext? chars).any Char.isDigit then number chars limit else mark chars .dot
  | c => do
      if c.isDigit then number chars limit
      else if Lexeme.startsWord c then word chars limit
      else faultAt (← get).position (.unexpectedCharacter c)

/-- Reads up to the end of the next token, if there is one. -/
def turn : Step (Option Token) := do
  skipBlanks chars limit
  skipComment chars limit
  skipBlanks chars limit
  if ← isAtEnd chars then return none
  else
    let start := (← get).position
    let c ← peek chars
    if c = '\n' then
      let _ ← advance chars
      modify fun s => { s with position := start.nextLine }
      return some ⟨.newline, start⟩
    else
      let kind ← lexeme chars limit c
      return some ⟨kind, start⟩

/-- Reads all tokens; the last one is the end of the input. -/
def tokensIn : Nat → Step (List Token)
  | 0 => stuck
  | rounds + 1 => do
      match ← turn chars limit with
      | none => return [⟨.endOfInput, (← get).position⟩]
      | some t =>
          let rest ← tokensIn rounds
          return t :: rest

def tokens : Step (List Token) := tokensIn chars limit limit

end

/-! ## Where reading has come to -/

/-- Behind more characters. -/
def past (s : Scanner) (part : List Char) : Scanner :=
  ⟨s.index + part.length, s.position.past part⟩

theorem past_nil (s : Scanner) : s.past [] = s := by
  simp [past, Position.past]

theorem past_append (s : Scanner) (part more : List Char) :
    s.past (part ++ more) = (s.past part).past more := by
  simp only [past, Position.past_append, List.length_append, Nat.add_assoc]

section

variable {chars part rest cs : List Char} {limit : Nat} {s : Scanner} {c : Char}

theorem drop_past (ahead : chars.drop s.index = part ++ rest) :
    chars.drop (s.past part).index = rest := by
  rw [past, ← List.drop_drop, ahead, List.drop_left]

theorem drop_past_one (ahead : chars.drop s.index = c :: cs) :
    chars.drop (s.past [c]).index = cs :=
  drop_past ahead

theorem length_le (ahead : chars.drop s.index = cs) : cs.length ≤ chars.length := by
  rw [← ahead, List.length_drop]
  exact Nat.sub_le _ _

theorem length_drop_past (chars part : List Char) (s : Scanner) :
    (chars.drop (s.past part).index).length ≤ (chars.drop s.index).length := by
  simp only [past, List.length_drop]
  omega

/-! ## Characters -/

theorem isAtEnd_apply (ahead : chars.drop s.index = cs) :
    isAtEnd chars s = some (.ok cs.isEmpty, s) := by
  have ends : decide (chars.length ≤ s.index) = cs.isEmpty := by
    rw [← ahead, Bool.eq_iff_iff, decide_eq_true_eq, List.isEmpty_iff, List.drop_eq_nil_iff]
  rw [isAtEnd, bind_of_ok (get_apply s), ends]
  rfl

theorem peek_apply (ahead : chars.drop s.index = c :: cs) : peek chars s = some (.ok c, s) := by
  have found : chars[s.index]? = some c := by rw [← List.head?_drop, ahead, List.head?_cons]
  rw [peek, bind_of_ok (get_apply s), found]
  rfl

theorem peekNext?_apply (ahead : chars.drop s.index = c :: cs) :
    peekNext? chars s = some (.ok cs.head?, s) := by
  have found : chars[s.index + 1]? = cs.head? := by
    rw [← List.head?_drop, ← List.drop_drop, ahead, List.drop_one, List.tail_cons]
  rw [peekNext?, bind_of_ok (get_apply s), found]
  rfl

theorem advance_apply (ahead : chars.drop s.index = c :: cs) :
    advance chars s = some (.ok c, s.past [c]) := by
  rw [advance, bind_of_ok (peek_apply ahead)]
  rfl

theorem isAt_apply (ahead : chars.drop s.index = cs) (c : Char) :
    isAt chars c s = some (.ok (cs.head? == some c), s) := by
  rw [isAt, bind_of_ok (isAtEnd_apply ahead)]
  cases cs with
  | nil => rfl
  | cons d cs =>
    rw [if_neg (by simp), bind_of_ok (peek_apply ahead)]
    rfl

/-- Each character that is taken is a round, and so is the look behind the last. -/
theorem takeWhileIn_apply {p : Char → Bool} {rounds : Nat} (ahead : chars.drop s.index = cs)
    (enough : cs.length < rounds) :
    takeWhileIn chars p rounds s = some (.ok (cs.takeWhile p), s.past (cs.takeWhile p)) := by
  induction rounds generalizing s cs with
  | zero => exact absurd enough (Nat.not_lt_zero _)
  | succ rounds inductionHypothesis =>
    rw [takeWhileIn, bind_of_ok (isAtEnd_apply ahead)]
    cases cs with
    | nil =>
      rw [if_pos List.isEmpty_nil, List.takeWhile_nil, past_nil]
      rfl
    | cons c cs =>
      rw [if_neg (by simp), bind_of_ok (peek_apply ahead)]
      by_cases inside : p c = true
      · have taken := inductionHypothesis (drop_past_one ahead) (Nat.lt_of_succ_lt_succ enough)
        rw [if_pos inside, bind_of_ok (advance_apply ahead), bind_of_ok taken, ← past_append,
          List.takeWhile_cons_of_pos inside]
        rfl
      · rw [if_neg inside, List.takeWhile_cons_of_neg inside, past_nil]
        rfl

theorem takeWhile_apply {p : Char → Bool} (large : chars.length < limit)
    (ahead : chars.drop s.index = cs) :
    takeWhile chars limit p s = some (.ok (cs.takeWhile p), s.past (cs.takeWhile p)) :=
  takeWhileIn_apply ahead (Nat.lt_of_le_of_lt (length_le ahead) large)

/-! ## Tokens -/

/-- Whether a step from `s` has the outcome of a function that reads a token from `c :: cs`, and
    takes its characters. -/
inductive Agrees (s : Scanner) (c : Char) (cs : List Char) :
    Except LexicalFault Lexeme → Option (Except SyntaxError TokenKind × Scanner) → Prop where
  | ok {lexeme s'} (moved : s' = s.past (c :: cs.take lexeme.tail)) :
      Agrees s c cs (.ok lexeme) (some (.ok lexeme.kind, s'))
  | error {fault s'} : Agrees s c cs (.error fault)
      (some (.error ⟨.lexical fault, s.position⟩, s'))

section

variable (ahead : chars.drop s.index = c :: cs)
include ahead

theorem mark_agrees (kind : TokenKind) : Agrees s c cs (.ok ⟨kind, 0⟩) (mark chars kind s) := by
  rw [mark, bind_of_ok (advance_apply ahead)]
  exact .ok rfl

theorem orEquals_agrees (longer : TokenKind) {result : Except LexicalFault Lexeme}
    {shorter : Step TokenKind} (alone : Agrees s c cs result (shorter (s.past [c]))) :
    Agrees s c cs (if cs.head? = some '=' then .ok ⟨longer, 1⟩ else result)
      (orEquals chars longer shorter s) := by
  rw [orEquals, bind_of_ok (advance_apply ahead), bind_of_ok (isAt_apply (drop_past ahead) '=')]
  by_cases follows : cs.head? = some '='
  · obtain ⟨rest, rfl⟩ := List.head?_eq_some_iff.mp follows
    rw [if_pos follows, if_pos (by simp), bind_of_ok (advance_apply (drop_past ahead))]
    exact .ok (past_append s [c] ['=']).symm
  · rw [if_neg follows, if_neg (by simpa using follows)]
    exact alone

theorem word_agrees (large : chars.length < limit) (continues : Lexeme.continuesWord c = true) :
    Agrees s c cs (.ok (Lexeme.word c cs)) (word chars limit s) := by
  rw [word, bind_of_ok (takeWhile_apply large ahead), List.takeWhile_cons_of_pos continues]
  refine .ok ?_
  simp only [Lexeme.word, take_length_takeWhile]

end

/-! ## Strings -/

/-- Whether a step from `s` returns the characters of a string and takes those that write them, or
    finds the string without a closing quote. -/
inductive Closes (start : Position) (s : Scanner) (cs : List Char) : Option (List Char × Nat) →
    Option (Except SyntaxError (List Char) × Scanner) → Prop where
  | closed {value size} :
      Closes start s cs (some (value, size)) (some (.ok value, s.past (cs.take size)))
  | unclosed {s'} :
      Closes start s cs none (some (.error ⟨.lexical .unclosedString, start⟩, s'))

/-- Behind characters that write one character of the string, the rest of it is read. -/
theorem Closes.behind {start : Position} {body : Option (List Char × Nat)} {step : Step (List Char)}
    (part : List Char) (closes : Closes start (s.past part) cs body (step (s.past part)))
    (c : Char) :
    Closes start s (part ++ cs) (body.map fun (value, size) => (c :: value, size + part.length))
      ((step >>= fun rest => pure (c :: rest)) (s.past part)) := by
  rw [bind_apply]
  generalize step (s.past part) = outcome at closes
  cases closes with
  | @closed value size =>
    have taken : (part ++ cs).take (size + part.length) = part ++ cs.take size := by
      rw [Nat.add_comm, List.take_length_add_append]
    dsimp only [Option.map_some]
    rw [← past_append, ← taken]
    exact .closed
  | unclosed => exact .unclosed

theorem quotedIn_closes (start : Position) {rounds : Nat} (ahead : chars.drop s.index = cs)
    (enough : cs.length < rounds) :
    Closes start s cs (Lexeme.stringBody cs) (quotedIn chars start rounds s) := by
  induction rounds generalizing s cs with
  | zero => exact absurd enough (Nat.not_lt_zero _)
  | succ rounds inductionHypothesis =>
    rw [quotedIn, bind_of_ok (isAtEnd_apply ahead)]
    cases cs with
    | nil =>
      rw [if_pos List.isEmpty_nil]
      exact .unclosed
    | cons c cs =>
      have behind := drop_past_one ahead
      have fewer : cs.length < rounds := Nat.lt_of_succ_lt_succ enough
      rw [if_neg (by simp), bind_of_ok (advance_apply ahead)]
      -- The loop looks for a quote first, then for a line feed, then for a backslash.
      by_cases quote : c = '"'
      · subst quote
        exact .closed
      by_cases lineFeed : c = '\n'
      · subst lineFeed
        exact .unclosed
      rw [if_neg quote, if_neg lineFeed]
      by_cases backslash : c = '\\'
      · subst backslash
        rw [if_pos rfl, bind_of_ok (isAtEnd_apply behind)]
        cases cs with
        | nil => exact .unclosed
        | cons c cs =>
          rw [if_neg (by simp), bind_of_ok (advance_apply behind), ← past_append]
          have behind' : chars.drop (s.past ['\\', c]).index = cs := drop_past ahead
          have closes := inductionHypothesis behind' (Nat.lt_of_succ_lt fewer)
          rw [Lexeme.stringBody]
          exact closes.behind ['\\', c] (Lexeme.unescape c)
      · rw [if_neg backslash, Lexeme.stringBody_cons quote backslash lineFeed]
        exact (inductionHypothesis behind fewer).behind [c] c

theorem string_agrees (large : chars.length < limit) (ahead : chars.drop s.index = '"' :: cs) :
    Agrees s '"' cs (Lexeme.string cs) (string chars limit s) := by
  have behind := drop_past_one ahead
  have closes := quotedIn_closes s.position behind (Nat.lt_of_le_of_lt (length_le behind) large)
  rw [string, bind_of_ok (get_apply s), bind_of_ok (advance_apply ahead), bind_apply, Lexeme.string]
  generalize quotedIn chars s.position limit (s.past ['"']) = outcome at closes
  generalize Lexeme.stringBody cs = body at closes
  cases closes with
  | closed => exact .ok (past_append s ['"'] _).symm
  | unclosed => exact .error

/-! ## Numbers -/

theorem fraction_apply (large : chars.length < limit) (ahead : chars.drop s.index = cs) :
    fraction chars limit s = some (.ok (Lexeme.fraction cs), s.past (Lexeme.fraction cs)) := by
  rw [fraction, bind_of_ok (isAt_apply ahead '.')]
  by_cases point : cs.head? = some '.'
  · obtain ⟨behind, rfl⟩ := List.head?_eq_some_iff.mp point
    rw [if_pos (by simp), bind_of_ok (peekNext?_apply ahead)]
    cases behind with
    | nil =>
      rw [if_neg (by simp)]
      simp [Lexeme.fraction, past_nil, pure_apply]
    | cons d ds =>
      by_cases digit : d.isDigit = true
      · have digits := takeWhile_apply (p := Char.isDigit) large (drop_past_one ahead)
        rw [if_pos (by simpa using digit), bind_of_ok (advance_apply ahead), bind_of_ok digits,
          ← past_append, List.takeWhile_cons_of_pos digit]
        simp [Lexeme.fraction, digit, pure_apply]
      · rw [if_neg (by simpa using digit)]
        simp [Lexeme.fraction, digit, past_nil, pure_apply]
  · have none : Lexeme.fraction cs = [] := by
      unfold Lexeme.fraction
      split
      · exact absurd rfl point
      · rfl
    rw [if_neg (by simpa using point), none, past_nil]
    rfl

/-- A sign and the rest of a numeral are its spelling. -/
theorem sign_apply (ahead : chars.drop s.index = cs) :
    ∃ part rest, cs = part ++ rest ∧ sign chars s = some (.ok part, s.past part) ∧
      Lexeme.numeral cs = part ++ Lexeme.unsignedNumeral rest := by
  rw [sign, bind_of_ok (isAt_apply ahead '-')]
  by_cases minus : cs.head? = some '-'
  · obtain ⟨behind, rfl⟩ := List.head?_eq_some_iff.mp minus
    rw [if_pos (by simp), bind_of_ok (advance_apply ahead)]
    exact ⟨['-'], behind, rfl, rfl, rfl⟩
  · have unsigned : Lexeme.numeral cs = Lexeme.unsignedNumeral cs := by
      unfold Lexeme.numeral
      split
      · exact absurd rfl minus
      · rfl
    rw [if_neg (by simpa using minus), unsigned]
    exact ⟨[], cs, rfl, by rw [past_nil]; rfl, rfl⟩

theorem number_agrees (large : chars.length < limit) (ahead : chars.drop s.index = c :: cs) :
    Agrees s c cs (Lexeme.number c cs) (number chars limit s) := by
  obtain ⟨part, rest, shape, ranSign, spelled⟩ := sign_apply ahead
  have ahead₁ := drop_past (ahead.trans shape)
  have ranWhole := takeWhile_apply (p := Char.isDigit) large ahead₁
  have ahead₂ := drop_past (ahead₁.trans
    (List.takeWhile_append_dropWhile (p := Char.isDigit)).symm)
  have ranFraction := fraction_apply large ahead₂
  have spelling : part ++ (rest.takeWhile Char.isDigit ++
      Lexeme.fraction (rest.dropWhile Char.isDigit)) = Lexeme.numeral (c :: cs) := spelled.symm
  have taken := List.prefix_iff_eq_take.mp (Lexeme.numeral_isPrefix (c :: cs))
  rw [number, bind_of_ok (get_apply s), bind_of_ok ranSign, bind_of_ok ranWhole,
    bind_of_ok ranFraction, ← past_append, ← past_append, spelling]
  simp only [Lexeme.number]
  cases read : Number.ofChars? (Lexeme.numeral (c :: cs)) with
  | none => exact .error
  | some value =>
    dsimp only
    split
    · cases length : (Lexeme.numeral (c :: cs)).length with
      | zero =>
        have none : Number.ofChars? [] = none := rfl
        rw [List.eq_nil_of_length_eq_zero length, none] at read
        cases read
      | succ n =>
        rw [length, List.take_succ_cons] at taken
        exact .ok (by rw [taken]; rfl)
    · exact .error

/-! ## All tokens -/

theorem lexeme_agrees (large : chars.length < limit) (ahead : chars.drop s.index = c :: cs) :
    Agrees s c cs (Lexeme.read c cs) (lexeme chars limit c s) := by
  have equals {longer shorter : TokenKind} :
      Agrees s c cs (.ok (Lexeme.withEquals cs longer shorter))
        (orEquals chars longer (pure shorter) s) := by
    have alone : Agrees s c cs (.ok ⟨shorter, 0⟩)
        ((pure shorter : Step TokenKind) (s.past [c])) := .ok rfl
    have agrees := orEquals_agrees ahead longer alone
    rwa [← apply_ite] at agrees
  unfold Lexeme.read
  split
  iterate 9 · exact mark_agrees ahead _
  iterate 3 · exact equals
  · exact orEquals_agrees ahead _ .error
  · exact string_agrees large ahead
  · have follows : (cs.head?.any fun c => c.isDigit || decide (c = '.')) =
        (Lexeme.digitFollows cs || cs.head? = some '.') := by
      unfold Lexeme.digitFollows
      cases cs.head? <;> simp
    rw [lexeme, bind_of_ok (peekNext?_apply ahead), follows]
    split
    · exact number_agrees large ahead
    · exact .error
  · rw [lexeme, bind_of_ok (peekNext?_apply ahead), Lexeme.digitFollows]
    split
    · exact number_agrees large ahead
    · exact mark_agrees ahead _
  · rw [lexeme]
    · split
      · exact number_agrees large ahead
      · split
        · next starts => exact word_agrees ahead large (Lexeme.continuesWord_of_startsWord starts)
        · exact .error
    all_goals assumption

end

/-! ## Turns -/

/-- Whether a turn from `s` ends with the end of the text, with a token and characters that it has
    taken, or with the fault of the text. -/
inductive Turns (chars : List Char) (s : Scanner) :
    Option (Except SyntaxError (Option Token) × Scanner) → Prop where
  | last {s'} (reads : Token.ofCharsAt s.position (chars.drop s.index) =
      .ok [⟨.endOfInput, s'.position⟩]) : Turns chars s (some (.ok none, s'))
  | token {t s'} (forward : (chars.drop s'.index).length < (chars.drop s.index).length)
      (reads : Token.ofCharsAt s.position (chars.drop s.index) =
        (Token.ofCharsAt s'.position (chars.drop s'.index)).map (t :: ·)) :
      Turns chars s (some (.ok (some t), s'))
  | fault {e s'} (reads : Token.ofCharsAt s.position (chars.drop s.index) = .error e) :
      Turns chars s (some (.error e, s'))

section

variable {chars : List Char} {s : Scanner}

theorem Turns.later {s' : Scanner} {outcome : Option (Except SyntaxError (Option Token) × Scanner)}
    (skipped : (chars.drop s'.index).length ≤ (chars.drop s.index).length)
    (same : Token.ofCharsAt s.position (chars.drop s.index) =
      Token.ofCharsAt s'.position (chars.drop s'.index))
    (turns : Turns chars s' outcome) : Turns chars s outcome := by
  cases turns with
  | last reads => exact .last (same.trans reads)
  | token forward reads => exact .token (Nat.lt_of_lt_of_le forward skipped) (same.trans reads)
  | fault reads => exact .fault (same.trans reads)

/-- Whether `s'` is behind characters that stand between tokens. -/
structure Skips (chars : List Char) (s s' : Scanner) : Prop where
  forward : (chars.drop s'.index).length ≤ (chars.drop s.index).length
  reads : Token.ofCharsAt s.position (chars.drop s.index) =
    Token.ofCharsAt s'.position (chars.drop s'.index)

theorem Skips.trans {s' s'' : Scanner} (first : Skips chars s s') (second : Skips chars s' s'') :
    Skips chars s s'' :=
  ⟨Nat.le_trans second.forward first.forward, first.reads.trans second.reads⟩

section

variable {limit : Nat} (large : chars.length < limit)
include large

theorem skipBlanks_apply (s : Scanner) :
    ∃ s', skipBlanks chars limit s = some (.ok (), s') ∧ Skips chars s s' ∧
      chars.drop s'.index = (chars.drop s.index).dropWhile Token.isBlank := by
  have parts : chars.drop s.index = (chars.drop s.index).takeWhile Token.isBlank ++
      (chars.drop s.index).dropWhile Token.isBlank := List.takeWhile_append_dropWhile.symm
  have left := drop_past parts
  refine ⟨_, bind_of_ok (takeWhile_apply large rfl), ⟨length_drop_past _ _ s, ?_⟩, left⟩
  rw [left]
  exact Token.ofCharsAt_dropBlanks _ _

/-- A comment is skipped up to the end of its line; else nothing is. -/
theorem skipComment_apply (s : Scanner) :
    ∃ s', skipComment chars limit s = some (.ok (), s') ∧ Skips chars s s' ∧
      (s' = s ∧ (¬∃ text, chars.drop s.index = '/' :: '/' :: text) ∨
        (chars.drop s'.index = [] ∨ (chars.drop s'.index).head? = some '\n')) := by
  rw [skipComment, bind_of_ok (isAt_apply rfl '/')]
  by_cases comment : ∃ text, chars.drop s.index = '/' :: '/' :: text
  · obtain ⟨text, ahead⟩ := comment
    have inLine : (text.takeWhile (· != '\n')).all (· != '\n') = true := List.all_takeWhile
    have line : ('/' :: '/' :: text).takeWhile (· != '\n') =
        '/' :: '/' :: text.takeWhile (· != '\n') := by
      rw [List.takeWhile_cons_of_pos (by decide), List.takeWhile_cons_of_pos (by decide)]
    have parts : chars.drop s.index = '/' :: '/' :: text.takeWhile (· != '\n') ++
        text.dropWhile (· != '\n') := by
      rw [ahead, List.cons_append, List.cons_append, List.takeWhile_append_dropWhile]
    have left := drop_past parts
    have ran := takeWhile_apply (p := (· != '\n')) large ahead
    rw [line] at ran
    rw [ahead, if_pos (by simp), bind_of_ok (peekNext?_apply ahead), if_pos (by simp),
      bind_of_ok ran]
    refine ⟨_, rfl, ⟨length_drop_past _ _ s, ?_⟩, .inr ?_⟩
    · rw [left, parts]
      exact Token.ofCharsAt_comment inLine (Token.ends_line text) s.position
    · rw [left]
      exact Token.ends_line text
  · refine ⟨s, ?_, ⟨Nat.le_refl _, rfl⟩, .inl ⟨rfl, comment⟩⟩
    split
    · next slash =>
      obtain ⟨rest, ahead⟩ := List.head?_eq_some_iff.mp (eq_of_beq slash)
      rw [bind_of_ok (peekNext?_apply ahead), if_neg]
      · rfl
      · intro second
        obtain ⟨text, rfl⟩ := List.head?_eq_some_iff.mp second
        exact comment ⟨text, ahead⟩
    · rfl

/-- What stands between tokens is skipped: behind it there is nothing, or a character that is no
    blank and does not begin a comment. -/
theorem skips (s : Scanner) {β : Type} :
    ∃ s', (∀ next : Unit → Step β,
        (skipBlanks chars limit >>= fun _ => skipComment chars limit >>= fun _ =>
          skipBlanks chars limit >>= next) s = next () s') ∧ Skips chars s s' ∧
      ∀ c cs, chars.drop s'.index = c :: cs →
        ¬Token.isBlank c = true ∧ ¬(c = '/' ∧ cs.head? = some '/') := by
  obtain ⟨s₁, ran₁, skips₁, left₁⟩ := skipBlanks_apply large s
  obtain ⟨s₂, ran₂, skips₂, stops⟩ := skipComment_apply large s₁
  obtain ⟨s₃, ran₃, skips₃, left₃⟩ := skipBlanks_apply large s₂
  -- The second run of blanks is empty.
  have same : chars.drop s₃.index = chars.drop s₂.index := by
    rw [left₃]
    rcases stops with ⟨rfl, _⟩ | last | lineFeed
    · rw [left₁, List.dropWhile_idempotent]
    · rw [last, List.dropWhile_nil]
    · obtain ⟨line, ahead⟩ := List.head?_eq_some_iff.mp lineFeed
      rw [ahead]
      exact List.dropWhile_cons_of_neg (by decide)
  refine ⟨s₃, fun next => ?_, (skips₁.trans skips₂).trans skips₃, fun c cs ahead => ?_⟩
  · rw [bind_of_ok ran₁, bind_of_ok ran₂, bind_of_ok ran₃]
  · have visible := List.head?_dropWhile_not Token.isBlank (chars.drop s₂.index)
    rw [← left₃, ahead] at visible
    refine ⟨by simpa using visible, ?_⟩
    rintro ⟨rfl, second⟩
    obtain ⟨text, rfl⟩ := List.head?_eq_some_iff.mp second
    rw [same] at ahead
    rcases stops with ⟨rfl, none⟩ | last | lineFeed
    · exact none ⟨text, ahead⟩
    · rw [last] at ahead
      cases ahead
    · rw [ahead, List.head?_cons] at lineFeed
      exact absurd lineFeed (by decide)

/-- A turn ends, and unless it is the last it takes a character. -/
theorem turn_turns (s : Scanner) : Turns chars s (turn chars limit s) := by
  obtain ⟨s₁, ran, skips, visible⟩ := skips large s
  rw [turn, ran]
  refine .later skips.forward skips.reads ?_
  rw [bind_of_ok (isAtEnd_apply rfl)]
  cases ahead : chars.drop s₁.index with
  | nil => exact .last (by rw [ahead, Token.ofCharsAt])
  | cons c cs =>
    obtain ⟨notBlank, notComment⟩ := visible c cs ahead
    rw [if_neg (by simp), bind_of_ok (get_apply s₁), bind_of_ok (peek_apply ahead)]
    by_cases lineFeed : c = '\n'
    · rw [if_pos lineFeed, bind_of_ok (advance_apply ahead), bind_of_ok (modify_apply _ _)]
      have left : chars.drop (s₁.past [c]).index = cs := drop_past ahead
      refine .token ?_ ?_
      · dsimp only
        rw [left, ahead]
        exact Nat.lt_succ_self _
      · dsimp only
        rw [left, ahead, Token.ofCharsAt, if_neg notBlank, if_neg notComment, if_pos lineFeed]
    · have agrees := lexeme_agrees large ahead
      have unfolded := Token.ofCharsAt.eq_2 s₁.position c cs
      rw [if_neg notBlank, if_neg notComment, if_neg lineFeed] at unfolded
      rw [if_neg lineFeed, bind_apply]
      generalize lexeme chars limit c s₁ = outcome at agrees
      generalize Lexeme.read c cs = result at agrees unfolded
      cases agrees with
      | error => exact .fault (by rw [ahead, unfolded])
      | @ok lexeme s₂ moved =>
        have parts : chars.drop s₁.index = c :: cs.take lexeme.tail ++ cs.drop lexeme.tail := by
          rw [ahead, List.cons_append, List.take_append_drop]
        have left := drop_past parts
        rw [← moved] at left
        refine .token ?_ ?_
        · rw [left, ahead, List.length_drop, List.length_cons]
          omega
        · rw [left, ahead, unfolded, moved]
          rfl

theorem tokensIn_apply {rounds : Nat} (s : Scanner)
    (enough : (chars.drop s.index).length < rounds) :
    ∃ s', tokensIn chars limit rounds s =
      some (Token.ofCharsAt s.position (chars.drop s.index), s') := by
  induction rounds generalizing s with
  | zero => exact absurd enough (Nat.not_lt_zero _)
  | succ rounds inductionHypothesis =>
    have turns := turn_turns large s
    rw [tokensIn, bind_apply]
    generalize turn chars limit s = outcome at turns
    cases turns with
    | @last s' reads => exact ⟨s', by rw [reads]; rfl⟩
    | @fault e s' reads => exact ⟨s', by rw [reads]⟩
    | @token t s' forward reads =>
      -- A turn is a round, and the next ones have fewer characters.
      obtain ⟨s'', ran⟩ := inductionHypothesis s' (by omega)
      refine ⟨s'', ?_⟩
      dsimp only
      rw [bind_apply, ran, reads]
      cases Token.ofCharsAt s'.position (chars.drop s'.index) <;> rfl

theorem tokens_apply (s : Scanner) :
    ∃ s', tokens chars limit s =
      some (Token.ofCharsAt s.position (chars.drop s.index), s') :=
  tokensIn_apply large s (Nat.lt_of_le_of_lt (length_le rfl) large)

/-- A turn that does not end the tokens takes a character. -/
theorem turn_progresses (s : Scanner) :
    ∃ result s', turn chars limit s = some (result, s') ∧
      ∀ t, result = .ok (some t) → s.index < s'.index := by
  have turns := turn_turns large s
  generalize turn chars limit s = outcome at turns ⊢
  cases turns with
  | @last s' => exact ⟨.ok none, s', rfl, fun _ read => nomatch read⟩
  | @fault e s' => exact ⟨.error e, s', rfl, fun _ read => nomatch read⟩
  | @token t s' forward =>
    refine ⟨.ok (some t), s', rfl, fun _ _ => ?_⟩
    simp only [List.length_drop] at forward
    omega

end

end

end Scanner

end StudioScript
