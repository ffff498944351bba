import StudioScript.Proofs.Number.Text
import StudioScript.Token.Lexer

/-! # Writing tokens

Every token inside a text has a source form (`TokenKind.spelling`).  Source forms that blanks or
comments keep apart are read as the tokens that they stand for, whatever strings and numbers they
write (`Token.ofText_written`).
-/

namespace StudioScript

/-! ## Source forms -/

namespace TokenKind

/-- How a string writes the character.  The quote, the backslash and the line feed stand behind a
    backslash; every other character stands for itself. -/
def escaped : Char → List Char
  | '"' => ['\\', '"']
  | '\\' => ['\\', '\\']
  | '\n' => ['\\', 'n']
  | c => [c]

/-- The words that are not names. -/
def reservedWords : List String := ["track", "filter", "map", "for_each", "in", "true", "false"]

/-- Whether the word is a name. -/
def IsName (word : String) : Prop :=
  word ∉ reservedWords ∧ ∃ c cs, word.toList = c :: cs ∧ Lexeme.startsWord c = true ∧
    cs.all Lexeme.continuesWord = true

/-- How the kind is written. -/
def spelling : TokenKind → List Char
  | .track => "track".toList
  | .filter => "filter".toList
  | .map => "map".toList
  | .forEach => "for_each".toList
  | .member => "in".toList
  | .identifier word => word.toList
  | .string value => '"' :: (value.toList.flatMap escaped ++ ['"'])
  | .number value => value.textChars
  | .boolean true => "true".toList
  | .boolean false => "false".toList
  | .leftParen => ['(']
  | .rightParen => [')']
  | .leftBracket => ['[']
  | .rightBracket => [']']
  | .leftBrace => ['{']
  | .rightBrace => ['}']
  | .comma => [',']
  | .dot => ['.']
  | .semicolon => [';']
  | .atSign => ['@']
  | .assign => ['=']
  | .equal => ['=', '=']
  | .notEqual => ['!', '=']
  | .less => ['<']
  | .greater => ['>']
  | .atMost => ['<', '=']
  | .atLeast => ['>', '=']
  | .newline => ['\n']
  | .endOfInput => []

/-- Whether the kind can be written inside a text.  An identifier has to be a name, a number has to
    be finite, and the end of the input cannot be written. -/
def IsWritable : TokenKind → Prop
  | .identifier word => IsName word
  | .number value => value.isFinite = true
  | .endOfInput => False
  | _ => True

end TokenKind

/-! ## What stops a token -/

/-- Whether the text ends, or goes on with a blank or a comment. -/
def Stops (rest : List Char) : Prop := ∀ c ∈ rest.head?, Token.isBlank c = true ∨ c = '/'

namespace Stops

variable {rest : List Char}

theorem head?_eq (stops : Stops rest) :
    rest.head? = none ∨ rest.head? = some ' ' ∨ rest.head? = some '\t' ∨ rest.head? = some '\r' ∨
      rest.head? = some '/' := by
  cases rest with
  | nil => exact .inl rfl
  | cons c rest => simpa [Token.isBlank, or_assoc] using stops c rfl

/-- Nothing that a token can go on with stops it. -/
theorem outside (stops : Stops rest) {p : Char → Bool}
    (marks : p ' ' = false ∧ p '\t' = false ∧ p '\r' = false ∧ p '/' = false) :
    ∀ c ∈ rest.head?, p c = false := by
  obtain ⟨space, tab, return', slash⟩ := marks
  rcases stops.head?_eq with head | head | head | head | head <;> simp [*]

theorem head?_ne (stops : Stops rest) {c : Char} (visible : Token.isBlank c = false)
    (other : c ≠ '/') : rest.head? ≠ some c := by
  intro head
  rcases stops c head with blank | slash
  · rw [visible] at blank
    cases blank
  · exact other slash

theorem digitFollows_eq_false (stops : Stops rest) : Lexeme.digitFollows rest = false := by
  unfold Lexeme.digitFollows
  rcases stops.head?_eq with head | head | head | head | head <;> rw [head] <;> rfl

end Stops

namespace Lexeme

/-! ## Words and numbers -/

theorem isDigit_of_startsWord {c : Char} (starts : startsWord c = true) : c.isDigit = false := by
  rw [← Bool.not_eq_true]
  intro digit
  have high := Number.val_le_of_isDigit digit
  rcases Bool.or_eq_true_iff.mp starts with letter | underscore
  · rcases Bool.or_eq_true_iff.mp letter with upper | lower
    · have low : 'A'.val ≤ c.val := (of_decide_eq_true upper).1
      exact absurd (UInt32.le_trans low high) (by decide)
    · have low : 'a'.val ≤ c.val := of_decide_eq_true (Bool.and_eq_true_iff.mp lower).1
      exact absurd (UInt32.le_trans low high) (by decide)
  · cases eq_of_beq underscore
    exact absurd digit (by decide)

theorem continuesWord_of_startsWord {c : Char} (starts : startsWord c = true) :
    continuesWord c = true := by
  rcases Bool.or_eq_true_iff.mp starts with letter | underscore
  · simp [continuesWord, Char.isAlphanum, letter]
  · simp [continuesWord, underscore]

theorem read_of_startsWord {c : Char} (starts : startsWord c = true) (cs : List Char) :
    read c cs = .ok (word c cs) := by
  unfold read
  split
  all_goals try exact absurd starts (by decide)
  rw [if_neg (by simp [isDigit_of_startsWord starts]), if_pos starts]

theorem read_of_isDigit {c : Char} (digit : c.isDigit = true) (cs : List Char) :
    read c cs = number c cs := by
  unfold read
  split
  all_goals try exact absurd digit (by decide)
  rw [if_pos digit]

/-- A word is read up to what stops it. -/
theorem read_word (spelled : String) {c : Char} {cs rest : List Char}
    (chars : spelled.toList = c :: cs) (starts : startsWord c = true)
    (continues : cs.all continuesWord = true) (stops : Stops rest) :
    read c (cs ++ rest) = .ok ⟨wordKind spelled, cs.length⟩ := by
  have inside := List.all_eq_true.mp continues
  have taken := (span_append inside rest (stops.outside (by decide))).1
  rw [read_of_startsWord starts, word, taken, ← chars, String.ofList_toList]

theorem wordKind_of_isName {word : String} (name : TokenKind.IsName word) :
    wordKind word = .identifier word := by
  have others := name.1
  simp only [TokenKind.reservedWords, List.mem_cons, List.not_mem_nil, not_or] at others
  simp [wordKind, others]

/-- A numeral without an exponent is read up to what stops it. -/
theorem unsignedNumeral_plainChars {whole fraction rest : List Char} (areWhole : AreDigits whole)
    (areFraction : AreDigits fraction) (stops : Stops rest) :
    unsignedNumeral (plainChars whole fraction ++ rest) = plainChars whole fraction := by
  have noDigit := stops.outside (p := Char.isDigit) (by decide)
  cases fraction with
  | nil =>
    obtain ⟨taken, left⟩ := span_append areWhole rest noDigit
    have none : Lexeme.fraction rest = [] := by
      unfold Lexeme.fraction
      split
      · exact absurd rfl (stops.head?_ne (c := '.') (by decide) (by decide))
      · rfl
    rw [plainChars, unsignedNumeral, taken, left, none, List.append_nil]
  | cons d ds =>
    obtain ⟨digit, digits⟩ := List.forall_mem_cons.mp areFraction
    obtain ⟨taken, left⟩ := span_append areWhole ('.' :: d :: ds ++ rest) (by simp)
    have taken' := (span_append digits rest noDigit).1
    rw [plainChars, unsignedNumeral, List.append_assoc, taken, left, List.cons_append,
      List.cons_append, Lexeme.fraction, if_pos digit, taken']

theorem unsignedNumeral_sizeText {rest : List Char} (size : Magnitude) (stops : Stops rest) :
    unsignedNumeral (Number.sizeText size ++ rest) = Number.sizeText size := by
  obtain ⟨whole, fraction, shape, -, areWhole, areFraction, -⟩ := Number.exists_plain size
  rw [shape]
  exact unsignedNumeral_plainChars areWhole areFraction stops

theorem number_of_numeral {c : Char} {cs rest : List Char} {x : Number}
    (spelled : x.textChars = c :: cs) (finite : x.isFinite = true)
    (found : numeral (c :: (cs ++ rest)) = c :: cs) :
    number c (cs ++ rest) = .ok ⟨.number x, cs.length⟩ := by
  have value : Number.ofChars? (c :: cs) = some x := spelled ▸ Number.ofChars?_textChars finite
  simp [number, found, value, finite]

/-- The text of a finite number is read up to what stops it. -/
theorem read_number {rest : List Char} (stops : Stops rest) :
    ∀ {x : Number}, x.isFinite = true →
      ∃ c cs, x.textChars = c :: cs ∧ read c (cs ++ rest) = .ok ⟨.number x, cs.length⟩
  | .finite true size, finite => by
    obtain ⟨d, ds, front, digit⟩ := Number.exists_cons_sizeText size
    have spelled : Number.textChars (.finite true size) = '-' :: d :: ds :=
      congrArg ('-' :: ·) front
    have unsigned := front ▸ unsignedNumeral_sizeText size stops
    have follows : digitFollows (d :: ds ++ rest) = true := digit
    refine ⟨'-', d :: ds, spelled, ?_⟩
    rw [read, if_pos (by rw [follows]; rfl)]
    exact number_of_numeral spelled finite (congrArg ('-' :: ·) unsigned)
  | .finite false size, finite => by
    obtain ⟨d, ds, front, digit⟩ := Number.exists_cons_sizeText size
    have unsigned := front ▸ unsignedNumeral_sizeText size stops
    refine ⟨d, ds, front, ?_⟩
    rw [read_of_isDigit digit]
    refine number_of_numeral front finite ?_
    rw [numeral]
    · exact unsigned
    · exact fun cs same => (Number.ne_of_isDigit digit).1 (List.cons.inj same).1

/-! ## Strings -/

/-- What is neither a quote nor a backslash nor a line feed stands for itself. -/
theorem stringBody_cons {c : Char} (notQuote : c ≠ '"') (notBackslash : c ≠ '\\')
    (notLineFeed : c ≠ '\n') (cs : List Char) :
    stringBody (c :: cs) = (stringBody cs).map fun (value, size) => (c :: value, size + 1) := by
  rw [stringBody]
  · exact notQuote
  · exact notLineFeed
  · exact fun same _ => notBackslash same
  · exact fun _ _ same _ => notBackslash same

/-- The escaped characters are read one after another. -/
theorem stringBody_escaped_append {c : Char} {cs value : List Char} {size : Nat}
    (rest : stringBody cs = some (value, size)) :
    stringBody (TokenKind.escaped c ++ cs) =
      some (c :: value, (TokenKind.escaped c).length + size) := by
  unfold TokenKind.escaped
  split
  · simp [stringBody, rest, unescape, Nat.add_comm]
  · simp [stringBody, rest, unescape, Nat.add_comm]
  · simp [stringBody, rest, unescape, Nat.add_comm]
  · next notQuote notBackslash notLineFeed =>
    rw [List.singleton_append, stringBody_cons notQuote notBackslash notLineFeed, rest,
      Option.map_some, List.length_singleton, Nat.add_comm]

theorem stringBody_escaped (value rest : List Char) :
    stringBody (value.flatMap TokenKind.escaped ++ '"' :: rest) =
      some (value, (value.flatMap TokenKind.escaped).length + 1) := by
  induction value with
  | nil => rfl
  | cons c value inductionHypothesis =>
    rw [List.flatMap_cons, List.append_assoc, stringBody_escaped_append inductionHypothesis,
      List.length_append, Nat.add_assoc]

theorem read_string (value : String) (rest : List Char) :
    read '"' (value.toList.flatMap TokenKind.escaped ++ '"' :: rest) =
      .ok ⟨.string value, (value.toList.flatMap TokenKind.escaped).length + 1⟩ := by
  simp only [read, string, stringBody_escaped, String.ofList_toList]

/-! ## Source forms -/

/-- The source form of a kind is read up to what stops it. -/
theorem read_spelling {kind : TokenKind} {rest : List Char} (writable : kind.IsWritable)
    (inLine : kind ≠ .newline) (stops : Stops rest) :
    ∃ c cs, kind.spelling = c :: cs ∧ read c (cs ++ rest) = .ok ⟨kind, cs.length⟩ := by
  -- Only what goes on with more characters of its own could be read too far.
  have noEquals : rest.head? ≠ some '=' := stops.head?_ne (by decide) (by decide)
  cases kind with
  | track =>
    exact ⟨'t', "rack".toList, rfl, read_word "track" rfl (by decide) (by decide) stops⟩
  | filter =>
    exact ⟨'f', "ilter".toList, rfl, read_word "filter" rfl (by decide) (by decide) stops⟩
  | map => exact ⟨'m', "ap".toList, rfl, read_word "map" rfl (by decide) (by decide) stops⟩
  | forEach =>
    exact ⟨'f', "or_each".toList, rfl, read_word "for_each" rfl (by decide) (by decide) stops⟩
  | member => exact ⟨'i', "n".toList, rfl, read_word "in" rfl (by decide) (by decide) stops⟩
  | boolean value =>
    cases value with
    | true => exact ⟨'t', "rue".toList, rfl, read_word "true" rfl (by decide) (by decide) stops⟩
    | false =>
      exact ⟨'f', "alse".toList, rfl, read_word "false" rfl (by decide) (by decide) stops⟩
  | identifier word =>
    obtain ⟨-, c, cs, chars, starts, continues⟩ := id writable
    exact ⟨c, cs, chars,
      wordKind_of_isName writable ▸ read_word word chars starts continues stops⟩
  | string value =>
    refine ⟨'"', value.toList.flatMap TokenKind.escaped ++ ['"'], rfl, ?_⟩
    rw [List.append_assoc, List.length_append]
    exact read_string value rest
  | number value => exact read_number stops writable
  | leftParen => exact ⟨'(', [], rfl, rfl⟩
  | rightParen => exact ⟨')', [], rfl, rfl⟩
  | leftBracket => exact ⟨'[', [], rfl, rfl⟩
  | rightBracket => exact ⟨']', [], rfl, rfl⟩
  | leftBrace => exact ⟨'{', [], rfl, rfl⟩
  | rightBrace => exact ⟨'}', [], rfl, rfl⟩
  | comma => exact ⟨',', [], rfl, rfl⟩
  | semicolon => exact ⟨';', [], rfl, rfl⟩
  | atSign => exact ⟨'@', [], rfl, rfl⟩
  | dot => exact ⟨'.', [], rfl, by simp [read, stops.digitFollows_eq_false]⟩
  | assign => exact ⟨'=', [], rfl, by simp [read, withEquals, noEquals]⟩
  | less => exact ⟨'<', [], rfl, by simp [read, withEquals, noEquals]⟩
  | greater => exact ⟨'>', [], rfl, by simp [read, withEquals, noEquals]⟩
  | equal => exact ⟨'=', ['='], rfl, rfl⟩
  | notEqual => exact ⟨'!', ['='], rfl, rfl⟩
  | atMost => exact ⟨'<', ['='], rfl, rfl⟩
  | atLeast => exact ⟨'>', ['='], rfl, rfl⟩
  | newline => exact absurd rfl inLine
  | endOfInput => exact writable.elim

/-- No token starts with a blank, a slash or a line feed. -/
theorem begins_of_read {c : Char} {cs : List Char} {lexeme : Lexeme}
    (reads : read c cs = .ok lexeme) : Token.isBlank c = false ∧ c ≠ '/' ∧ c ≠ '\n' := by
  refine ⟨?_, ?_, ?_⟩
  · rw [← Bool.not_eq_true]
    intro blank
    simp only [Token.isBlank, Bool.or_eq_true, beq_iff_eq] at blank
    rcases blank with (rfl | rfl) | rfl <;> cases reads
  · rintro rfl
    cases reads
  · rintro rfl
    cases reads

end Lexeme

/-! ## Layout -/

/-- What stands between tokens: blanks, and behind them a comment if there is one. -/
structure Layout where
  blanks : List Char
  comment? : Option (List Char)
  areBlank : blanks.all Token.isBlank = true
  inLine : comment?.all (·.all (· != '\n')) = true

namespace Layout

/-- The comment with its mark, if there is one. -/
def commentChars (layout : Layout) : List Char :=
  match layout.comment? with
  | some text => '/' :: '/' :: text
  | none => []

/-- The characters of the layout. -/
def chars (layout : Layout) : List Char := layout.blanks ++ layout.commentChars

theorem stops_chars (layout : Layout) : Stops layout.chars := by
  intro c head
  unfold chars commentChars at head
  cases blanks : layout.blanks with
  | nil =>
    rw [blanks] at head
    split at head
    · exact .inr (Option.some.inj head).symm
    · cases head
  | cons d rest =>
    rw [blanks] at head
    cases head
    exact .inl (List.all_eq_true.mp layout.areBlank c (blanks ▸ List.mem_cons_self))

/-- Whether the layout can stand before the kind, or at the end of a text.  A comment ends only with
    its line. -/
def Precedes (layout : Layout) (next : Option TokenKind) : Prop :=
  layout.comment? = none ∨ next = none ∨ next = some .newline

/-- The text that writes the kinds, with a layout before the first of them and one behind each. -/
def written (front : Layout) : List (TokenKind × Layout) → List Char
  | [] => front.chars
  | (kind, behind) :: rest => front.chars ++ (kind.spelling ++ written behind rest)

/-- Whether the layouts keep the tokens apart: none between two of them is empty, and every comment
    ends with its line. -/
def KeepsApart (front : Layout) : List (TokenKind × Layout) → Prop
  | [] => front.Precedes none
  | (kind, behind) :: rest =>
      front.Precedes (some kind) ∧ (rest = [] ∨ behind.chars ≠ []) ∧ KeepsApart behind rest

theorem stops_written {behind : Layout} {rest : List (TokenKind × Layout)}
    (separated : rest = [] ∨ behind.chars ≠ []) : Stops (written behind rest) := by
  cases rest with
  | nil => exact behind.stops_chars
  | cons token rest =>
    obtain ⟨d, ds, shape⟩ := List.exists_cons_of_ne_nil (separated.resolve_left (by simp))
    intro c head
    rw [written, shape] at head
    exact behind.stops_chars c (by rw [shape]; exact head)

end Layout

namespace Token

theorem ofCharsAt_blanks {blanks : List Char} (areBlank : blanks.all isBlank = true)
    (rest : List Char) (p : Position) : ∃ q, ofCharsAt p (blanks ++ rest) = ofCharsAt q rest := by
  induction blanks generalizing p with
  | nil => exact ⟨p, rfl⟩
  | cons c blanks inductionHypothesis =>
    rw [List.all_cons, Bool.and_eq_true] at areBlank
    obtain ⟨blank, areBlank⟩ := areBlank
    rw [List.cons_append, ofCharsAt, if_pos blank]
    exact inductionHypothesis areBlank _

theorem ofCharsAt_comment {text rest : List Char} (inLine : text.all (· != '\n') = true)
    (ends : rest = [] ∨ rest.head? = some '\n') (p : Position) :
    ofCharsAt p ('/' :: '/' :: text ++ rest) = ofCharsAt (p.past ('/' :: '/' :: text)) rest := by
  have inside : ∀ c ∈ '/' :: text, (c != '\n') = true :=
    List.forall_mem_cons.mpr ⟨by decide, List.all_eq_true.mp inLine⟩
  have stops : ∀ c ∈ rest.head?, (c != '\n') = false := by
    rcases ends with rfl | head
    · simp
    · simp [head]
  have taken : restOfLine ('/' :: text ++ rest) = '/' :: text := (span_append inside rest stops).1
  rw [List.cons_append, ofCharsAt, if_neg (by decide), if_pos ⟨rfl, rfl⟩]
  simp only [taken, List.drop_left]

/-- A layout is skipped where its comment does not hide anything. -/
theorem ofCharsAt_layout {layout : Layout} {rest : List Char}
    (ends : layout.comment? = none ∨ rest = [] ∨ rest.head? = some '\n') (p : Position) :
    ∃ q, ofCharsAt p (layout.chars ++ rest) = ofCharsAt q rest := by
  rw [Layout.chars, List.append_assoc]
  obtain ⟨behind, blanks⟩ := ofCharsAt_blanks layout.areBlank (layout.commentChars ++ rest) p
  rw [blanks]
  have inLine := layout.inLine
  unfold Layout.commentChars
  cases comment : layout.comment? with
  | none => exact ⟨behind, rfl⟩
  | some text =>
    rw [comment] at ends inLine
    exact ⟨_, ofCharsAt_comment inLine (ends.resolve_left (by simp)) behind⟩

theorem ofCharsAt_read {c : Char} {cs rest : List Char} {kind : TokenKind}
    (reads : Lexeme.read c (cs ++ rest) = .ok ⟨kind, cs.length⟩) (p : Position) :
    ofCharsAt p (c :: cs ++ rest) =
      (ofCharsAt (p.past (c :: cs)) rest).map (⟨kind, p⟩ :: ·) := by
  obtain ⟨visible, notSlash, notLineFeed⟩ := Lexeme.begins_of_read reads
  rw [List.cons_append, ofCharsAt, if_neg (by simp [visible]),
    if_neg (fun comment => notSlash comment.1), if_neg notLineFeed, reads]
  simp only [List.take_left, List.drop_left]

/-- A line feed is a token wherever it stands, and every other token ends where it is stopped. -/
theorem ofCharsAt_spelling {kind : TokenKind} {rest : List Char} (writable : kind.IsWritable)
    (stops : Stops rest) (p : Position) :
    ∃ q, ofCharsAt p (kind.spelling ++ rest) = (ofCharsAt q rest).map (⟨kind, p⟩ :: ·) := by
  by_cases newline : kind = .newline
  · subst newline
    refine ⟨p.nextLine, ?_⟩
    change ofCharsAt p ('\n' :: rest) = _
    rw [ofCharsAt, if_neg (by decide), if_neg (by simp), if_pos rfl]
  · obtain ⟨c, cs, spelled, reads⟩ := Lexeme.read_spelling writable newline stops
    rw [spelled]
    exact ⟨_, ofCharsAt_read reads p⟩

/-- Behind a layout that precedes what is written next, the reading goes on. -/
theorem ofCharsAt_written {front : Layout} {tokens : List (TokenKind × Layout)}
    (writable : ∀ t ∈ tokens, t.1.IsWritable) (apart : front.KeepsApart tokens) (p : Position) :
    ∃ ts, ofCharsAt p (front.written tokens) = .ok ts ∧
      ts.map Token.kind = tokens.map Prod.fst ++ [.endOfInput] := by
  -- The place is arbitrary, as it differs behind every token.
  induction tokens generalizing front p with
  | nil =>
    obtain ⟨q, skipped⟩ : ∃ q, ofCharsAt p (front.chars ++ []) = ofCharsAt q [] :=
      ofCharsAt_layout (.inr (.inl rfl)) p
    refine ⟨[⟨.endOfInput, q⟩], ?_, rfl⟩
    rw [Layout.written, ← List.append_nil front.chars, skipped, ofCharsAt]
  | cons token tokens inductionHypothesis =>
    obtain ⟨kind, behind⟩ := token
    obtain ⟨precedes, separated, apart⟩ := apart
    obtain ⟨writable, writableRest⟩ := List.forall_mem_cons.mp writable
    have ends : front.comment? = none ∨ kind.spelling ++ behind.written tokens = [] ∨
        (kind.spelling ++ behind.written tokens).head? = some '\n' := by
      rcases precedes with none | last | newline
      · exact .inl none
      · cases last
      · cases newline
        exact .inr (.inr rfl)
    obtain ⟨q, skipped⟩ := ofCharsAt_layout ends p
    obtain ⟨q', read⟩ := ofCharsAt_spelling writable (Layout.stops_written separated) q
    obtain ⟨ts, rest, kinds⟩ := inductionHypothesis writableRest apart q'
    refine ⟨⟨kind, q⟩ :: ts, ?_, ?_⟩
    · rw [Layout.written, skipped, read, rest]
      rfl
    · rw [List.map_cons, kinds]
      rfl

/-- Reading undoes writing: a text in which the tokens are kept apart is read as these tokens. -/
theorem ofText_written {front : Layout} {tokens : List (TokenKind × Layout)}
    (writable : ∀ t ∈ tokens, t.1.IsWritable) (apart : front.KeepsApart tokens) :
    ∃ ts, ofText (String.ofList (front.written tokens)) = .ok ts ∧
      ts.map Token.kind = tokens.map Prod.fst ++ [.endOfInput] := by
  rw [ofText, String.toList_ofList]
  exact ofCharsAt_written writable apart .start

/-- A string with a quote, a backslash, a line feed and the mark of a comment, minus zero, and a
    comment behind it. -/
theorem ofText_written_with_comment :
    let space : Layout := ⟨[' '], none, rfl, rfl⟩
    let comment : Layout := ⟨['\t'], some "0".toList, rfl, rfl⟩
    let tokens : List (TokenKind × Layout) :=
      [(.identifier "x", space), (.string "\"\\\n//", space),
        (.number (.finite true .zero), comment), (.newline, space)]
    String.ofList (space.written tokens) = " x \"\\\"\\\\\\n//\" -0\t//0\n " ∧
      (∀ t ∈ tokens, t.1.IsWritable) ∧ space.KeepsApart tokens ∧
      ∃ ts, ofText (String.ofList (space.written tokens)) = .ok ts ∧
        ts.map Token.kind = [.identifier "x", .string "\"\\\n//", .number (.finite true .zero),
          .newline, .endOfInput] := by
  intro space comment tokens
  have name : TokenKind.IsName "x" := ⟨by decide, 'x', [], rfl, by decide, by decide⟩
  have writable : ∀ t ∈ tokens, t.1.IsWritable := by
    simp [tokens, TokenKind.IsWritable, name, Number.isFinite]
  have apart : space.KeepsApart tokens := by
    simp [tokens, Layout.KeepsApart, Layout.Precedes, Layout.chars, space, comment]
  exact ⟨by decide, writable, apart, ofText_written writable apart⟩

end Token

end StudioScript
