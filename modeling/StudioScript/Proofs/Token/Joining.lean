import StudioScript.Proofs.Token.Numbers
import StudioScript.Proofs.Token.Spelling

/-! # Joining texts

A line feed stops every token that stands before it, and begins a line in which nothing before it
counts.  So the tokens of two texts with a line feed between them are those of the first text, the
line feed, and those of the second text, further down by the lines of the first
(`Token.ofText_append_lineFeed`).
-/

namespace StudioScript

/-! ## Further down -/

/-- The place in the same column, `n` lines further down. -/
def Position.down (n : Nat) (p : Position) : Position := { p with line := p.line + n }

/-- The same token, `n` lines further down. -/
def Token.down (n : Nat) (t : Token) : Token := { t with position := t.position.down n }

/-! ## Tokens before a line feed -/

namespace Lexeme

/-- Whether what is read stays inside of the characters, and is the same before a line feed as at
    the end of the text. -/
def EndsWithLine (f : List Char → Except LexicalFault Lexeme) : Prop :=
  ∀ cs lexeme, f cs = .ok lexeme →
    lexeme.tail ≤ cs.length ∧ ∀ more, f (cs ++ '\n' :: more) = .ok lexeme

theorem takeWhile_append_lineFeed {p : Char → Bool} (outside : p '\n' = false)
    (cs more : List Char) : (cs ++ '\n' :: more).takeWhile p = cs.takeWhile p := by
  induction cs with
  | nil => simp [outside]
  | cons c cs inductionHypothesis =>
    simp only [List.cons_append, List.takeWhile_cons, inductionHypothesis]

theorem dropWhile_append_lineFeed {p : Char → Bool} (outside : p '\n' = false)
    (cs more : List Char) :
    (cs ++ '\n' :: more).dropWhile p = cs.dropWhile p ++ '\n' :: more := by
  induction cs with
  | nil => simp [outside]
  | cons c cs inductionHypothesis =>
    simp only [List.cons_append, List.dropWhile_cons, inductionHypothesis]
    split <;> rfl

theorem head?_append_lineFeed {c : Char} (other : c ≠ '\n') (cs more : List Char) :
    (cs ++ '\n' :: more).head? = some c ↔ cs.head? = some c := by
  cases cs with
  | nil => simp [other.symm]
  | cons d cs => simp

theorem digitFollows_append_lineFeed (cs more : List Char) :
    digitFollows (cs ++ '\n' :: more) = digitFollows cs := by
  cases cs <;> rfl

theorem fraction_append_lineFeed (cs more : List Char) :
    fraction (cs ++ '\n' :: more) = fraction cs := by
  rcases cs with _ | ⟨c, _ | ⟨d, cs⟩⟩
  · rfl
  · by_cases point : c = '.'
    · subst point
      rfl
    · simp [fraction, point]
  · by_cases point : c = '.'
    · subst point
      simp only [List.cons_append, fraction, takeWhile_append_lineFeed (p := Char.isDigit) rfl]
    · simp [fraction, point]

theorem unsignedNumeral_append_lineFeed (cs more : List Char) :
    unsignedNumeral (cs ++ '\n' :: more) = unsignedNumeral cs := by
  rw [unsignedNumeral, takeWhile_append_lineFeed rfl, dropWhile_append_lineFeed rfl,
    fraction_append_lineFeed, unsignedNumeral]

theorem numeral_append_lineFeed (c : Char) (cs more : List Char) :
    numeral (c :: (cs ++ '\n' :: more)) = numeral (c :: cs) := by
  by_cases minus : c = '-'
  · subst minus
    exact congrArg ('-' :: ·) (unsignedNumeral_append_lineFeed cs more)
  · simpa [numeral, minus] using unsignedNumeral_append_lineFeed (c :: cs) more

theorem length_fraction_le (cs : List Char) : (fraction cs).length ≤ cs.length := by
  unfold fraction
  split
  · next d cs =>
    have digits := (List.takeWhile_prefix (l := cs) Char.isDigit).length_le
    split
    · simpa using digits
    · simp
  · simp

theorem length_unsignedNumeral_le (cs : List Char) : (unsignedNumeral cs).length ≤ cs.length := by
  have parts := congrArg List.length (List.takeWhile_append_dropWhile (p := Char.isDigit) (l := cs))
  have behind := length_fraction_le (cs.dropWhile Char.isDigit)
  rw [List.length_append] at parts
  rw [unsignedNumeral, List.length_append]
  omega

theorem length_numeral_le (cs : List Char) : (numeral cs).length ≤ cs.length := by
  unfold numeral
  split
  · next cs => simpa using length_unsignedNumeral_le cs
  · exact length_unsignedNumeral_le cs

theorem number_endsWithLine (c : Char) : EndsWithLine (number c) := by
  intro cs lexeme read
  have within := length_numeral_le (c :: cs)
  refine ⟨?_, fun more => ?_⟩
  · dsimp only [number] at read
    split at read
    · cases read
    · split at read
      · cases read
        simp only [List.length_cons] at within ⊢
        omega
      · cases read
  · simpa only [number, numeral_append_lineFeed] using read

theorem stringBody_append {cs value : List Char} {size : Nat}
    (read : stringBody cs = some (value, size)) (more : List Char) :
    size ≤ cs.length ∧ stringBody (cs ++ more) = some (value, size) := by
  induction cs using stringBody.induct generalizing value size with
  | case1 | case3 | case4 => cases read
  | case2 cs =>
    cases read
    exact ⟨by simp, rfl⟩
  | case5 c cs inductionHypothesis =>
    -- A backslash and the character behind it.
    obtain ⟨⟨value', size'⟩, body, same⟩ := Option.map_eq_some_iff.mp read
    cases same
    obtain ⟨within, read'⟩ := inductionHypothesis body
    refine ⟨by simpa using within, ?_⟩
    simp only [List.cons_append, stringBody, read', Option.map_some]
  | case6 c cs notQuote notLineFeed notLast notEscape inductionHypothesis =>
    have notBackslash : c ≠ '\\' := by
      intro same
      cases cs with
      | nil => exact notLast same rfl
      | cons d ds => exact notEscape d ds same rfl
    rw [stringBody_cons notQuote notBackslash notLineFeed] at read
    obtain ⟨⟨value', size'⟩, body, same⟩ := Option.map_eq_some_iff.mp read
    cases same
    obtain ⟨within, read'⟩ := inductionHypothesis body
    refine ⟨by simpa using within, ?_⟩
    rw [List.cons_append, stringBody_cons notQuote notBackslash notLineFeed, read',
      Option.map_some]

theorem string_endsWithLine : EndsWithLine string := by
  intro cs lexeme read
  unfold string at read
  split at read
  · next value size body =>
    cases read
    refine ⟨(stringBody_append body []).1, fun more => ?_⟩
    rw [string, (stringBody_append body _).2]
  · cases read

theorem word_endsWithLine (c : Char) : EndsWithLine fun cs => .ok (word c cs) := by
  intro cs lexeme read
  cases read
  refine ⟨(List.takeWhile_prefix _).length_le, fun more => ?_⟩
  simp only [word, takeWhile_append_lineFeed (p := continuesWord) rfl]

theorem mark_endsWithLine (kind : TokenKind) : EndsWithLine fun _ => .ok ⟨kind, 0⟩ := by
  intro cs lexeme read
  cases read
  exact ⟨Nat.zero_le _, fun _ => rfl⟩

/-- What depends on an equals sign behind it. -/
theorem equals_endsWithLine {longer : TokenKind} {shorter : Except LexicalFault Lexeme}
    (alone : EndsWithLine fun _ => shorter) :
    EndsWithLine fun cs => if cs.head? = some '=' then .ok ⟨longer, 1⟩ else shorter := by
  intro cs lexeme read
  simp only [head?_append_lineFeed (c := '=') (by decide)] at read ⊢
  split at read
  · next follows =>
    cases read
    refine ⟨?_, fun _ => if_pos follows⟩
    cases cs with
    | nil => cases follows
    | cons c cs => simp
  · next other =>
    obtain ⟨within, same⟩ := alone cs lexeme read
    exact ⟨within, fun more => (if_neg other).trans (same more)⟩

theorem withEquals_endsWithLine (longer shorter : TokenKind) :
    EndsWithLine fun cs => .ok (withEquals cs longer shorter) := by
  have split (cs : List Char) : Except.ok (ε := LexicalFault) (withEquals cs longer shorter) =
      if cs.head? = some '=' then .ok ⟨longer, 1⟩ else .ok ⟨shorter, 0⟩ := apply_ite ..
  simp only [split]
  exact equals_endsWithLine (mark_endsWithLine shorter)

/-- A choice that does not depend on what stands behind the line. -/
theorem EndsWithLine.ite {b : List Char → Bool} {f g : List Char → Except LexicalFault Lexeme}
    (same : ∀ cs more, b (cs ++ '\n' :: more) = b cs) (yes : EndsWithLine f)
    (no : EndsWithLine g) : EndsWithLine fun cs => if b cs then f cs else g cs := by
  intro cs lexeme read
  simp only [same]
  dsimp only at read
  split at read
  · next chosen =>
    obtain ⟨within, unchanged⟩ := yes cs lexeme read
    exact ⟨within, fun more => (if_pos chosen).trans (unchanged more)⟩
  · next chosen =>
    obtain ⟨within, unchanged⟩ := no cs lexeme read
    exact ⟨within, fun more => (if_neg chosen).trans (unchanged more)⟩

theorem error_endsWithLine (fault : LexicalFault) : EndsWithLine fun _ => .error fault := by
  intro cs lexeme read
  cases read

/-- Every token ends with its line. -/
theorem read_endsWithLine (c : Char) : EndsWithLine (read c) := by
  intro cs lexeme reads
  unfold read at reads
  split at reads
  -- The marks that stand alone, and those that an equals sign may follow, come first.
  iterate 9 · exact mark_endsWithLine _ cs lexeme reads
  iterate 3 · exact withEquals_endsWithLine _ _ cs lexeme reads
  · exact equals_endsWithLine (error_endsWithLine _) cs lexeme reads
  · exact string_endsWithLine cs lexeme reads
  · refine EndsWithLine.ite (b := fun cs => digitFollows cs || cs.head? = some '.')
      (fun cs more => ?_) (number_endsWithLine '-') (error_endsWithLine .loneMinus) cs lexeme reads
    simp only [digitFollows_append_lineFeed, head?_append_lineFeed (c := '.') (by decide)]
  · exact EndsWithLine.ite digitFollows_append_lineFeed (number_endsWithLine '.')
      (mark_endsWithLine .dot) cs lexeme reads
  · split at reads
    · next digit =>
      obtain ⟨within, same⟩ := number_endsWithLine c cs lexeme reads
      exact ⟨within, fun more => (read_of_isDigit digit _).trans (same more)⟩
    · split at reads
      · next starts =>
        obtain ⟨within, same⟩ := word_endsWithLine c cs lexeme reads
        exact ⟨within, fun more => (read_of_startsWord starts _).trans (same more)⟩
      · cases reads

end Lexeme

/-! ## Texts -/

namespace Token

/-- A text is read the same further down. -/
theorem ofCharsAt_down {p : Position} {cs : List Char} {ts : List Token}
    (read : ofCharsAt p cs = .ok ts) (n : Nat) :
    ofCharsAt (p.down n) cs = .ok (ts.map (.down n)) := by
  induction p, cs using ofCharsAt.induct generalizing ts with
  | case1 p =>
    rw [ofCharsAt] at read ⊢
    cases read
    rfl
  | case2 p c cs blank inductionHypothesis =>
    rw [ofCharsAt, if_pos blank] at read ⊢
    exact inductionHypothesis read
  | case3 p c cs visible comment text =>
    rename_i inductionHypothesis
    rw [ofCharsAt, if_neg visible, if_pos comment] at read ⊢
    exact inductionHypothesis read
  | case4 p cs visible token inductionHypothesis =>
    rw [ofCharsAt, if_neg visible, if_neg token, if_pos rfl] at read ⊢
    obtain ⟨rest, ran, rfl⟩ := Except.map_eq_ok.mp read
    have next : (p.down n).nextLine = p.nextLine.down n := by
      simp only [Position.nextLine, Position.down, Nat.add_right_comm]
    rw [next, inductionHypothesis ran]
    rfl
  | case5 p c cs visible token inside fault refused =>
    rw [ofCharsAt, if_neg visible, if_neg token, if_neg inside, refused] at read
    cases read
  | case6 p c cs visible token inside lexeme accepted inductionHypothesis =>
    rw [ofCharsAt, if_neg visible, if_neg token, if_neg inside, accepted] at read ⊢
    obtain ⟨rest, ran, rfl⟩ := Except.map_eq_ok.mp read
    have behind := inductionHypothesis ran
    change ofCharsAt ((p.down n).past (c :: cs.take lexeme.tail)) _ = _ at behind
    simp only [behind]
    rfl

/-- Behind a line feed the reading starts afresh. -/
theorem ofCharsAt_joined {p : Position} {cs : List Char} {ts : List Token}
    (read : ofCharsAt p cs = .ok ts) :
    ∃ body q, ts = body ++ [⟨.endOfInput, q⟩] ∧ ∀ more,
      ofCharsAt p (cs ++ '\n' :: more) =
        (ofCharsAt q.nextLine more).map (body ++ ⟨.newline, q⟩ :: ·) := by
  induction p, cs using ofCharsAt.induct generalizing ts with
  | case1 p =>
    rw [ofCharsAt] at read
    cases read
    refine ⟨[], p, rfl, fun more => ?_⟩
    rw [List.nil_append, ofCharsAt, if_neg (by decide), if_neg (by simp), if_pos rfl]
    rfl
  | case2 p c cs blank inductionHypothesis =>
    rw [ofCharsAt, if_pos blank] at read
    obtain ⟨body, q, rfl, joined⟩ := inductionHypothesis read
    refine ⟨body, q, rfl, fun more => ?_⟩
    rw [List.cons_append, ofCharsAt, if_pos blank, joined]
  | case3 p c cs visible comment text =>
    rename_i inductionHypothesis
    rw [ofCharsAt, if_neg visible, if_pos comment] at read
    obtain ⟨body, q, rfl, joined⟩ := inductionHypothesis read
    refine ⟨body, q, rfl, fun more => ?_⟩
    -- A comment goes on to the end of its line, and that is where the line feed is put.
    have comment' : c = '/' ∧ (cs ++ '\n' :: more).head? = some '/' :=
      ⟨comment.1, (Lexeme.head?_append_lineFeed (by decide) cs more).mpr comment.2⟩
    have same : restOfLine (cs ++ '\n' :: more) = restOfLine cs :=
      Lexeme.takeWhile_append_lineFeed rfl cs more
    have within : (restOfLine cs).length ≤ cs.length := (List.takeWhile_prefix _).length_le
    rw [List.cons_append, ofCharsAt, if_neg visible, if_pos comment']
    simp only [same, List.drop_append_of_le_length within]
    exact joined more
  | case4 p cs visible token inductionHypothesis =>
    rw [ofCharsAt, if_neg visible, if_neg token, if_pos rfl] at read
    obtain ⟨rest, ran, rfl⟩ := Except.map_eq_ok.mp read
    obtain ⟨body, q, rfl, joined⟩ := inductionHypothesis ran
    refine ⟨⟨.newline, p⟩ :: body, q, rfl, fun more => ?_⟩
    rw [List.cons_append, ofCharsAt, if_neg visible, if_neg (by simp), if_pos rfl, joined]
    cases ofCharsAt q.nextLine more <;> rfl
  | case5 p c cs visible token inside fault refused =>
    rw [ofCharsAt, if_neg visible, if_neg token, if_neg inside, refused] at read
    cases read
  | case6 p c cs visible token inside lexeme accepted inductionHypothesis =>
    rw [ofCharsAt, if_neg visible, if_neg token, if_neg inside, accepted] at read
    obtain ⟨rest, ran, rfl⟩ := Except.map_eq_ok.mp read
    obtain ⟨body, q, rfl, joined⟩ := inductionHypothesis ran
    obtain ⟨within, unchanged⟩ := Lexeme.read_endsWithLine c cs lexeme accepted
    refine ⟨⟨lexeme.kind, p⟩ :: body, q, rfl, fun more => ?_⟩
    have token' : ¬(c = '/' ∧ (cs ++ '\n' :: more).head? = some '/') := fun comment =>
      token ⟨comment.1, (Lexeme.head?_append_lineFeed (by decide) cs more).mp comment.2⟩
    rw [List.cons_append, ofCharsAt, if_neg visible, if_neg token', if_neg inside, unchanged more]
    simp only [List.take_append_of_le_length within, List.drop_append_of_le_length within, joined]
    cases ofCharsAt q.nextLine more <;> rfl

/-- Joined by a line feed, two texts are read one after the other. -/
theorem ofText_append_lineFeed {a b : String} {ts ts' : List Token} (read : ofText a = .ok ts)
    (read' : ofText b = .ok ts') :
    ∃ body q, ts = body ++ [⟨.endOfInput, q⟩] ∧
      ofText (a ++ "\n" ++ b) = .ok (body ++ ⟨.newline, q⟩ :: ts'.map (.down q.line)) := by
  obtain ⟨body, q, rfl, joined⟩ := ofCharsAt_joined read
  refine ⟨body, q, rfl, ?_⟩
  have chars : (a ++ "\n" ++ b).toList = a.toList ++ '\n' :: b.toList := by simp
  have start : q.nextLine = Position.start.down q.line := by
    rw [Position.nextLine, Position.down, Position.start, Nat.add_comm]
  rw [ofText, chars, joined, start, ofCharsAt_down read' q.line]
  rfl

end Token

end StudioScript
