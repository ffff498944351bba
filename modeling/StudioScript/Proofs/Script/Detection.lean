import StudioScript.Execution.Outcome
import StudioScript.Proofs.Script.Joining
import StudioScript.Proofs.Token.Places
import StudioScript.Script.Detection

/-! # Which scripts are told from other text

The check looks at the text alone: for a statement at its start, spelled without blanks, and for a
chained call anywhere in it.  A script that comes to actions begins with a statement, behind blanks,
comments and separators.  So it is taken for a script unless a comment or a separator stands before
that statement, its head is spelled apart or it is a utility (`Detection.accepts_running`); such
scripts are refused if no chained call gives them away (`Detection.rejects_running`).
-/

namespace StudioScript

/-! ## Searching and trimming -/

theorem suffix_dropWhile {p : Char → Bool} {part cs : List Char}
    (outside : ∀ c ∈ part, p c = false) (ends : part <:+ cs) : part <:+ cs.dropWhile p := by
  induction cs with
  | nil => exact ends
  | cons c cs inductionHypothesis =>
    rw [List.dropWhile_cons]
    split
    · next inside =>
      rcases List.suffix_cons_iff.mp ends with rfl | ends
      · rw [outside c List.mem_cons_self] at inside
        cases inside
      · exact inductionHypothesis ends
    · exact ends

theorem infix_dropWhile {p : Char → Bool} {part cs : List Char} (some : part ≠ [])
    (outside : ∀ c ∈ part, p c = false) (within : part <:+: cs) : part <:+: cs.dropWhile p := by
  induction cs with
  | nil => exact within
  | cons c cs inductionHypothesis =>
    rw [List.dropWhile_cons]
    split
    · next inside =>
      rcases List.infix_cons_iff.mp within with begins | within
      · obtain ⟨d, part, rfl⟩ := List.exists_cons_of_ne_nil some
        obtain ⟨rfl, _⟩ := List.cons_prefix_cons.mp begins
        rw [outside d List.mem_cons_self] at inside
        cases inside
      · exact inductionHypothesis within
    · exact within

namespace Text

/-- Nothing is taken off a text inside of what has no blanks in it. -/
theorem infix_trimChars {part cs : List Char} (some : part ≠ [])
    (visible : ∀ c ∈ part, isBlank c = false) (within : part <:+: cs) :
    part <:+: trimChars cs := by
  have front := infix_dropWhile some visible within
  have back := infix_dropWhile (List.reverse_ne_nil_iff.mpr some)
    (fun c member => visible c (List.mem_reverse.mp member)) (List.reverse_infix.mpr front)
  rwa [trimChars, ← List.reverse_infix, List.reverse_reverse]

theorem prefix_trimChars {part cs : List Char} (visible : ∀ c ∈ part, isBlank c = false)
    (begins : part <+: cs.dropWhile isBlank) : part <+: trimChars cs := by
  have back := suffix_dropWhile (fun c member => visible c (List.mem_reverse.mp member))
    (List.reverse_suffix.mpr begins)
  rwa [trimChars, ← List.reverse_suffix, List.reverse_reverse]

/-- No letter, digit or underscore is blank. -/
theorem isBlank_of_continuesWord {c : Char} (continues : Lexeme.continuesWord c = true) :
    isBlank c = false := by
  have code : 48 ≤ c.toNat ∧ c.toNat ≤ 57 ∨ 65 ≤ c.toNat ∧ c.toNat ≤ 90 ∨
      97 ≤ c.toNat ∧ c.toNat ≤ 122 ∨ c.toNat = 95 := by
    simp only [Lexeme.continuesWord, Char.isAlphanum, Char.isAlpha, Char.isUpper, Char.isLower,
      Char.isDigit, Bool.or_eq_true, Bool.and_eq_true, decide_eq_true_eq, UInt32.le_iff_toNat_le,
      ge_iff_le, beq_iff_eq] at continues
    rcases continues with ((upper | lower) | digit) | rfl
    · exact .inr (.inl upper)
    · exact .inr (.inr (.inl lower))
    · exact .inl digit
    · exact .inr (.inr (.inr rfl))
  simp [isBlank, inRanges, blankRanges]
  omega

end Text

/-! ## Words in a text -/

namespace Lexeme

theorem kind_of_number {c : Char} {cs : List Char} {lexeme : Lexeme}
    (reads : number c cs = .ok lexeme) : ∃ x, lexeme.kind = .number x := by
  dsimp only [number] at reads
  split at reads
  · cases reads
  · split at reads
    · cases reads
      exact ⟨_, rfl⟩
    · cases reads

theorem kind_of_string {cs : List Char} {lexeme : Lexeme} (reads : string cs = .ok lexeme) :
    ∃ s, lexeme.kind = .string s := by
  unfold string at reads
  split at reads
  · cases reads
    exact ⟨_, rfl⟩
  · cases reads

/-- The first character of a token that is no word, of the kinds that tell how a script begins. -/
structure IsMark (c : Char) (kind : TokenKind) : Prop where
  visible : Text.isBlank c = false
  unnamed : Parse.nameOf? kind = none
  semicolon : kind = .semicolon → c = ';'
  leftParen : kind = .leftParen → c = '('

/-- What is read as a token is a word, or it begins with a mark, a digit or a sign. -/
theorem word_or_mark_of_read {c : Char} {cs : List Char} {lexeme : Lexeme}
    (reads : read c cs = .ok lexeme) :
    startsWord c = true ∧ lexeme = word c cs ∨ IsMark c lexeme.kind := by
  have number {c : Char} (visible : Text.isBlank c = false) (reads : number c cs = .ok lexeme) :
      IsMark c lexeme.kind := by
    obtain ⟨x, kind⟩ := kind_of_number reads
    rw [kind]
    exact ⟨visible, rfl, nofun, nofun⟩
  unfold read at reads
  split at reads
  -- Nine marks stand for themselves, and behind three more there may be an equals sign.
  iterate 9
    · cases reads
      exact .inr ⟨by decide, rfl, by simp, by simp⟩
  iterate 3
    · cases reads
      unfold withEquals
      split <;> exact .inr ⟨by decide, rfl, nofun, nofun⟩
  · split at reads <;> cases reads
    exact .inr ⟨by decide, rfl, nofun, nofun⟩
  · obtain ⟨s, kind⟩ := kind_of_string reads
    rw [kind]
    exact .inr ⟨by decide, rfl, nofun, nofun⟩
  · split at reads
    · exact .inr (number (by decide) reads)
    · cases reads
  · split at reads
    · exact .inr (number (by decide) reads)
    · cases reads
      exact .inr ⟨by decide, rfl, nofun, nofun⟩
  · split at reads
    · next digit =>
      have continues : continuesWord c = true := by simp [continuesWord, Char.isAlphanum, digit]
      exact .inr (number (Text.isBlank_of_continuesWord continues) reads)
    · split at reads
      · next starts =>
        cases reads
        exact .inl ⟨starts, rfl⟩
      · cases reads

theorem wordKind_ne {kind : TokenKind} (mark : kind ∈ [.semicolon, .leftParen]) (spelled : String) :
    wordKind spelled ≠ kind := by
  simp only [List.mem_cons, List.not_mem_nil, or_false] at mark
  unfold wordKind
  repeat' split
  all_goals rcases mark with rfl | rfl <;> simp

theorem eq_semicolon_of_read {c : Char} {cs : List Char} {lexeme : Lexeme}
    (reads : read c cs = .ok lexeme) (kind : lexeme.kind = .semicolon) : c = ';' := by
  rcases word_or_mark_of_read reads with ⟨_, rfl⟩ | mark
  · exact absurd kind (wordKind_ne (by simp) _)
  · exact mark.semicolon kind

theorem eq_leftParen_of_read {c : Char} {cs : List Char} {lexeme : Lexeme}
    (reads : read c cs = .ok lexeme) (kind : lexeme.kind = .leftParen) : c = '(' := by
  rcases word_or_mark_of_read reads with ⟨_, rfl⟩ | mark
  · exact absurd kind (wordKind_ne (by simp) _)
  · exact mark.leftParen kind

theorem isBlank_of_read {c : Char} {cs : List Char} {lexeme : Lexeme}
    (reads : read c cs = .ok lexeme) : Text.isBlank c = false := by
  rcases word_or_mark_of_read reads with ⟨starts, _⟩ | mark
  · exact Text.isBlank_of_continuesWord (continuesWord_of_startsWord starts)
  · exact mark.visible

theorem nameOf?_wordKind {spelled name : String}
    (named : Parse.nameOf? (wordKind spelled) = some name) : spelled = name := by
  unfold wordKind at named
  repeat' split at named
  all_goals simp_all [Parse.nameOf?]

/-- A name stands in the text as it is spelled, up to where the word ends. -/
theorem spelled_of_read {c : Char} {cs : List Char} {lexeme : Lexeme} {name : String}
    (reads : read c cs = .ok lexeme) (named : Parse.nameOf? lexeme.kind = some name) :
    c :: cs = name.toList ++ cs.drop lexeme.tail ∧
      ∀ d ∈ (cs.drop lexeme.tail).head?, continuesWord d = false := by
  rcases word_or_mark_of_read reads with ⟨_, rfl⟩ | mark
  · obtain rfl := nameOf?_wordKind named
    have behind : cs.drop (cs.takeWhile continuesWord).length = cs.dropWhile continuesWord := by
      have parts := congrArg (List.drop (cs.takeWhile continuesWord).length)
        (List.takeWhile_append_dropWhile (p := continuesWord) (l := cs))
      rw [List.drop_left] at parts
      exact parts.symm
    refine ⟨by simp [word, behind], fun d head => ?_⟩
    have stops := List.head?_dropWhile_not continuesWord cs
    simp only [word, behind] at head
    rw [Option.mem_def.mp head] at stops
    simpa using stops
  · rw [mark.unnamed] at named
    cases named

end Lexeme

namespace Token

variable {p q : Position} {cs : List Char} {ts : List Token}

/-- A text that is read as tokens has only line feeds among the blanks at its start that are not
    skipped. -/
theorem ofCharsAt_dropWhile (read : ofCharsAt p cs = .ok ts) :
    ∃ gap q rest, Grammar.Newlines gap ∧ ts = gap ++ rest ∧
      ofCharsAt q (cs.dropWhile Text.isBlank) = .ok rest := by
  induction cs generalizing p ts with
  | nil => exact ⟨[], p, ts, .nil, rfl, read⟩
  | cons c cs inductionHypothesis =>
    by_cases blank : Text.isBlank c = true
    · rw [List.dropWhile_cons_of_pos blank]
      by_cases skipped : isBlank c = true
      · rw [ofCharsAt, if_pos skipped] at read
        exact inductionHypothesis read
      · have notSlash : c ≠ '/' := by
          rintro rfl
          exact absurd blank (by decide)
        rw [ofCharsAt, if_neg skipped, if_neg fun comment => notSlash comment.1] at read
        split at read
        · next lineFeed =>
          obtain ⟨rest, ran, rfl⟩ := Except.map_eq_ok.mp read
          obtain ⟨gap, q, rest, newlines, rfl, behind⟩ := inductionHypothesis ran
          refine ⟨⟨.newline, p⟩ :: gap, q, rest, ?_, rfl, behind⟩
          exact List.forall_mem_cons.mpr ⟨rfl, newlines⟩
        · -- No token begins with any other blank.
          split at read
          · cases read
          · next reads =>
            rw [Lexeme.isBlank_of_read reads] at blank
            cases blank
    · rw [List.dropWhile_cons_of_neg blank]
      exact ⟨[], p, ts, .nil, rfl, read⟩

/-- Only blanks stand before a parenthesis that no other token stands before: a comment ends with
    its line. -/
theorem Scans.blanks {before rest : List Char} {body : List Token}
    (scans : Scans p before body q rest) (none : body = []) (opens : rest.head? = some '(') :
    before.all isBlank = true := by
  induction scans with
  | refl => rfl
  | @step p q r chunk before made body rest first _ inductionHypothesis =>
    obtain ⟨rfl, rfl⟩ := List.append_eq_nil_iff.mp none
    have blanks := inductionHypothesis rfl opens
    cases first with
    | blank blank => simp [blank, blanks]
    | comment _ ends =>
      exfalso
      cases before with
      | nil =>
        rw [List.nil_append, opens] at ends
        rcases ends with rfl | lineFeed
        · cases opens
        · cases lineFeed
      | cons c before =>
        rcases ends with ends | lineFeed
        · cases ends
        · cases lineFeed
          exact absurd blanks (by simp [isBlank])

theorem ofCharsAt_leftParen (read : ofCharsAt p cs = .ok (⟨.leftParen, q⟩ :: ts)) :
    ∃ blanks rest, blanks.all isBlank = true ∧ cs = blanks ++ '(' :: rest := by
  have read : ofCharsAt p cs = .ok ([] ++ ⟨.leftParen, q⟩ :: ts) := read
  obtain ⟨before, rest, rfl, scans, heads⟩ := scans_of_ofCharsAt read
  generalize kind : TokenKind.leftParen = k at heads
  cases heads with
  | endOfInput | newline => cases kind
  | @lexeme c rest lexeme reads =>
    obtain rfl := Lexeme.eq_leftParen_of_read reads kind.symm
    exact ⟨before, rest, scans.blanks rfl rfl, rfl⟩

end Token

/-! ## How scripts begin -/

namespace Grammar

/-- Whether the tokens begin with the name of a utility, or with a head that has its parenthesis
    behind it. -/
def Opens (ts : List Token) : Prop :=
  ∃ t word rest, ts = t :: rest ∧ Name t word ∧
    ((∃ u, Method.ofName? word = some (.utility u)) ∨
      word ++ "(" ∈ Detection.heads ∧ ∃ p behind, rest = ⟨.leftParen, p⟩ :: behind)

theorem Opens.append {ts : List Token} (opens : Opens ts) (more : List Token) :
    Opens (ts ++ more) := by
  obtain ⟨t, word, rest, rfl, named, utility | ⟨head, p, behind, rfl⟩⟩ := opens
  · exact ⟨t, word, rest ++ more, rfl, named, .inl utility⟩
  · exact ⟨t, word, _, rfl, named, .inr ⟨head, p, behind ++ more, rfl⟩⟩

theorem opens_of_keyword {t : Token} {word : String} (named : Name t word)
    (head : word ++ "(" ∈ Detection.heads) (p : Position) (behind : List Token) :
    Opens (t :: ⟨.leftParen, p⟩ :: behind) :=
  ⟨t, word, _, rfl, named, .inr ⟨head, p, behind, rfl⟩⟩

theorem ChainableCall.opens {ts : List Token} {call : Call} (derived : ChainableCall ts call) :
    Opens ts := by
  cases derived with
  | track derived =>
    cases derived with
    | number => exact opens_of_keyword (.track _) (by decide) _ _
    | keywords read =>
      cases read
      exact opens_of_keyword (.track _) (by decide) _ _
  | filter derived =>
    cases derived
    exact opens_of_keyword (.filter _) (by decide) _ _
  | utility derived =>
    obtain ⟨named, spells, _⟩ := derived
    exact ⟨_, _, _, rfl, named, .inl ⟨_, spells⟩⟩

theorem ItemwiseCall.opens {ts : List Token} {call : Call} (derived : ItemwiseCall ts call) :
    Opens ts := by
  cases derived with
  | map derived =>
    cases derived
    exact opens_of_keyword (.map _) (by decide) _ _
  | forEach derived =>
    cases derived
    exact opens_of_keyword (.forEach _) (by decide) _ _

theorem StatementRule.opens {ts : List Token} {st : Statement} (derived : StatementRule ts st) :
    Opens ts := by
  cases derived with
  | chained read _ => exact read.opens.append _
  | alone read => exact read.opens

theorem Statements.opens {ts : List Token} {sts : List Statement} (derived : Statements ts sts) :
    Opens ts := by
  cases derived with
  | last read => exact read.opens
  | more read => exact read.opens.append _

end Grammar

namespace Parse

open Grammar

/-- Behind line feeds, separators begin with a semicolon, or there are no more of them. -/
theorem skipNewlines_separators {gap : List Token} (separators : Separators gap)
    (rest : List Token) :
    (∃ p more, skipNewlines (gap ++ rest) = ⟨.semicolon, p⟩ :: more) ∨
      skipNewlines (gap ++ rest) = skipNewlines rest := by
  induction gap with
  | nil => exact .inr rfl
  | cons t gap inductionHypothesis =>
    obtain ⟨first, separators⟩ := List.forall_mem_cons.mp separators
    rcases first with newline | semicolon
    · have skipped : skipNewlines ([t] ++ (gap ++ rest)) = skipNewlines (gap ++ rest) :=
        skipNewlines_append (List.forall_mem_singleton.mpr newline)
      rw [List.cons_append]
      exact skipped ▸ inductionHypothesis separators
    · refine .inl ⟨t.position, gap ++ rest, ?_⟩
      rw [List.cons_append, skipNewlines_eq_self (by simp [semicolon]), ← semicolon]

/-- Behind line feeds, a script with statements begins with a separator, or with the first
    statement. -/
theorem opens_of_body {gap rest body : List Token} {sts : List Statement} {p : Position}
    (derived : Body body sts) (some : sts ≠ []) (newlines : Newlines gap)
    (shape : gap ++ rest = body ++ [⟨.endOfInput, p⟩]) (other : (next rest).kind ≠ .newline) :
    (∃ p more, rest = ⟨.semicolon, p⟩ :: more) ∨ Opens rest := by
  have left : skipNewlines (body ++ [⟨.endOfInput, p⟩]) = rest := by
    rw [← shape, skipNewlines_append newlines, skipNewlines_eq_self other]
  cases derived with
  | empty => exact absurd rfl some
  | @statements before ts sts after separators statements _ =>
    have opens := statements.opens.append (after ++ [⟨.endOfInput, p⟩])
    rw [List.append_assoc, List.append_assoc] at left
    rcases skipNewlines_separators separators (ts ++ (after ++ [⟨.endOfInput, p⟩])) with
      ⟨p', more, semicolon⟩ | behind
    · exact .inl ⟨p', more, left.symm.trans semicolon⟩
    · have first : (next (ts ++ (after ++ [⟨.endOfInput, p⟩]))).kind ≠ .newline := by
        obtain ⟨t, _, _, shape, named, _⟩ := opens
        rw [shape]
        exact named.kind_ne_newline
      rw [left, skipNewlines_eq_self first] at behind
      exact .inr (behind ▸ opens)

end Parse

/-- A text that comes to actions is a script with statements. -/
theorem Context.statements_ne_nil_of_run {ctx : Context} {text : String} {actions : List Action}
    (ran : ctx.run text = .ok actions) :
    ∃ script, Script.ofText text = .ok script ∧ script.statements ≠ [] := by
  unfold Context.run at ran
  split at ran
  · next script parsed =>
    refine ⟨script, parsed, fun none => ?_⟩
    simp only [Context.execute, none] at ran
    cases ran
  · cases ran

namespace Detection

/-- Whether a text begins like a script that the check does not know by its start: with a comment, a
    separator or the name of a utility, or with a head that blanks keep from its parenthesis. -/
inductive BeginsApart : List Char → Prop where
  | comment {rest} : BeginsApart ('/' :: '/' :: rest)
  | separator {rest} : BeginsApart (';' :: rest)
  | utility {word u rest} (spells : Method.ofName? word = some (.utility u))
      (ends : ∀ c ∈ rest.head?, Lexeme.continuesWord c = false) : BeginsApart (word.toList ++ rest)
  | head {word blanks rest} (head : word ++ "(" ∈ heads)
      (areBlank : blanks.all Token.isBlank = true) (some : blanks ≠ []) :
      BeginsApart (word.toList ++ (blanks ++ '(' :: rest))

/-- A script with statements begins with a head and its parenthesis, or it begins apart. -/
theorem begins_of_ofText {text : String} {script : Script}
    (parsed : Script.ofText text = .ok script) (some : script.statements ≠ []) :
    (∃ head ∈ heads, head.toList <+: text.toList.dropWhile Text.isBlank) ∨
      BeginsApart (text.toList.dropWhile Text.isBlank) := by
  obtain ⟨ts, read, parsed⟩ := Except.bind_eq_ok.mp parsed
  obtain ⟨gap, q, rest, newlines, rfl, readRest⟩ := Token.ofCharsAt_dropWhile read
  obtain ⟨body, p, shape, derived⟩ := Script.body_of_ofText read parsed
  have opens := Parse.opens_of_body derived some newlines shape
  have visible := List.head?_dropWhile_not Text.isBlank text.toList
  generalize text.toList.dropWhile Text.isBlank = cs at readRest visible
  cases cs with
  | nil =>
    rw [Token.ofCharsAt] at readRest
    cases readRest
    rcases opens (by simp) with ⟨_, _, same⟩ | ⟨t, word, _, same, named, _⟩
    · cases same
    · cases same
      cases named
  | cons c cs =>
    have visible : Text.isBlank c = false := by simpa using visible
    have notSkipped : ¬Token.isBlank c = true := by
      intro skipped
      simp only [Token.isBlank, Bool.or_eq_true, beq_iff_eq] at skipped
      rcases skipped with (rfl | rfl) | rfl <;> cases visible
    have notLineFeed : c ≠ '\n' := by
      rintro rfl
      cases visible
    by_cases comment : c = '/' ∧ cs.head? = Option.some '/'
    · obtain ⟨rfl, head⟩ := comment
      obtain ⟨rest, rfl⟩ := List.head?_eq_some_iff.mp head
      exact .inr .comment
    · rw [Token.ofCharsAt, if_neg notSkipped, if_neg comment, if_neg notLineFeed] at readRest
      split at readRest
      · cases readRest
      · next lexeme reads =>
        obtain ⟨more, ran, rfl⟩ := Except.map_eq_ok.mp readRest
        rcases opens (Lexeme.read_staysInside c _ _ reads).1 with
          ⟨_, _, semicolon⟩ | ⟨t, word, _, same, named, begins⟩
        · obtain ⟨first, _⟩ := List.cons.inj semicolon
          obtain rfl := Lexeme.eq_semicolon_of_read reads (congrArg Token.kind first)
          exact .inr .separator
        · obtain ⟨rfl, rfl⟩ := List.cons.inj same
          obtain ⟨spelled, ends⟩ :=
            Lexeme.spelled_of_read reads (Parse.nameOf?_eq_some.mpr named)
          rw [spelled]
          rcases begins with ⟨u, spells⟩ | ⟨head, _, _, rfl⟩
          · exact .inr (.utility spells ends)
          · obtain ⟨blanks, rest, areBlank, behind⟩ := Token.ofCharsAt_leftParen ran
            rw [behind]
            cases blanks with
            | nil => exact .inl ⟨word ++ "(", head, rest, by simp⟩
            | cons d blanks => exact .inr (.head head areBlank (by simp))

/-! ## Which scripts are detected -/

/-- Whether the characters begin with a letter: so does what is neither an object nor an array. -/
def BeginsWithLetter (cs : List Char) : Prop := ∃ c ∈ cs.head?, c.isAlpha = true

theorem beginsWithLetter_of_mem_heads {head : String} (member : head ∈ heads) :
    BeginsWithLetter head.toList := by
  simp only [heads, List.mem_cons, List.not_mem_nil, or_false] at member
  rcases member with rfl | rfl | rfl | rfl <;> exact ⟨_, rfl, by decide⟩

theorem beginsWithLetter_of_utility {word : String} {u : Utility}
    (spells : Method.ofName? word = some (.utility u)) : BeginsWithLetter word.toList := by
  have spelled := List.find?_some spells
  cases u <;>
    simp only [Method.spellings, Utility.name, Utility.aliases, List.contains_eq_mem,
      List.mem_cons, List.not_mem_nil, or_false, decide_eq_true_eq] at spelled
  · subst spelled
    exact ⟨_, rfl, by decide⟩
  · rcases spelled with rfl | rfl <;> exact ⟨_, rfl, by decide⟩
  · rcases spelled with rfl | rfl | rfl <;> exact ⟨_, rfl, by decide⟩

theorem BeginsWithLetter.append {cs : List Char} (begins : BeginsWithLetter cs) (more : List Char) :
    BeginsWithLetter (cs ++ more) := by
  obtain ⟨c, head, letter⟩ := begins
  exact ⟨c, by simp [Option.mem_def.mp head], letter⟩

theorem BeginsWithLetter.front {c : Char} {cs : List Char} (other : c.isAlpha = false)
    (begins : BeginsWithLetter (cs ++ [c])) : BeginsWithLetter cs := by
  cases cs with
  | nil =>
    obtain ⟨d, head, letter⟩ := begins
    cases head
    rw [other] at letter
    cases letter
  | cons d cs => exact begins

/-- A text that begins with a head or apart is not left aside as an object or an array. -/
theorem first_of_begins {cs : List Char}
    (begins : (∃ head ∈ heads, head.toList <+: cs) ∨ BeginsApart cs) :
    ∃ c rest, cs = c :: rest ∧ Text.isBlank c = false ∧ c ∉ ['{', '['] := by
  have first {cs : List Char} (begins : BeginsWithLetter cs) :
      ∃ c rest, cs = c :: rest ∧ Text.isBlank c = false ∧ c ∉ ['{', '['] := by
    obtain ⟨c, head, letter⟩ := begins
    obtain ⟨rest, rfl⟩ := List.head?_eq_some_iff.mp head
    refine ⟨c, rest, rfl, Text.isBlank_of_continuesWord ?_, ?_⟩
    · simp [Lexeme.continuesWord, Char.isAlphanum, letter]
    · simp only [List.mem_cons, List.not_mem_nil, or_false, not_or]
      refine ⟨?_, ?_⟩ <;> rintro rfl <;> exact absurd letter (by decide)
  rcases begins with ⟨head, member, rest, rfl⟩ | apart
  · exact first ((beginsWithLetter_of_mem_heads member).append rest)
  · cases apart with
    | comment => exact ⟨_, _, rfl, by decide, by decide⟩
    | separator => exact ⟨_, _, rfl, by decide, by decide⟩
    | utility spells => exact first ((beginsWithLetter_of_utility spells).append _)
    | @head word blanks rest head =>
      have letter := beginsWithLetter_of_mem_heads head
      rw [String.toList_append] at letter
      exact first ((letter.front (by decide)).append _)

theorem occursIn_iff {part cs : List Char} : occursIn part cs = true ↔ part <:+: cs := by
  induction cs with
  | nil => simp [occursIn]
  | cons c cs inductionHypothesis =>
    rw [occursIn, Bool.or_eq_true, List.isPrefixOf_iff_prefix, inductionHypothesis,
      List.infix_cons_iff]

/-- Neither a head nor a marker has blanks in it, or is empty. -/
theorem visible_of_mem_heads : ∀ head ∈ heads, ∀ c ∈ head.toList, Text.isBlank c = false := by
  have checked : heads.all (fun head => head.toList.all (!Text.isBlank ·)) = true := by cbv
  simpa using checked

theorem visible_of_mem_markedMethods :
    ∀ method ∈ markedMethods, ∀ c ∈ (marker method).toList, Text.isBlank c = false := by
  have checked : markedMethods.all (fun method => (marker method).toList.all (!Text.isBlank ·)) =
      true := by cbv
  simpa using checked

theorem marker_ne_nil (method : String) : (marker method).toList ≠ [] := by
  simp [marker, String.toList_append]

/-- What begins with a head or holds a marker is detected, unless it is left aside. -/
theorem looksLikeScript_of_trimmed {text : String} {c : Char} {rest : List Char}
    (trimmed : Text.trimChars text.toList = c :: rest) (other : c ∉ ['{', '['])
    (found : (∃ head ∈ heads, head.toList <+: c :: rest) ∨
      ∃ method ∈ markedMethods, (marker method).toList <:+: c :: rest) :
    looksLikeScript text = true := by
  simp only [List.mem_cons, List.not_mem_nil, or_false, not_or] at other
  unfold looksLikeScript
  simp only [trimmed]
  split
  · next none => cases none
  · next brace =>
    cases brace
    exact absurd rfl other.1
  · next bracket =>
    cases bracket
    exact absurd rfl other.2
  · rw [Bool.or_eq_true, List.any_eq_true, List.any_eq_true]
    refine found.imp ?_ ?_
    · rintro ⟨head, member, begins⟩
      exact ⟨head, member, List.isPrefixOf_iff_prefix.mpr begins⟩
    · rintro ⟨method, member, within⟩
      exact ⟨method, member, occursIn_iff.mpr within⟩

/-- A script that comes to actions on some session is detected, whatever else stands in its text, if
    it does not begin apart or if some chained call is spelled without blanks, under a name that is
    looked for. -/
theorem accepts_running {ctx : Context} {text : String} {actions : List Action}
    (ran : ctx.run text = .ok actions)
    (known : ¬BeginsApart (text.toList.dropWhile Text.isBlank) ∨
      ∃ method ∈ markedMethods, (marker method).toList <:+: text.toList) :
    looksLikeScript text = true := by
  obtain ⟨script, parsed, some⟩ := Context.statements_ne_nil_of_run ran
  have begins := begins_of_ofText parsed some
  obtain ⟨c, rest, first, visible, other⟩ := first_of_begins begins
  -- The blanks at the end are behind the first character.
  obtain ⟨behind, trimmed⟩ : ∃ behind, Text.trimChars text.toList = c :: behind := by
    have front : [c] <+: Text.trimChars text.toList :=
      Text.prefix_trimChars (List.forall_mem_singleton.mpr visible) ⟨rest, first.symm⟩
    obtain ⟨behind, shape⟩ := front
    exact ⟨behind, shape.symm⟩
  refine looksLikeScript_of_trimmed trimmed other ?_
  rw [← trimmed]
  rcases known with notApart | ⟨method, member, within⟩
  · obtain ⟨head, member, front⟩ := begins.resolve_right notApart
    exact .inl ⟨head, member, Text.prefix_trimChars (visible_of_mem_heads head member) front⟩
  · exact .inr ⟨method, member, Text.infix_trimChars (marker_ne_nil method)
      (visible_of_mem_markedMethods method member) within⟩

/-- A script that begins with a comment and has blanks in its chain, but holds a marker. -/
theorem accepts_running_behind_comment :
    let ctx : Context := { session := .empty }
    let text := "// new\n; track () .delete()"
    ctx.run text = .ok [.createTrack none none 0, .deleteTrack 0] ∧
      (∃ method ∈ markedMethods, (marker method).toList <:+: text.toList) ∧
        looksLikeScript text = true := by
  intro ctx text
  let delete : Invocation := ⟨.edit .delete, .empty⟩
  have parsed : Script.ofText text = .ok ⟨[⟨2, .track .empty, [delete]⟩]⟩ := by cbv
  have ran : ctx.run text = .ok [.createTrack none none 0, .deleteTrack 0] := by
    rw [Context.run, parsed]
    rfl
  have marked : ∃ method ∈ markedMethods, (marker method).toList <:+: text.toList :=
    ⟨"delete", by decide, occursIn_iff.mp (by cbv)⟩
  exact ⟨ran, marked, accepts_running ran (.inr marked)⟩

/-- The same track is created by scripts that begin with a comment, with a separator, with a utility
    and with a blank behind the head, and none of them is detected. -/
theorem rejects_running :
    let ctx : Context := { session := .empty }
    ∀ text ∈ ["//\ntrack()", ";track()", "get_tracks();track()", "track ()"],
      ctx.run text = .ok [.createTrack none none 0] ∧ looksLikeScript text = false := by
  intro ctx text member
  let track (line : Nat) : Statement := ⟨line, .track .empty, []⟩
  simp only [List.mem_cons, List.not_mem_nil, or_false] at member
  rcases member with rfl | rfl | rfl | rfl
  · have parsed : Script.ofText "//\ntrack()" = .ok ⟨[track 2]⟩ := by cbv
    exact ⟨by rw [Context.run, parsed]; rfl, by cbv⟩
  · have parsed : Script.ofText ";track()" = .ok ⟨[track 1]⟩ := by cbv
    exact ⟨by rw [Context.run, parsed]; rfl, by cbv⟩
  · let utility : Statement := ⟨1, .method ⟨.utility .getTracks, .empty⟩, []⟩
    have parsed : Script.ofText "get_tracks();track()" = .ok ⟨[utility, track 1]⟩ := by cbv
    exact ⟨by rw [Context.run, parsed]; rfl, by cbv⟩
  · have parsed : Script.ofText "track ()" = .ok ⟨[track 1]⟩ := by cbv
    exact ⟨by rw [Context.run, parsed]; rfl, by cbv⟩

end Detection

end StudioScript
