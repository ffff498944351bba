import Mathlib.Data.List.Induction
import StudioScript.Proofs.Token.Extent
import StudioScript.Proofs.Token.Joining

/-! # The places of tokens

The tokens of a text are read step by step (`Token.Step`), and each step leaves behind a place and
the characters ahead of it.  What has been read up to a place is read the same from the text that is
cut off there (`Token.Scans.reads`).  The line of a place is counted by the tokens that are line
feeds, and so the place is the true one exactly where no other line feed was read: one inside of a
string, which stands behind a backslash, is not counted (`Token.Scans.standsBehind`).
-/

namespace StudioScript

namespace Position

/-- The place behind the characters: one line further down for each line feed, and in its line one
    column further for each character. -/
def behind (before : List Char) : Position :=
  ⟨1 + before.count '\n', 1 + (before.reverse.takeWhile (· != '\n')).length⟩

/-- The place behind one more character. -/
def step (p : Position) (c : Char) : Position :=
  if c = '\n' then p.nextLine else ⟨p.line, p.column + 1⟩

theorem behind_append (before cs : List Char) :
    behind (before ++ cs) = cs.foldl step (behind before) := by
  induction cs using List.reverseRec with
  | nil => rw [List.append_nil, List.foldl_nil]
  | append_singleton cs c inductionHypothesis =>
    rw [← List.append_assoc, List.foldl_append, ← inductionHypothesis]
    by_cases lineFeed : c = '\n'
    · subst lineFeed
      simp only [behind, step, nextLine, List.count_append, List.count_singleton_self,
        List.reverse_append, List.foldl_cons, List.foldl_nil, if_true]
      rfl
    · simp [behind, step, lineFeed, Nat.add_comm]

/-- Characters take a column each, but for line feeds, which take none. -/
theorem past_eq_foldl_step (p : Position) (cs : List Char) :
    p.past cs = (cs.filter (· != '\n')).foldl step p := by
  induction cs generalizing p with
  | nil => rfl
  | cons c cs inductionHypothesis =>
    by_cases lineFeed : c = '\n'
    · subst lineFeed
      exact inductionHypothesis p
    · have other : (c != '\n') = true := bne_iff_ne.mpr lineFeed
      rw [List.filter_cons, if_pos other, List.foldl_cons, step, if_neg lineFeed,
        ← inductionHypothesis]
      simp only [past, List.countP_cons, other, if_true, Position.mk.injEq, true_and]
      omega

end Position

/-- Whether the characters are those of `cs` without some of the line feeds. -/
structure LeavesOut (cs kept : List Char) : Prop where
  sublist : kept.Sublist cs
  others : kept.filter (· != '\n') = cs.filter (· != '\n')

namespace LeavesOut

theorem refl (cs : List Char) : LeavesOut cs cs := ⟨.refl cs, rfl⟩

theorem append {cs ds kept kept' : List Char} (first : LeavesOut cs kept)
    (second : LeavesOut ds kept') : LeavesOut (cs ++ ds) (kept ++ kept') :=
  ⟨first.sublist.append second.sublist,
    by rw [List.filter_append, first.others, second.others, List.filter_append]⟩

/-- Nothing is left out if the line feeds are as many as before. -/
theorem eq_of_count {cs kept : List Char} (leaves : LeavesOut cs kept)
    (all : kept.count '\n' = cs.count '\n') : kept = cs := by
  refine leaves.sublist.eq_of_length ?_
  have length (cs : List Char) : cs.length = cs.count '\n' + (cs.filter (· != '\n')).length := by
    induction cs with
    | nil => rfl
    | cons c cs inductionHypothesis =>
      by_cases lineFeed : c = '\n' <;> simp [lineFeed, inductionHypothesis] <;> omega
  rw [length kept, length cs, all, leaves.others]

end LeavesOut

namespace Token

/-! ## Counting lines -/

/-- The tokens that end lines. -/
def newlines (ts : List Token) : Nat := ts.countP (·.kind == .newline)

/-- What reading characters as tokens, from the place `p` on, does to the place: it moves past the
    characters but for some line feeds, with one that counts for each token that ends a line.  Where
    one does not count, it stands behind a backslash. -/
structure Moves (p : Position) (cs : List Char) (made : List Token) (q : Position) : Prop where
  kept : ∃ kept, LeavesOut cs kept ∧ kept.count '\n' = newlines made ∧
    q = kept.foldl Position.step p
  escaped : newlines made ≠ cs.count '\n' → ['\\', '\n'] <:+: cs

namespace Moves

theorem refl (p : Position) : Moves p [] [] p :=
  ⟨⟨[], .refl [], rfl, rfl⟩, fun lost => absurd rfl lost⟩

theorem trans {p q r : Position} {cs ds : List Char} {made others : List Token}
    (first : Moves p cs made q) (second : Moves q ds others r) :
    Moves p (cs ++ ds) (made ++ others) r := by
  obtain ⟨⟨kept, leaves, count, rfl⟩, escaped⟩ := first
  obtain ⟨⟨kept', leaves', count', rfl⟩, escaped'⟩ := second
  have split : newlines (made ++ others) = newlines made + newlines others := List.countP_append
  constructor
  · refine ⟨kept ++ kept', leaves.append leaves', ?_, List.foldl_append.symm⟩
    rw [List.count_append, count, count', split]
  · intro lost
    rw [split, List.count_append] at lost
    by_cases all : newlines made = cs.count '\n'
    · exact (escaped' (by omega)).trans (List.suffix_append cs ds).isInfix
    · exact (escaped all).trans (List.prefix_append cs ds).isInfix

/-- Where no token ends a line, no line feed counts. -/
theorem past {cs : List Char} {made : List Token} (p : Position) (none : newlines made = 0)
    (escaped : '\n' ∈ cs → ['\\', '\n'] <:+: cs) : Moves p cs made (p.past cs) := by
  constructor
  · refine ⟨cs.filter (· != '\n'), ⟨List.filter_sublist, List.filter_filter.trans (by simp)⟩, ?_,
      p.past_eq_foldl_step cs⟩
    rw [none, List.count_eq_zero]
    exact fun member => absurd (List.mem_filter.mp member).2 (by decide)
  · intro lost
    rw [none] at lost
    exact escaped (List.count_pos_iff.mp (Nat.pos_of_ne_zero lost.symm))

end Moves

/-! ## One step -/

/-- Whether the characters begin with what a token of the kind is read from. -/
inductive Heads : TokenKind → List Char → Prop where
  | endOfInput : Heads .endOfInput []
  | newline {rest} : Heads .newline ('\n' :: rest)
  | lexeme {c rest lexeme} (reads : Lexeme.read c rest = .ok lexeme) : Heads lexeme.kind (c :: rest)

/-- What one step of reading makes of the characters that it takes, at the place `p` and with `rest`
    behind them: the tokens among them, and the place behind them. -/
inductive Step (p : Position) : List Char → List Token → Position → List Char → Prop where
  | blank {c rest} (blank : isBlank c = true) : Step p [c] [] (p.past [c]) rest
  | comment {text rest} (inLine : text.all (· != '\n') = true)
      (ends : rest = [] ∨ rest.head? = some '\n') :
      Step p ('/' :: '/' :: text) [] (p.past ('/' :: '/' :: text)) rest
  | newline {rest} : Step p ['\n'] [⟨.newline, p⟩] p.nextLine rest
  | lexeme {c cs rest kind} (reads : Lexeme.read c (cs ++ rest) = .ok ⟨kind, cs.length⟩) :
      Step p (c :: cs) [⟨kind, p⟩] (p.past (c :: cs)) rest

theorem map_nil_append (result : Except SyntaxError (List Token)) :
    result.map ([] ++ ·) = result := by
  cases result <;> rfl

namespace Step

variable {p q : Position} {chunk rest : List Char} {made : List Token}

theorem reads (step : Step p chunk made q rest) :
    ofCharsAt p (chunk ++ rest) = (ofCharsAt q rest).map (made ++ ·) := by
  cases step with
  | blank blank => rw [List.singleton_append, ofCharsAt, if_pos blank, map_nil_append]
  | comment inLine ends => rw [ofCharsAt_comment inLine ends, map_nil_append]
  | newline =>
    rw [List.singleton_append, ofCharsAt, if_neg (by decide), if_neg (by simp), if_pos rfl]
    rfl
  | lexeme reads => exact ofCharsAt_read reads p

/-- A step is the same when the text is cut off somewhere behind it. -/
theorem cut (step : Step p chunk made q rest) {front : List Char} (cut : front <+: rest) :
    Step p chunk made q front := by
  cases step with
  | blank blank => exact .blank blank
  | comment inLine ends =>
    refine .comment inLine ?_
    cases front with
    | nil => exact .inl rfl
    | cons c front =>
      have head := Lexeme.head?_of_isPrefix cut (rfl : (c :: front).head? = some c)
      rcases ends with rfl | lineFeed
      · cases head
      · exact .inr (head.symm.trans lineFeed)
  | newline => exact .newline
  | @lexeme c cs _ kind reads =>
    obtain ⟨_, same, _⟩ := Lexeme.read_staysInside c _ _ reads
    exact .lexeme (same (cs ++ front) ((List.prefix_append_right_inj cs).mpr cut) (by simp))

/-- A step makes at most one token, which is read from where the step begins. -/
theorem made_cases (step : Step p chunk made q rest) :
    made = [] ∨ ∃ kind, made = [⟨kind, p⟩] ∧ Heads kind (chunk ++ rest) := by
  cases step with
  | blank | comment => exact .inl rfl
  | newline => exact .inr ⟨_, rfl, .newline⟩
  | lexeme reads => exact .inr ⟨_, rfl, .lexeme reads⟩

theorem moves (step : Step p chunk made q rest) : Moves p chunk made q := by
  cases step with
  | @blank c _ blank =>
    refine .past p rfl fun member => ?_
    rw [← List.mem_singleton.mp member] at blank
    exact absurd blank (by decide)
  | @comment text _ inLine _ =>
    refine .past p rfl fun member => ?_
    simp only [List.mem_cons, Char.reduceEq, false_or] at member
    exact absurd (List.all_eq_true.mp inLine _ member) (by decide)
  | newline => exact ⟨⟨['\n'], .refl _, rfl, rfl⟩, fun lost => absurd rfl lost⟩
  | @lexeme c cs rest kind reads =>
    obtain ⟨other, _, escapes⟩ := Lexeme.read_staysInside c _ _ reads
    obtain ⟨_, _, begins⟩ := Lexeme.begins_of_read reads
    rw [List.take_left] at escapes
    refine .past p (by simpa [newlines] using other) fun member => ?_
    exact (escapes (List.mem_of_ne_of_mem begins.symm member)).trans
      (List.suffix_cons c cs).isInfix

end Step

/-- Behind a line there is a line feed, or nothing. -/
theorem ends_line (text : List Char) : text.dropWhile (· != '\n') = [] ∨
    (text.dropWhile (· != '\n')).head? = some '\n' := by
  have stops := List.head?_dropWhile_not (· != '\n') text
  cases behind : text.dropWhile (· != '\n') with
  | nil => exact .inl rfl
  | cons c rest =>
    rw [behind] at stops
    exact .inr (congrArg some (by simpa using stops))

/-- A text begins with a step, unless it is at its end or does not begin like any token. -/
theorem step_cases (p : Position) (c : Char) (cs : List Char) :
    (∃ chunk made q rest, c :: cs = chunk ++ rest ∧ rest.length ≤ cs.length ∧
      Step p chunk made q rest) ∨
    ∃ fault, Lexeme.read c cs = .error fault ∧
      ofCharsAt p (c :: cs) = .error ⟨.lexical fault, p⟩ := by
  by_cases blank : isBlank c = true
  · exact .inl ⟨_, _, _, _, rfl, Nat.le_refl _, .blank blank⟩
  · by_cases comment : c = '/' ∧ cs.head? = some '/'
    · obtain ⟨rfl, head⟩ := comment
      obtain ⟨text, rfl⟩ := List.head?_eq_some_iff.mp head
      have inLine : (restOfLine text).all (· != '\n') = true := List.all_takeWhile
      have parts : text = restOfLine text ++ text.dropWhile (· != '\n') :=
        List.takeWhile_append_dropWhile.symm
      refine .inl ⟨_, _, _, text.dropWhile (· != '\n'), congrArg ('/' :: '/' :: ·) parts, ?_,
        .comment inLine (ends_line text)⟩
      exact Nat.le_succ_of_le (List.dropWhile_suffix _).length_le
    · by_cases lineFeed : c = '\n'
      · subst lineFeed
        exact .inl ⟨_, _, _, _, rfl, Nat.le_refl _, .newline⟩
      · cases reads : Lexeme.read c cs with
        | error fault =>
          refine .inr ⟨fault, rfl, ?_⟩
          rw [ofCharsAt, if_neg blank, if_neg comment, if_neg lineFeed, reads]
        | ok lexeme =>
          have within := (Lexeme.read_endsWithLine c cs lexeme reads).1
          have parts := List.take_append_drop lexeme.tail cs
          have taken : Lexeme.read c (cs.take lexeme.tail ++ cs.drop lexeme.tail) =
              .ok ⟨lexeme.kind, (cs.take lexeme.tail).length⟩ := by
            rw [parts, List.length_take_of_le within, reads]
          exact .inl ⟨_, _, _, cs.drop lexeme.tail, congrArg (c :: ·) parts.symm,
            (List.drop_suffix _ _).length_le, .lexeme taken⟩

/-! ## Many steps -/

/-- What reading makes of the characters of a text up to some place. -/
inductive Scans : Position → List Char → List Token → Position → List Char → Prop where
  | refl {p rest} : Scans p [] [] p rest
  | step {p q r chunk before made body rest} (first : Step p chunk made q (before ++ rest))
      (others : Scans q before body r rest) : Scans p (chunk ++ before) (made ++ body) r rest

namespace Scans

variable {p q : Position} {before rest : List Char} {body : List Token}

theorem cut (scans : Scans p before body q rest) {front : List Char} (cut : front <+: rest) :
    Scans p before body q front := by
  induction scans with
  | refl => exact .refl
  | step first _ inductionHypothesis =>
    exact .step (first.cut ((List.prefix_append_right_inj _).mpr cut)) (inductionHypothesis cut)

theorem reads (scans : Scans p before body q rest) :
    ofCharsAt p (before ++ rest) = (ofCharsAt q rest).map (body ++ ·) := by
  induction scans with
  | refl => rw [List.nil_append, map_nil_append]
  | @step p q r chunk before made body rest first _ inductionHypothesis =>
    rw [List.append_assoc, first.reads, inductionHypothesis]
    cases ofCharsAt r rest with
    | error e => rfl
    | ok ts => exact congrArg Except.ok (List.append_assoc made body ts).symm

/-- The text up to the place, without what stands behind it, is read as the same tokens. -/
theorem reads_front (scans : Scans p before body q rest) :
    ofCharsAt p before = .ok (body ++ [⟨.endOfInput, q⟩]) := by
  have alone := (scans.cut List.nil_prefix).reads
  rwa [List.append_nil, ofCharsAt] at alone

theorem moves (scans : Scans p before body q rest) : Moves p before body q := by
  induction scans with
  | refl => exact .refl _
  | step first _ inductionHypothesis => exact first.moves.trans inductionHypothesis

end Scans

/-- All that stands before a token, or before the end of the text, is read on the way to it. -/
theorem scans_of_ofCharsAt {p : Position} {cs : List Char} {body behind : List Token} {t : Token}
    (read : ofCharsAt p cs = .ok (body ++ t :: behind)) :
    ∃ before rest, cs = before ++ rest ∧ Scans p before body t.position rest ∧
      Heads t.kind rest := by
  induction length : cs.length using Nat.strongRecOn generalizing p cs body with
  | ind n inductionHypothesis =>
    cases cs with
    | nil =>
      rw [ofCharsAt] at read
      obtain ⟨rfl, rfl, rfl⟩ : body = [] ∧ t = ⟨.endOfInput, p⟩ ∧ behind = [] := by
        cases body with
        | nil =>
          obtain ⟨same, none⟩ := List.cons.inj (Except.ok.inj read)
          exact ⟨rfl, same.symm, none.symm⟩
        | cons t' body => simp at read
      exact ⟨[], [], rfl, .refl, .endOfInput⟩
    | cons c cs =>
      rcases step_cases p c cs with ⟨chunk, made, q, rest, parts, shorter, step⟩ | ⟨_, _, refused⟩
      · rw [parts, step.reads] at read
        obtain ⟨ts, ran, joined⟩ := Except.map_eq_ok.mp read
        -- Unless it is the token of this step, the token is one of what is left.
        have later {others : List Token} (same : ts = others ++ t :: behind)
            (split : made ++ others = body) :
            ∃ before rest, c :: cs = before ++ rest ∧ Scans p before body t.position rest ∧
              Heads t.kind rest := by
          obtain ⟨before, ahead, rfl, scans, heads⟩ :=
            inductionHypothesis rest.length (length ▸ Nat.lt_succ_of_le shorter) (same ▸ ran) rfl
          refine ⟨chunk ++ before, ahead, ?_, split ▸ .step step scans, heads⟩
          rw [parts, List.append_assoc]
        rcases step.made_cases with rfl | ⟨kind, rfl, heads⟩
        · exact later joined rfl
        · cases body with
          | nil =>
            obtain ⟨rfl, -⟩ := List.cons.inj joined
            exact ⟨[], c :: cs, rfl, .refl, parts ▸ heads⟩
          | cons t' body =>
            obtain ⟨rfl, same⟩ := List.cons.inj joined
            exact later same rfl
      · rw [refused] at read
        cases read

/-- What cannot be read is reached by reading all that stands before it. -/
theorem scans_of_error {p : Position} {cs : List Char} {e : SyntaxError}
    (refused : ofCharsAt p cs = .error e) :
    ∃ before c rest body fault, cs = before ++ c :: rest ∧
      Scans p before body e.position (c :: rest) ∧ Lexeme.read c rest = .error fault ∧
      e.fault = .lexical fault := by
  induction length : cs.length using Nat.strongRecOn generalizing p cs with
  | ind n inductionHypothesis =>
    cases cs with
    | nil =>
      rw [ofCharsAt] at refused
      cases refused
    | cons c cs =>
      rcases step_cases p c cs with
        ⟨chunk, made, q, rest, parts, shorter, step⟩ | ⟨fault, none, same⟩
      · rw [parts, step.reads] at refused
        have ran : ofCharsAt q rest = .error e := Except.map_eq_error.mp refused
        obtain ⟨before, c', ahead, body, fault, rfl, scans, none, same⟩ :=
          inductionHypothesis rest.length (length ▸ Nat.lt_succ_of_le shorter) ran rfl
        refine ⟨chunk ++ before, c', ahead, made ++ body, fault, ?_, .step step scans, none, same⟩
        rw [parts, List.append_assoc]
      · rw [same] at refused
        cases refused
        exact ⟨[], c, cs, [], fault, rfl, .refl, none, rfl⟩

/-! ## True places -/

/-- What the place `p` is behind the characters of a text that it stands behind, when these read as
    the tokens `body`.  It is the true place in the text without some of its line feeds, of which
    only those count that are tokens; so it is the true place exactly if all of them are, and always
    if none of them stands behind a backslash. -/
structure StandsBehind (before : List Char) (body : List Token) (p : Position) : Prop where
  reads : ofCharsAt .start before = .ok (body ++ [⟨.endOfInput, p⟩])
  kept : ∃ kept, LeavesOut before kept ∧ kept.count '\n' = newlines body ∧ p = .behind kept
  isTrue_iff : p = .behind before ↔ newlines body = before.count '\n'
  isTrue : ¬['\\', '\n'] <:+: before → p = .behind before

theorem Scans.standsBehind {before rest : List Char} {body : List Token} {p : Position}
    (scans : Scans .start before body p rest) : StandsBehind before body p := by
  obtain ⟨⟨kept, leaves, count, place⟩, escaped⟩ := scans.moves
  rw [show Position.start = .behind [] from rfl, ← Position.behind_append, List.nil_append] at place
  have all (same : newlines body = before.count '\n') : p = .behind before := by
    rw [place, leaves.eq_of_count (count.trans same)]
  refine ⟨scans.reads_front, ⟨kept, leaves, count, place⟩, ⟨fun true_place => ?_, all⟩,
    fun unescaped => all (Decidable.byContradiction fun lost => unescaped (escaped lost))⟩
  -- The line of the place counts the line feeds that were kept.
  have lines := congrArg Position.line (place.symm.trans true_place)
  rw [← count]
  exact Nat.add_left_cancel lines

end Token

end StudioScript
