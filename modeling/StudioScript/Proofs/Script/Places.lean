import StudioScript.Proofs.Script.Faults
import StudioScript.Proofs.Script.Joining
import StudioScript.Proofs.Token.Places

/-! # The places of a script

Every token of a text, every fault in it and the line of every statement stand where the reading of
all that is before them has come to (`Script.places_of_ofText`).  That is the true place, but behind
a string with a line feed in it: there a line is missing (`Script.places_behind_lineFeed`).
-/

namespace StudioScript

/-- Whether the token stands in the text behind the tokens `body`, and the text goes on with it. -/
def Token.Stands (text : String) (body : List Token) (t : Token) : Prop :=
  ∃ before ahead, text.toList = before ++ ahead ∧ Heads t.kind ahead ∧
    StandsBehind before body t.position

theorem Token.stands_of_ofText {text : String} {body behind : List Token} {t : Token}
    (read : ofText text = .ok (body ++ t :: behind)) : t.Stands text body := by
  obtain ⟨before, ahead, parts, scans, heads⟩ := scans_of_ofCharsAt read
  exact ⟨before, ahead, parts, heads, scans.standsBehind⟩

namespace Grammar

/-- A statement among others is derived from tokens among theirs, and is on the line of the first
    of these. -/
theorem StatementRule.line {ts : List Token} {st : Statement} (derived : StatementRule ts st) :
    ∃ t read, ts = t :: read ∧ st.line = t.position.line := by
  cases derived with
  | chained | alone => exact ⟨_, _, rfl, rfl⟩

theorem Statements.part_of_mem {ts : List Token} {sts : List Statement} {st : Statement}
    (derived : Statements ts sts) (member : st ∈ sts) :
    ∃ front part behind, ts = front ++ (part ++ behind) ∧ StatementRule part st := by
  induction derived with
  | @last ts st' read =>
    obtain rfl := List.mem_singleton.mp member
    exact ⟨[], ts, [], (List.append_nil ts).symm, read⟩
  | @more ts st' gap rest sts read _ _ _ inductionHypothesis =>
    rcases List.mem_cons.mp member with rfl | member
    · exact ⟨[], ts, gap ++ rest, rfl, read⟩
    · obtain ⟨front, part, behind, rfl, derived⟩ := inductionHypothesis member
      exact ⟨ts ++ (gap ++ front), part, behind, by simp only [List.append_assoc], derived⟩

theorem ScriptRule.part_of_mem {ts : List Token} {script : Script} {st : Statement}
    (derived : ScriptRule ts script) (member : st ∈ script.statements) :
    ∃ front part behind, ts = front ++ (part ++ behind) ∧ StatementRule part st := by
  cases derived with
  | empty => cases member
  | @statements gap ts sts gap' p _ read _ =>
    obtain ⟨front, part, behind, rfl, derived⟩ := read.part_of_mem member
    exact ⟨gap ++ front, part, behind ++ (gap' ++ [⟨.endOfInput, p⟩]),
      by simp only [List.append_assoc], derived⟩

end Grammar

namespace Script

open Grammar

/-- A place that is reported is the one that the reading of the text has come to, which is the true
    place unless a string with a line feed in it stands before (`Token.StandsBehind`).  So it is for
    every token of a text that is accepted, the end of the input included; for the character that a
    text is refused at, of which no token can be read; for the fault of a script that is refused,
    which is about the token at its place; and for the line of a statement, which is that of the
    token that it begins with. -/
theorem places_of_ofText (text : String) :
    (∀ body t behind, Token.ofText text = .ok (body ++ t :: behind) → t.Stands text body) ∧
    (∀ e, Token.ofText text = .error e → ∃ before c ahead body fault,
      text.toList = before ++ c :: ahead ∧ Lexeme.read c ahead = .error fault ∧
        e.fault = .lexical fault ∧ Token.StandsBehind before body e.position) ∧
    (∀ ts e, Token.ofText text = .ok ts → ofTokens ts = .error e → ∃ body t behind fault,
      ts = body ++ t :: behind ∧ t.Stands text body ∧ e = ⟨.grammatical fault, t.position⟩ ∧
        fault.IsAbout t.kind) ∧
    ∀ ts script, Token.ofText text = .ok ts → ofTokens ts = .ok script →
      ∀ st ∈ script.statements, ∃ body t read behind, ts = body ++ t :: (read ++ behind) ∧
        t.Stands text body ∧ StatementRule (t :: read) st ∧ st.line = t.position.line := by
  refine ⟨fun _ _ _ => Token.stands_of_ofText, ?_, ?_, ?_⟩
  · intro e refused
    obtain ⟨before, c, ahead, body, fault, parts, scans, none, lexical⟩ :=
      Token.scans_of_error refused
    exact ⟨before, c, ahead, body, fault, parts, none, lexical, scans.standsBehind⟩
  · intro ts e read refused
    obtain ⟨body, p, whole, _⟩ := Token.areWhole_of_ofText read
    have located := Parse.located_ofTokens whole
    rw [refused] at located
    cases located with
    | @fault t fault member about =>
      obtain ⟨front, behind, rfl⟩ := List.append_of_mem member
      exact ⟨front, t, behind, fault, rfl, Token.stands_of_ofText read, rfl, about⟩
  · intro ts script read parsed st member
    obtain ⟨body, p, rfl, inner⟩ := Token.areWhole_of_ofText read
    have derived := Parse.script_of_ofTokens (fun t member => (inner t member).1) parsed
    obtain ⟨front, part, behind, parts, rule⟩ := derived.part_of_mem member
    obtain ⟨t, tokens, rfl, line⟩ := rule.line
    rw [parts] at read ⊢
    exact ⟨front, t, tokens, behind, rfl, Token.stands_of_ofText read, rule, line⟩

/-- Behind a comment and a line feed, the second token of a statement is where it should be. -/
theorem places_of_ofText_behind_comment :
    let text := "//\n track()"
    let body : List Token := [⟨.newline, ⟨1, 3⟩⟩, ⟨.track, ⟨2, 2⟩⟩]
    let t : Token := ⟨.leftParen, ⟨2, 7⟩⟩
    Token.ofText text = .ok (body ++ t :: [⟨.rightParen, ⟨2, 8⟩⟩, ⟨.endOfInput, ⟨2, 9⟩⟩]) ∧
      t.Stands text body ∧ t.position = .behind "//\n track".toList := by
  intro text body t
  have read : Token.ofText text =
      .ok (body ++ t :: [⟨.rightParen, ⟨2, 8⟩⟩, ⟨.endOfInput, ⟨2, 9⟩⟩]) := by cbv
  exact ⟨read, (places_of_ofText text).1 body t _ read, by decide⟩

/-- A line feed behind a backslash is missing from all places behind its string.  The name `x`
    stands in the second line and the second statement begins in the third, but they are reported
    one line above. -/
theorem places_behind_lineFeed :
    let x : Token := ⟨.identifier "x", ⟨1, 6⟩⟩
    let second : Statement := ⟨2, .track .empty, []⟩
    (Token.ofText "\"a\\\n\" x" = .ok [⟨.string "a\n", ⟨1, 1⟩⟩, x, ⟨.endOfInput, ⟨1, 7⟩⟩] ∧
      Position.behind "\"a\\\n\" ".toList = ⟨2, 3⟩ ∧ x.position ≠ ⟨2, 3⟩) ∧
    ofText "track(name=\"a\\\n\")\ntrack()" =
        .ok ⟨[⟨1, .track (.single "name" (.string "a\n")), []⟩, second]⟩ ∧
      (Position.behind "track(name=\"a\\\n\")\n".toList).line = 3 ∧ second.line ≠ 3 := by
  intro x second
  exact ⟨⟨by cbv, by decide, by decide⟩, by cbv, by decide, by decide⟩

end Script

end StudioScript
