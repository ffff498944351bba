import StudioScript.Proofs.Results
import StudioScript.Token.Lexer

/-! # The tokens of a text

The tokens of a text end in the only one that stands for the end of the input, and all numbers among
them are finite: a numeral beyond the range of binary64 is refused.
-/

namespace StudioScript

/-- Whether the kind is that of a token inside a text, with a finite number if it is one. -/
def TokenKind.IsInner (kind : TokenKind) : Prop :=
  kind ≠ .endOfInput ∧ ∀ x, kind = .number x → x.isFinite = true

namespace Lexeme

theorem isInner_wordKind (word : String) : (wordKind word).IsInner := by
  unfold wordKind TokenKind.IsInner
  repeat' split
  all_goals simp

theorem isInner_of_number {c : Char} {cs : List Char} {lexeme : Lexeme}
    (read : number c cs = .ok lexeme) : lexeme.kind.IsInner := by
  dsimp only [number] at read
  split at read
  · cases read
  · split at read
    · next value _ finite =>
      cases read
      refine ⟨by simp, fun x same => ?_⟩
      cases same
      exact finite
    · cases read

theorem isInner_of_string {cs : List Char} {lexeme : Lexeme} (read : string cs = .ok lexeme) :
    lexeme.kind.IsInner := by
  unfold string at read
  split at read
  · cases read
    simp [TokenKind.IsInner]
  · cases read

theorem isInner_of_withEquals {cs : List Char} {longer shorter : TokenKind} {lexeme : Lexeme}
    (inner : longer.IsInner) (inner' : shorter.IsInner)
    (read : Except.ok (ε := LexicalFault) (withEquals cs longer shorter) = .ok lexeme) :
    lexeme.kind.IsInner := by
  cases read
  unfold withEquals
  split
  · exact inner
  · exact inner'

theorem isInner_of_read {c : Char} {cs : List Char} {lexeme : Lexeme}
    (reads : read c cs = .ok lexeme) : lexeme.kind.IsInner := by
  have plain {kind : TokenKind} {n : Nat} (inner : kind.IsInner)
      (same : Except.ok (ε := LexicalFault) ⟨kind, n⟩ = .ok lexeme) : lexeme.kind.IsInner := by
    cases same
    exact inner
  have symbol {kind : TokenKind} (other : kind ≠ .endOfInput) (none : ∀ x, kind ≠ .number x) :
      kind.IsInner := ⟨other, fun x same => absurd same (none x)⟩
  unfold read at reads
  split at reads
  -- Nine marks stand for themselves, and behind three more there may be an equals sign.
  iterate 9 · exact plain (symbol (by simp) (by simp)) reads
  iterate 3
    · exact isInner_of_withEquals (symbol (by simp) (by simp)) (symbol (by simp) (by simp)) reads
  · split at reads
    · exact plain (symbol (by simp) (by simp)) reads
    · cases reads
  · exact isInner_of_string reads
  · split at reads
    · exact isInner_of_number reads
    · cases reads
  · split at reads
    · exact isInner_of_number reads
    · exact plain (symbol (by simp) (by simp)) reads
  · split at reads
    · exact isInner_of_number reads
    · split at reads
      · exact plain (isInner_wordKind _) reads
      · cases reads

end Lexeme

namespace Token

/-- Whether the tokens end in the only one of them that stands for the end of the input, and their
    numbers are finite. -/
def AreWhole (ts : List Token) : Prop :=
  ∃ body q, ts = body ++ [⟨.endOfInput, q⟩] ∧ ∀ t ∈ body, t.kind.IsInner

theorem AreWhole.cons {t : Token} {ts : List Token} (whole : AreWhole ts) (inner : t.kind.IsInner) :
    AreWhole (t :: ts) := by
  obtain ⟨body, q, rfl, rest⟩ := whole
  exact ⟨t :: body, q, rfl, List.forall_mem_cons.mpr ⟨inner, rest⟩⟩

theorem areWhole_of_ofCharsAt {p : Position} {cs : List Char} {ts : List Token}
    (read : ofCharsAt p cs = .ok ts) : AreWhole ts := by
  induction p, cs using ofCharsAt.induct generalizing ts with
  | case1 p =>
    rw [ofCharsAt] at read
    cases read
    exact ⟨[], p, rfl, List.forall_mem_nil _⟩
  | case2 p c cs blank inductionHypothesis =>
    rw [ofCharsAt, if_pos blank] at read
    exact inductionHypothesis read
  | case3 p c cs visible comment text =>
    rename_i inductionHypothesis
    -- A comment ends before the end of its line, which is a token of its own.
    rw [ofCharsAt, if_neg visible, if_pos comment] at read
    exact inductionHypothesis read
  | case4 p cs visible token inductionHypothesis =>
    rw [ofCharsAt, if_neg visible, if_neg token, if_pos rfl] at read
    obtain ⟨rest, ran, rfl⟩ := Except.map_eq_ok.mp read
    exact (inductionHypothesis ran).cons (by simp [TokenKind.IsInner])
  | case5 p c cs visible token inside fault refused =>
    rw [ofCharsAt, if_neg visible, if_neg token, if_neg inside, refused] at read
    cases read
  | case6 p c cs visible token inside lexeme accepted inductionHypothesis =>
    rw [ofCharsAt, if_neg visible, if_neg token, if_neg inside, accepted] at read
    obtain ⟨rest, ran, rfl⟩ := Except.map_eq_ok.mp read
    exact (inductionHypothesis ran).cons (Lexeme.isInner_of_read accepted)

theorem areWhole_of_ofText {text : String} {ts : List Token} (read : ofText text = .ok ts) :
    AreWhole ts := areWhole_of_ofCharsAt read

end Token

end StudioScript
