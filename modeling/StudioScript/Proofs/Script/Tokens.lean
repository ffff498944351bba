import StudioScript.Proofs.Results
import StudioScript.Proofs.Script.Derivation
import StudioScript.Script.Parser

/-! # Reading single tokens

What the rules that read one token, or leave out line feeds, make of a token list.  A rule that
reads more is compared with the grammar as a whole (`Parse.Follows`).
-/

namespace StudioScript

namespace Grammar

/-- Whether the tokens begin like an item of a list or the content of a call: neither with a line
    feed nor with a closing bracket. -/
def Begins (ts : List Token) : Prop :=
  ∃ t rest, ts = t :: rest ∧
    t.kind ∉ [.newline, .rightParen, .rightBracket, .rightBrace]

theorem Name.kind_not_mem {t : Token} {word : String} (name : Name t word) :
    t.kind ∉ [.newline, .rightParen, .rightBracket, .rightBrace] := by
  cases name <;> simp

theorem Name.kind_ne_newline {t : Token} {word : String} (name : Name t word) :
    t.kind ≠ .newline :=
  fun newline => name.kind_not_mem (newline ▸ List.mem_cons_self)

theorem Name.begins {t : Token} {word : String} (name : Name t word) (ts : List Token) :
    Begins (t :: ts) :=
  ⟨t, ts, rfl, name.kind_not_mem⟩

theorem Newlines.nil : Newlines [] := fun t member => by cases member

theorem Newlines.append {ts ts' : List Token} (newlines : Newlines ts) (newlines' : Newlines ts') :
    Newlines (ts ++ ts') := by
  intro t member
  rcases List.mem_append.mp member with first | second
  · exact newlines t first
  · exact newlines' t second

end Grammar

namespace Parse

open Grammar

variable {α : Type} {ts rest : List Token}

/-- Whether a parser reads what a rule derives and leaves all that stands behind it. -/
def Follows (parser : List Token → Except SyntaxError (α × List Token))
    (rule : List Token → α → Prop) : Prop :=
  ∀ ts x rest, parser ts = .ok (x, rest) ↔ ∃ read, ts = read ++ rest ∧ rule read x

section

variable {parser : List Token → Except SyntaxError (α × List Token)} {rule : List Token → α → Prop}

theorem Follows.derives (follows : Follows parser rule) {x : α} (ran : parser ts = .ok (x, rest)) :
    ∃ read, ts = read ++ rest ∧ rule read x :=
  (follows ts x rest).mp ran

theorem Follows.reads (follows : Follows parser rule) {read : List Token} {x : α}
    (derived : rule read x) (rest : List Token) : parser (read ++ rest) = .ok (x, rest) :=
  (follows _ _ _).mpr ⟨read, rfl, derived⟩

end

@[simp] theorem faultAt_eq_ok {fault : TokenKind → GrammarFault} {x : α} :
    (faultAt ts fault = .ok x) ↔ False := by
  simp [faultAt]

@[simp] theorem next_cons (t : Token) (ts : List Token) : next (t :: ts) = t := rfl

theorem next_ne_of_begins {kind : TokenKind} (begins : Begins ts) (rest : List Token)
    (other : kind ∈ [.newline, .rightParen, .rightBracket, .rightBrace]) :
    (next (ts ++ rest)).kind ≠ kind := by
  obtain ⟨t, ts, rfl, inside⟩ := begins
  rintro rfl
  exact inside other

/-- Only the end of the input may be missing. -/
theorem eq_cons_of_next {kind : TokenKind} (found : (next ts).kind = kind)
    (inside : kind ≠ .endOfInput) : ∃ p, ts = ⟨kind, p⟩ :: ts.tail := by
  cases ts with
  | nil => exact absurd found.symm inside
  | cons t ts =>
    subst found
    exact ⟨t.position, rfl⟩

theorem expect_eq_ok {wanted : TokenKind} (inside : wanted ≠ .endOfInput) :
    expect wanted ts = .ok rest ↔ ∃ p, ts = ⟨wanted, p⟩ :: rest := by
  unfold expect
  constructor
  · intro ran
    split at ran
    · next found =>
      cases ran
      exact eq_cons_of_next found inside
    · cases faultAt_eq_ok.mp ran
  · rintro ⟨p, rfl⟩
    simp

@[simp] theorem expect_cons (wanted : TokenKind) (p : Position) :
    expect wanted (⟨wanted, p⟩ :: rest) = .ok rest := by
  simp [expect]

/-! ## Names -/

theorem nameOf?_eq_some {t : Token} {word : String} :
    nameOf? t.kind = some word ↔ Name t word := by
  obtain ⟨kind, p⟩ := t
  constructor
  · intro named
    cases kind <;> simp only [nameOf?, reduceCtorEq, Option.some.injEq] at named <;> subst named <;>
      constructor
  · intro name
    cases name <;> rfl

theorem name_eq_ok {word : String} :
    name ts = .ok (word, rest) ↔ ∃ t, ts = t :: rest ∧ Name t word := by
  unfold name
  constructor
  · intro ran
    split at ran
    · next word' named =>
      cases ran
      cases ts with
      | nil => cases named
      | cons t ts => exact ⟨t, rfl, nameOf?_eq_some.mp named⟩
    · cases faultAt_eq_ok.mp ran
  · rintro ⟨t, rfl, named⟩
    simp only [next_cons, nameOf?_eq_some.mpr named, List.tail_cons]

theorem method_eq_ok {m : Method} :
    method ts = .ok (m, rest) ↔
      ∃ t word, ts = t :: rest ∧ Name t word ∧ Method.ofName? word = some m := by
  unfold method
  constructor
  · intro ran
    obtain ⟨⟨word, behind⟩, named, ran⟩ := Except.bind_eq_ok.mp ran
    obtain ⟨t, rfl, name⟩ := name_eq_ok.mp named
    simp only at ran
    split at ran
    · next m' spells =>
      cases ran
      exact ⟨t, word, rfl, name, spells⟩
    · cases faultAt_eq_ok.mp ran
  · rintro ⟨t, word, rfl, name, spells⟩
    refine Except.bind_eq_ok.mpr ⟨(word, rest), name_eq_ok.mpr ⟨t, rfl, name⟩, ?_⟩
    simp only [spells]
    rfl

/-! ## Line feeds -/

theorem newline_of_isNewline {t : Token} : isNewline t = true ↔ t.kind = .newline := by
  simp [isNewline]

theorem exists_newlines (ts : List Token) : ∃ gap, Newlines gap ∧ ts = gap ++ skipNewlines ts := by
  refine ⟨ts.takeWhile isNewline, ?_, List.takeWhile_append_dropWhile.symm⟩
  intro t member
  exact newline_of_isNewline.mp (List.all_eq_true.mp List.all_takeWhile t member)

theorem skipNewlines_append {gap : List Token} (newlines : Newlines gap) :
    skipNewlines (gap ++ ts) = skipNewlines ts := by
  apply List.dropWhile_append_of_pos
  intro t member
  exact newline_of_isNewline.mpr (newlines t member)

theorem skipNewlines_eq_self (other : (next ts).kind ≠ .newline) : skipNewlines ts = ts := by
  cases ts with
  | nil => rfl
  | cons t ts => exact List.dropWhile_cons_of_neg (mt newline_of_isNewline.mp other)

/-- Behind line feeds that are left out comes the same as behind those of a derivation. -/
theorem skipNewlines_eq_cons {t : Token} (other : t.kind ≠ .newline) :
    skipNewlines ts = t :: rest ↔ ∃ gap, Newlines gap ∧ ts = gap ++ t :: rest := by
  constructor
  · intro left
    obtain ⟨gap, newlines, shape⟩ := exists_newlines ts
    exact ⟨gap, newlines, left ▸ shape⟩
  · rintro ⟨gap, newlines, rfl⟩
    rw [skipNewlines_append newlines]
    exact skipNewlines_eq_self other

theorem expect_skipNewlines {wanted : TokenKind} (inside : wanted ≠ .endOfInput)
    (other : wanted ≠ .newline) :
    expect wanted (skipNewlines ts) = .ok rest ↔
      ∃ gap p, Newlines gap ∧ ts = gap ++ ⟨wanted, p⟩ :: rest := by
  rw [expect_eq_ok inside]
  constructor
  · rintro ⟨p, left⟩
    obtain ⟨gap, newlines, shape⟩ := (skipNewlines_eq_cons other).mp left
    exact ⟨gap, p, newlines, shape⟩
  · rintro ⟨gap, p, newlines, shape⟩
    exact ⟨p, (skipNewlines_eq_cons other).mpr ⟨gap, newlines, shape⟩⟩

/-- What follows a rule also follows it behind line feeds, if nothing that the rule derives begins
    with one. -/
theorem Follows.behind_newlines {parser : List Token → Except SyntaxError (α × List Token)}
    {rule : List Token → α → Prop} (follows : Follows parser rule)
    (begins : ∀ ts x, rule ts x → Begins ts) {x : α} :
    parser (skipNewlines ts) = .ok (x, rest) ↔
      ∃ gap read, Newlines gap ∧ ts = gap ++ (read ++ rest) ∧ rule read x := by
  rw [follows]
  constructor
  · rintro ⟨read, left, derived⟩
    obtain ⟨gap, newlines, shape⟩ := exists_newlines ts
    exact ⟨gap, read, newlines, left ▸ shape, derived⟩
  · rintro ⟨gap, read, newlines, rfl, derived⟩
    refine ⟨read, ?_, derived⟩
    rw [skipNewlines_append newlines]
    exact skipNewlines_eq_self (next_ne_of_begins (begins read x derived) rest (by simp))

end Parse

end StudioScript
