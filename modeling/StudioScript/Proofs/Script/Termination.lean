import StudioScript.Proofs.Script.Cursor
import StudioScript.Proofs.Token.Scanner

/-! # Termination

Each step of a parser with a cursor has the outcome of its rule, and takes the cursor to the tokens
that the rule leaves.  So every loop ends, and the cursor always stands on a token that is not
behind the first end of the input (`Cursor.script_agrees`).  What has been read moves it on
(`Cursor.Progresses`).  Texts are read to their end too; together, neither a text nor a list of
tokens makes its reading look outside of it or go on for ever (`Script.reading_ends`).
-/

namespace StudioScript

namespace Parse

theorem length_lt_behind (t : Token) (ts rest : List Token) :
    rest.length < (t :: ts ++ rest).length := by
  simp only [List.cons_append, List.length_cons, List.length_append]
  omega

/-- A literal has a token at least. -/
theorem length_lt_of_literal {ts rest : List Token} {v : Literal}
    (read : literal ts = .ok (v, rest)) : rest.length < ts.length := by
  obtain ⟨part, rfl, derived⟩ := literal_follows.derives read
  obtain ⟨t, more, rfl, _⟩ := derived.begins
  exact length_lt_behind t more rest

/-- A statement has a token at least. -/
theorem length_lt_of_statement {ts rest : List Token} {st : Statement}
    (read : statement ts = .ok (st, rest)) : rest.length < ts.length := by
  obtain ⟨_, part, rfl, derived⟩ := statement_eq_ok.mp read
  obtain ⟨t, more, rfl, _⟩ := derived.starts
  exact length_lt_behind t more rest

theorem statementsIn_of_end (steps : Nat) {ts : List Token}
    (last : (next ts).kind = .endOfInput) : statementsIn steps ts = .ok [] := by
  have left : skipSeparators ts = ts := by
    cases ts with
    | nil => rfl
    | cons t ts =>
      apply List.dropWhile_cons_of_neg
      rw [next_cons] at last
      simp [isSeparator, last]
  cases steps with
  | zero => rfl
  | succ steps => simp only [statementsIn, left, if_pos last]

/-- Reads a key, an equals sign and a value, as the rule for the value says. -/
def argument (value : List Token → Except SyntaxError (Literal × List Token)) (ts : List Token) :
    Except SyntaxError ((String × Literal) × List Token) := do
  let (key, rest) ← name ts
  let rest ← expect .assign rest
  let (value, rest) ← value rest
  return ((key, value), rest)

/-- An argument has a token at least. -/
theorem length_lt_of_argument {ts rest : List Token} {arg : String × Literal}
    (read : argument literal ts = .ok (arg, rest)) : rest.length < ts.length := by
  obtain ⟨⟨key, behindKey⟩, ranKey, read⟩ := Except.bind_eq_ok.mp read
  obtain ⟨behindSign, ranSign, read⟩ := Except.bind_eq_ok.mp read
  obtain ⟨⟨value, behindValue⟩, ranValue, read⟩ := Except.bind_eq_ok.mp read
  cases read
  obtain ⟨t, rfl, _⟩ := name_eq_ok.mp ranKey
  obtain ⟨p, rfl⟩ := (expect_eq_ok (by simp)).mp ranSign
  have shorter := length_lt_of_literal ranValue
  simp only [List.length_cons]
  omega

/-- The rule for arguments, by the rule for one of them. -/
theorem argumentsIn_succ (steps : Nat) (closing : TokenKind) (args : Arguments) (ts : List Token) :
    argumentsIn (steps + 1) closing args ts =
      if (next ts).kind = closing then .ok (args, ts)
      else do
        let ((key, value), rest) ← argument (literalIn steps) ts
        match args.add? key value with
        | none => faultAt ts fun _ => .duplicateArgument key
        | some args =>
            let rest := skipNewlines rest
            if (next rest).kind = .comma then
              argumentsIn steps closing args (skipNewlines rest.tail)
            else return (args, rest) := by
  rw [argumentsIn, argument]
  rcases name ts with e | ⟨key, rest⟩
  · rfl
  · dsimp only [Except.ok_bind]
    rcases expect .assign rest with e | rest
    · rfl
    · dsimp only [Except.ok_bind]
      rcases literalIn steps rest with e | ⟨value, rest⟩ <;> rfl

theorem length_closed_le (ts : List Token) : (closed ts).length ≤ ts.length + 1 := by
  unfold closed
  split
  · simp
  · split
    · exact Nat.le_succ _
    · simp

theorem exists_end_closed (ts : List Token) : ∃ t ∈ closed ts, t.kind = .endOfInput := by
  unfold closed
  split
  · exact ⟨_, List.mem_singleton_self _, rfl⟩
  · next last found =>
    split
    · next ends => exact ⟨last, List.mem_of_getLast? found, ends⟩
    · exact ⟨_, List.mem_append_right _ (List.mem_singleton_self _), rfl⟩

end Parse

namespace Cursor

open Machine

variable {α : Type} {tokens : List Token} {limit : Nat}

/-! ## Literals and arguments -/

/-- Whether literals, items and arguments agree with the rules that have so many steps, wherever
    these and the rounds are enough.  Each token in front of the cursor takes at most two. -/
structure AgreesIn (tokens : List Token) (limit steps : Nat) : Prop where
  literal : ∀ {c rounds}, c.Inside tokens → 2 * c.remaining tokens + 1 ≤ steps →
    2 * c.remaining tokens + 1 ≤ rounds →
    Agrees tokens c (Parse.literalIn steps (tokens.drop c.index)) (literalIn tokens limit rounds c)
  items : ∀ {c rounds}, c.Inside tokens → 2 * c.remaining tokens + 2 ≤ steps →
    2 * c.remaining tokens + 2 ≤ rounds →
    Agrees tokens c (Parse.itemsIn steps (tokens.drop c.index)) (itemsIn tokens limit rounds c)
  arguments : ∀ {closing args c rounds}, c.Inside tokens → 2 * c.remaining tokens + 1 ≤ steps →
    2 * c.remaining tokens + 1 ≤ rounds →
    Agrees tokens c (Parse.argumentsIn steps closing args (tokens.drop c.index))
      (argumentsIn tokens limit closing args rounds c)

section

variable (fits : Fits tokens limit) {c : Cursor} (inside : c.Inside tokens)
include fits inside

/-- An argument agrees if its value does. -/
theorem argument_agrees {rule : List Token → Except SyntaxError (Literal × List Token)}
    {value : Step Literal}
    (agrees : ∀ c', Moves tokens c c' → c.index < c'.index →
      Agrees tokens c' (rule (tokens.drop c'.index)) (value c')) :
    Agrees tokens c (Parse.argument rule (tokens.drop c.index)) (argument tokens value c) := by
  refine (name_agrees fits.ends inside).bind fun key c₁ moves₁ => ?_
  refine .expect fits.ends moves₁.inside (by simp) fun c₂ moves₂ forward => ?_
  refine (agrees c₂ (moves₁.trans moves₂) (Nat.lt_of_le_of_lt moves₁.forward forward)).bind
    fun value c₃ moves₃ => ?_
  exact .ok rfl (.refl moves₃.inside)

variable {steps rounds : Nat} (agrees : AgreesIn tokens limit steps)
include agrees

theorem AgreesIn.literal_succ (enough : 2 * c.remaining tokens + 1 ≤ steps + 1)
    (enough' : 2 * c.remaining tokens + 1 ≤ rounds + 1) :
    Agrees tokens c (Parse.literalIn (steps + 1) (tokens.drop c.index))
      (literalIn tokens limit (rounds + 1) c) := by
  rw [Parse.literalIn, literalIn, bind_of_ok (peek_apply fits.ends inside)]
  cases kind : (Parse.next (tokens.drop c.index)).kind with
  | string s | number s | boolean s =>
    exact .advance fits.ends inside (by simp [kind]) fun c₁ moves _ left =>
      .ok left (.refl moves.inside)
  | leftBracket =>
    refine .advance_skip fits inside (by simp [kind]) fun c₁ moves₁ forward left => ?_
    dsimp only
    rw [← left]
    have fewer := remaining_lt fits.ends inside forward
    refine (agrees.items moves₁.inside (by omega) (by omega)).bind fun items c₂ moves₂ => ?_
    exact .expect fits.ends moves₂.inside (by simp) fun c₃ moves₃ _ => .ok rfl (.refl moves₃.inside)
  | leftBrace =>
    refine .advance_skip fits inside (by simp [kind]) fun c₁ moves₁ forward left => ?_
    dsimp only
    rw [← left]
    have fewer := remaining_lt fits.ends inside forward
    refine (agrees.arguments moves₁.inside (by omega) (by omega)).bind fun args c₂ moves₂ => ?_
    exact .expect fits.ends moves₂.inside (by simp) fun c₃ moves₃ _ => .ok rfl (.refl moves₃.inside)
  | _ => exact agrees_faultAt inside

theorem AgreesIn.items_succ (enough : 2 * c.remaining tokens + 2 ≤ steps + 1)
    (enough' : 2 * c.remaining tokens + 2 ≤ rounds + 1) :
    Agrees tokens c (Parse.itemsIn (steps + 1) (tokens.drop c.index))
      (itemsIn tokens limit (rounds + 1) c) := by
  rw [Parse.itemsIn, itemsIn, bind_of_ok (peek_apply fits.ends inside)]
  split
  · exact .ok rfl (.refl inside)
  · refine (agrees.literal inside (by omega) (by omega)).bind fun item c₁ moves₁ => ?_
    refine .skip fits moves₁.inside fun c₂ moves₂ left => ?_
    dsimp only
    rw [← left, bind_of_ok (peek_apply fits.ends moves₂.inside)]
    split
    · next comma =>
      refine .advance_skip fits moves₂.inside (by simp [comma]) fun c₃ moves₃ forward left => ?_
      rw [← left]
      have back := (moves₁.trans moves₂).remaining_le
      have fewer := remaining_lt fits.ends moves₂.inside forward
      refine (agrees.items moves₃.inside (by omega) (by omega)).bind fun items c₄ moves₄ => ?_
      exact .ok rfl (.refl moves₄.inside)
    · exact .ok rfl (.refl moves₂.inside)

theorem AgreesIn.arguments_succ {closing : TokenKind} {args : Arguments}
    (enough : 2 * c.remaining tokens + 1 ≤ steps + 1)
    (enough' : 2 * c.remaining tokens + 1 ≤ rounds + 1) :
    Agrees tokens c (Parse.argumentsIn (steps + 1) closing args (tokens.drop c.index))
      (argumentsIn tokens limit closing args (rounds + 1) c) := by
  rw [Parse.argumentsIn_succ, argumentsIn, bind_of_ok (peek_apply fits.ends inside)]
  split
  · exact .ok rfl (.refl inside)
  · refine (argument_agrees fits inside fun c₁ moves₁ forward => ?_).bind fun read c₁ moves₁ => ?_
    · have fewer := remaining_lt fits.ends inside forward
      exact agrees.literal moves₁.inside (by omega) (by omega)
    · obtain ⟨key, value⟩ := read
      dsimp only
      cases args.add? key value with
      | none => exact .error (.refl moves₁.inside)
      | some args =>
        refine .skip fits moves₁.inside fun c₂ moves₂ left => ?_
        dsimp only
        rw [← left, bind_of_ok (peek_apply fits.ends moves₂.inside)]
        split
        · next comma =>
          refine .advance_skip fits moves₂.inside (by simp [comma]) fun c₃ moves₃ forward left => ?_
          rw [← left]
          have back := (moves₁.trans moves₂).remaining_le
          have fewer := remaining_lt fits.ends moves₂.inside forward
          exact agrees.arguments moves₃.inside (by omega) (by omega)
        · exact .ok rfl (.refl moves₂.inside)

end

section

variable (fits : Fits tokens limit)
include fits

/-- By induction on the steps: from a literal, item or argument to the next, at least one token is
    read for each two steps and each two rounds. -/
theorem agreesIn (steps : Nat) : AgreesIn tokens limit steps := by
  induction steps with
  | zero => exact ⟨fun _ _ => by omega, fun _ _ => by omega, fun _ _ => by omega⟩
  | succ steps inductionHypothesis =>
    refine ⟨fun {c rounds} inside enough enough' => ?_, fun {c rounds} inside enough enough' => ?_,
      fun {closing args c rounds} inside enough enough' => ?_⟩
    all_goals
      obtain ⟨rounds, rfl⟩ := Nat.exists_eq_succ_of_ne_zero (n := rounds) (by omega)
    · exact inductionHypothesis.literal_succ fits inside enough enough'
    · exact inductionHypothesis.items_succ fits inside enough enough'
    · exact inductionHypothesis.arguments_succ fits inside enough enough'

variable {c : Cursor} (inside : c.Inside tokens)
include inside

theorem literal_agrees :
    Agrees tokens c (Parse.literal (tokens.drop c.index)) (literal tokens limit c) :=
  (agreesIn fits _).literal inside (by simp [Parse.stepsFor, remaining])
    (fits.two_mul_remaining_lt c)

theorem arguments_agrees :
    Agrees tokens c (Parse.arguments (tokens.drop c.index)) (arguments tokens limit c) := by
  refine .skip fits inside fun c₁ moves₁ left => ?_
  have fewer := moves₁.remaining_le
  rw [Parse.arguments, ← left]
  refine (agreesIn fits _).arguments moves₁.inside ?_ (fits.two_mul_remaining_lt c₁)
  simp only [Parse.stepsFor, List.length_drop, remaining] at fewer ⊢
  omega

theorem parenthesized_agrees :
    Agrees tokens c (Parse.parenthesized (tokens.drop c.index)) (parenthesized tokens limit c) := by
  refine .expect fits.ends inside (by simp) fun c₁ moves₁ _ => ?_
  refine (arguments_agrees fits moves₁.inside).bind fun args c₂ moves₂ => ?_
  exact .expect fits.ends moves₂.inside (by simp) fun c₃ moves₃ _ => .ok rfl (.refl moves₃.inside)

/-! ## Calls -/

theorem trackCall_agrees :
    Agrees tokens c (Parse.trackCall (tokens.drop c.index)) (trackCall tokens limit c) := by
  refine .expect fits.ends inside (by simp) fun c₁ moves₁ _ => ?_
  refine .skip fits moves₁.inside fun c₂ moves₂ left => ?_
  rw [← left, bind_of_ok (peek_apply fits.ends moves₂.inside)]
  dsimp only
  cases kind : (Parse.next (tokens.drop c₂.index)).kind with
  | number x =>
    refine .advance_skip fits moves₂.inside (by simp [kind]) fun c₃ moves₃ _ left => ?_
    dsimp only
    rw [← left]
    exact .expect fits.ends moves₃.inside (by simp) fun c₄ moves₄ _ => .ok rfl (.refl moves₄.inside)
  | _ =>
    refine (arguments_agrees fits moves₂.inside).bind fun args c₃ moves₃ => ?_
    exact .expect fits.ends moves₃.inside (by simp) fun c₄ moves₄ _ => .ok rfl (.refl moves₄.inside)

theorem predicate_agrees :
    Agrees tokens c (Parse.predicate (tokens.drop c.index)) (predicate tokens limit c) := by
  refine (name_agrees fits.ends inside).bind fun binder c₁ moves₁ => ?_
  refine .expect fits.ends moves₁.inside (by simp) fun c₂ moves₂ _ => ?_
  refine (name_agrees fits.ends moves₂.inside).bind fun field c₃ moves₃ => ?_
  dsimp only
  -- The end of the input is no comparison, and it is the only token that is not passed.
  by_cases last : (Parse.next (tokens.drop c₃.index)).kind = .endOfInput
  · rw [bind_of_ok (advance_apply_end fits.ends moves₃.inside last), last]
    exact .error (.refl moves₃.inside)
  · refine .advance fits.ends moves₃.inside last fun c₄ moves₄ _ left => ?_
    rw [← left]
    cases Parse.comparisonOf? (Parse.next (tokens.drop c₃.index)).kind with
    | none => exact .error (.refl moves₄.inside)
    | some comparison =>
      dsimp only
      rw [bind_of_ok (peek_apply fits.ends moves₄.inside)]
      refine (literal_agrees fits moves₄.inside).bind fun operand c₅ moves₅ => ?_
      dsimp only
      split
      · exact .error (.refl moves₅.inside)
      · exact .ok rfl (.refl moves₅.inside)

theorem collection_agrees :
    Agrees tokens c (Parse.collection (tokens.drop c.index)) (collection tokens limit c) := by
  refine .expect fits.ends inside (by simp) fun c₁ moves₁ _ => ?_
  refine .skip fits moves₁.inside fun c₂ moves₂ left => ?_
  rw [← left]
  refine (name_agrees fits.ends moves₂.inside).bind fun collection c₃ moves₃ => ?_
  refine .expect fits.ends moves₃.inside (by simp) fun c₄ moves₄ _ => ?_
  exact .skip fits moves₄.inside fun c₅ moves₅ left => .ok left (.refl moves₅.inside)

/-- Behind line feeds, a call ends with its parenthesis. -/
theorem closing_agrees (x : α) :
    Agrees tokens c
      (do
        let rest ← Parse.expect .rightParen (Parse.skipNewlines (tokens.drop c.index))
        return (x, rest))
      ((do
        skipNewlines tokens limit
        expect tokens .rightParen
        return x : Step α) c) := by
  refine .skip fits inside fun c₁ moves₁ left => ?_
  rw [← left]
  exact .expect fits.ends moves₁.inside (by simp) fun c₂ moves₂ _ => .ok rfl (.refl moves₂.inside)

theorem filterCall_agrees :
    Agrees tokens c (Parse.filterCall (tokens.drop c.index)) (filterCall tokens limit c) := by
  refine (collection_agrees fits inside).bind fun collection c₁ moves₁ => ?_
  refine (predicate_agrees fits moves₁.inside).bind fun predicate c₂ moves₂ => ?_
  exact closing_agrees fits moves₂.inside _

theorem itemFunction_agrees :
    Agrees tokens c (Parse.itemFunction (tokens.drop c.index)) (itemFunction tokens limit c) := by
  rw [Parse.itemFunction, itemFunction, bind_of_ok (peek_apply fits.ends inside)]
  split
  · next atSign =>
    refine .advance fits.ends inside (by simp [atSign]) fun c₁ moves₁ _ left => ?_
    rw [← left]
    refine (name_agrees fits.ends moves₁.inside).bind fun word c₂ moves₂ => ?_
    exact .ok rfl (.refl moves₂.inside)
  · refine (name_agrees fits.ends inside).bind fun binder c₁ moves₁ => ?_
    refine .expect fits.ends moves₁.inside (by simp) fun c₂ moves₂ _ => ?_
    refine (method_agrees fits.ends moves₂.inside).bind fun method c₃ moves₃ => ?_
    refine (parenthesized_agrees fits moves₃.inside).bind fun args c₄ moves₄ => ?_
    exact .ok rfl (.refl moves₄.inside)

theorem functionCall_agrees :
    Agrees tokens c (Parse.functionCall (tokens.drop c.index)) (functionCall tokens limit c) := by
  refine (collection_agrees fits inside).bind fun collection c₁ moves₁ => ?_
  refine (itemFunction_agrees fits moves₁.inside).bind fun function c₂ moves₂ => ?_
  exact closing_agrees fits moves₂.inside _

theorem head_agrees : Agrees tokens c (Parse.head (tokens.drop c.index)) (head tokens limit c) := by
  rw [Parse.head, head, bind_of_ok (peek_apply fits.ends inside)]
  cases kind : (Parse.next (tokens.drop c.index)).kind with
  | track =>
    refine .advance fits.ends inside (by simp [kind]) fun c₁ moves₁ _ left => ?_
    dsimp only
    rw [← left]
    exact trackCall_agrees fits moves₁.inside
  | filter =>
    refine .advance fits.ends inside (by simp [kind]) fun c₁ moves₁ _ left => ?_
    dsimp only
    rw [← left]
    exact filterCall_agrees fits moves₁.inside
  | map | forEach =>
    refine .advance fits.ends inside (by simp [kind]) fun c₁ moves₁ _ left => ?_
    dsimp only
    rw [← left]
    refine (functionCall_agrees fits moves₁.inside).bind fun parts c₂ moves₂ => ?_
    exact .ok rfl (.refl moves₂.inside)
  | identifier word =>
    dsimp only
    rcases Method.ofName? word with _ | edit | utility
    · exact .error (.refl inside)
    · exact .error (.refl inside)
    · refine .advance fits.ends inside (by simp [kind]) fun c₁ moves₁ _ left => ?_
      dsimp only
      rw [← left]
      refine (parenthesized_agrees fits moves₁.inside).bind fun args c₂ moves₂ => ?_
      exact .ok rfl (.refl moves₂.inside)
  | _ => exact agrees_faultAt inside

/-! ## Statements -/

theorem chainIn_agrees {steps rounds : Nat} (enough : c.remaining tokens ≤ steps)
    (enough' : c.remaining tokens ≤ rounds) :
    Agrees tokens c (Parse.chainIn steps (tokens.drop c.index))
      (chainIn tokens limit rounds c) := by
  induction steps generalizing c rounds with
  | zero => exact absurd (remaining_pos fits.ends inside) (Nat.not_lt_of_le enough)
  | succ steps inductionHypothesis =>
    have present := remaining_pos fits.ends inside
    obtain ⟨rounds, rfl⟩ := Nat.exists_eq_succ_of_ne_zero (n := rounds) (by omega)
    obtain ⟨c₁, moves₁, found⟩ := skipsTo_apply fits inside .dot
    rw [Parse.chainIn, chainIn, bind_apply]
    dsimp only
    split at found
    · next dot =>
      obtain ⟨ran, left⟩ := found
      rw [← left] at dot
      rw [ran, ← left, if_pos dot]
      dsimp only
      rw [if_pos rfl]
      refine .later moves₁ (.advance fits.ends moves₁.inside (by simp [dot])
        fun c₂ moves₂ forward left => ?_)
      rw [← left]
      have fewer := remaining_lt fits.ends inside (Nat.lt_of_le_of_lt moves₁.forward forward)
      refine (method_agrees fits.ends moves₂.inside).bind fun method c₃ moves₃ => ?_
      refine (parenthesized_agrees fits moves₃.inside).bind fun args c₄ moves₄ => ?_
      have back := (moves₃.trans moves₄).remaining_le
      refine (inductionHypothesis moves₄.inside (by omega) (by omega)).bind
        fun chain c₅ moves₅ => ?_
      exact .ok rfl (.refl moves₅.inside)
    · next other =>
      obtain ⟨ran, back⟩ := found
      rw [ran, if_neg other]
      exact .ok (by rw [back]) moves₁

theorem statement_agrees :
    Agrees tokens c (Parse.statement (tokens.drop c.index)) (statement tokens limit c) := by
  rw [Parse.statement, statement, bind_of_ok (peek_apply fits.ends inside)]
  refine (head_agrees fits inside).bind fun head c₁ moves₁ => ?_
  dsimp only
  split
  · refine (chainIn_agrees fits moves₁.inside ?_ (fits.remaining_le c₁)).bind
      fun chain c₂ moves₂ => ?_
    · rw [List.length_drop]
      exact Nat.le_refl _
    · exact .ok rfl (.refl moves₂.inside)
  · obtain ⟨c₂, moves₂, found⟩ := skipsTo_apply fits moves₁.inside .dot
    rw [bind_apply]
    split at found
    · next dot =>
      obtain ⟨ran, left⟩ := found
      rw [ran, if_pos dot]
      dsimp only
      rw [if_pos rfl, bind_of_ok (peek_apply fits.ends moves₂.inside), left]
      exact .error moves₂
    · next other =>
      obtain ⟨ran, back⟩ := found
      rw [ran, if_neg other]
      exact .ok (by rw [back]) moves₂

end

/-! ## Progress -/

/-- Whether a step comes to an end from wherever the cursor stands inside, keeps it inside, and has
    moved it on where it succeeds. -/
def Progresses (tokens : List Token) (act : Step α) : Prop :=
  ∀ c, c.Inside tokens → ∃ result c', act c = some (result, c') ∧ c'.Inside tokens ∧
    (result.isOk → c.index < c'.index)

theorem progresses_of_agrees {rule : List Token → Except SyntaxError (α × List Token)}
    {act : Step α}
    (agrees : ∀ c, c.Inside tokens → Agrees tokens c (rule (tokens.drop c.index)) (act c))
    (shortens : ∀ {ts x rest}, rule ts = .ok (x, rest) → rest.length < ts.length) :
    Progresses tokens act := by
  intro c inside
  have shorter := @shortens (tokens.drop c.index)
  have agrees := agrees c inside
  generalize act c = outcome at agrees ⊢
  generalize rule (tokens.drop c.index) = result at agrees shorter
  cases agrees with
  | @ok x rest c' left moves =>
    subst left
    exact ⟨.ok x, c', rfl, moves.inside, fun _ => lt_of_drop (shorter rfl)⟩
  | @error e c' moves => exact ⟨.error e, c', rfl, moves.inside, fun ok => nomatch ok⟩

/-! ## Scripts -/

section

variable (fits : Fits tokens limit)
include fits

/-- Statements are read to the end of the input, and as many of them are begun at the most as there
    are tokens up to there. -/
theorem statementsIn_agrees {steps rounds : Nat} {c : Cursor} (inside : c.Inside tokens)
    (enough : c.remaining tokens ≤ steps) (enough' : c.remaining tokens ≤ rounds) :
    ∃ c', (skipSeparators tokens limit >>= fun _ => statementsIn tokens limit rounds) c =
        some (Parse.statementsIn steps (tokens.drop c.index), c') ∧
      c'.Inside tokens ∧ c'.begun + c.index ≤ c.begun + firstEnd tokens := by
  induction steps generalizing c rounds with
  | zero => exact absurd (remaining_pos fits.ends inside) (Nat.not_lt_of_le enough)
  | succ steps inductionHypothesis =>
    have present := remaining_pos fits.ends inside
    obtain ⟨rounds, rfl⟩ := Nat.exists_eq_succ_of_ne_zero (n := rounds) (by omega)
    obtain ⟨c₁, ran, moves₁, left⟩ := skipSeparators_apply fits inside
    rw [bind_of_ok ran, Parse.statementsIn, statementsIn,
      bind_of_ok (peek_apply fits.ends moves₁.inside), ← left]
    dsimp only
    have begun₁ := moves₁.begun
    have forward := moves₁.forward
    split
    · exact ⟨c₁, rfl, moves₁.inside, by have := inside.index; omega⟩
    · next other =>
      -- The statement is read from here.  It takes a token, which pays for having been begun.
      let begun : Cursor := { c₁ with begun := c₁.begun + 1 }
      have inside₁ : begun.Inside tokens := ⟨moves₁.inside.index, moves₁.inside.trail⟩
      have before := index_lt_firstEnd fits.ends moves₁.inside other
      have agrees : Agrees tokens begun (Parse.statement (tokens.drop c₁.index))
          (statement tokens limit begun) := statement_agrees fits inside₁
      rw [bind_of_ok (modify_apply _ c₁)]
      cases parsed : Parse.statement (tokens.drop c₁.index) with
      | error e =>
        rw [parsed] at agrees
        obtain ⟨c₂, ran₂, moves₂⟩ := agrees.of_error
        have begun₂ : c₂.begun = c₁.begun + 1 := moves₂.begun
        exact ⟨c₂, bind_of_error ran₂, moves₂.inside, by omega⟩
      | ok read =>
        obtain ⟨first, rest⟩ := read
        rw [parsed] at agrees
        obtain ⟨c₂, ran₂, moves₂, rfl⟩ := agrees.of_ok
        have begun₂ : c₂.begun = c₁.begun + 1 := moves₂.begun
        have forward₂ : c₁.index < c₂.index := lt_of_drop (Parse.length_lt_of_statement parsed)
        have fewer := remaining_lt fits.ends inside (Nat.lt_of_le_of_lt forward forward₂)
        have enough₂ : c₂.remaining tokens ≤ rounds := by omega
        obtain ⟨c₃, ran₃, inside₃, begun₃⟩ := inductionHypothesis moves₂.inside (by omega) enough₂
        have reads :
            (skipSeparators tokens limit >>= fun _ =>
              statementsIn tokens limit rounds >>= fun rest =>
                (pure (first :: rest) : Step (List Statement))) c₂ =
            some (Parse.statementsIn steps (tokens.drop c₂.index) >>= fun rest =>
              pure (first :: rest), c₃) := by
          rw [← bind_assoc, bind_apply, ran₃]
          cases Parse.statementsIn steps (tokens.drop c₂.index) <;> rfl
        have last := moves₂.inside.index
        dsimp only [Except.ok_bind]
        rw [bind_of_ok ran₂, bind_of_ok (peek_apply fits.ends moves₂.inside)]
        cases kind : (Parse.next (tokens.drop c₂.index)).kind with
        | newline | semicolon => exact ⟨c₃, reads, inside₃, by omega⟩
        | endOfInput =>
          -- The rule goes round once more, the loop does not.
          refine ⟨c₂, ?_, moves₂.inside, by omega⟩
          dsimp only
          rw [Parse.statementsIn_of_end _ kind]
          rfl
        | _ => exact ⟨c₂, rfl, moves₂.inside, by omega⟩

/-- A script is read as it is by the rules. -/
theorem script_agrees :
    ∃ c', script tokens limit {} =
        some ((Parse.statementsIn tokens.length tokens).map Script.mk, c') ∧
      c'.Inside tokens ∧ c'.begun ≤ firstEnd tokens := by
  have start : ({} : Cursor).Inside tokens := ⟨Nat.zero_le _, by simp⟩
  obtain ⟨c', ran, inside, begun⟩ :=
    statementsIn_agrees fits start (Nat.le_refl _) (fits.remaining_le {})
  refine ⟨c', ?_, inside, by simpa using begun⟩
  have whole : ({} : Cursor).remaining tokens = tokens.length := rfl
  rw [script, ← bind_assoc, bind_apply, ran, whole, List.drop_zero]
  cases Parse.statementsIn tokens.length tokens <;> rfl

end

theorem fits_closed (ts : List Token) (many : 2 * (ts.length + 1) < limit) :
    Fits (Parse.closed ts) limit := by
  obtain ⟨t, mem, last⟩ := Parse.exists_end_closed ts
  have length := Parse.length_closed_le ts
  refine ⟨List.findIdx_lt_length_of_exists ⟨t, mem, by simp [last]⟩, ?_⟩
  unfold Parse.stepsFor
  omega

end Cursor

open Parse in
/-- A text is read, and so is every list of tokens, without looking outside of it, if loops may go
    round more often than there are characters, and than twice the tokens with an end behind them.
    Each turn of reading a text that does not end it takes a character.  The cursor never stands
    behind the first end of the input; statements, arguments and the items of arrays move it on,
    line feeds and separators are skipped to their end, and no more statements are begun than there
    are tokens. -/
theorem Script.reading_ends (text : String) (ts : List Token) (limit : Nat)
    (long : text.toList.length < limit) (many : 2 * (ts.length + 1) < limit) :
    (∃ s, Scanner.tokens text.toList limit {} = some (Token.ofText text, s)) ∧
    (∀ s, ∃ result s', Scanner.turn text.toList limit s = some (result, s') ∧
      ∀ t, result = .ok (some t) → s.index < s'.index) ∧
    (∃ c, Cursor.script (closed ts) limit {} = some (ofTokens ts, c) ∧
      (∀ i ∈ c.trail, i < (closed ts).length ∧ i ≤ Cursor.firstEnd (closed ts)) ∧
      c.begun ≤ ts.length) ∧
    Cursor.Progresses (closed ts) (Cursor.statement (closed ts) limit) ∧
    Cursor.Progresses (closed ts)
      (Cursor.argument (closed ts) (Cursor.literal (closed ts) limit)) ∧
    Cursor.Progresses (closed ts) (Cursor.literal (closed ts) limit) ∧
    ∀ c, c.Inside (closed ts) →
      (∃ c', Cursor.skipNewlines (closed ts) limit c = some (.ok (), c') ∧
        c'.Inside (closed ts)) ∧
      ∃ c', Cursor.skipSeparators (closed ts) limit c = some (.ok (), c') ∧
        c'.Inside (closed ts) := by
  have fits := Cursor.fits_closed ts many
  refine ⟨Scanner.tokens_apply long {}, Scanner.turn_progresses long, ?_, ?_, ?_, ?_,
    fun c inside => ?_⟩
  · obtain ⟨c, ran, inside, begun⟩ := Cursor.script_agrees fits
    refine ⟨c, ?_, fun i mem => ?_, ?_⟩
    · rw [ran, ofTokens]
      cases statementsIn (closed ts).length (closed ts) <;> rfl
    · exact ⟨Nat.lt_of_le_of_lt (inside.trail i mem) fits.ends, inside.trail i mem⟩
    · have length := length_closed_le ts
      have ends := fits.ends
      omega
  · exact Cursor.progresses_of_agrees (fun _ => Cursor.statement_agrees fits)
      length_lt_of_statement
  · exact Cursor.progresses_of_agrees (fun _ inside => Cursor.argument_agrees fits inside
      fun _ moves _ => Cursor.literal_agrees fits moves.inside) length_lt_of_argument
  · exact Cursor.progresses_of_agrees (fun _ => Cursor.literal_agrees fits) length_lt_of_literal
  · obtain ⟨c₁, ran₁, moves₁, _⟩ := Cursor.skipNewlines_apply fits inside
    obtain ⟨c₂, ran₂, moves₂, _⟩ := Cursor.skipSeparators_apply fits inside
    exact ⟨⟨c₁, ran₁, moves₁.inside⟩, c₂, ran₂, moves₂.inside⟩

/-- A statement without an end of the input behind it moves the cursor on. -/
theorem Script.reading_ends_unclosed :
    let tokens := Parse.closed [⟨.track, ⟨1, 1⟩⟩, ⟨.leftParen, ⟨1, 6⟩⟩, ⟨.rightParen, ⟨1, 7⟩⟩]
    "track()".toList.length < 9 ∧ 2 * (3 + 1) < 9 ∧ ({} : Cursor).Inside tokens ∧
      ∃ c', Cursor.statement tokens 9 {} = some (.ok ⟨1, .track .empty, []⟩, c') ∧
        0 < c'.index := by
  intro tokens
  have long : "track()".toList.length < 9 := by decide
  have inside : ({} : Cursor).Inside tokens := ⟨Nat.zero_le _, by simp⟩
  obtain ⟨_, _, _, statement, _⟩ := Script.reading_ends "track()"
    [⟨.track, ⟨1, 1⟩⟩, ⟨.leftParen, ⟨1, 6⟩⟩, ⟨.rightParen, ⟨1, 7⟩⟩] 9 long (by decide)
  obtain ⟨result, c', ran, _, forward⟩ := statement {} inside
  have read : (Cursor.statement tokens 9 {}).map Prod.fst =
      some (.ok ⟨1, .track .empty, []⟩) := rfl
  rw [ran] at read
  cases read
  exact ⟨long, by decide, inside, c', ran, forward rfl⟩

end StudioScript
