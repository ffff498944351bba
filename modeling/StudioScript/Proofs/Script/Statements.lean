import Mathlib
import StudioScript.Proofs.Script.Calls

/-! # Reading statements and scripts

The parser accepts what the grammar derives, and nothing else.  A chain is read as far as it goes,
so that no statement is read when a chained call stands behind what is derived (`Parse.EndsChain`).
-/

namespace StudioScript

namespace Grammar

/-! ## Where statements begin and end -/

/-- Whether the tokens begin like a statement. -/
def Starts (ts : List Token) : Prop :=
  ∃ t rest, ts = t :: rest ∧ t.kind ∉ [.newline, .semicolon, .dot, .endOfInput]

/-- Whether the last of the tokens closes arguments. -/
def EndsInParen (ts : List Token) : Prop := ∃ front q, ts = front ++ [⟨.rightParen, q⟩]

theorem EndsInParen.behind {ts : List Token} (ends : EndsInParen ts) (front : List Token) :
    EndsInParen (front ++ ts) := by
  obtain ⟨front', q, rfl⟩ := ends
  exact ⟨front ++ front', q, (List.append_assoc _ _ _).symm⟩

theorem Parenthesized.endsInParen {ts : List Token} {args : Arguments}
    (derived : Parenthesized ts args) : EndsInParen ts := by
  obtain @⟨p, gap, inner, _, q, _, _⟩ := derived
  exact ⟨⟨.leftParen, p⟩ :: (gap ++ inner), q, by simp⟩

theorem CollectionCall.endsInParen {α : Type} {keyword : TokenKind}
    {content : List Token → α → Prop} {ts : List Token} {c : String} {x : α}
    (derived : CollectionCall keyword content ts c x) : EndsInParen ts := by
  obtain @⟨p, q, gap, t, _, r, gap', ts, _, gap'', s, _, _, _, _, _⟩ := derived
  exact ⟨⟨keyword, p⟩ :: ⟨.leftParen, q⟩ :: (gap ++ t :: ⟨.comma, r⟩ :: (gap' ++ (ts ++ gap''))), s,
    by simp⟩

theorem ChainableCall.starts {ts : List Token} {call : Call} (derived : ChainableCall ts call) :
    Starts ts := by
  cases derived with
  | track derived =>
    obtain ⟨p, rest, rfl⟩ := derived.keyword
    exact ⟨_, _, rfl, by simp⟩
  | filter derived =>
    obtain ⟨p, rest, rfl⟩ := derived.keyword
    exact ⟨_, _, rfl, by simp⟩
  | utility derived =>
    obtain ⟨named, _, _⟩ := derived
    refine ⟨_, _, rfl, ?_⟩
    cases named <;> simp

theorem ChainableCall.endsInParen {ts : List Token} {call : Call}
    (derived : ChainableCall ts call) : EndsInParen ts := by
  cases derived with
  | track derived =>
    cases derived with
    | @number p q gap x r gap' s =>
      exact ⟨⟨.track, p⟩ :: ⟨.leftParen, q⟩ :: (gap ++ ⟨.number x, r⟩ :: gap'), s, by simp⟩
    | keywords read => exact read.endsInParen.behind [_]
  | filter derived => exact derived.endsInParen
  | utility derived =>
    obtain ⟨_, _, read⟩ := derived
    exact read.endsInParen.behind [_]

theorem ItemwiseCall.starts {ts : List Token} {call : Call} (derived : ItemwiseCall ts call) :
    Starts ts := by
  cases derived with
  | map derived | forEach derived =>
    obtain ⟨p, rest, rfl⟩ := derived.keyword
    exact ⟨_, _, rfl, by simp⟩

theorem ItemwiseCall.endsInParen {ts : List Token} {call : Call} (derived : ItemwiseCall ts call) :
    EndsInParen ts := by
  cases derived with
  | map derived | forEach derived => exact derived.endsInParen

theorem Chain.endsInParen {ts : List Token} {chain : List Invocation} (derived : Chain ts chain) :
    ts = [] ∨ EndsInParen ts := by
  induction derived with
  | none => exact Or.inl rfl
  | @link gap p t _ _ ts _ rest _ _ _ _ read _ inductionHypothesis =>
    have last : EndsInParen (ts ++ rest) := by
      rcases inductionHypothesis with rfl | ends
      · exact (List.append_nil ts).symm ▸ read.endsInParen
      · exact ends.behind ts
    exact Or.inr (last.behind [⟨.dot, p⟩, t] |>.behind gap)

theorem StatementRule.starts {ts : List Token} {st : Statement} (derived : StatementRule ts st) :
    Starts ts := by
  cases derived with
  | chained read _ =>
    obtain ⟨t, rest, same, inside⟩ := read.starts
    cases same
    exact ⟨_, _, rfl, inside⟩
  | alone read => exact read.starts

theorem StatementRule.endsInParen {ts : List Token} {st : Statement}
    (derived : StatementRule ts st) : EndsInParen ts := by
  cases derived with
  | chained read chained =>
    rcases chained.endsInParen with rfl | ends
    · exact (List.append_nil _).symm ▸ read.endsInParen
    · exact ends.behind _
  | alone read => exact read.endsInParen

theorem Statements.starts {ts : List Token} {sts : List Statement} (derived : Statements ts sts) :
    Starts ts := by
  cases derived with
  | last read => exact read.starts
  | more read _ _ _ =>
    obtain ⟨t, rest, rfl, inside⟩ := read.starts
    exact ⟨t, _, rfl, inside⟩

/-! ## Which calls carry chains -/

theorem ChainableCall.isChainable {ts : List Token} {call : Call}
    (derived : ChainableCall ts call) : call.isChainable = true := by
  cases derived with
  | track derived => cases derived <;> rfl
  | filter => rfl
  | utility derived =>
    cases derived
    rfl

theorem ItemwiseCall.isChainable {ts : List Token} {call : Call}
    (derived : ItemwiseCall ts call) : call.isChainable = false := by
  cases derived <;> rfl

end Grammar

namespace Parse

open Grammar

variable {ts rest : List Token}

/-! ## Chains -/

/-- Whether no chained call stands next, also not on a later line. -/
def EndsChain (ts : List Token) : Prop := (next (skipNewlines ts)).kind ≠ .dot

theorem chain_of_chainIn {n : Nat} {chain : List Invocation} (enough : ts.length ≤ n)
    (ran : chainIn n ts = .ok (chain, rest)) :
    EndsChain rest ∧ ∃ read, ts = read ++ rest ∧ Chain read chain := by
  induction n generalizing ts chain with
  | zero =>
    cases ran
    obtain rfl := List.eq_nil_of_length_eq_zero (Nat.le_zero.mp enough)
    exact ⟨by simp [EndsChain, skipNewlines, next], [], rfl, .none⟩
  | succ n inductionHypothesis =>
    simp only [chainIn] at ran
    split at ran
    · next dot =>
      obtain ⟨⟨m, behindMethod⟩, spelt, goes⟩ := Except.bind_eq_ok.mp ran
      obtain ⟨⟨args, behind⟩, ranArguments, goes⟩ := Except.bind_eq_ok.mp goes
      obtain ⟨⟨chain', rest'⟩, ranChain, done⟩ := Except.bind_eq_ok.mp goes
      cases done
      obtain ⟨p, ahead⟩ := eq_cons_of_next dot (by simp)
      obtain ⟨gap, newlines, gapped⟩ := (skipNewlines_eq_cons (by simp)).mp ahead
      obtain ⟨t, word, behindDot, named, spells⟩ := method_eq_ok.mp spelt
      obtain ⟨read, rfl, derived⟩ := parenthesized_follows.derives ranArguments
      rw [behindDot] at gapped
      -- The dot and the name are read in any case, so that one step fewer is enough for the rest.
      have shorter : behind.length ≤ n := by
        simp only [gapped, List.length_append, List.length_cons] at enough
        omega
      obtain ⟨ends, reads, rfl, chained⟩ := inductionHypothesis shorter ranChain
      refine ⟨ends, _, ?_, .link (p := p) newlines named spells derived chained⟩
      rw [gapped]
      simp only [List.append_assoc, List.cons_append]
    · next ends =>
      cases ran
      exact ⟨ends, [], rfl, .none⟩

theorem chainIn_of_chain {n : Nat} {read : List Token} {chain : List Invocation}
    (derived : Chain read chain) (ends : EndsChain rest) (enough : read.length ≤ n) :
    chainIn n (read ++ rest) = .ok (chain, rest) := by
  induction derived generalizing n with
  | none =>
    cases n with
    | zero => rfl
    | succ n => exact if_neg ends
  | @link gap p t word m ts args others chain newlines named spells read _ inductionHypothesis =>
    cases n with
    | zero => simp at enough
    | succ n =>
      simp only [List.length_append, List.length_cons] at enough
      have ahead : skipNewlines (gap ++ ⟨.dot, p⟩ :: t :: (ts ++ (others ++ rest))) =
          ⟨.dot, p⟩ :: t :: (ts ++ (others ++ rest)) :=
        (skipNewlines_eq_cons (by simp)).mpr ⟨gap, newlines, rfl⟩
      have spelt : method (t :: (ts ++ (others ++ rest))) = .ok (m, ts ++ (others ++ rest)) :=
        method_eq_ok.mpr ⟨t, word, rfl, named, spells⟩
      have body := parenthesized_follows.reads read (others ++ rest)
      have links : chainIn n (others ++ rest) = .ok (chain, rest) := inductionHypothesis (by omega)
      simp only [chainIn, List.append_assoc, List.cons_append, ahead, next_cons, if_true,
        List.tail_cons, spelt, Except.ok_bind, body, links]
      rfl

/-! ## Statements -/

theorem statement_eq_ok {st : Statement} :
    statement ts = .ok (st, rest) ↔
      EndsChain rest ∧ ∃ read, ts = read ++ rest ∧ StatementRule read st := by
  constructor
  · intro ran
    obtain ⟨⟨call, behind⟩, ranHead, goes⟩ := Except.bind_eq_ok.mp ran
    obtain ⟨read, rfl, derived⟩ := head_follows.derives ranHead
    simp only at goes
    split at goes
    · next chainable =>
      obtain ⟨⟨chain, rest'⟩, ranChain, done⟩ := Except.bind_eq_ok.mp goes
      cases done
      obtain ⟨ends, links, rfl, chained⟩ := chain_of_chainIn (Nat.le_refl _) ranChain
      rcases derived with derived | derived
      · obtain ⟨t, ts, rfl, _⟩ := derived.starts
        exact ⟨ends, _, (List.append_assoc _ _ _).symm, .chained derived chained⟩
      · rw [derived.isChainable] at chainable
        cases chainable
    · next unchainable =>
      split at goes
      · cases faultAt_eq_ok.mp goes
      · next ends =>
        cases goes
        rcases derived with derived | derived
        · exact absurd derived.isChainable unchainable
        · obtain ⟨t, ts, rfl, _⟩ := derived.starts
          exact ⟨ends, _, rfl, .alone derived⟩
  · rintro ⟨ends, read, rfl, derived⟩
    cases derived with
    | @chained t ts call links chain read chained =>
      have body := head_follows.reads (Or.inl read) (links ++ rest)
      have links := chainIn_of_chain chained ends (n := (links ++ rest).length) (by simp)
      simp only [List.cons_append] at body
      simp only [statement, List.cons_append, List.append_assoc, next_cons, body, Except.ok_bind,
        read.isChainable, if_true, links]
      rfl
    | @alone t ts call read =>
      have body := head_follows.reads (Or.inr read) rest
      simp only [List.cons_append] at body
      have unchained : ¬(next (skipNewlines rest)).kind = .dot := ends
      simp only [statement, List.cons_append, next_cons, body, Except.ok_bind, read.isChainable,
        Bool.false_eq_true, if_false, unchained]
      rfl

/-! ## Separators -/

theorem separator_of_isSeparator {t : Token} :
    isSeparator t = true ↔ t.kind = .newline ∨ t.kind = .semicolon := by
  simp [isSeparator]

theorem exists_separators (ts : List Token) :
    ∃ gap, Separators gap ∧ ts = gap ++ skipSeparators ts := by
  refine ⟨ts.takeWhile isSeparator, ?_, List.takeWhile_append_dropWhile.symm⟩
  intro t member
  exact separator_of_isSeparator.mp (List.all_eq_true.mp List.all_takeWhile t member)

theorem skipSeparators_append {gap : List Token} (separators : Separators gap)
    (other : (next rest).kind ∉ [.newline, .semicolon]) :
    skipSeparators (gap ++ rest) = rest := by
  have skipped : ∀ t ∈ gap, isSeparator t = true :=
    fun t member => separator_of_isSeparator.mpr (separators t member)
  rw [skipSeparators, List.dropWhile_append_of_pos skipped]
  cases rest with
  | nil => rfl
  | cons t rest =>
    apply List.dropWhile_cons_of_neg
    intro separator
    rcases separator_of_isSeparator.mp separator with newline | semicolon
    · exact other (newline ▸ List.mem_cons_self)
    · exact other (semicolon ▸ List.mem_cons_of_mem _ List.mem_cons_self)

/-- Behind separators no chain goes on, unless a dot stands right there. -/
theorem endsChain_of_separators {gap : List Token} (separators : Separators gap)
    (other : (next rest).kind ∉ [.newline, .dot]) : EndsChain (gap ++ rest) := by
  induction gap with
  | nil =>
    intro dot
    rw [List.nil_append, skipNewlines_eq_self fun newline => other (newline ▸ List.mem_cons_self)]
      at dot
    exact other (dot ▸ List.mem_cons_of_mem _ List.mem_cons_self)
  | cons t gap inductionHypothesis =>
    have behind := inductionHypothesis fun t member => separators t (List.mem_cons_of_mem _ member)
    rcases separators t List.mem_cons_self with newline | semicolon
    · have skipped : skipNewlines ([t] ++ (gap ++ rest)) = skipNewlines (gap ++ rest) := by
        apply skipNewlines_append
        intro t' member
        rw [List.mem_singleton.mp member, newline]
      exact fun dot => behind (skipped ▸ dot)
    · intro dot
      rw [skipNewlines_eq_self (by simp [semicolon])] at dot
      simp [semicolon] at dot

/-! ## Scripts -/

/-- Whether the input ends with the last of the tokens and not before. -/
def EndsOnce (ts : List Token) : Prop :=
  ∃ body p, ts = body ++ [⟨.endOfInput, p⟩] ∧ ∀ t ∈ body, t.kind ≠ .endOfInput

/-- The input also ends behind tokens of which the last is not its end. -/
theorem EndsOnce.behind {front : List Token} (once : EndsOnce (front ++ rest))
    (inside : ∀ t, front.getLast? = some t → t.kind ≠ .endOfInput) : EndsOnce rest := by
  obtain ⟨body, p, same, only⟩ := once
  rcases List.eq_nil_or_concat rest with rfl | ⟨rest, t, rfl⟩
  · rw [List.append_nil] at same
    exact absurd rfl (inside ⟨.endOfInput, p⟩ (by simp [same]))
  · rw [List.concat_eq_append, ← List.append_assoc] at same
    rw [List.concat_eq_append]
    obtain ⟨rfl, last⟩ := List.append_inj' same rfl
    refine ⟨rest, p, by rw [last], ?_⟩
    intro t' member
    exact only t' (List.mem_append_right _ member)

theorem EndsOnce.eq_nil {p : Position} (once : EndsOnce (⟨.endOfInput, p⟩ :: rest)) :
    rest = [] := by
  obtain ⟨body, p', same, only⟩ := once
  cases body with
  | nil => exact (List.cons.inj same).2
  | cons t body =>
    obtain ⟨rfl, _⟩ := List.cons.inj same
    exact absurd rfl (only _ List.mem_cons_self)

theorem script_of_statementsIn {n : Nat} {sts : List Statement} (once : EndsOnce ts)
    (enough : ts.length ≤ n) (ran : statementsIn n ts = .ok sts) : ScriptRule ts ⟨sts⟩ := by
  induction n generalizing ts sts with
  | zero =>
    obtain ⟨body, p, rfl, _⟩ := once
    simp at enough
  | succ n inductionHypothesis =>
    simp only [statementsIn] at ran
    obtain ⟨gap, separators, gapped⟩ := exists_separators ts
    have onceBehind : EndsOnce (skipSeparators ts) := by
      apply EndsOnce.behind (gapped ▸ once)
      intro t last
      rcases separators t (List.mem_of_getLast? last) with newline | semicolon
      · simp [newline]
      · simp [semicolon]
    split at ran
    · next ends =>
      cases ran
      cases left : skipSeparators ts with
      | nil =>
        obtain ⟨body, p, same, _⟩ := onceBehind
        simp [left] at same
      | cons t rest =>
        obtain ⟨kind, p⟩ := t
        obtain rfl : kind = .endOfInput := by rwa [left] at ends
        rw [left] at gapped onceBehind
        obtain rfl := onceBehind.eq_nil
        exact gapped ▸ .empty separators
    · obtain ⟨⟨st, behind⟩, ranStatement, goes⟩ := Except.bind_eq_ok.mp ran
      obtain ⟨_, read, shape, derived⟩ := statement_eq_ok.mp ranStatement
      rw [shape] at gapped onceBehind
      -- A statement ends in a parenthesis, so that it has not read the end of the input.
      have onceRest : EndsOnce behind := by
        apply onceBehind.behind
        intro t last
        obtain ⟨front, q, rfl⟩ := derived.endsInParen
        rw [List.getLast?_concat] at last
        cases last
        simp
      have shorter : behind.length ≤ n := by
        obtain ⟨t, read, rfl, _⟩ := derived.starts
        simp only [gapped, List.length_append, List.length_cons] at enough
        omega
      -- What stands behind the statement is a script again, which begins with a separator.
      have others (stops : (next behind).kind ∈ [.newline, .semicolon, .endOfInput])
          (ran : (do return st :: (← statementsIn n behind)) = .ok sts) : ScriptRule ts ⟨sts⟩ := by
        obtain ⟨sts', ranRest, done⟩ := Except.bind_eq_ok.mp ran
        cases done
        have script := inductionHypothesis onceRest shorter ranRest
        generalize same : Script.mk sts' = rest at script
        cases script with
        | empty separators' =>
          cases same
          exact gapped ▸ .statements separators (.last derived) separators'
        | @statements gap' read' _ gap'' p separators' derived' separators'' =>
          cases same
          have some : gap' ≠ [] := by
            rintro rfl
            obtain ⟨t, read', rfl, inside⟩ := derived'.starts
            simp only [List.nil_append, List.cons_append, next_cons] at stops
            simp only [List.mem_cons, List.not_mem_nil, or_false, not_or] at stops inside
            rcases stops with stops | stops | stops <;> simp [stops] at inside
          have all := ScriptRule.statements (p := p) separators
            (.more derived separators' some derived') separators''
          rw [gapped]
          simpa only [List.append_assoc] using all
      simp only at goes
      split at goes
      · next newline => exact others (newline ▸ by simp) goes
      · next semicolon => exact others (semicolon ▸ by simp) goes
      · next ends => exact others (ends ▸ by simp) goes
      · cases faultAt_eq_ok.mp goes

theorem statementsIn_of_separators {n : Nat} {gap : List Token} (separators : Separators gap)
    (p : Position) : statementsIn n (gap ++ [⟨.endOfInput, p⟩]) = .ok [] := by
  cases n with
  | zero => rfl
  | succ n => simp [statementsIn, skipSeparators_append separators]

theorem statementsIn_cons {n : Nat} {gap read behind : List Token} {st : Statement}
    (separators : Separators gap) (derived : StatementRule read st) (ends : EndsChain behind)
    (stops : (next behind).kind ∈ [.newline, .semicolon, .endOfInput]) :
    statementsIn (n + 1) (gap ++ (read ++ behind)) =
      (do return st :: (← statementsIn n behind)) := by
  have body : statement (read ++ behind) = .ok (st, behind) :=
    statement_eq_ok.mpr ⟨ends, read, rfl, derived⟩
  obtain ⟨t, read, rfl, inside⟩ := derived.starts
  simp only [List.mem_cons, List.not_mem_nil, or_false, not_or] at inside stops
  have left : skipSeparators (gap ++ (t :: read ++ behind)) = t :: read ++ behind := by
    apply skipSeparators_append separators
    simp [inside]
  have goes : ¬(next (t :: read ++ behind)).kind = .endOfInput := by simp [inside]
  simp only [statementsIn, left, goes, if_false, body, Except.ok_bind]
  rcases stops with stops | stops | stops <;> rw [stops]

/-- What is left of a script behind a statement: separators, and then a statement or the end. -/
theorem stops_of_separators {gap : List Token} (separators : Separators gap)
    (goes : gap ≠ [] ∨ (next rest).kind = .endOfInput) :
    (next (gap ++ rest)).kind ∈ [.newline, .semicolon, .endOfInput] := by
  cases gap with
  | nil =>
    rcases goes with some | ends
    · exact absurd rfl some
    · simp [ends]
  | cons t gap => rcases separators t List.mem_cons_self with newline | semicolon <;> simp [*]

theorem statementsIn_of_statements {n : Nat} {read gap gap' : List Token} {sts : List Statement}
    (separators : Separators gap) (derived : Statements read sts) (separators' : Separators gap')
    (p : Position) (enough : read.length ≤ n) :
    statementsIn n (gap ++ (read ++ (gap' ++ [⟨.endOfInput, p⟩]))) = .ok sts := by
  induction derived generalizing n gap with
  | @last ts st read =>
    obtain ⟨t, ts, rfl, _⟩ := read.starts
    cases n with
    | zero => simp at enough
    | succ n =>
      rw [statementsIn_cons separators read (endsChain_of_separators separators' (by simp))
        (stops_of_separators separators' (.inr rfl)), statementsIn_of_separators separators' p]
      rfl
  | @more ts st between others sts read separators'' some derived inductionHypothesis =>
    obtain ⟨t, ts, rfl, _⟩ := read.starts
    cases n with
    | zero => simp at enough
    | succ n =>
      obtain ⟨t', others, rfl, inside⟩ := derived.starts
      have ends : EndsChain (between ++ (t' :: others ++ (gap' ++ [⟨.endOfInput, p⟩]))) := by
        apply endsChain_of_separators separators''
        simp only [List.mem_cons, List.not_mem_nil, or_false, not_or] at inside
        simp [inside]
      simp only [List.length_append, List.length_cons] at enough
      have remaining := inductionHypothesis separators'' (n := n)
        (by simp only [List.length_cons]; omega)
      rw [List.append_assoc, List.append_assoc, statementsIn_cons separators read ends
        (stops_of_separators separators'' (.inl some)), remaining]
      rfl

/-- Tokens that have an end get no other one. -/
theorem closed_concat (body : List Token) (p : Position) :
    closed (body ++ [⟨.endOfInput, p⟩]) = body ++ [⟨.endOfInput, p⟩] := by
  simp [closed]

theorem script_of_ofTokens {body : List Token} {p : Position} {script : Script}
    (only : ∀ t ∈ body, t.kind ≠ .endOfInput)
    (parsed : Script.ofTokens (body ++ [⟨.endOfInput, p⟩]) = .ok script) :
    ScriptRule (body ++ [⟨.endOfInput, p⟩]) script := by
  rw [Script.ofTokens, closed_concat] at parsed
  obtain ⟨sts, ran, done⟩ := Except.bind_eq_ok.mp parsed
  cases done
  exact script_of_statementsIn ⟨body, p, rfl, only⟩ (Nat.le_refl _) ran

end Parse

namespace Script

open Grammar

/-- The parser accepts exactly what the grammar derives, and builds exactly the script that is
    derived. -/
theorem ofTokens_eq_ok_iff {body : List Token} (p : Position)
    (only : ∀ t ∈ body, t.kind ≠ .endOfInput) (script : Script) :
    ofTokens (body ++ [⟨.endOfInput, p⟩]) = .ok script ↔
      ScriptRule (body ++ [⟨.endOfInput, p⟩]) script := by
  constructor
  · exact Parse.script_of_ofTokens only
  · intro derived
    rw [ofTokens, Parse.closed_concat]
    generalize same : body ++ [⟨.endOfInput, p⟩] = ts at derived
    cases derived with
    | empty separators =>
      rw [Parse.statementsIn_of_separators separators]
      rfl
    | statements separators read separators' =>
      rw [Parse.statementsIn_of_statements separators read separators' _ ?_]
      · rfl
      · simp only [List.length_append]
        omega

/-- A chain on a line of its own, with an array in its arguments that holds an object and ends with
    a comma and a line feed, and behind it a filter with a method chained onto it. -/
theorem ofTokens_eq_ok_iff_automation :
    let one : Number := .ofNat 1
    let body : List Token :=
      [⟨.track, ⟨1, 1⟩⟩, ⟨.leftParen, ⟨1, 6⟩⟩, ⟨.identifier "id", ⟨1, 7⟩⟩, ⟨.assign, ⟨1, 9⟩⟩,
        ⟨.number one, ⟨1, 10⟩⟩, ⟨.rightParen, ⟨1, 11⟩⟩, ⟨.newline, ⟨1, 12⟩⟩,
        ⟨.dot, ⟨2, 3⟩⟩, ⟨.identifier "add_automation", ⟨2, 4⟩⟩, ⟨.leftParen, ⟨2, 18⟩⟩,
        ⟨.identifier "param", ⟨2, 19⟩⟩, ⟨.assign, ⟨2, 24⟩⟩, ⟨.string "volume", ⟨2, 25⟩⟩,
        ⟨.comma, ⟨2, 33⟩⟩, ⟨.identifier "points", ⟨2, 35⟩⟩, ⟨.assign, ⟨2, 41⟩⟩,
        ⟨.leftBracket, ⟨2, 42⟩⟩, ⟨.leftBrace, ⟨2, 43⟩⟩, ⟨.identifier "value", ⟨2, 44⟩⟩,
        ⟨.assign, ⟨2, 49⟩⟩, ⟨.number one, ⟨2, 50⟩⟩, ⟨.comma, ⟨2, 51⟩⟩,
        ⟨.identifier "time", ⟨2, 53⟩⟩, ⟨.assign, ⟨2, 57⟩⟩, ⟨.number .zero, ⟨2, 58⟩⟩,
        ⟨.rightBrace, ⟨2, 59⟩⟩, ⟨.comma, ⟨2, 60⟩⟩, ⟨.newline, ⟨2, 61⟩⟩,
        ⟨.rightBracket, ⟨3, 3⟩⟩, ⟨.rightParen, ⟨3, 4⟩⟩, ⟨.newline, ⟨3, 5⟩⟩,
        ⟨.filter, ⟨4, 1⟩⟩, ⟨.leftParen, ⟨4, 7⟩⟩, ⟨.identifier "tracks", ⟨4, 8⟩⟩,
        ⟨.comma, ⟨4, 14⟩⟩, ⟨.track, ⟨4, 16⟩⟩, ⟨.dot, ⟨4, 21⟩⟩, ⟨.identifier "index", ⟨4, 22⟩⟩,
        ⟨.member, ⟨4, 28⟩⟩, ⟨.leftBracket, ⟨4, 31⟩⟩, ⟨.number .zero, ⟨4, 32⟩⟩,
        ⟨.rightBracket, ⟨4, 33⟩⟩, ⟨.rightParen, ⟨4, 34⟩⟩, ⟨.dot, ⟨4, 35⟩⟩,
        ⟨.identifier "delete", ⟨4, 36⟩⟩, ⟨.leftParen, ⟨4, 42⟩⟩, ⟨.rightParen, ⟨4, 43⟩⟩]
    let point : Literal := .object [("time", .number .zero), ("value", .number one)]
    let automation : Arguments :=
      ⟨[("param", .string "volume"), ("points", .array [point])], by simp⟩
    let script : Script :=
      ⟨[⟨1, .track (.single "id" (.number one)), [⟨.edit .addAutomation, automation⟩]⟩,
        ⟨4, .filter "tracks" ⟨"track", "index", .member, .array [.number .zero]⟩,
          [⟨.edit .delete, .empty⟩]⟩]⟩
    (∀ t ∈ body, t.kind ≠ .endOfInput) ∧ ScriptRule (body ++ [⟨.endOfInput, ⟨4, 44⟩⟩]) script := by
  intro one body point automation script
  have only : ∀ t ∈ body, t.kind ≠ .endOfInput := by simp [body]
  have parsed : ofTokens (body ++ [⟨.endOfInput, ⟨4, 44⟩⟩]) = .ok script := by cbv
  exact ⟨only, (ofTokens_eq_ok_iff ⟨4, 44⟩ only script).mp parsed⟩

end Script

end StudioScript
