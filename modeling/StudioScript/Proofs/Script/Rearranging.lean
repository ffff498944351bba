import StudioScript.Proofs.Execution.Arguments
import StudioScript.Proofs.Script.Statements
import StudioScript.Proofs.Token.Numbers

/-! # Rearranging arguments and fields

A script may be written with the arguments of its calls and the fields of its objects in another
order, and with arguments that no call knows.  The grammar derives a script from such tokens too,
rule by rule from the left to the right, and it is the same script up to arguments that do not
matter.  So its runs come to the same (`Run.outcome_of_agreeing_arguments`).
-/

namespace StudioScript

open Arguments

namespace Grammar

variable {α : Type}

/-! ## The arguments of a call -/

/-- The arguments that the call knows which begins with a token. -/
def namesBehind : TokenKind → List String
  | .track => TrackRequest.argumentNames
  | .identifier word => ((Method.ofName? word).map Method.argumentNames).getD []
  | _ => []

/-- The arguments of a call behind the token that it begins with, between parentheses.  In a track
    call a lone number is the argument `id`. -/
inductive ArgumentsBehind : TokenKind → List Token → Arguments → Prop where
  | track {p ts args} (read : TrackCall (⟨.track, p⟩ :: ts) (.track args)) :
      ArgumentsBehind .track ts args
  | method {word m ts args} (spells : Method.ofName? word = some m)
      (read : Parenthesized ts args) : ArgumentsBehind (.identifier word) ts args

/-- Whether tokens, behind a token of some kind, differ only in where they stand, in the order of
    the fields of objects, and in arguments that agree under the names that their call knows. -/
inductive Rearranged : TokenKind → List Token → List Token → Prop where
  -- The first index is the token in front, which tells whose arguments a parenthesis opens.
  | nil {behind} : Rearranged behind [] []
  | token {behind kind p p' ts ts'} (others : Rearranged kind ts ts') :
      Rearranged behind (⟨kind, p⟩ :: ts) (⟨kind, p'⟩ :: ts')
  | object {behind ts ts' entries entries' rest rest'}
      (read : Bracketed .leftBrace .rightBrace (Field Value) ts entries)
      (read' : Bracketed .leftBrace .rightBrace (Field Value) ts' entries')
      (distinct : (entries.map Prod.fst).Nodup) (perm : entries.Perm entries')
      (others : Rearranged .rightBrace rest rest') :
      Rearranged behind (ts ++ rest) (ts' ++ rest')
  | arguments {behind ts ts' args args' rest rest'} (read : ArgumentsBehind behind ts args)
      (read' : ArgumentsBehind behind ts' args')
      (agree : AgreeOn (namesBehind behind) args args')
      (others : Rearranged .rightParen rest rest') :
      Rearranged behind (ts ++ rest) (ts' ++ rest')

/-! ## What blocks begin with -/

theorem Bracketed.opens {opening closing : TokenKind} {item : List Token → α → Prop}
    {ts : List Token} {xs : List α} (derived : Bracketed opening closing item ts xs) :
    ∃ p inner, ts = ⟨opening, p⟩ :: inner := by
  cases derived
  exact ⟨_, _, rfl⟩

theorem ArgumentsBehind.opens {behind : TokenKind} {ts : List Token} {args : Arguments}
    (derived : ArgumentsBehind behind ts args) : ∃ p inner, ts = ⟨.leftParen, p⟩ :: inner := by
  cases derived with
  | track read =>
    cases read with
    | number => exact ⟨_, _, rfl⟩
    | keywords read => exact Bracketed.opens read
  | method _ read => exact Bracketed.opens read

/-- What a rule derives is determined by the tokens, if a parser follows it. -/
theorem unique_of_follows {parser : List Token → Except SyntaxError (α × List Token)}
    {rule rule' : List Token → α → Prop} (follows : Parse.Follows parser rule)
    (follows' : Parse.Follows parser rule') {ts ts' rest rest' : List Token} {x x' : α}
    (read : rule ts x) (read' : rule' ts' x') (same : ts ++ rest = ts' ++ rest') :
    x = x' ∧ rest = rest' := by
  have ran := follows.reads read rest
  rw [same, follows'.reads read' rest'] at ran
  cases ran
  exact ⟨rfl, rfl⟩

theorem ArgumentsBehind.unique {behind : TokenKind} {ts ts' rest rest' : List Token}
    {args args' : Arguments} (read : ArgumentsBehind behind ts args)
    (read' : ArgumentsBehind behind ts' args') (same : ts ++ rest = ts' ++ rest') :
    args = args' ∧ rest = rest' := by
  cases read with
  | @track p _ _ read =>
    obtain @⟨p', _, _, read'⟩ | _ := read'
    obtain ⟨call, behind⟩ := unique_of_follows (Parse.trackCall_follows p)
      (Parse.trackCall_follows p') read read' same
    cases call
    exact ⟨rfl, behind⟩
  | method _ read =>
    obtain _ | ⟨_, read'⟩ := read'
    exact unique_of_follows Parse.parenthesized_follows Parse.parenthesized_follows read read' same

/-! ## Rearranged tokens from the left -/

/-- Whether tokens are something that a rule derives, alike to `x`, and behind it what is left,
    rearranged. -/
def Reads (rule : List Token → α → Prop) (alike : α → α → Prop) (x : α) (rest us : List Token) :
    Prop :=
  ∃ read x' rest' behind,
    us = read ++ rest' ∧ rule read x' ∧ alike x x' ∧ Rearranged behind rest rest'

/-- Whether a rule derives something alike from the tokens however they are rearranged together with
    what stands behind them. -/
def Survives (rule : List Token → α → Prop) (alike : α → α → Prop) (ts : List Token) (x : α) :
    Prop :=
  ∀ behind rest us, Rearranged behind (ts ++ rest) us → Reads rule alike x rest us

theorem Survives.reads {rule : List Token → α → Prop} {alike : α → α → Prop} {ts : List Token}
    {x : α} (survives : Survives rule alike ts x) {behind : TokenKind} {rest us : List Token}
    (rearranged : Rearranged behind (ts ++ rest) us) : Reads rule alike x rest us :=
  survives behind rest us rearranged

namespace Rearranged

variable {behind : TokenKind} {rest us : List Token}

theorem of_nil (rearranged : Rearranged behind [] us) : us = [] := by
  generalize same : [] = ts at rearranged
  cases rearranged with
  | nil => rfl
  | token => cases same
  | object read =>
    obtain ⟨_, _, rfl⟩ := read.opens
    cases same
  | arguments read =>
    obtain ⟨_, _, rfl⟩ := read.opens
    cases same

/-- The first token stays, or it opens an object or arguments that are rearranged as a whole. -/
theorem cons_cases {t : Token} (rearranged : Rearranged behind (t :: rest) us) :
    (∃ p us', us = ⟨t.kind, p⟩ :: us' ∧ Rearranged t.kind rest us') ∨
      (t.kind = .leftBrace ∧ ∃ ts rest' v,
        t :: rest = ts ++ rest' ∧ Value ts v ∧ Reads Value Eq v rest' us) ∨
      (t.kind = .leftParen ∧ ∃ ts rest' args,
        t :: rest = ts ++ rest' ∧ ArgumentsBehind behind ts args ∧
          Reads (ArgumentsBehind behind) (AgreeOn (namesBehind behind)) args rest' us) := by
  generalize same : t :: rest = ts at rearranged
  cases rearranged with
  | nil => cases same
  | token others =>
    cases same
    exact .inl ⟨_, _, rfl, others⟩
  | object read read' distinct perm others =>
    have distinct' := (perm.map Prod.fst).nodup_iff.mp distinct
    have alike := congrArg Literal.object (Members.ofEntries_of_perm distinct perm)
    obtain ⟨_, _, rfl⟩ := read.opens
    cases same
    exact .inr (.inl ⟨rfl, _, _, _, rfl, .object read distinct, _, _, _, _, rfl,
      .object read' distinct', alike, others⟩)
  | arguments read read' agree others =>
    obtain ⟨_, _, rfl⟩ := read.opens
    cases same
    exact .inr (.inr ⟨rfl, _, _, _, rfl, read, _, _, _, _, rfl, read', agree, others⟩)

/-- A token that opens neither an object nor arguments stays. -/
theorem of_cons {t : Token} (rearranged : Rearranged behind (t :: rest) us)
    (plain : t.kind ∉ [.leftBrace, .leftParen]) :
    ∃ p us', us = ⟨t.kind, p⟩ :: us' ∧ Rearranged t.kind rest us' := by
  rcases rearranged.cons_cases with stays | ⟨opens, _⟩ | ⟨opens, _⟩
  · exact stays
  · simp [opens] at plain
  · simp [opens] at plain

/-- Tokens of the same plain kinds stay. -/
theorem of_layout (isLayout : TokenKind → Prop)
    (plain : ∀ kind, isLayout kind → kind ∉ [.leftBrace, .leftParen]) {gap : List Token}
    (layout : ∀ t ∈ gap, isLayout t.kind) (rearranged : Rearranged behind (gap ++ rest) us) :
    ∃ behind' gap' us', us = gap' ++ us' ∧ (∀ t ∈ gap', isLayout t.kind) ∧
      gap'.length = gap.length ∧ Rearranged behind' rest us' := by
  induction gap generalizing behind us with
  | nil => exact ⟨behind, [], us, rfl, List.forall_mem_nil _, rfl, rearranged⟩
  | cons t gap inductionHypothesis =>
    obtain ⟨here, layout⟩ := List.forall_mem_cons.mp layout
    obtain ⟨p, us, rfl, others⟩ := rearranged.of_cons (plain _ here)
    obtain ⟨behind', gap', us', rfl, layout', long, beyond⟩ := inductionHypothesis layout others
    exact ⟨behind', ⟨t.kind, p⟩ :: gap', us', rfl, List.forall_mem_cons.mpr ⟨here, layout'⟩,
      congrArg (· + 1) long, beyond⟩

theorem of_newlines {gap : List Token} (newlines : Newlines gap)
    (rearranged : Rearranged behind (gap ++ rest) us) :
    ∃ behind' gap' us', us = gap' ++ us' ∧ Newlines gap' ∧ Rearranged behind' rest us' := by
  obtain ⟨behind', gap', us', rfl, newlines', _, others⟩ :=
    of_layout (fun kind => kind = .newline) (by simp +contextual) newlines rearranged
  exact ⟨behind', gap', us', rfl, newlines', others⟩

theorem of_separators {gap : List Token} (separators : Separators gap)
    (rearranged : Rearranged behind (gap ++ rest) us) :
    ∃ behind' gap' us', us = gap' ++ us' ∧ Separators gap' ∧ gap'.length = gap.length ∧
      Rearranged behind' rest us' :=
  of_layout (fun kind => kind = .newline ∨ kind = .semicolon)
    (by rintro _ (rfl | rfl) <;> simp) separators rearranged

/-- An object is rearranged inside, or as a whole. -/
theorem of_object {p : Position} {inner : List Token} {v : Literal}
    (derived : Value (⟨.leftBrace, p⟩ :: inner) v)
    (rearranged : Rearranged behind (⟨.leftBrace, p⟩ :: (inner ++ rest)) us) :
    (∃ p' us', us = ⟨.leftBrace, p'⟩ :: us' ∧ Rearranged .leftBrace (inner ++ rest) us') ∨
      Reads Value Eq v rest us := by
  rcases rearranged.cons_cases with stays | ⟨_, ts, rest', v', same, read, whole⟩ | ⟨paren, _⟩
  · exact .inl stays
  · obtain ⟨rfl, rfl⟩ :=
      unique_of_follows Parse.literal_follows Parse.literal_follows derived read same
    exact .inr whole
  · cases paren

/-- The arguments of a call are rearranged inside, or as a whole. -/
theorem of_arguments {p : Position} {inner : List Token} {args : Arguments}
    (derived : ArgumentsBehind behind (⟨.leftParen, p⟩ :: inner) args)
    (rearranged : Rearranged behind (⟨.leftParen, p⟩ :: (inner ++ rest)) us) :
    (∃ p' us', us = ⟨.leftParen, p'⟩ :: us' ∧ Rearranged .leftParen (inner ++ rest) us') ∨
      Reads (ArgumentsBehind behind) (AgreeOn (namesBehind behind)) args rest us := by
  rcases rearranged.cons_cases with stays | ⟨brace, _⟩ | ⟨_, ts, rest', args', same, read, whole⟩
  · exact .inl stays
  · cases brace
  · obtain ⟨rfl, rfl⟩ := derived.unique read same
    exact .inr whole

/-- Behind a token that begins no call with arguments, a parenthesis stays. -/
theorem of_paren {p : Position} (rearranged : Rearranged behind (⟨.leftParen, p⟩ :: rest) us)
    (other : ∀ ts args, ¬ ArgumentsBehind behind ts args) :
    ∃ p' us', us = ⟨.leftParen, p'⟩ :: us' ∧ Rearranged .leftParen rest us' := by
  rcases rearranged.cons_cases with stays | ⟨brace, _⟩ | ⟨_, _, _, _, _, read, _⟩
  · exact stays
  · cases brace
  · exact absurd read (other _ _)

end Rearranged

/-! ## Where the parser reads arguments -/

section

variable {ts ts' rest rest' : List Token} {args args' : Arguments}

/-- Tokens behind `track` are rearranged where the parser reads arguments that agree, if those
    behind them are. -/
theorem Rearranged.of_parsed_track (parsed : Parse.trackCall ts = .ok (.track args, rest))
    (parsed' : Parse.trackCall ts' = .ok (.track args', rest'))
    (agree : AgreeOn TrackRequest.argumentNames args args')
    (others : Rearranged .rightParen rest rest') : Rearranged .track ts ts' := by
  obtain ⟨read, rfl, derived⟩ := (Parse.trackCall_follows .start).derives parsed
  obtain ⟨read', rfl, derived'⟩ := (Parse.trackCall_follows .start).derives parsed'
  exact .arguments (.track derived) (.track derived') agree others

/-- Tokens behind a method's name are rearranged where the parser reads arguments that agree, if
    those behind them are. -/
theorem Rearranged.of_parsed_method {word : String} {m : Method}
    (spells : Method.ofName? word = some m) (parsed : Parse.parenthesized ts = .ok (args, rest))
    (parsed' : Parse.parenthesized ts' = .ok (args', rest'))
    (agree : AgreeOn m.argumentNames args args') (others : Rearranged .rightParen rest rest') :
    Rearranged (.identifier word) ts ts' := by
  obtain ⟨read, rfl, derived⟩ := Parse.parenthesized_follows.derives parsed
  obtain ⟨read', rfl, derived'⟩ := Parse.parenthesized_follows.derives parsed'
  refine .arguments (.method spells derived) (.method spells derived') ?_ others
  rwa [namesBehind, spells, Option.map_some, Option.getD_some]

end

/-! ## Literals and arguments -/

theorem Name.kind_plain {t : Token} {word : String} (name : Name t word) :
    t.kind ∉ [.leftBrace, .leftParen] := by
  cases name <;> simp

theorem Name.move {t : Token} {word : String} (name : Name t word) (p : Position) :
    Name ⟨t.kind, p⟩ word := by
  cases name <;> constructor

theorem Listed.survives {item : List Token → α → Prop} {ts : List Token} {xs : List α}
    (listed : Listed item ts xs)
    (items : ∀ part x, part.length ≤ ts.length → item part x → Survives item Eq part x) :
    Survives (Listed item) Eq ts xs := by
  -- What stands behind the items is rearranged too, and each part hands it on to the next one.
  induction listed with
  | none =>
    intro behind rest us rearranged
    exact ⟨[], [], us, behind, rfl, .none, rfl, rearranged⟩
  | last read newlines =>
    intro behind rest us rearranged
    rw [List.append_assoc] at rearranged
    obtain ⟨_, _, _, _, rfl, read', rfl, afterItem⟩ := (items _ _ (by simp) read).reads rearranged
    obtain ⟨_, _, _, rfl, newlines', others⟩ := afterItem.of_newlines newlines
    exact ⟨_, _, _, _, (List.append_assoc _ _ _).symm, .last read' newlines', rfl, others⟩
  | more read newlines newlines' _ inductionHypothesis =>
    intro behind rest us rearranged
    simp only [List.append_assoc, List.cons_append] at rearranged
    obtain ⟨_, _, _, _, rfl, read', rfl, afterItem⟩ := (items _ _ (by simp) read).reads rearranged
    obtain ⟨_, _, _, rfl, newlines₁, atComma⟩ := afterItem.of_newlines newlines
    obtain ⟨p, _, rfl, afterComma⟩ := atComma.of_cons (by simp)
    obtain ⟨_, _, _, rfl, newlines₂, atOthers⟩ := afterComma.of_newlines newlines'
    have items' := inductionHypothesis fun part x shorter => items part x (by
      simp only [List.length_append, List.length_cons]
      omega)
    obtain ⟨_, _, _, _, rfl, listed, rfl, others⟩ := items'.reads atOthers
    refine ⟨_, _, _, _, ?_, .more (p := p) read' newlines₁ newlines₂ listed, rfl, others⟩
    simp only [List.append_assoc, List.cons_append]

/-- Items between brackets survive behind the opening one. -/
theorem Bracketed.survives {opening closing : TokenKind} {item : List Token → α → Prop}
    {p : Position} {inner : List Token} {xs : List α}
    (derived : Bracketed opening closing item (⟨opening, p⟩ :: inner) xs)
    (plain : closing ∉ [.leftBrace, .leftParen])
    (items : ∀ part x, part.length ≤ inner.length → item part x → Survives item Eq part x)
    (p' : Position) :
    Survives (fun ts xs => Bracketed opening closing item (⟨opening, p'⟩ :: ts) xs) Eq
      inner xs := by
  intro behind rest us rearranged
  obtain @⟨_, gap, ts, _, q, newlines, listed⟩ := derived
  simp only [List.append_assoc, List.cons_append, List.nil_append] at rearranged
  obtain ⟨_, _, _, rfl, newlines', atItems⟩ := rearranged.of_newlines newlines
  have items' := listed.survives fun part x shorter => items part x (by
    simp only [List.length_append]
    omega)
  obtain ⟨_, _, _, _, rfl, listed', rfl, atClosing⟩ := items'.reads atItems
  obtain ⟨q', _, rfl, others⟩ := atClosing.of_cons plain
  refine ⟨_, _, _, _, ?_, .mk (q := q') newlines' listed', rfl, others⟩
  simp only [List.append_assoc, List.cons_append, List.nil_append]

theorem Field.survives {value : List Token → Literal → Prop} {ts : List Token}
    {field : String × Literal} (derived : Field value ts field)
    (values : ∀ part v, part.length < ts.length → value part v → Survives value Eq part v) :
    Survives (Field value) Eq ts field := by
  intro behind rest us rearranged
  obtain ⟨name, read⟩ := derived
  obtain ⟨_, _, rfl, afterName⟩ := rearranged.of_cons name.kind_plain
  obtain ⟨p, _, rfl, atValue⟩ := afterName.of_cons (by simp)
  have survives := values _ _ (by simp only [List.length_cons]; omega) read
  obtain ⟨_, _, _, _, rfl, read', rfl, others⟩ := survives.reads atValue
  exact ⟨_, _, _, _, rfl, .mk (p := p) (name.move _) read', rfl, others⟩

theorem Value.survives {ts : List Token} {v : Literal} (derived : Value ts v) :
    Survives Value Eq ts v := by
  -- As `Value` is nested in other rules, the induction is on the number of tokens.
  induction size : ts.length using Nat.strongRecOn generalizing ts v with
  | ind n inductionHypothesis =>
    subst size
    intro behind rest us rearranged
    cases derived with
    | string s p =>
      obtain ⟨p, us, rfl, others⟩ := rearranged.of_cons (by simp)
      exact ⟨_, _, us, _, List.singleton_append.symm, .string s p, rfl, others⟩
    | number x p =>
      obtain ⟨p, us, rfl, others⟩ := rearranged.of_cons (by simp)
      exact ⟨_, _, us, _, List.singleton_append.symm, .number x p, rfl, others⟩
    | boolean b p =>
      obtain ⟨p, us, rfl, others⟩ := rearranged.of_cons (by simp)
      exact ⟨_, _, us, _, List.singleton_append.symm, .boolean b p, rfl, others⟩
    | array read =>
      obtain ⟨p, inner, rfl⟩ := read.opens
      obtain ⟨p', us, rfl, inside⟩ := rearranged.of_cons (by simp)
      have items := read.survives (by simp) (fun part v shorter derived =>
        inductionHypothesis _ (Nat.lt_succ_of_le shorter) derived rfl) p'
      obtain ⟨_, _, _, _, rfl, read', rfl, others⟩ := items.reads inside
      exact ⟨_, _, _, _, rfl, .array read', rfl, others⟩
    | object read distinct =>
      obtain ⟨p, inner, rfl⟩ := read.opens
      rcases rearranged.of_object (.object read distinct) with ⟨p', us, rfl, inside⟩ | whole
      · have fields := read.survives (by simp) (fun part field shorter derived =>
          derived.survives fun part' v shorter' derived' =>
            inductionHypothesis _ (by simp only [List.length_cons]; omega) derived' rfl) p'
        obtain ⟨_, _, _, _, rfl, read', rfl, others⟩ := fields.reads inside
        exact ⟨_, _, _, _, rfl, .object read' distinct, rfl, others⟩
      · exact whole

theorem Parenthesized.survives {p : Position} {inner : List Token} {args : Arguments}
    (derived : Parenthesized (⟨.leftParen, p⟩ :: inner) args) (p' : Position) :
    Survives (fun ts args => Parenthesized (⟨.leftParen, p'⟩ :: ts) args) Eq inner args := by
  intro behind rest us rearranged
  have fields := Bracketed.survives derived (by simp) (fun _ _ _ field =>
    field.survives fun _ _ _ derived => derived.survives) p'
  obtain ⟨_, _, _, _, rfl, read', rfl, others⟩ := fields.reads rearranged
  exact ⟨_, args, _, _, rfl, read', rfl, others⟩

/-! ## Calls -/

/-- Arguments behind a call's first token survive, up to those that do not matter. -/
theorem ArgumentsBehind.reads {behind : TokenKind} {ts rest us : List Token} {args : Arguments}
    (derived : ArgumentsBehind behind ts args) (rearranged : Rearranged behind (ts ++ rest) us) :
    Reads (ArgumentsBehind behind) (AgreeOn (namesBehind behind)) args rest us := by
  obtain ⟨p, inner, rfl⟩ := derived.opens
  rcases rearranged.of_arguments derived with ⟨p', us, rfl, inside⟩ | whole
  · cases derived with
    | method spells read =>
      obtain ⟨_, _, _, _, rfl, read', rfl, others⟩ := (read.survives p').reads inside
      exact ⟨_, _, _, _, rfl, .method spells read', .refl _ _, others⟩
    | @track q _ _ read =>
      cases read with
      | keywords read =>
        obtain ⟨_, _, _, _, rfl, read', rfl, others⟩ := (read.survives p').reads inside
        exact ⟨_, _, _, _, rfl, .track (p := q) (.keywords read'), .refl _ _, others⟩
      | @number _ _ before x r after s newlines newlines' =>
        simp only [List.append_assoc, List.cons_append, List.nil_append] at inside
        obtain ⟨_, _, _, rfl, newlines₁, atNumber⟩ := inside.of_newlines newlines
        obtain ⟨r', _, rfl, afterNumber⟩ := atNumber.of_cons (by simp)
        obtain ⟨_, _, _, rfl, newlines₂, atClosing⟩ := afterNumber.of_newlines newlines'
        obtain ⟨s', _, rfl, others⟩ := atClosing.of_cons (by simp)
        refine ⟨_, _, _, _, ?_, .track (p := q) (.number (q := p') (r := r') (s := s') newlines₁
          newlines₂), .refl _ _, others⟩
        simp only [List.append_assoc, List.cons_append, List.nil_append]
  · exact whole

/-- A name of a method and its arguments. -/
inductive MethodCall : List Token → Invocation → Prop where
  | mk {t word m ts args} (name : Name t word) (spells : Method.ofName? word = some m)
      (read : Parenthesized ts args) : MethodCall (t :: ts) ⟨m, args⟩

theorem MethodCall.survives {ts : List Token} {i : Invocation} (derived : MethodCall ts i) :
    Survives MethodCall Invocation.Agrees ts i := by
  intro behind rest us rearranged
  obtain @⟨t, word, m, ts, args, name, spells, read⟩ := derived
  obtain ⟨p, us, rfl, afterName⟩ := rearranged.of_cons name.kind_plain
  -- The name is kept, and with it the method whose arguments follow.
  rw [Parse.identifier_of_method name spells] at afterName ⊢
  obtain ⟨ts', args', rest', _, rfl, read', agree, others⟩ :=
    (ArgumentsBehind.method spells read).reads afterName
  rw [namesBehind, spells, Option.map_some, Option.getD_some] at agree
  obtain _ | ⟨_, read'⟩ := read'
  exact ⟨_, _, _, _, rfl, .mk (.identifier word p) spells read', .mk agree, others⟩

theorem TrackCall.move {p : Position} {ts : List Token} {c : Call}
    (derived : TrackCall (⟨.track, p⟩ :: ts) c) (p' : Position) :
    TrackCall (⟨.track, p'⟩ :: ts) c := by
  cases derived with
  | number newlines newlines' => exact .number newlines newlines'
  | keywords read => exact .keywords read

theorem TrackCall.survives {ts : List Token} {c : Call} (derived : TrackCall ts c) :
    Survives TrackCall Call.Agrees ts c := by
  intro behind rest us rearranged
  obtain ⟨p, inner, rfl⟩ := derived.keyword
  obtain ⟨p', us, rfl, afterName⟩ := rearranged.of_cons (by simp)
  -- A lone number is an argument as well, so that both forms of the call are taken together.
  obtain ⟨args, rfl⟩ : ∃ args, c = .track args := by
    cases derived <;> exact ⟨_, rfl⟩
  obtain ⟨inner', args', rest', _, rfl, read', agree, others⟩ :=
    (ArgumentsBehind.track derived).reads afterName
  obtain ⟨read'⟩ | _ := read'
  exact ⟨⟨.track, p'⟩ :: inner', _, _, _, rfl, read'.move p', .track agree, others⟩

theorem Condition.survives {ts : List Token} {c : Predicate} (derived : Condition ts c) :
    Survives Condition Eq ts c := by
  intro behind rest us rearranged
  cases derived with
  | compare name name' compares read =>
    obtain ⟨_, _, rfl, atDot⟩ := rearranged.of_cons name.kind_plain
    obtain ⟨p, _, rfl, atField⟩ := atDot.of_cons (by simp)
    obtain ⟨_, _, rfl, atOperator⟩ := atField.of_cons name'.kind_plain
    obtain ⟨q, _, rfl, atValue⟩ := atOperator.of_cons (by cases compares <;> simp)
    obtain ⟨_, _, _, _, rfl, read', rfl, others⟩ := read.survives.reads atValue
    exact ⟨_, _, _, _, rfl, .compare (p := p) (q := q) (name.move _) (name'.move _) compares read',
      rfl, others⟩
  | member name name' read =>
    obtain ⟨_, inner, rfl⟩ := read.opens
    obtain ⟨_, _, rfl, atDot⟩ := rearranged.of_cons name.kind_plain
    obtain ⟨p, _, rfl, atField⟩ := atDot.of_cons (by simp)
    obtain ⟨_, _, rfl, atMember⟩ := atField.of_cons name'.kind_plain
    obtain ⟨q, _, rfl, atArray⟩ := atMember.of_cons (by simp)
    obtain ⟨r, _, rfl, inside⟩ := atArray.of_cons (by simp)
    have items := read.survives (by simp) (fun _ _ _ derived => derived.survives) r
    obtain ⟨_, _, _, _, rfl, read', rfl, others⟩ := items.reads inside
    exact ⟨_, _, _, _, rfl, .member (p := p) (q := q) (name.move _) (name'.move _) read', rfl,
      others⟩

theorem FunctionRef.survives {ts : List Token} {f : ItemFunction} (derived : FunctionRef ts f) :
    Survives FunctionRef ItemFunction.Agrees ts f := by
  intro behind rest us rearranged
  cases derived with
  | @named _ _ word name =>
    obtain ⟨p, _, rfl, atName⟩ := rearranged.of_cons (by simp)
    obtain ⟨q, _, rfl, others⟩ := atName.of_cons name.kind_plain
    exact ⟨[_, _], _, _, _, rfl, .named (p := p) (name.move q), .named word, others⟩
  | @method t binder p t' word m ts args name name' spells read =>
    obtain ⟨_, _, rfl, atDot⟩ := rearranged.of_cons name.kind_plain
    obtain ⟨p, _, rfl, atMethod⟩ := atDot.of_cons (by simp)
    obtain ⟨_, _, _, _, rfl, called, agree, others⟩ :=
      (MethodCall.mk name' spells read).survives.reads atMethod
    obtain ⟨name₂, spells', read'⟩ := called
    exact ⟨_, _, _, _, rfl, .method (p := p) (name.move _) name₂ spells' read',
      .method binder agree, others⟩

theorem CollectionCall.survives {keyword : TokenKind} {content : List Token → α → Prop}
    {alike : α → α → Prop} {ts : List Token} {c : String} {x : α}
    (derived : CollectionCall keyword content ts c x)
    (plain : keyword ∉ [.leftBrace, .leftParen])
    (other : ∀ ts args, ¬ ArgumentsBehind keyword ts args)
    (contents : ∀ part x, content part x → Survives content alike part x) :
    Survives (fun ts x => CollectionCall keyword content ts c x) alike ts x := by
  intro behind rest us rearranged
  obtain ⟨newlines, name, newlines', read, newlines''⟩ := derived
  simp only [List.append_assoc, List.cons_append, List.nil_append] at rearranged
  obtain ⟨p, _, rfl, atParen⟩ := rearranged.of_cons plain
  obtain ⟨q, _, rfl, inside⟩ := atParen.of_paren other
  obtain ⟨_, _, _, rfl, newlines₁, atName⟩ := inside.of_newlines newlines
  obtain ⟨t, _, rfl, atComma⟩ := atName.of_cons name.kind_plain
  obtain ⟨r, _, rfl, afterComma⟩ := atComma.of_cons (by simp)
  obtain ⟨_, _, _, rfl, newlines₂, atContent⟩ := afterComma.of_newlines newlines'
  obtain ⟨_, _, _, _, rfl, read', agree, afterContent⟩ := (contents _ _ read).reads atContent
  obtain ⟨_, _, _, rfl, newlines₃, atClosing⟩ := afterContent.of_newlines newlines''
  obtain ⟨s, _, rfl, others⟩ := atClosing.of_cons (by simp)
  refine ⟨_, _, _, _, ?_, .mk (p := p) (q := q) (r := r) (s := s) newlines₁ (name.move t)
    newlines₂ read' newlines₃, agree, others⟩
  simp only [List.append_assoc, List.cons_append, List.nil_append]

theorem UtilityCall.survives {ts : List Token} {c : Call} (derived : UtilityCall ts c) :
    Survives UtilityCall Call.Agrees ts c := by
  intro behind rest us rearranged
  obtain ⟨name, spells, read⟩ := derived
  obtain ⟨_, _, _, _, rfl, called, agree, others⟩ :=
    (MethodCall.mk name spells read).survives.reads rearranged
  obtain @⟨_, _, _, agree⟩ := agree
  obtain ⟨name', spells', read'⟩ := called
  exact ⟨_, _, _, _, rfl, .mk name' spells' read', .method (.mk agree), others⟩

theorem ChainableCall.survives {ts : List Token} {c : Call} (derived : ChainableCall ts c) :
    Survives ChainableCall Call.Agrees ts c := by
  intro behind rest us rearranged
  cases derived with
  | track read =>
    obtain ⟨_, _, _, _, rfl, read', agree, others⟩ := read.survives.reads rearranged
    exact ⟨_, _, _, _, rfl, .track read', agree, others⟩
  | filter read =>
    have call := read.survives (by simp) (fun _ _ => nofun) fun _ _ condition => condition.survives
    obtain ⟨_, _, _, _, rfl, read', rfl, others⟩ := call.reads rearranged
    exact ⟨_, _, _, _, rfl, .filter read', .filter _ _, others⟩
  | utility read =>
    obtain ⟨_, _, _, _, rfl, read', agree, others⟩ := read.survives.reads rearranged
    exact ⟨_, _, _, _, rfl, .utility read', agree, others⟩

theorem ItemwiseCall.survives {ts : List Token} {c : Call} (derived : ItemwiseCall ts c) :
    Survives ItemwiseCall Call.Agrees ts c := by
  intro behind rest us rearranged
  cases derived with
  | map read =>
    have call := read.survives (by simp) (fun _ _ => nofun) fun _ _ function => function.survives
    obtain ⟨_, _, _, _, rfl, read', agree, others⟩ := call.reads rearranged
    exact ⟨_, _, _, _, rfl, .map read', .map _ agree, others⟩
  | forEach read =>
    have call := read.survives (by simp) (fun _ _ => nofun) fun _ _ function => function.survives
    obtain ⟨_, _, _, _, rfl, read', agree, others⟩ := call.reads rearranged
    exact ⟨_, _, _, _, rfl, .forEach read', .forEach _ agree, others⟩

/-! ## Statements -/

theorem Chain.survives {ts : List Token} {chain : List Invocation} (derived : Chain ts chain) :
    Survives Chain (List.Forall₂ Invocation.Agrees) ts chain := by
  induction derived with
  | none =>
    intro behind rest us rearranged
    exact ⟨[], [], us, behind, rfl, .none, .nil, rearranged⟩
  | link newlines name spells read _ inductionHypothesis =>
    intro behind rest us rearranged
    simp only [List.append_assoc, List.cons_append] at rearranged
    obtain ⟨_, _, _, rfl, newlines', atDot⟩ := rearranged.of_newlines newlines
    obtain ⟨p, _, rfl, atMethod⟩ := atDot.of_cons (by simp)
    obtain ⟨_, _, _, _, rfl, called, agree, atOthers⟩ :=
      (MethodCall.mk name spells read).survives.reads atMethod
    obtain ⟨_, _, _, _, rfl, links, agrees, others⟩ := inductionHypothesis.reads atOthers
    obtain ⟨name', spells', read'⟩ := called
    refine ⟨_, _, _, _, ?_, .link (p := p) newlines' name' spells' read' links,
      .cons agree agrees, others⟩
    simp only [List.append_assoc, List.cons_append]

theorem StatementRule.survives {ts : List Token} {st : Statement} (derived : StatementRule ts st) :
    Survives StatementRule Statement.Agrees ts st := by
  intro behind rest us rearranged
  cases derived with
  | chained read chained =>
    rw [List.append_assoc] at rearranged
    obtain ⟨_, _, _, _, rfl, read', agree, atChain⟩ := read.survives.reads rearranged
    obtain ⟨_, _, _, _, rfl, chained', agrees, others⟩ := chained.survives.reads atChain
    obtain ⟨t, ts, rfl, _⟩ := read'.starts
    exact ⟨_, _, _, _, (List.append_assoc _ _ _).symm, .chained read' chained', ⟨agree, agrees⟩,
      others⟩
  | alone read =>
    obtain ⟨_, _, _, _, rfl, read', agree, others⟩ := read.survives.reads rearranged
    obtain ⟨t, ts, rfl, _⟩ := read'.starts
    exact ⟨_, _, _, _, rfl, .alone read', ⟨agree, .nil⟩, others⟩

theorem Statements.survives {ts : List Token} {sts : List Statement} (derived : Statements ts sts) :
    Survives Statements (List.Forall₂ Statement.Agrees) ts sts := by
  induction derived with
  | last read =>
    intro behind rest us rearranged
    obtain ⟨_, _, _, _, rfl, read', agree, others⟩ := read.survives.reads rearranged
    exact ⟨_, _, _, _, rfl, .last read', .cons agree .nil, others⟩
  | more read separators some _ inductionHypothesis =>
    intro behind rest us rearranged
    simp only [List.append_assoc] at rearranged
    obtain ⟨_, _, _, _, rfl, read', agree, afterFirst⟩ := read.survives.reads rearranged
    obtain ⟨_, gap, _, rfl, separators', long, atOthers⟩ := afterFirst.of_separators separators
    obtain ⟨_, _, _, _, rfl, others', agrees, others⟩ := inductionHypothesis.reads atOthers
    have some' : gap ≠ [] := List.length_pos_iff.mp (long ▸ List.length_pos_iff.mpr some)
    refine ⟨_, _, _, _, ?_, .more read' separators' some' others', .cons agree agrees, others⟩
    simp only [List.append_assoc]

/-- From rearranged tokens of a script a script is derived again, the same up to arguments that do
    not matter. -/
theorem ScriptRule.rearranged {behind : TokenKind} {ts us : List Token} {script : Script}
    (derived : ScriptRule ts script) (rearranged : Rearranged behind ts us) :
    ∃ script', ScriptRule us script' ∧
      List.Forall₂ Statement.Agrees script.statements script'.statements := by
  cases derived with
  | empty separators =>
    obtain ⟨_, _, _, rfl, separators', _, atEnd⟩ := rearranged.of_separators separators
    obtain ⟨p, _, rfl, others⟩ := atEnd.of_cons (by simp)
    obtain rfl := others.of_nil
    exact ⟨_, .empty (p := p) separators', .nil⟩
  | statements separators read separators' =>
    obtain ⟨_, _, _, rfl, separators₁, _, atStatements⟩ := rearranged.of_separators separators
    obtain ⟨_, _, _, _, rfl, read', agree, afterStatements⟩ := read.survives.reads atStatements
    obtain ⟨_, _, _, rfl, separators₂, _, atEnd⟩ := afterStatements.of_separators separators'
    obtain ⟨p, _, rfl, others⟩ := atEnd.of_cons (by simp)
    obtain rfl := others.of_nil
    exact ⟨_, .statements (p := p) separators₁ read' separators₂, agree⟩

end Grammar

namespace Script

/-- Rearranged tokens of a script are a script as well. -/
theorem ofTokens_rearranged {ts ts' : List Token} {script : Script} (whole : Token.AreWhole ts)
    (whole' : Token.AreWhole ts') (rearranged : Grammar.Rearranged .newline ts ts')
    (parsed : ofTokens ts = .ok script) :
    ∃ script', ofTokens ts' = .ok script' ∧
      List.Forall₂ Statement.Agrees script.statements script'.statements := by
  obtain ⟨body, p, rfl, inner⟩ := whole
  obtain ⟨body', p', rfl, inner'⟩ := whole'
  have derived := (ofTokens_eq_ok_iff p (fun t member => (inner t member).1) script).mp parsed
  obtain ⟨script', derived', agree⟩ := derived.rearranged rearranged
  have parsed' := (ofTokens_eq_ok_iff p' (fun t member => (inner' t member).1) script').mpr derived'
  exact ⟨script', parsed', agree⟩

end Script

namespace Run

/-- Neither the order of arguments nor an argument under an unknown name matters.  A track call and
    a method do the same, in every state, with all arguments that agree under the names that they
    know, as do arguments in another order and arguments with an unknown one added.  A text with
    the arguments of its calls and the fields of its objects rearranged accordingly is a script as
    well, and its runs come to the same. -/
theorem outcome_of_agreeing_arguments :
    (∀ session args args', AgreeOn TrackRequest.argumentNames args args' →
        track session args = track session args') ∧
      (∀ ctx m args args' pending, AgreeOn m.argumentNames args args' →
        invoke ctx ⟨m, args⟩ pending = invoke ctx ⟨m, args'⟩ pending) ∧
      (∀ names args args', args.entries.Perm args'.entries → AgreeOn names args args') ∧
      (∀ names args args' key value, key ∉ names → args.add? key value = some args' →
        AgreeOn names args args') ∧
      ∀ (ctx : Context) text text' ts ts' script,
        Token.ofText text = .ok ts → Token.ofText text' = .ok ts' →
        Grammar.Rearranged .newline ts ts' → Script.ofTokens ts = .ok script →
        (∃ script', Script.ofText text' = .ok script') ∧ ctx.run text' = ctx.run text := by
  refine ⟨fun session _ _ => track_congr session, fun ctx _ _ _ pending agree =>
    invoke_congr ctx agree pending, fun _ _ _ => agreeOn_of_perm, fun _ _ _ _ _ unknown =>
    agreeOn_of_add? unknown, ?_⟩
  intro ctx text text' ts ts' script read read' rearranged parsed
  obtain ⟨script', parsed', agree⟩ := Script.ofTokens_rearranged (Token.areWhole_of_ofText read)
    (Token.areWhole_of_ofText read') rearranged parsed
  have same : Script.ofText text = .ok script := by rw [Script.ofText, read, Except.ok_bind, parsed]
  have same' : Script.ofText text' = .ok script' := by
    rw [Script.ofText, read', Except.ok_bind, parsed']
  refine ⟨⟨script', same'⟩, ?_⟩
  rw [Context.run, Context.run, same, same']
  exact (ctx.execute_congr agree).symm

/-- The `id` of a track by its name, and its properties in another order, with an unknown one. -/
theorem outcome_of_agreeing_arguments_of_properties :
    let text := "track(1).set_track(pan=0, mute=true)"
    let text' := "track(id=1).set_track(loud=1, mute=true, pan=0)"
    (∃ script', Script.ofText text' = .ok script') ∧
      Context.run ⟨.ofTracks [{}], {}⟩ text' = Context.run ⟨.ofTracks [{}], {}⟩ text := by
  intro text text'
  let line (kinds : List (Nat × TokenKind)) : List Token :=
    kinds.map fun (column, kind) => ⟨kind, 1, column⟩
  let one : Number := .ofNat 1
  let ts := line [(1, .track), (6, .leftParen), (7, .number one), (8, .rightParen), (9, .dot),
    (10, .identifier "set_track"), (19, .leftParen), (20, .identifier "pan"), (23, .assign),
    (24, .number .zero), (25, .comma), (27, .identifier "mute"), (31, .assign),
    (32, .boolean true), (36, .rightParen), (37, .endOfInput)]
  let ts' := line [(1, .track), (6, .leftParen), (7, .identifier "id"), (9, .assign),
    (10, .number one), (11, .rightParen), (12, .dot), (13, .identifier "set_track"),
    (22, .leftParen), (23, .identifier "loud"), (27, .assign), (28, .number one), (29, .comma),
    (31, .identifier "mute"), (35, .assign), (36, .boolean true), (40, .comma),
    (42, .identifier "pan"), (45, .assign), (46, .number .zero), (47, .rightParen),
    (48, .endOfInput)]
  have read : Token.ofText text = .ok ts := by decide +kernel
  have read' : Token.ofText text' = .ok ts' := by decide +kernel
  have succeeds : (Script.ofTokens ts).isOk = true := by decide +kernel
  obtain ⟨script, parsed⟩ : ∃ script, Script.ofTokens ts = .ok script := by
    cases parsed : Script.ofTokens ts with
    | ok script => exact ⟨script, rfl⟩
    | error e =>
      rw [parsed] at succeeds
      cases succeeds
  let id : Arguments := .single "id" (.number one)
  let properties : Arguments := ⟨[("pan", .number .zero), ("mute", .boolean true)], by decide⟩
  let properties' : Arguments :=
    ⟨[("loud", .number one), ("mute", .boolean true), ("pan", .number .zero)], by simp⟩
  have agree : AgreeOn Edit.setTrack.argumentNames properties properties' := by
    simp [AgreeOn, Edit.argumentNames, get?, properties, properties']
  have chain : Grammar.Rearranged (.identifier "set_track") (ts.drop 6) (ts'.drop 8) :=
    .of_parsed_method (m := .edit .setTrack) (by rfl) (by rfl) (by rfl) agree (.token .nil)
  have head : Parse.trackCall (ts.drop 1) = .ok (.track id, ts.drop 4) := rfl
  have head' : Parse.trackCall (ts'.drop 1) = .ok (.track id, ts'.drop 6) := rfl
  have rearranged : Grammar.Rearranged .newline ts ts' :=
    .token (.of_parsed_track head head' (.refl _ _) (.token (.token chain)))
  obtain ⟨-, -, -, -, texts⟩ := outcome_of_agreeing_arguments
  exact texts ⟨.ofTracks [{}], {}⟩ text text' ts ts' script read read' rearranged parsed

end Run

end StudioScript
