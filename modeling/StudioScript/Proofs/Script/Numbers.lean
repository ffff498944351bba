import StudioScript.Proofs.Action.Numbers
import StudioScript.Proofs.Execution.Emissions
import StudioScript.Proofs.Members
import StudioScript.Proofs.Script.Statements
import StudioScript.Proofs.Token.Numbers

/-! # The numbers of scripts

Literals are made of the tokens that write them, so that every number in a literal of a script
stands in its text, and is finite (`Script.allFinite_of_ofText`).  What an argument counts as may
still be infinite or no number, when it is a string.
-/

namespace StudioScript

/-! ## The numbers of literals -/

namespace Literal

mutual

/-- The numbers in a literal, at any depth. -/
def numbers : Literal → List Number
  | .number x => [x]
  | .array items => itemNumbers items
  | .object fields => fieldsNumbers fields
  | .string _ | .boolean _ => []

def itemNumbers : List Literal → List Number
  | [] => []
  | item :: items => numbers item ++ itemNumbers items

def fieldNumbers : String × Literal → List Number
  | (_, value) => numbers value

def fieldsNumbers : List (String × Literal) → List Number
  | [] => []
  | field :: fields => fieldNumbers field ++ fieldsNumbers fields

end

theorem numbers_array (items : List Literal) : (array items).numbers = items.flatMap numbers := by
  rw [numbers]
  induction items with
  | nil => rfl
  | cons item items inductionHypothesis =>
    rw [itemNumbers, List.flatMap_cons, inductionHypothesis]

theorem numbers_object (fields : List (String × Literal)) :
    (object fields).numbers = fields.flatMap (numbers ·.2) := by
  rw [numbers]
  induction fields with
  | nil => rfl
  | cons field fields inductionHypothesis =>
    obtain ⟨key, value⟩ := field
    rw [fieldsNumbers, fieldNumbers, List.flatMap_cons, inductionHypothesis]

end Literal

/-! ## What is derived from which tokens -/

namespace Grammar

variable {α : Type}

/-- Whether the number is written by one of the tokens. -/
def Writes (ts : List Token) (x : Number) : Prop := ∃ t ∈ ts, t.kind = .number x

theorem Writes.mono {part ts : List Token} {x : Number} (inside : part <:+: ts)
    (writes : Writes part x) : Writes ts x := by
  obtain ⟨t, member, kind⟩ := writes
  exact ⟨t, inside.subset member, kind⟩

theorem Listed.exists_part {item : List Token → α → Prop} {ts : List Token} {xs : List α}
    (listed : Listed item ts xs) : ∀ x ∈ xs, ∃ part, item part x ∧ part <:+: ts := by
  induction listed with
  | none => exact List.forall_mem_nil _
  | @last ts x gap read =>
    intro y member
    cases List.mem_singleton.mp member
    exact ⟨ts, read, (List.prefix_append ts gap).isInfix⟩
  | @more ts x before p after rest xs read _ _ _ inductionHypothesis =>
    intro y member
    rcases List.mem_cons.mp member with rfl | later
    · exact ⟨ts, read, (List.prefix_append _ _).isInfix⟩
    · obtain ⟨part, read', inside⟩ := inductionHypothesis y later
      refine ⟨part, read', inside.trans (List.IsSuffix.isInfix ?_)⟩
      exact ⟨ts ++ (before ++ ⟨.comma, p⟩ :: after), by simp⟩

theorem Bracketed.exists_part {opening closing : TokenKind} {item : List Token → α → Prop}
    {ts : List Token} {xs : List α} (bracketed : Bracketed opening closing item ts xs) :
    ∀ x ∈ xs, ∃ part, item part x ∧ part <:+: ts ∧ part.length < ts.length := by
  obtain @⟨p, gap, inner, _, q, _, listed⟩ := bracketed
  intro x member
  obtain ⟨part, read, inside⟩ := listed.exists_part x member
  refine ⟨part, read, inside.trans ⟨⟨opening, p⟩ :: gap, [⟨closing, q⟩], by simp⟩, ?_⟩
  have shorter := inside.length_le
  simp only [List.length_cons, List.length_append, List.length_nil]
  omega

theorem Field.exists_part {value : List Token → Literal → Prop} {ts : List Token}
    {field : String × Literal} (derived : Field value ts field) :
    ∃ part, value part field.2 ∧ part <:+: ts := by
  obtain @⟨t, key, p, part, v, _, read⟩ := derived
  exact ⟨part, read, [t, ⟨.assign, p⟩], [], by simp⟩

/-- The tokens of a literal write its numbers. -/
theorem Value.writes {ts : List Token} {v : Literal} (derived : Value ts v) :
    ∀ x ∈ v.numbers, Writes ts x := by
  -- `Value` is nested in the rules for brackets and fields, so that the induction is on the number
  -- of tokens: inside brackets there are fewer of them.
  induction size : ts.length using Nat.strongRecOn generalizing ts v with
  | ind n inductionHypothesis =>
    subst size
    cases derived with
    | string | boolean => exact List.forall_mem_nil _
    | number x p =>
      intro y member
      cases List.mem_singleton.mp member
      exact ⟨_, List.mem_singleton_self _, rfl⟩
    | array read =>
      intro x member
      rw [Literal.numbers_array] at member
      obtain ⟨item, among, member⟩ := List.mem_flatMap.mp member
      obtain ⟨part, derived, inside, shorter⟩ := read.exists_part item among
      exact (inductionHypothesis _ shorter derived rfl x member).mono inside
    | object read =>
      intro x member
      rw [Literal.numbers_object] at member
      obtain ⟨field, among, member⟩ := List.mem_flatMap.mp member
      obtain ⟨part, derived, inside, shorter⟩ :=
        read.exists_part _ (Members.mem_of_mem_ofEntries among)
      obtain ⟨rest, derived, within⟩ := derived.exists_part
      have smaller := Nat.lt_of_le_of_lt within.length_le shorter
      exact (inductionHypothesis _ smaller derived rfl x member).mono (within.trans inside)

theorem Parenthesized.writes {ts : List Token} {args : Arguments} (read : Parenthesized ts args)
    {key : String} {value : Literal} (given : args.get? key = some value) :
    ∀ x ∈ value.numbers, Writes ts x := by
  obtain ⟨part, field, inside, _⟩ := Bracketed.exists_part read _ (Members.mem_of_get? given)
  obtain ⟨rest, derived, within⟩ := field.exists_part
  exact fun x member => (derived.writes x member).mono (within.trans inside)

/-- Whether the arguments of the edit that the call applies, if any, stand among the tokens. -/
def Gives (ts : List Token) (c : Call) : Prop :=
  ∀ e args, c.edit? = some (e, args) → ∃ part, Parenthesized part args ∧ part <:+: ts

theorem Gives.mono {part ts : List Token} {c : Call} (inside : part <:+: ts)
    (gives : Gives part c) : Gives ts c := by
  intro e args applied
  obtain ⟨part', read, within⟩ := gives e args applied
  exact ⟨part', read, within.trans inside⟩

theorem gives_of_method {ts : List Token} {method : Method} {args : Arguments}
    (read : Parenthesized ts args) : Gives ts (.method ⟨method, args⟩) := by
  intro e args' applied
  cases method with
  | edit e =>
    cases applied
    exact ⟨ts, read, List.infix_rfl⟩
  | utility u => cases applied

theorem Chain.gives {ts : List Token} {chain : List Invocation} (links : Chain ts chain) :
    ∀ i ∈ chain, Gives ts (.method i) := by
  induction links with
  | none => exact List.forall_mem_nil _
  | @link gap p t word method ts args rest invocations _ _ _ read _ inductionHypothesis =>
    intro i member
    rcases List.mem_cons.mp member with rfl | later
    · exact (gives_of_method read).mono ⟨gap ++ [⟨.dot, p⟩, t], rest, by simp⟩
    · exact (inductionHypothesis i later).mono ⟨gap ++ ⟨.dot, p⟩ :: t :: ts, [], by simp⟩

theorem ChainableCall.gives {ts : List Token} {c : Call} (head : ChainableCall ts c) :
    Gives ts c := by
  intro e args applied
  cases head with
  | track read => cases read <;> cases applied
  | filter => cases applied
  | utility read =>
    cases read
    cases applied

theorem ItemwiseCall.gives {ts : List Token} {c : Call} (head : ItemwiseCall ts c) :
    Gives ts c := by
  cases head with
  | map =>
    intro e args applied
    cases applied
  | forEach read =>
    obtain @⟨p, q, gap, t, collection, r, gap', inner, function, gap'', s, _, _, _, read, _⟩ := read
    cases read with
    | named =>
      intro e args applied
      cases applied
    | @method t' binder p' t'' word method ts args _ _ _ read =>
      have inside : ts <:+: ⟨.forEach, p⟩ :: ⟨.leftParen, q⟩ :: (gap ++ t :: ⟨.comma, r⟩ ::
          (gap' ++ (t' :: ⟨.dot, p'⟩ :: t'' :: ts ++ (gap'' ++ [⟨.rightParen, s⟩])))) := by
        refine ⟨⟨.forEach, p⟩ :: ⟨.leftParen, q⟩ :: (gap ++ t :: ⟨.comma, r⟩ :: gap') ++
          [t', ⟨.dot, p'⟩, t''], gap'' ++ [⟨.rightParen, s⟩], by simp⟩
      refine Gives.mono inside ?_
      unfold Gives
      rw [Call.edit?_forEach]
      exact gives_of_method read

theorem StatementRule.gives {ts : List Token} {st : Statement} (rule : StatementRule ts st) :
    ∀ c ∈ st.calls, Gives ts c := by
  cases rule with
  | @chained t ts head links chain read chained =>
    intro c member
    rcases List.mem_cons.mp member with rfl | later
    · exact read.gives.mono (List.prefix_append _ _).isInfix
    · obtain ⟨i, inside, rfl⟩ := List.mem_map.mp later
      exact (chained.gives i inside).mono (List.suffix_append _ _).isInfix
  | alone read =>
    intro c member
    cases List.mem_singleton.mp member
    exact read.gives

theorem Statements.gives {ts : List Token} {sts : List Statement} (derived : Statements ts sts) :
    ∀ c ∈ sts.flatMap Statement.calls, Gives ts c := by
  induction derived with
  | last read =>
    intro c member
    rw [List.flatMap_singleton] at member
    exact read.gives c member
  | @more ts st gap rest sts read _ _ _ inductionHypothesis =>
    intro c member
    rw [List.flatMap_cons] at member
    rcases List.mem_append.mp member with here | there
    · exact (read.gives c here).mono (List.prefix_append _ _).isInfix
    · exact (inductionHypothesis c there).mono ⟨ts ++ gap, [], by simp⟩

theorem ScriptRule.gives {ts : List Token} {script : Script} (derived : ScriptRule ts script) :
    ∀ c ∈ script.calls, Gives ts c := by
  cases derived with
  | empty => exact List.forall_mem_nil _
  | @statements gap ts sts gap' p _ read _ =>
    exact fun c member => (read.gives c member).mono ⟨gap, gap' ++ [⟨.endOfInput, p⟩], by simp⟩

end Grammar

/-- The numbers in the literals that a script gives to its edits are finite. -/
theorem Script.allFinite_of_ofText {source : String} {script : Script}
    (parsed : ofText source = .ok script) {c : Call} (called : c ∈ script.calls) {e : Edit}
    {args : Arguments} (applied : c.edit? = some (e, args)) {key : String} {value : Literal}
    (given : args.get? key = some value) : Number.AllFinite value.numbers := by
  obtain ⟨ts, read, parsed⟩ := Except.bind_eq_ok.mp parsed
  obtain ⟨body, q, rfl, inner⟩ := Token.areWhole_of_ofText read
  have derived := Parse.script_of_ofTokens (fun t member => (inner t member).1) parsed
  obtain ⟨part, arguments, inside⟩ := derived.gives c called e args applied
  intro x member
  obtain ⟨t, among, kind⟩ := (arguments.writes given x member).mono inside
  rcases List.mem_append.mp among with before | last
  · exact (inner t before).2 x kind
  · cases List.mem_singleton.mp last
    cases kind

end StudioScript
