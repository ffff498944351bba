import StudioScript.Proofs.Script.Tokens

/-! # The places of faults

A fault in the order of tokens is reported at a token that it is about: at the one that it names, or
at the first one of what it names.  Every rule reads on within the tokens of the text, never past
their end, so that there is such a token (`Parse.located_ofTokens`).
-/

namespace StudioScript

/-- The type of the literals that begin with a token of the kind. -/
def TokenKind.literalType? : TokenKind → Option String
  | .string _ => some "string"
  | .number _ => some "number"
  | .boolean _ => some "boolean"
  | .leftBracket => some "array"
  | .leftBrace => some "object"
  | _ => none

/-- Whether a token of the kind is what the fault is about, and gives rise to it. -/
def GrammarFault.IsAbout (kind : TokenKind) : GrammarFault → Prop
  | .expected wanted found => found = kind ∧ kind ≠ wanted
  | .expectedName found => found = kind ∧ Parse.nameOf? kind = none
  | .expectedLiteral found => found = kind
  | .expectedComparison found => found = kind ∧ Parse.comparisonOf? kind = none
  | .expectedStatement found => found = kind
  | .expectedEndOfStatement found => found = kind ∧ kind ∉ [.newline, .semicolon, .endOfInput]
  | .unknownMethod word => Parse.nameOf? kind = some word ∧ Method.ofName? word = none
  | .unknownStatement word => kind = .identifier word ∧ Method.ofName? word = none
  | .unchainedEdit edit =>
      ∃ word, kind = .identifier word ∧ Method.ofName? word = some (.edit edit)
  | .chainAfter _ => kind = .dot
  | .duplicateArgument key => Parse.nameOf? kind = some key
  | .memberOfNoArray typeName => kind.literalType? = some typeName ∧ typeName ≠ "array"

namespace Parse

variable {α β : Type} {ts rest : List Token}

/-! ## What is left -/

/-- What is left of the tokens `ts`, with the end of the input. -/
structure Remains (ts rest : List Token) : Prop where
  suffix : rest <:+ ts
  ends : ∃ front p, rest = front ++ [⟨.endOfInput, p⟩]

namespace Remains

theorem eq_cons (remains : Remains ts rest) : rest = next rest :: rest.tail := by
  obtain ⟨front, p, rfl⟩ := remains.ends
  cases front <;> rfl

theorem next_mem (remains : Remains ts rest) : next rest ∈ ts :=
  remains.suffix.subset (remains.eq_cons ▸ List.mem_cons_self)

/-- Behind a token that is not the end of the input, there is still the end. -/
theorem tail (remains : Remains ts rest) (inside : (next rest).kind ≠ .endOfInput) :
    Remains ts rest.tail := by
  refine ⟨(List.tail_suffix rest).trans remains.suffix, ?_⟩
  obtain ⟨front, p, rfl⟩ := remains.ends
  cases front with
  | nil => exact absurd rfl inside
  | cons t front => exact ⟨front, p, rfl⟩

theorem dropWhile (remains : Remains ts rest) {skips : Token → Bool}
    (stops : ∀ p, skips ⟨.endOfInput, p⟩ = false) : Remains ts (rest.dropWhile skips) := by
  refine ⟨(List.dropWhile_suffix skips).trans remains.suffix, ?_⟩
  obtain ⟨front, p, rfl⟩ := remains.ends
  induction front with
  | nil => exact ⟨[], p, by simp [stops]⟩
  | cons t front inductionHypothesis =>
    rw [List.cons_append, List.dropWhile_cons]
    split
    · exact inductionHypothesis ⟨(List.suffix_cons t _).trans remains.suffix, front, p, rfl⟩
    · exact ⟨t :: front, p, rfl⟩

theorem skipNewlines (remains : Remains ts rest) : Remains ts (skipNewlines rest) :=
  remains.dropWhile fun _ => rfl

theorem skipSeparators (remains : Remains ts rest) : Remains ts (skipSeparators rest) :=
  remains.dropWhile fun _ => rfl

end Remains

/-! ## Located faults -/

/-- Whether a result satisfies `P`, or is a fault at the place of a token that it is about. -/
inductive Located (ts : List Token) (P : α → Prop) : Except SyntaxError α → Prop where
  | ok {x} (holds : P x) : Located ts P (.ok x)
  | fault {t fault} (member : t ∈ ts) (about : GrammarFault.IsAbout t.kind fault) :
      Located ts P (.error ⟨.grammatical fault, t.position⟩)

/-- Whether what a rule has left of the tokens `ts` ends with the end of the input. -/
abbrev Leaves (ts : List Token) (read : α × List Token) : Prop := Remains ts read.2

theorem Located.bind {P : α → Prop} {Q : β → Prop} {result : Except SyntaxError α}
    {next : α → Except SyntaxError β} (first : Located ts P result)
    (second : ∀ x, P x → Located ts Q (next x)) : Located ts Q (result >>= next) := by
  cases first with
  | ok holds => exact second _ holds
  | fault member about => exact .fault member about

theorem located_faultAt {P : α → Prop} {fault : TokenKind → GrammarFault}
    (remains : Remains ts rest) (about : (fault (next rest).kind).IsAbout (next rest).kind) :
    Located ts P (faultAt rest fault) :=
  .fault remains.next_mem about

/-! ## Single tokens -/

theorem located_expect {wanted : TokenKind} (inside : wanted ≠ .endOfInput)
    (remains : Remains ts rest) : Located ts (Remains ts) (expect wanted rest) := by
  unfold expect
  split
  · next found => exact .ok (remains.tail (found ▸ inside))
  · next other => exact located_faultAt remains ⟨rfl, other⟩

theorem located_name (remains : Remains ts rest) :
    Located ts (fun read => nameOf? (next rest).kind = some read.1 ∧ Leaves ts read)
      (name rest) := by
  unfold name
  split
  · next word named =>
    refine .ok ⟨named, remains.tail fun ends => ?_⟩
    rw [ends] at named
    cases named
  · next other => exact located_faultAt remains ⟨rfl, other⟩

theorem located_method (remains : Remains ts rest) : Located ts (Leaves ts) (method rest) := by
  refine (located_name remains).bind fun ⟨word, behind⟩ ⟨named, left⟩ => ?_
  dsimp only
  split
  · exact .ok left
  · next unknown => exact located_faultAt remains ⟨named, unknown⟩

/-! ## Literals and arguments -/

/-- What is read in so many steps has located faults.  Literals, items and arguments are read by way
    of each other, so that the three go together. -/
structure LocatesLiterals (ts : List Token) (steps : Nat) : Prop where
  literal : ∀ {rest}, Remains ts rest → Located ts
    (fun read => (next rest).kind.literalType? = some read.1.typeName ∧ Leaves ts read)
    (literalIn steps rest)
  items : ∀ {rest}, Remains ts rest → Located ts (Leaves ts) (itemsIn steps rest)
  arguments : ∀ {closing args rest}, Remains ts rest →
    Located ts (Leaves ts) (argumentsIn steps closing args rest)

section

variable {steps : Nat} (located : LocatesLiterals ts steps)
include located

theorem LocatesLiterals.literal_succ (remains : Remains ts rest) : Located ts
    (fun read => (next rest).kind.literalType? = some read.1.typeName ∧ Leaves ts read)
    (literalIn (steps + 1) rest) := by
  have behind {kind : TokenKind} (found : (next rest).kind = kind) (inside : kind ≠ .endOfInput) :
      Remains ts rest.tail := remains.tail (found ▸ inside)
  rw [literalIn]
  split
  · next s found => exact .ok ⟨found ▸ rfl, behind found (by simp)⟩
  · next x found => exact .ok ⟨found ▸ rfl, behind found (by simp)⟩
  · next b found => exact .ok ⟨found ▸ rfl, behind found (by simp)⟩
  · next found =>
    refine (located.items (behind found (by simp)).skipNewlines).bind fun ⟨items, rest'⟩ left => ?_
    refine (located_expect (by simp) left).bind fun rest'' left' => ?_
    exact .ok ⟨found ▸ rfl, left'⟩
  · next found =>
    refine (located.arguments (behind found (by simp)).skipNewlines).bind
      fun ⟨args, rest'⟩ left => ?_
    refine (located_expect (by simp) left).bind fun rest'' left' => ?_
    exact .ok ⟨found ▸ rfl, left'⟩
  · exact located_faultAt remains rfl

theorem LocatesLiterals.items_succ (remains : Remains ts rest) :
    Located ts (Leaves ts) (itemsIn (steps + 1) rest) := by
  rw [itemsIn]
  split
  · exact .ok remains
  · refine (located.literal remains).bind fun ⟨item, rest'⟩ ⟨_, left⟩ => ?_
    dsimp only
    split
    · next comma =>
      have behind := left.skipNewlines.tail (by rw [comma]; simp)
      refine (located.items behind.skipNewlines).bind fun ⟨items, rest''⟩ left' => ?_
      exact .ok left'
    · exact .ok left.skipNewlines

theorem LocatesLiterals.arguments_succ {closing : TokenKind} {args : Arguments}
    (remains : Remains ts rest) :
    Located ts (Leaves ts) (argumentsIn (steps + 1) closing args rest) := by
  rw [argumentsIn]
  split
  · exact .ok remains
  · refine (located_name remains).bind fun ⟨key, rest'⟩ ⟨named, left⟩ => ?_
    refine (located_expect (by simp) left).bind fun rest'' left' => ?_
    refine (located.literal left').bind fun ⟨value, rest'''⟩ ⟨_, left''⟩ => ?_
    dsimp only
    split
    · exact located_faultAt remains named
    · split
      · next comma =>
        exact located.arguments (left''.skipNewlines.tail (by rw [comma]; simp)).skipNewlines
      · exact .ok left''.skipNewlines

end

theorem locatesLiterals (ts : List Token) (steps : Nat) : LocatesLiterals ts steps := by
  induction steps with
  | zero =>
    constructor
    · intro rest remains
      rw [literalIn]
      exact located_faultAt remains rfl
    · intro rest remains
      rw [itemsIn]
      exact located_faultAt remains rfl
    · intro closing args rest remains
      rw [argumentsIn]
      exact located_faultAt remains rfl
  | succ steps inductionHypothesis =>
    exact ⟨inductionHypothesis.literal_succ, inductionHypothesis.items_succ,
      inductionHypothesis.arguments_succ⟩

theorem located_arguments (remains : Remains ts rest) :
    Located ts (Leaves ts) (arguments rest) :=
  (locatesLiterals ts _).arguments remains.skipNewlines

theorem located_parenthesized (remains : Remains ts rest) :
    Located ts (Leaves ts) (parenthesized rest) := by
  refine (located_expect (by simp) remains).bind fun rest' left => ?_
  refine (located_arguments left).bind fun ⟨args, rest''⟩ left' => ?_
  refine (located_expect (by simp) left').bind fun rest''' left'' => ?_
  exact .ok left''

/-! ## Calls -/

theorem located_trackCall (remains : Remains ts rest) :
    Located ts (Leaves ts) (trackCall rest) := by
  refine (located_expect (by simp) remains).bind fun rest' left => ?_
  dsimp only
  split
  · next x found =>
    have behind := left.skipNewlines.tail (by rw [found]; simp)
    refine (located_expect (by simp) behind.skipNewlines).bind fun rest'' left' => ?_
    exact .ok left'
  · refine (located_arguments left.skipNewlines).bind fun ⟨args, rest''⟩ left' => ?_
    refine (located_expect (by simp) left').bind fun rest''' left'' => ?_
    exact .ok left''

theorem located_predicate (remains : Remains ts rest) :
    Located ts (Leaves ts) (predicate rest) := by
  refine (located_name remains).bind fun ⟨binder, rest'⟩ ⟨_, left⟩ => ?_
  refine (located_expect (by simp) left).bind fun rest'' left' => ?_
  refine (located_name left').bind fun ⟨field, start⟩ ⟨_, left''⟩ => ?_
  dsimp only
  split
  · next none => exact located_faultAt left'' ⟨rfl, none⟩
  · next comparison compares =>
    have behind := left''.tail fun ends => by
      rw [ends] at compares
      cases compares
    refine ((locatesLiterals ts _).literal behind).bind fun ⟨operand, rest'''⟩ ⟨type, left'''⟩ => ?_
    dsimp only
    split
    · next member =>
      refine located_faultAt behind ⟨type, ?_⟩
      cases operand with
      | array items => simp [Literal.asArray?] at member
      | string | number | boolean | object => simp [Literal.typeName]
    · exact .ok left'''

theorem located_collection (remains : Remains ts rest) :
    Located ts (Leaves ts) (collection rest) := by
  refine (located_expect (by simp) remains).bind fun rest' left => ?_
  refine (located_name left.skipNewlines).bind fun ⟨collection, rest''⟩ ⟨_, left'⟩ => ?_
  refine (located_expect (by simp) left').bind fun rest''' left'' => ?_
  exact .ok left''.skipNewlines

theorem located_filterCall (remains : Remains ts rest) :
    Located ts (Leaves ts) (filterCall rest) := by
  refine (located_collection remains).bind fun ⟨collection, rest'⟩ left => ?_
  refine (located_predicate left).bind fun ⟨predicate, rest''⟩ left' => ?_
  refine (located_expect (by simp) left'.skipNewlines).bind fun rest''' left'' => ?_
  exact .ok left''

theorem located_itemFunction (remains : Remains ts rest) :
    Located ts (Leaves ts) (itemFunction rest) := by
  unfold itemFunction
  split
  · next atSign =>
    have behind := remains.tail (by rw [atSign]; simp)
    refine (located_name behind).bind fun ⟨word, rest'⟩ ⟨_, left⟩ => ?_
    exact .ok left
  · refine (located_name remains).bind fun ⟨binder, rest'⟩ ⟨_, left⟩ => ?_
    refine (located_expect (by simp) left).bind fun rest'' left' => ?_
    refine (located_method left').bind fun ⟨method, rest'''⟩ left'' => ?_
    refine (located_parenthesized left'').bind fun ⟨args, rest''''⟩ left''' => ?_
    exact .ok left'''

theorem located_functionCall (remains : Remains ts rest) :
    Located ts (Leaves ts) (functionCall rest) := by
  refine (located_collection remains).bind fun ⟨collection, rest'⟩ left => ?_
  refine (located_itemFunction left).bind fun ⟨function, rest''⟩ left' => ?_
  refine (located_expect (by simp) left'.skipNewlines).bind fun rest''' left'' => ?_
  exact .ok left''

theorem located_head (remains : Remains ts rest) : Located ts (Leaves ts) (head rest) := by
  have behind {kind : TokenKind} (found : (next rest).kind = kind) (inside : kind ≠ .endOfInput) :
      Remains ts rest.tail := remains.tail (found ▸ inside)
  unfold head
  split
  · next found => exact located_trackCall (behind found (by simp))
  · next found => exact located_filterCall (behind found (by simp))
  · next found =>
    refine (located_functionCall (behind found (by simp))).bind fun ⟨_, rest'⟩ left => ?_
    exact .ok left
  · next found =>
    refine (located_functionCall (behind found (by simp))).bind fun ⟨_, rest'⟩ left => ?_
    exact .ok left
  · next word found =>
    split
    · next unknown => exact located_faultAt remains ⟨found, unknown⟩
    · next edit spells => exact located_faultAt remains ⟨word, found, spells⟩
    · refine (located_parenthesized (behind found (by simp))).bind fun ⟨args, rest'⟩ left => ?_
      exact .ok left
  · exact located_faultAt remains rfl

/-! ## Statements -/

theorem located_chainIn (steps : Nat) (remains : Remains ts rest) :
    Located ts (Leaves ts) (chainIn steps rest) := by
  induction steps generalizing rest with
  | zero => exact .ok remains
  | succ steps inductionHypothesis =>
    rw [chainIn]
    dsimp only
    split
    · next dot =>
      have behind := remains.skipNewlines.tail (by rw [dot]; simp)
      refine (located_method behind).bind fun ⟨method, rest'⟩ left => ?_
      refine (located_parenthesized left).bind fun ⟨args, rest''⟩ left' => ?_
      refine (inductionHypothesis left').bind fun ⟨invocations, rest'''⟩ left'' => ?_
      exact .ok left''
    · exact .ok remains

theorem located_statement (remains : Remains ts rest) :
    Located ts (Leaves ts) (statement rest) := by
  refine (located_head remains).bind fun ⟨head, rest'⟩ left => ?_
  dsimp only
  split
  · refine (located_chainIn _ left).bind fun ⟨chain, rest''⟩ left' => ?_
    exact .ok left'
  · split
    · next dot => exact located_faultAt left.skipNewlines dot
    · exact .ok left

theorem located_statementsIn (steps : Nat) (remains : Remains ts rest) :
    Located ts (fun _ => True) (statementsIn steps rest) := by
  induction steps generalizing rest with
  | zero => exact .ok trivial
  | succ steps inductionHypothesis =>
    rw [statementsIn]
    dsimp only
    split
    · exact .ok trivial
    · refine (located_statement remains.skipSeparators).bind fun ⟨statement, rest'⟩ left => ?_
      have others : Located ts (fun _ => True)
          (do return statement :: (← statementsIn steps rest')) :=
        (inductionHypothesis left).bind fun _ _ => .ok trivial
      dsimp only
      split
      · exact others
      · exact others
      · exact others
      · next notNewline notSemicolon notEnd =>
        refine located_faultAt left ⟨rfl, ?_⟩
        simp only [List.mem_cons, List.not_mem_nil, or_false, not_or]
        exact ⟨notNewline, notSemicolon, notEnd⟩

/-- A script that is not accepted is refused at a token that the fault is about. -/
theorem located_ofTokens {body : List Token} {p : Position}
    (same : ts = body ++ [⟨.endOfInput, p⟩]) : Located ts (fun _ => True) (Script.ofTokens ts) := by
  have whole : closed ts = ts := by simp [same, closed]
  rw [Script.ofTokens, whole]
  refine (located_statementsIn _ ⟨List.suffix_refl ts, body, p, same⟩).bind fun _ _ => ?_
  exact .ok trivial

end Parse

end StudioScript
