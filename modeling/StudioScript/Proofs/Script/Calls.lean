import StudioScript.Proofs.Script.Literals

/-! # Reading calls

The rules for the heads of statements read what the grammar derives.
-/

namespace StudioScript

namespace Grammar

theorem Condition.begins {ts : List Token} {p : Predicate} (derived : Condition ts p) :
    Begins ts := by
  cases derived with
  | compare name _ _ _ => exact name.begins _
  | member name _ _ => exact name.begins _

theorem FunctionRef.begins {ts : List Token} {function : ItemFunction}
    (derived : FunctionRef ts function) : Begins ts := by
  cases derived with
  | named name => exact ⟨_, _, rfl, by simp⟩
  | method name _ _ _ => exact name.begins _

theorem TrackCall.keyword {ts : List Token} {call : Call} (derived : TrackCall ts call) :
    ∃ p rest, ts = ⟨.track, p⟩ :: rest := by
  cases derived <;> exact ⟨_, _, rfl⟩

theorem CollectionCall.keyword {α : Type} {keyword : TokenKind}
    {content : List Token → α → Prop} {ts : List Token} {c : String} {x : α}
    (derived : CollectionCall keyword content ts c x) : ∃ p rest, ts = ⟨keyword, p⟩ :: rest := by
  cases derived
  exact ⟨_, _, rfl⟩

/-- Arguments do not begin with a number, which tells them from a lone number. -/
theorem Listed.next_ne_number {ts rest : List Token} {entries : List (String × Literal)}
    (listed : Listed (Field Value) ts entries) {q : Position} (x : Number) :
    (Parse.next (ts ++ ⟨.rightParen, q⟩ :: rest)).kind ≠ .number x := by
  have key {t : Token} {word : String} (named : Name t word) : t.kind ≠ .number x := by
    cases named <;> simp
  cases listed with
  | none => simp
  | last read _ =>
    obtain ⟨named, _⟩ := read
    exact key named
  | more read _ _ _ =>
    obtain ⟨named, _⟩ := read
    exact key named

end Grammar

namespace Parse

open Grammar

variable {α β : Type} {ts rest : List Token}

/-! ## Track calls -/

theorem trackCall_follows (p : Position) :
    Follows trackCall fun ts call => TrackCall (⟨.track, p⟩ :: ts) call := by
  intro ts call rest
  constructor
  · intro ran
    obtain ⟨behind, opens, goes⟩ := Except.bind_eq_ok.mp ran
    obtain ⟨q, rfl⟩ := (expect_eq_ok (by simp)).mp opens
    simp only at goes
    split at goes
    · next x found =>
      obtain ⟨behind', closes, ends⟩ := Except.bind_eq_ok.mp goes
      cases ends
      obtain ⟨r, shape⟩ := eq_cons_of_next found (by simp)
      obtain ⟨gap, newlines, gapped⟩ := (skipNewlines_eq_cons (by simp)).mp shape
      obtain ⟨gap', s, newlines', shape'⟩ := (expect_skipNewlines (by simp) (by simp)).mp closes
      refine ⟨_, ?_, .number (q := q) (r := r) (s := s) newlines newlines'⟩
      rw [gapped, shape']
      simp only [List.cons_append, List.append_assoc, List.nil_append]
    · obtain ⟨⟨args, mid⟩, ranFields, goes⟩ := Except.bind_eq_ok.mp goes
      obtain ⟨behind', closes, ends⟩ := Except.bind_eq_ok.mp goes
      cases ends
      obtain ⟨s, rfl⟩ := (expect_eq_ok (by simp)).mp closes
      -- The line feeds in front of the arguments are looked for twice: all are in the first gap.
      obtain ⟨gap, newlines, shape⟩ := exists_newlines behind
      obtain ⟨gap', inner, newlines', shape', listed⟩ := arguments_eq_ok.mp ranFields
      have read : Parenthesized
          (⟨.leftParen, q⟩ :: ((gap ++ gap') ++ (inner ++ [⟨.rightParen, s⟩]))) args :=
        Bracketed.mk (newlines.append newlines') listed
      refine ⟨_, ?_, .keywords read⟩
      rw [shape, shape']
      simp only [List.cons_append, List.append_assoc, List.nil_append]
  · rintro ⟨read, rfl, derived⟩
    cases derived with
    | @number _ q gap x r gap' s newlines newlines' =>
      have number : skipNewlines (gap ++ ⟨.number x, r⟩ :: (gap' ++ ⟨.rightParen, s⟩ :: rest)) =
          ⟨.number x, r⟩ :: (gap' ++ ⟨.rightParen, s⟩ :: rest) :=
        (skipNewlines_eq_cons (by simp)).mpr ⟨gap, newlines, rfl⟩
      have closes : expect .rightParen (skipNewlines (gap' ++ ⟨.rightParen, s⟩ :: rest)) =
          .ok rest := (expect_skipNewlines (by simp) (by simp)).mpr ⟨gap', s, newlines', rfl⟩
      simp only [trackCall, List.cons_append, List.append_assoc, List.nil_append, expect_cons,
        Except.ok_bind, number, next_cons, List.tail_cons, closes]
      rfl
    | @keywords _ _ args read =>
      obtain @⟨q, gap, inner, _, s, newlines, listed⟩ := read
      have left : skipNewlines (gap ++ (inner ++ ⟨.rightParen, s⟩ :: rest)) =
          inner ++ ⟨.rightParen, s⟩ :: rest :=
        skipNewlines_listed newlines (fun _ _ => Field.begins) listed (by simp)
      have body : arguments (inner ++ ⟨.rightParen, s⟩ :: rest) =
          .ok (args, ⟨.rightParen, s⟩ :: rest) :=
        arguments_eq_ok.mpr ⟨[], inner, .nil, rfl, listed⟩
      simp only [trackCall, List.cons_append, List.append_assoc, List.nil_append, expect_cons,
        Except.ok_bind, left]
      split
      · next x found => exact absurd found (listed.next_ne_number x)
      · simp only [body, Except.ok_bind, expect_cons]
        rfl

/-! ## Predicates -/

theorem comparisonOf?_eq_some {kind : TokenKind} {comparison : Comparison} :
    comparisonOf? kind = some comparison ↔
      CompareOp kind comparison ∨ kind = .member ∧ comparison = .member := by
  constructor
  · intro compares
    cases kind <;> simp only [comparisonOf?, reduceCtorEq, Option.some.injEq] at compares <;>
      subst compares
    case member => exact Or.inr ⟨rfl, rfl⟩
    all_goals exact Or.inl (by constructor)
  · rintro (compares | ⟨rfl, rfl⟩)
    · cases compares <;> rfl
    · rfl

theorem ne_member_of_compareOp {kind : TokenKind} {comparison : Comparison}
    (compares : CompareOp kind comparison) : comparison ≠ .member := by
  cases compares <;> simp

theorem predicate_follows : Follows predicate Condition := by
  intro ts condition rest
  constructor
  · intro ran
    obtain ⟨⟨binder, behindBinder⟩, named, ran⟩ := Except.bind_eq_ok.mp ran
    obtain ⟨behindDot, dots, ran⟩ := Except.bind_eq_ok.mp ran
    obtain ⟨⟨field, behindField⟩, named', goes⟩ := Except.bind_eq_ok.mp ran
    obtain ⟨t, rfl, name⟩ := name_eq_ok.mp named
    obtain ⟨p, rfl⟩ := (expect_eq_ok (by simp)).mp dots
    obtain ⟨t', rfl, name'⟩ := name_eq_ok.mp named'
    simp only at goes
    split at goes
    · cases faultAt_eq_ok.mp goes
    · next comparison compares =>
      obtain ⟨⟨operand, mid⟩, ranOperand, ends⟩ := Except.bind_eq_ok.mp goes
      simp only at ends
      split at ends
      · cases faultAt_eq_ok.mp ends
      · next permitted =>
        cases ends
        obtain ⟨read, shape, derived⟩ := literal_follows.derives ranOperand
        cases behindField with
        | nil => simp [next, comparisonOf?] at compares
        | cons operator behindOperator =>
          obtain ⟨op, q⟩ := operator
          have behind : behindOperator = read ++ _ := shape
          refine ⟨t :: ⟨.dot, p⟩ :: t' :: ⟨op, q⟩ :: read, by rw [behind]; rfl, ?_⟩
          rcases comparisonOf?_eq_some.mp compares with compares | ⟨member, rfl⟩
          · exact .compare name name' compares derived
          -- Behind `in` only an array gets through, and a value that is one derives as one.
          · obtain rfl : op = .member := member
            cases derived with
            | array items => exact .member name name' items
            | string | number | boolean | object => simp [Literal.asArray?] at permitted
  · rintro ⟨read, rfl, derived⟩
    have reads {t t' : Token} {binder field : String} {p q : Position} {op : TokenKind}
        {comparison : Comparison} {ts : List Token} {operand : Literal} (named : Name t binder)
        (named' : Name t' field) (compares : comparisonOf? op = some comparison)
        (derived : Value ts operand) (permitted : comparison = .member → operand.asArray?.isSome) :
        predicate (t :: ⟨.dot, p⟩ :: t' :: ⟨op, q⟩ :: (ts ++ rest)) =
          .ok (⟨binder, field, comparison, operand⟩, rest) := by
      have read := literal_follows.reads derived rest
      have refused : ¬(comparison = .member ∧ operand.asArray?.isNone = true) := by
        rintro ⟨member, none⟩
        have some := permitted member
        simp [Option.isNone_iff_eq_none.mp none] at some
      simp only [predicate, name_eq_ok.mpr ⟨t, rfl, named⟩, name_eq_ok.mpr ⟨t', rfl, named'⟩,
        Except.ok_bind, expect_cons, next_cons, compares, List.tail_cons, read, refused, if_false]
      rfl
    cases derived with
    | compare named named' compares derived =>
      exact reads named named' (comparisonOf?_eq_some.mpr (.inl compares)) derived
        fun member => absurd member (ne_member_of_compareOp compares)
    | member named named' derived =>
      exact reads named named' (comparisonOf?_eq_some.mpr (.inr ⟨rfl, rfl⟩)) (.array derived)
        fun _ => rfl

/-! ## Collections -/

theorem collection_eq_ok {c : String} :
    collection ts = .ok (c, rest) ↔
      ∃ q gap t r behind, ts = ⟨.leftParen, q⟩ :: (gap ++ t :: ⟨.comma, r⟩ :: behind) ∧
        Newlines gap ∧ Name t c ∧ skipNewlines behind = rest := by
  constructor
  · intro ran
    obtain ⟨behindParen, opens, ran⟩ := Except.bind_eq_ok.mp ran
    obtain ⟨⟨c, behindName⟩, named, ran⟩ := Except.bind_eq_ok.mp ran
    obtain ⟨behind, commas, ran⟩ := Except.bind_eq_ok.mp ran
    cases ran
    obtain ⟨q, rfl⟩ := (expect_eq_ok (by simp)).mp opens
    obtain ⟨t, shape, name⟩ := name_eq_ok.mp named
    obtain ⟨r, rfl⟩ := (expect_eq_ok (by simp)).mp commas
    obtain ⟨gap, newlines, rfl⟩ := (skipNewlines_eq_cons name.kind_ne_newline).mp shape
    exact ⟨q, gap, t, r, behind, rfl, newlines, name, rfl⟩
  · rintro ⟨q, gap, t, r, behind, rfl, newlines, named, rfl⟩
    have left : skipNewlines (gap ++ t :: ⟨.comma, r⟩ :: behind) = t :: ⟨.comma, r⟩ :: behind :=
      (skipNewlines_eq_cons named.kind_ne_newline).mpr ⟨gap, newlines, rfl⟩
    simp only [collection, expect_cons, Except.ok_bind, left, name_eq_ok.mpr ⟨t, rfl, named⟩]
    rfl

/-- A parser of what stands behind the collection makes one of the whole call behind its keyword. -/
theorem collectionCall_follows {content : List Token → Except SyntaxError (α × List Token)}
    {rule : List Token → α → Prop} (follows : Follows content rule)
    (begins : ∀ ts x, rule ts x → Begins ts) (make : String → α → β) (keyword : TokenKind)
    (p : Position) :
    Follows
      (fun ts => do
        let (c, rest) ← collection ts
        let (x, rest) ← content rest
        let rest ← expect .rightParen (skipNewlines rest)
        return (make c x, rest))
      (fun ts y => ∃ c x, make c x = y ∧ CollectionCall keyword rule (⟨keyword, p⟩ :: ts) c x) := by
  intro ts y rest
  constructor
  · intro ran
    obtain ⟨⟨c, behind⟩, ranCollection, ran⟩ := Except.bind_eq_ok.mp ran
    obtain ⟨⟨x, mid⟩, ranContent, ran⟩ := Except.bind_eq_ok.mp ran
    obtain ⟨behind', closes, ran⟩ := Except.bind_eq_ok.mp ran
    cases ran
    obtain ⟨q, gap, t, r, afterComma, rfl, newlines, named, rfl⟩ :=
      collection_eq_ok.mp ranCollection
    obtain ⟨gap', read, newlines', rfl, derived⟩ := (follows.behind_newlines begins).mp ranContent
    obtain ⟨gap'', s, newlines'', rfl⟩ := (expect_skipNewlines (by simp) (by simp)).mp closes
    refine ⟨_, ?_, c, x, rfl, .mk (q := q) (r := r) (s := s) newlines named newlines' derived
      newlines''⟩
    simp only [List.cons_append, List.append_assoc, List.nil_append]
  · rintro ⟨read, rfl, c, x, rfl, derived⟩
    obtain @⟨_, q, gap, t, _, r, gap', ts, _, gap'', s, newlines, named, newlines', read,
      newlines''⟩ := derived
    have head := collection_eq_ok.mpr
      ⟨q, gap, t, r, gap' ++ (ts ++ (gap'' ++ ⟨.rightParen, s⟩ :: rest)), rfl, newlines, named, rfl⟩
    have body := (follows.behind_newlines begins).mpr
      ⟨gap', ts, newlines', (rfl : _ = gap' ++ (ts ++ (gap'' ++ ⟨.rightParen, s⟩ :: rest))), read⟩
    have closes : expect .rightParen (skipNewlines (gap'' ++ ⟨.rightParen, s⟩ :: rest)) =
        .ok rest := (expect_skipNewlines (by simp) (by simp)).mpr ⟨gap'', s, newlines'', rfl⟩
    simp only [List.cons_append, List.append_assoc, List.nil_append, head, Except.ok_bind, body,
      closes]
    rfl

theorem filterCall_follows (p : Position) :
    Follows filterCall fun ts call => ∃ c predicate, Call.filter c predicate = call ∧
      CollectionCall .filter Condition (⟨.filter, p⟩ :: ts) c predicate :=
  collectionCall_follows predicate_follows (fun _ _ => Condition.begins) Call.filter .filter p

theorem itemFunction_follows : Follows itemFunction FunctionRef := by
  intro ts function rest
  unfold itemFunction
  constructor
  · intro ran
    split at ran
    · next found =>
      obtain ⟨⟨word, behind⟩, named, ran⟩ := Except.bind_eq_ok.mp ran
      cases ran
      obtain ⟨p, shape⟩ := eq_cons_of_next found (by simp)
      obtain ⟨t, shape', name⟩ := name_eq_ok.mp named
      exact ⟨[⟨.atSign, p⟩, t], shape.trans (congrArg _ shape'), .named name⟩
    · obtain ⟨⟨binder, behindBinder⟩, named, ran⟩ := Except.bind_eq_ok.mp ran
      obtain ⟨behindDot, dots, ran⟩ := Except.bind_eq_ok.mp ran
      obtain ⟨⟨m, behindMethod⟩, spelt, ran⟩ := Except.bind_eq_ok.mp ran
      obtain ⟨⟨args, behind⟩, ranArguments, ran⟩ := Except.bind_eq_ok.mp ran
      cases ran
      obtain ⟨t, rfl, name⟩ := name_eq_ok.mp named
      obtain ⟨p, rfl⟩ := (expect_eq_ok (by simp)).mp dots
      obtain ⟨t', word, rfl, name', spells⟩ := method_eq_ok.mp spelt
      obtain ⟨read, rfl, derived⟩ := parenthesized_follows.derives ranArguments
      exact ⟨t :: ⟨.dot, p⟩ :: t' :: read, rfl, .method name name' spells derived⟩
  · rintro ⟨read, rfl, derived⟩
    cases derived with
    | named named =>
      simp only [List.cons_append, List.nil_append, next_cons, if_true, List.tail_cons,
        name_eq_ok.mpr ⟨_, rfl, named⟩]
      rfl
    | @method t binder p t' word m ts args named named' spells derived =>
      have other : t.kind ≠ .atSign := by cases named <;> simp
      have spelt : method (t' :: (ts ++ rest)) = .ok (m, ts ++ rest) :=
        method_eq_ok.mpr ⟨t', word, rfl, named', spells⟩
      have body := parenthesized_follows.reads derived rest
      simp only [List.cons_append, next_cons, other, if_false, name_eq_ok.mpr ⟨t, rfl, named⟩,
        Except.ok_bind, expect_cons, spelt, body]
      rfl

theorem functionCall_follows (keyword : TokenKind) (p : Position) :
    Follows functionCall fun ts call => ∃ c function, (c, function) = call ∧
      CollectionCall keyword FunctionRef (⟨keyword, p⟩ :: ts) c function :=
  collectionCall_follows itemFunction_follows (fun _ _ => FunctionRef.begins) Prod.mk keyword p

/-! ## Heads -/

/-- A method is spelt by a word that starts no statement but that of a utility. -/
theorem identifier_of_method {t : Token} {word : String} {m : Method} (named : Name t word)
    (spells : Method.ofName? word = some m) : t.kind = .identifier word := by
  cases named with
  | identifier => rfl
  | track | filter | map | forEach => cases spells

theorem head_follows :
    Follows head fun ts call => ChainableCall ts call ∨ ItemwiseCall ts call := by
  intro ts call rest
  unfold head
  constructor
  · intro ran
    split at ran
    · next found =>
      obtain ⟨p, shape⟩ := eq_cons_of_next found (by simp)
      obtain ⟨read, shape', derived⟩ := (trackCall_follows p).derives ran
      exact ⟨⟨.track, p⟩ :: read, shape.trans (congrArg _ shape'), .inl (.track derived)⟩
    · next found =>
      obtain ⟨p, shape⟩ := eq_cons_of_next found (by simp)
      obtain ⟨read, shape', c, predicate, rfl, derived⟩ := (filterCall_follows p).derives ran
      exact ⟨⟨.filter, p⟩ :: read, shape.trans (congrArg _ shape'), .inl (.filter derived)⟩
    · next found =>
      obtain ⟨⟨⟨c, function⟩, behind⟩, ranCall, ran⟩ := Except.bind_eq_ok.mp ran
      cases ran
      obtain ⟨p, shape⟩ := eq_cons_of_next found (by simp)
      obtain ⟨read, shape', _, _, same, derived⟩ := (functionCall_follows .map p).derives ranCall
      cases same
      exact ⟨⟨.map, p⟩ :: read, shape.trans (congrArg _ shape'), .inr (.map derived)⟩
    · next found =>
      obtain ⟨⟨⟨c, function⟩, behind⟩, ranCall, ran⟩ := Except.bind_eq_ok.mp ran
      cases ran
      obtain ⟨p, shape⟩ := eq_cons_of_next found (by simp)
      obtain ⟨read, shape', _, _, same, derived⟩ :=
        (functionCall_follows .forEach p).derives ranCall
      cases same
      exact ⟨⟨.forEach, p⟩ :: read, shape.trans (congrArg _ shape'), .inr (.forEach derived)⟩
    · next word found =>
      split at ran
      · cases faultAt_eq_ok.mp ran
      · cases faultAt_eq_ok.mp ran
      · next utility spells =>
        obtain ⟨⟨args, behind⟩, ranArguments, ran⟩ := Except.bind_eq_ok.mp ran
        cases ran
        obtain ⟨p, shape⟩ := eq_cons_of_next found (by simp)
        obtain ⟨read, shape', derived⟩ := parenthesized_follows.derives ranArguments
        exact ⟨⟨.identifier word, p⟩ :: read, shape.trans (congrArg _ shape'),
          .inl (.utility (.mk (.identifier word p) spells derived))⟩
    · cases faultAt_eq_ok.mp ran
  · rintro ⟨read, rfl, derived | derived⟩
    · cases derived with
      | track derived =>
        obtain ⟨p, ts, rfl⟩ := derived.keyword
        exact (trackCall_follows p).reads derived rest
      | filter derived =>
        obtain ⟨p, ts, rfl⟩ := derived.keyword
        exact (filterCall_follows p).reads ⟨_, _, rfl, derived⟩ rest
      | utility derived =>
        obtain @⟨t, word, utility, ts, args, named, spells, derived⟩ := derived
        have body := parenthesized_follows.reads derived rest
        simp only [List.cons_append, next_cons, identifier_of_method named spells, spells,
          List.tail_cons, body, Except.ok_bind]
        rfl
    · cases derived with
      | map derived =>
        obtain ⟨p, ts, rfl⟩ := derived.keyword
        have body := (functionCall_follows .map p).reads ⟨_, _, rfl, derived⟩ rest
        simp only [List.cons_append, next_cons, List.tail_cons, body, Except.ok_bind]
        rfl
      | forEach derived =>
        obtain ⟨p, ts, rfl⟩ := derived.keyword
        have body := (functionCall_follows .forEach p).reads ⟨_, _, rfl, derived⟩ rest
        simp only [List.cons_append, next_cons, List.tail_cons, body, Except.ok_bind]
        rfl

end Parse

end StudioScript
