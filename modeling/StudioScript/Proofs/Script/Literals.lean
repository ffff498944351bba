import StudioScript.Proofs.Script.Tokens

/-! # Reading literals and arguments

The rules for nested literals and arguments read what the grammar derives: all that they read is
derived, whatever bound they have on their steps, and with the bound `stepsFor` they read all that
is derived.
-/

namespace StudioScript

namespace Grammar

theorem Value.begins {ts : List Token} {v : Literal} (derived : Value ts v) : Begins ts := by
  cases derived with
  | string s p => exact ⟨_, _, rfl, by simp⟩
  | number x p => exact ⟨_, _, rfl, by simp⟩
  | boolean b p => exact ⟨_, _, rfl, by simp⟩
  | array read =>
    cases read
    exact ⟨_, _, rfl, by simp⟩
  | object read distinct =>
    cases read
    exact ⟨_, _, rfl, by simp⟩

theorem Field.begins {value : List Token → Literal → Prop} {ts : List Token}
    {entry : String × Literal} (derived : Field value ts entry) : Begins ts := by
  cases derived with
  | mk name read => exact name.begins _

/-- Items in front of a token that is no line feed do not begin with one either. -/
theorem Listed.next_ne_newline {α : Type} {item : List Token → α → Prop} {ts rest : List Token}
    {xs : List α} (begins : ∀ ts x, item ts x → Begins ts) (listed : Listed item ts xs)
    (other : (Parse.next rest).kind ≠ .newline) : (Parse.next (ts ++ rest)).kind ≠ .newline := by
  cases listed with
  | none => exact other
  | last read _ =>
    rw [List.append_assoc]
    exact Parse.next_ne_of_begins (begins _ _ read) _ (by simp)
  | more read _ _ _ =>
    rw [List.append_assoc]
    exact Parse.next_ne_of_begins (begins _ _ read) _ (by simp)

end Grammar

namespace Arguments

theorem entries_of_add? {args args' : Arguments} {key : String} {value : Literal}
    (added : args.add? key value = some args') :
    args'.entries = args.entries ++ [(key, value)] := by
  unfold add? at added
  split at added
  · cases added
  · cases added
    rfl

theorem add?_of_entries {args args' : Arguments} {key : String} {value : Literal}
    {entries : List (String × Literal)}
    (all : args'.entries = args.entries ++ (key, value) :: entries) :
    ∃ args₁, args.add? key value = some args₁ ∧ args₁.entries = args.entries ++ [(key, value)] := by
  have free : key ∉ args.keys := by
    have distinct := args'.distinct
    rw [all, List.map_append, List.map_cons] at distinct
    intro taken
    exact (List.nodup_append.mp distinct).2.2 key taken key List.mem_cons_self rfl
  simp only [add?, free, dif_neg, not_false_eq_true]
  exact ⟨_, rfl, rfl⟩

@[ext] theorem ext_entries {args args' : Arguments} (same : args.entries = args'.entries) :
    args = args' := by
  cases args
  cases args'
  cases same
  rfl

end Arguments

namespace Parse

open Grammar Arguments

/-! ## What is read is derived -/

mutual

theorem value_of_literalIn (n : Nat) {ts rest : List Token} {v : Literal}
    (ran : literalIn n ts = .ok (v, rest)) : ∃ read, ts = read ++ rest ∧ Value read v := by
  match n with
  | 0 => cases faultAt_eq_ok.mp ran
  | n + 1 =>
    simp only [literalIn] at ran
    split at ran
    · next s found =>
      cases ran
      obtain ⟨p, shape⟩ := eq_cons_of_next found (by simp)
      exact ⟨[⟨.string s, p⟩], shape, .string s p⟩
    · next x found =>
      cases ran
      obtain ⟨p, shape⟩ := eq_cons_of_next found (by simp)
      exact ⟨[⟨.number x, p⟩], shape, .number x p⟩
    · next b found =>
      cases ran
      obtain ⟨p, shape⟩ := eq_cons_of_next found (by simp)
      exact ⟨[⟨.boolean b, p⟩], shape, .boolean b p⟩
    · next found =>
      obtain ⟨⟨items, mid⟩, ranItems, ran⟩ := Except.bind_eq_ok.mp ran
      obtain ⟨behind, closes, ran⟩ := Except.bind_eq_ok.mp ran
      cases ran
      obtain ⟨p, opens⟩ := eq_cons_of_next found (by simp)
      obtain ⟨gap, newlines, gapped⟩ := exists_newlines ts.tail
      obtain ⟨inner, shape, listed⟩ := listed_of_itemsIn n ranItems
      obtain ⟨q, rfl⟩ := (expect_eq_ok (by simp)).mp closes
      refine ⟨⟨.leftBracket, p⟩ :: (gap ++ (inner ++ [⟨.rightBracket, q⟩])), ?_,
        .array (.mk newlines listed)⟩
      rw [opens, gapped, shape]
      simp only [List.cons_append, List.append_assoc, List.nil_append]
    · next found =>
      obtain ⟨⟨args, mid⟩, ranFields, ran⟩ := Except.bind_eq_ok.mp ran
      obtain ⟨behind, closes, ran⟩ := Except.bind_eq_ok.mp ran
      cases ran
      obtain ⟨p, opens⟩ := eq_cons_of_next found (by simp)
      obtain ⟨gap, newlines, gapped⟩ := exists_newlines ts.tail
      obtain ⟨inner, entries, shape, listed, all⟩ := listed_of_argumentsIn n ranFields
      obtain ⟨q, rfl⟩ := (expect_eq_ok (by simp)).mp closes
      obtain rfl : args.entries = entries := all
      refine ⟨⟨.leftBrace, p⟩ :: (gap ++ (inner ++ [⟨.rightBrace, q⟩])), ?_,
        .object (.mk newlines listed) args.distinct⟩
      rw [opens, gapped, shape]
      simp only [List.cons_append, List.append_assoc, List.nil_append]
    · cases faultAt_eq_ok.mp ran

theorem listed_of_itemsIn (n : Nat) {ts rest : List Token} {vs : List Literal}
    (ran : itemsIn n ts = .ok (vs, rest)) : ∃ read, ts = read ++ rest ∧ Listed Value read vs := by
  match n with
  | 0 => cases faultAt_eq_ok.mp ran
  | n + 1 =>
    simp only [itemsIn] at ran
    split at ran
    · cases ran
      exact ⟨[], rfl, .none⟩
    · obtain ⟨⟨v, mid⟩, ranItem, goes⟩ := Except.bind_eq_ok.mp ran
      obtain ⟨read, rfl, derived⟩ := value_of_literalIn n ranItem
      obtain ⟨gap, newlines, gapped⟩ := exists_newlines mid
      split at goes
      · next comma =>
        obtain ⟨⟨vs', mid'⟩, ranItems, ends⟩ := Except.bind_eq_ok.mp goes
        cases ends
        obtain ⟨p, behind⟩ := eq_cons_of_next comma (by simp)
        obtain ⟨gap', newlines', gapped'⟩ := exists_newlines (skipNewlines mid).tail
        obtain ⟨reads, shape, listed⟩ := listed_of_itemsIn n ranItems
        refine ⟨_, ?_, .more (p := p) derived newlines newlines' listed⟩
        rw [gapped, behind, gapped', shape]
        simp only [List.cons_append, List.append_assoc]
      · cases goes
        refine ⟨read ++ gap, ?_, .last derived newlines⟩
        rw [List.append_assoc, ← gapped]

theorem listed_of_argumentsIn (n : Nat) {closing : TokenKind} {args args' : Arguments}
    {ts rest : List Token} (ran : argumentsIn n closing args ts = .ok (args', rest)) :
    ∃ read entries, ts = read ++ rest ∧ Listed (Field Value) read entries ∧
      args'.entries = args.entries ++ entries := by
  match n with
  | 0 => cases faultAt_eq_ok.mp ran
  | n + 1 =>
    simp only [argumentsIn] at ran
    split at ran
    · cases ran
      exact ⟨[], [], rfl, .none, (List.append_nil _).symm⟩
    · obtain ⟨⟨key, behindKey⟩, named, ran⟩ := Except.bind_eq_ok.mp ran
      obtain ⟨behindAssign, assigns, ran⟩ := Except.bind_eq_ok.mp ran
      obtain ⟨⟨v, mid⟩, ranValue, ran⟩ := Except.bind_eq_ok.mp ran
      obtain ⟨t, rfl, name⟩ := name_eq_ok.mp named
      obtain ⟨p, rfl⟩ := (expect_eq_ok (by simp)).mp assigns
      obtain ⟨read, rfl, derived⟩ := value_of_literalIn n ranValue
      obtain ⟨gap, newlines, gapped⟩ := exists_newlines mid
      have field : Field Value (t :: ⟨.assign, p⟩ :: read) (key, v) := .mk name derived
      simp only at ran
      split at ran
      · cases faultAt_eq_ok.mp ran
      · next args₁ added =>
        have grown := entries_of_add? added
        split at ran
        · next comma =>
          obtain ⟨q, behind⟩ := eq_cons_of_next comma (by simp)
          obtain ⟨gap', newlines', gapped'⟩ := exists_newlines (skipNewlines mid).tail
          obtain ⟨reads, entries, shape, listed, all⟩ := listed_of_argumentsIn n ran
          refine ⟨_, _, ?_, .more (p := q) field newlines newlines' listed, ?_⟩
          · rw [gapped, behind, gapped', shape]
            simp only [List.cons_append, List.append_assoc]
          · rw [all, grown, List.append_assoc, List.singleton_append]
        · cases ran
          refine ⟨_, _, ?_, .last field newlines, grown⟩
          simp only [List.cons_append, List.append_assoc, ← gapped]

end

/-! ## What is derived is read -/

theorem skipNewlines_listed {α : Type} {item : List Token → α → Prop} {gap ts rest : List Token}
    {xs : List α} (newlines : Newlines gap) (begins : ∀ ts x, item ts x → Begins ts)
    (listed : Listed item ts xs) (other : (next rest).kind ≠ .newline) :
    skipNewlines (gap ++ (ts ++ rest)) = ts ++ rest := by
  rw [skipNewlines_append newlines]
  exact skipNewlines_eq_self (listed.next_ne_newline begins other)

/-- One argument is read, and then the ones behind its comma. -/
theorem argumentsIn_cons {n : Nat} {closing : TokenKind} {args args₁ : Arguments} {t : Token}
    {key : String} {p : Position} {ts behind : List Token} {v : Literal} (named : Name t key)
    (closes : closing ∈ [.newline, .rightParen, .rightBracket, .rightBrace])
    (value : literalIn n ts = .ok (v, behind)) (added : args.add? key v = some args₁) :
    argumentsIn (n + 1) closing args (t :: ⟨.assign, p⟩ :: ts) =
      if (next (skipNewlines behind)).kind = .comma then
        argumentsIn n closing args₁ (skipNewlines (skipNewlines behind).tail)
      else .ok (args₁, skipNewlines behind) := by
  have opens : (next ([t] ++ ⟨.assign, p⟩ :: ts)).kind ≠ closing :=
    next_ne_of_begins (named.begins []) _ closes
  have key : name (t :: ⟨.assign, p⟩ :: ts) = .ok (key, ⟨.assign, p⟩ :: ts) :=
    name_eq_ok.mpr ⟨t, rfl, named⟩
  rw [List.singleton_append] at opens
  simp only [argumentsIn, opens, if_false, key, Except.ok_bind, expect_cons, value, added]
  rfl

mutual

theorem literalIn_of_value (n : Nat) {ts : List Token} {v : Literal} (rest : List Token)
    (derived : Value ts v) (enough : 2 * ts.length ≤ n + 1) :
    literalIn n (ts ++ rest) = .ok (v, rest) := by
  match n with
  | 0 =>
    -- A value has a token, and a token is worth two steps.
    obtain ⟨t, ts, rfl, _⟩ := derived.begins
    simp only [List.length_cons] at enough
    omega
  | n + 1 =>
    cases derived with
    | string s p => rfl
    | number x p => rfl
    | boolean b p => rfl
    | @array _ items read =>
      obtain @⟨p, gap, inner, _, q, newlines, listed⟩ := read
      simp only [List.length_cons, List.length_append, List.length_nil] at enough
      have left : skipNewlines (gap ++ (inner ++ ⟨.rightBracket, q⟩ :: rest)) =
          inner ++ ⟨.rightBracket, q⟩ :: rest :=
        skipNewlines_listed newlines (fun _ _ => Value.begins) listed (by simp)
      have body := itemsIn_of_listed n (⟨.rightBracket, q⟩ :: rest) rfl listed (by omega)
      simp only [List.cons_append, List.append_assoc, List.nil_append, literalIn, next_cons,
        List.tail_cons, left, body, Except.ok_bind, expect_cons]
      rfl
    | @object _ entries read distinct =>
      obtain @⟨p, gap, inner, _, q, newlines, listed⟩ := read
      simp only [List.length_cons, List.length_append, List.length_nil] at enough
      have left : skipNewlines (gap ++ (inner ++ ⟨.rightBrace, q⟩ :: rest)) =
          inner ++ ⟨.rightBrace, q⟩ :: rest :=
        skipNewlines_listed newlines (fun _ _ => Field.begins) listed (by simp)
      have body : argumentsIn n .rightBrace .empty (inner ++ ⟨.rightBrace, q⟩ :: rest) =
          .ok (⟨entries, distinct⟩, ⟨.rightBrace, q⟩ :: rest) :=
        argumentsIn_of_listed n _ rfl (by simp) listed rfl (by omega)
      simp only [List.cons_append, List.append_assoc, List.nil_append, literalIn, next_cons,
        List.tail_cons, left, body, Except.ok_bind, expect_cons]
      rfl

theorem itemsIn_of_listed (n : Nat) {ts : List Token} {vs : List Literal} (rest : List Token)
    (closed : (next rest).kind = .rightBracket) (listed : Listed Value ts vs)
    (enough : 2 * ts.length + 1 ≤ n) : itemsIn n (ts ++ rest) = .ok (vs, rest) := by
  match n with
  | 0 => omega
  | n + 1 =>
    have inside : (next rest).kind ≠ .newline := by simp [closed]
    cases listed with
    | none => simp only [itemsIn, List.nil_append, closed, if_true]
    -- An item begins with no bracket, so that the array does not end in front of it.
    | @last ts v gap read newlines =>
      simp only [List.length_append] at enough
      have item := literalIn_of_value n (gap ++ rest) read (by omega)
      have opens : (next (ts ++ (gap ++ rest))).kind ≠ .rightBracket :=
        next_ne_of_begins read.begins _ (by simp)
      have left : skipNewlines (gap ++ rest) = rest := by
        rw [skipNewlines_append newlines, skipNewlines_eq_self inside]
      have ends : (next rest).kind ≠ .comma := by simp [closed]
      simp only [itemsIn, List.append_assoc, opens, if_false, item, Except.ok_bind, left, ends]
      rfl
    | @more ts v before p after others vs read newlines newlines' listed =>
      simp only [List.length_append, List.length_cons] at enough
      have item := literalIn_of_value n (before ++ ⟨.comma, p⟩ :: (after ++ (others ++ rest))) read
        (by omega)
      have opens : (next (ts ++ (before ++ ⟨.comma, p⟩ :: (after ++ (others ++ rest))))).kind ≠
          .rightBracket := next_ne_of_begins read.begins _ (by simp)
      have comma : skipNewlines (before ++ ⟨.comma, p⟩ :: (after ++ (others ++ rest))) =
          ⟨.comma, p⟩ :: (after ++ (others ++ rest)) :=
        (skipNewlines_eq_cons (by simp)).mpr ⟨before, newlines, rfl⟩
      have left : skipNewlines (after ++ (others ++ rest)) = others ++ rest :=
        skipNewlines_listed newlines' (fun _ _ => Value.begins) listed inside
      have items := itemsIn_of_listed n rest closed listed (by omega)
      simp only [itemsIn, List.append_assoc, List.cons_append, opens, if_false, item,
        Except.ok_bind, comma, next_cons, if_true, List.tail_cons, left, items]
      rfl

theorem argumentsIn_of_listed (n : Nat) {closing : TokenKind} {args args' : Arguments}
    {ts : List Token} {entries : List (String × Literal)} (rest : List Token)
    (closed : (next rest).kind = closing) (bracket : closing ∈ [.rightParen, .rightBrace])
    (listed : Listed (Field Value) ts entries) (all : args'.entries = args.entries ++ entries)
    (enough : 2 * ts.length + 1 ≤ n) :
    argumentsIn n closing args (ts ++ rest) = .ok (args', rest) := by
  match n with
  | 0 => omega
  | n + 1 =>
    have inside : (next rest).kind ≠ .newline := by
      rw [closed]
      rintro rfl
      simp at bracket
    have closes : closing ∈ [.newline, .rightParen, .rightBracket, .rightBrace] := by
      simp only [List.mem_cons, List.not_mem_nil, or_false] at bracket
      rcases bracket with rfl | rfl <;> simp
    cases listed with
    | none =>
      obtain rfl : args' = args := Arguments.ext_entries (all.trans (List.append_nil _))
      simp only [argumentsIn, List.nil_append, closed, if_true]
    | @last ts entry gap read newlines =>
      obtain @⟨t, key, p, ts, v, named, read⟩ := read
      simp only [List.length_append, List.length_cons] at enough
      obtain ⟨args₁, added, grown⟩ := Arguments.add?_of_entries all
      obtain rfl : args' = args₁ := Arguments.ext_entries (all.trans grown.symm)
      have value := literalIn_of_value n (gap ++ rest) read (by omega)
      have left : skipNewlines (gap ++ rest) = rest := by
        rw [skipNewlines_append newlines, skipNewlines_eq_self inside]
      have ends : (next rest).kind ≠ .comma := by
        rw [closed]
        rintro rfl
        simp at bracket
      simp only [List.append_assoc, List.cons_append, argumentsIn_cons named closes value added,
        left, ends, if_false]
    | @more ts entry before q after others entries read newlines newlines' listed =>
      obtain @⟨t, key, p, ts, v, named, read⟩ := read
      simp only [List.length_append, List.length_cons] at enough
      obtain ⟨args₁, added, grown⟩ := Arguments.add?_of_entries all
      have value := literalIn_of_value n (before ++ ⟨.comma, q⟩ :: (after ++ (others ++ rest))) read
        (by omega)
      have comma : skipNewlines (before ++ ⟨.comma, q⟩ :: (after ++ (others ++ rest))) =
          ⟨.comma, q⟩ :: (after ++ (others ++ rest)) :=
        (skipNewlines_eq_cons (by simp)).mpr ⟨before, newlines, rfl⟩
      have left : skipNewlines (after ++ (others ++ rest)) = others ++ rest :=
        skipNewlines_listed newlines' (fun _ _ => Field.begins) listed inside
      have remaining : args'.entries = args₁.entries ++ entries := by
        rw [all, grown, List.append_assoc, List.singleton_append]
      simp only [List.append_assoc, List.cons_append, argumentsIn_cons named closes value added,
        comma, next_cons, if_true, List.tail_cons, left]
      exact argumentsIn_of_listed n rest closed bracket listed remaining (by omega)

end

/-! ## Literals and arguments -/

theorem literal_follows : Follows literal Value := by
  intro ts v rest
  constructor
  · exact value_of_literalIn _
  · rintro ⟨read, rfl, derived⟩
    apply literalIn_of_value _ rest derived
    simp only [stepsFor, List.length_append]
    omega

/-- Arguments with the parenthesis that closes them. -/
theorem arguments_eq_ok {ts rest : List Token} {args : Arguments} {q : Position} :
    arguments ts = .ok (args, ⟨.rightParen, q⟩ :: rest) ↔
      ∃ gap inner, Newlines gap ∧ ts = gap ++ (inner ++ ⟨.rightParen, q⟩ :: rest) ∧
        Listed (Field Value) inner args.entries := by
  constructor
  · intro ran
    obtain ⟨inner, entries, shape, listed, all⟩ := listed_of_argumentsIn _ ran
    obtain rfl : args.entries = entries := all
    obtain ⟨gap, newlines, gapped⟩ := exists_newlines ts
    exact ⟨gap, inner, newlines, shape ▸ gapped, listed⟩
  · rintro ⟨gap, inner, newlines, rfl, listed⟩
    have left : skipNewlines (gap ++ (inner ++ ⟨.rightParen, q⟩ :: rest)) =
        inner ++ ⟨.rightParen, q⟩ :: rest :=
      skipNewlines_listed newlines (fun _ _ => Field.begins) listed (by simp)
    rw [arguments, left]
    refine argumentsIn_of_listed _ _ rfl ?_ listed rfl ?_
    · simp
    · simp only [stepsFor, List.length_append]
      omega

theorem parenthesized_follows : Follows parenthesized Parenthesized := by
  intro ts args rest
  constructor
  · intro ran
    obtain ⟨behind, opens, ran⟩ := Except.bind_eq_ok.mp ran
    obtain ⟨⟨args, mid⟩, ranFields, ran⟩ := Except.bind_eq_ok.mp ran
    obtain ⟨behind', closes, ran⟩ := Except.bind_eq_ok.mp ran
    cases ran
    obtain ⟨p, rfl⟩ := (expect_eq_ok (by simp)).mp opens
    obtain ⟨q, rfl⟩ := (expect_eq_ok (by simp)).mp closes
    obtain ⟨gap, inner, newlines, rfl, listed⟩ := arguments_eq_ok.mp ranFields
    refine ⟨_, ?_, Bracketed.mk (p := p) (q := q) newlines listed⟩
    simp only [List.cons_append, List.append_assoc, List.nil_append]
  · rintro ⟨read, rfl, derived⟩
    obtain @⟨p, gap, inner, _, q, newlines, listed⟩ := derived
    have body : arguments (gap ++ (inner ++ ⟨.rightParen, q⟩ :: rest)) =
        .ok (args, ⟨.rightParen, q⟩ :: rest) :=
      arguments_eq_ok.mpr ⟨gap, inner, newlines, rfl, listed⟩
    simp only [parenthesized, List.cons_append, List.append_assoc, List.nil_append, expect_cons,
      Except.ok_bind, body]
    rfl

end Parse

end StudioScript
