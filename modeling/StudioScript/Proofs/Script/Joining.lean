import StudioScript.Proofs.Script.Statements
import StudioScript.Proofs.Token.Joining

/-! # Joining scripts

The grammar does not ask where a token stands, except for the line of a statement, so that tokens
further down derive the same, with all statements further down.  A line feed is a separator, and a
chain goes on only before a dot, which begins no script.  So the statements of two texts with a line
feed between them are those of the first and then those of the second (`Script.ofText_joined`).
-/

namespace StudioScript

/-- The same statement, `n` lines further down. -/
def Statement.down (n : Nat) (st : Statement) : Statement := { st with line := st.line + n }

namespace Grammar

/-! ## Derivations further down -/

variable {α : Type} (n : Nat)

theorem Newlines.down {ts : List Token} (newlines : Newlines ts) :
    Newlines (ts.map (.down n)) := by
  intro t member
  obtain ⟨t', inside, rfl⟩ := List.mem_map.mp member
  exact newlines t' inside

theorem Separators.down {ts : List Token} (separators : Separators ts) :
    Separators (ts.map (.down n)) := by
  intro t member
  obtain ⟨t', inside, rfl⟩ := List.mem_map.mp member
  exact separators t' inside

theorem Name.down {t : Token} {word : String} (name : Name t word) : Name (t.down n) word := by
  cases name <;> constructor

theorem Listed.down {item : List Token → α → Prop} {ts : List Token} {xs : List α}
    (listed : Listed item ts xs)
    (items : ∀ part x, part.length ≤ ts.length → item part x → item (part.map (.down n)) x) :
    Listed item (ts.map (.down n)) xs := by
  induction listed with
  | none => exact .none
  | last read newlines =>
    rw [List.map_append]
    exact .last (items _ _ (by simp) read) (newlines.down n)
  | more read newlines newlines' others inductionHypothesis =>
    simp only [List.map_append, List.map_cons]
    refine .more (items _ _ (by simp) read) (newlines.down n) (newlines'.down n)
      (inductionHypothesis fun part x shorter => items part x ?_)
    simp only [List.length_append, List.length_cons]
    omega

theorem Bracketed.down {opening closing : TokenKind} {item : List Token → α → Prop}
    {ts : List Token} {xs : List α} (bracketed : Bracketed opening closing item ts xs)
    (items : ∀ part x, part.length < ts.length → item part x → item (part.map (.down n)) x) :
    Bracketed opening closing item (ts.map (.down n)) xs := by
  obtain ⟨newlines, listed⟩ := bracketed
  simp only [List.map_append, List.map_cons]
  refine .mk (newlines.down n) (listed.down n fun part x shorter => items part x ?_)
  simp only [List.length_append, List.length_cons]
  omega

theorem Field.down {value : List Token → Literal → Prop} {ts : List Token}
    {field : String × Literal} (derived : Field value ts field)
    (values : ∀ part v, part.length ≤ ts.length → value part v → value (part.map (.down n)) v) :
    Field value (ts.map (.down n)) field := by
  obtain ⟨name, read⟩ := derived
  exact .mk (name.down n) (values _ _ (by simp only [List.length_cons]; omega) read)

theorem Value.down {ts : List Token} {v : Literal} (derived : Value ts v) :
    Value (ts.map (.down n)) v := by
  -- As `Value` is nested in other rules, the induction is on the number of tokens.
  induction size : ts.length using Nat.strongRecOn generalizing ts v with
  | ind size' inductionHypothesis =>
    subst size
    cases derived with
    | string | number | boolean => constructor
    | array read =>
      exact .array (read.down n fun _ _ shorter derived =>
        inductionHypothesis _ shorter derived rfl)
    | object read distinct =>
      refine .object (read.down n fun _ _ shorter field => ?_) distinct
      exact field.down n fun _ _ within derived =>
        inductionHypothesis _ (Nat.lt_of_le_of_lt within shorter) derived rfl

theorem Parenthesized.down {ts : List Token} {args : Arguments} (read : Parenthesized ts args) :
    Parenthesized (ts.map (.down n)) args :=
  Bracketed.down n read fun _ _ _ field => field.down n fun _ _ _ derived => derived.down n

theorem TrackCall.down {ts : List Token} {c : Call} (derived : TrackCall ts c) :
    TrackCall (ts.map (.down n)) c := by
  cases derived with
  | number newlines newlines' =>
    simp only [List.map_append, List.map_cons]
    exact .number (newlines.down n) (newlines'.down n)
  | keywords read => exact .keywords (read.down n)

theorem Condition.down {ts : List Token} {p : Predicate} (derived : Condition ts p) :
    Condition (ts.map (.down n)) p := by
  cases derived with
  | compare name name' compares read =>
    exact .compare (name.down n) (name'.down n) compares (read.down n)
  | member name name' read =>
    exact .member (name.down n) (name'.down n) (read.down n fun _ _ _ derived => derived.down n)

theorem FunctionRef.down {ts : List Token} {f : ItemFunction} (derived : FunctionRef ts f) :
    FunctionRef (ts.map (.down n)) f := by
  cases derived with
  | named name => exact .named (name.down n)
  | method name name' spells read => exact .method (name.down n) (name'.down n) spells (read.down n)

theorem CollectionCall.down {keyword : TokenKind} {content : List Token → α → Prop}
    {ts : List Token} {c : String} {x : α} (derived : CollectionCall keyword content ts c x)
    (contents : ∀ part x, content part x → content (part.map (.down n)) x) :
    CollectionCall keyword content (ts.map (.down n)) c x := by
  obtain ⟨newlines, name, newlines', read, newlines''⟩ := derived
  simp only [List.map_append, List.map_cons]
  exact .mk (newlines.down n) (name.down n) (newlines'.down n) (contents _ _ read)
    (newlines''.down n)

theorem UtilityCall.down {ts : List Token} {c : Call} (derived : UtilityCall ts c) :
    UtilityCall (ts.map (.down n)) c := by
  obtain ⟨name, spells, read⟩ := derived
  exact .mk (name.down n) spells (read.down n)

theorem Chain.down {ts : List Token} {chain : List Invocation} (links : Chain ts chain) :
    Chain (ts.map (.down n)) chain := by
  induction links with
  | none => exact .none
  | link newlines name spells read _ inductionHypothesis =>
    simp only [List.map_append, List.map_cons]
    exact .link (newlines.down n) (name.down n) spells (read.down n) inductionHypothesis

theorem ChainableCall.down {ts : List Token} {c : Call} (derived : ChainableCall ts c) :
    ChainableCall (ts.map (.down n)) c := by
  cases derived with
  | track read => exact .track (read.down n)
  | filter read => exact .filter (read.down n fun _ _ condition => condition.down n)
  | utility read => exact .utility (read.down n)

theorem ItemwiseCall.down {ts : List Token} {c : Call} (derived : ItemwiseCall ts c) :
    ItemwiseCall (ts.map (.down n)) c := by
  cases derived with
  | map read => exact .map (read.down n fun _ _ function => function.down n)
  | forEach read => exact .forEach (read.down n fun _ _ function => function.down n)

theorem StatementRule.down {ts : List Token} {st : Statement} (derived : StatementRule ts st) :
    StatementRule (ts.map (.down n)) (st.down n) := by
  cases derived with
  | chained read chained =>
    rw [List.map_append]
    exact .chained (read.down n) (chained.down n)
  | alone read => exact .alone (read.down n)

theorem Statements.down {ts : List Token} {sts : List Statement} (derived : Statements ts sts) :
    Statements (ts.map (.down n)) (sts.map (.down n)) := by
  induction derived with
  | last read => exact .last (read.down n)
  | more read separators some _ inductionHypothesis =>
    simp only [List.map_append, List.map_cons]
    exact .more (read.down n) (separators.down n) (by simpa using some) inductionHypothesis

/-- Separators join statements to statements. -/
theorem Statements.append {ts ts' gap : List Token} {sts sts' : List Statement}
    (first : Statements ts sts) (separators : Separators gap) (some : gap ≠ [])
    (second : Statements ts' sts') : Statements (ts ++ (gap ++ ts')) (sts ++ sts') := by
  induction first with
  | last read => exact .more read separators some second
  | more read separators' some' _ inductionHypothesis =>
    simp only [List.append_assoc, List.cons_append]
    exact .more read separators' some' inductionHypothesis

/-! ## Before the end of the input -/

/-- `separator* (statement (separator+ statement)*)? separator*` -/
inductive Body : List Token → List Statement → Prop where
  | empty {gap} (separators : Separators gap) : Body gap []
  | statements {gap ts sts gap'} (separators : Separators gap) (read : Statements ts sts)
      (separators' : Separators gap') : Body (gap ++ (ts ++ gap')) sts

theorem ScriptRule.body {ts : List Token} {script : Script} (derived : ScriptRule ts script) :
    ∃ body p, ts = body ++ [⟨.endOfInput, p⟩] ∧ Body body script.statements := by
  cases derived with
  | @empty gap p separators => exact ⟨gap, p, rfl, .empty separators⟩
  | @statements gap ts sts gap' p separators read separators' =>
    exact ⟨gap ++ (ts ++ gap'), p, by simp, .statements separators read separators'⟩

namespace Body

variable {ts ts' : List Token} {sts sts' : List Statement}

theorem down (derived : Body ts sts) : Body (ts.map (.down n)) (sts.map (.down n)) := by
  cases derived with
  | empty separators => exact .empty (separators.down n)
  | statements separators read separators' =>
    simp only [List.map_append]
    exact .statements (separators.down n) (read.down n) (separators'.down n)

theorem behind_separators {gap : List Token} (separators : Separators gap)
    (derived : Body ts sts) : Body (gap ++ ts) sts := by
  cases derived with
  | empty separators' => exact .empty (List.forall_mem_append.mpr ⟨separators, separators'⟩)
  | statements separators' read separators'' =>
    rw [← List.append_assoc]
    exact .statements (List.forall_mem_append.mpr ⟨separators, separators'⟩) read separators''

/-- What two scripts derive, with a line feed between them, is derived one after the other. -/
theorem joined (first : Body ts sts) (second : Body ts' sts') (p : Position) :
    Body (ts ++ ⟨.newline, p⟩ :: ts') (sts ++ sts') := by
  -- The separators behind the one script, the line feed and those before the other are one gap.
  have between {gap gap' : List Token} (before : Separators gap) (after : Separators gap') :
      Separators (gap ++ ⟨.newline, p⟩ :: gap') :=
    List.forall_mem_append.mpr ⟨before, List.forall_mem_cons.mpr ⟨.inl rfl, after⟩⟩
  cases first with
  | empty separators =>
    have joint := second.behind_separators (between separators (List.forall_mem_nil _))
    rwa [List.append_assoc] at joint
  | statements separators read separators' =>
    cases second with
    | empty separators'' =>
      have joint := Body.statements separators read (between separators' separators'')
      simpa only [List.append_assoc, List.append_nil] using joint
    | statements separators'' read' last =>
      have both := read.append (between separators' separators'') (by simp) read'
      have joint := Body.statements separators both last
      simpa only [List.append_assoc, List.cons_append] using joint

/-- The parser reads what is derived. -/
theorem parsed (derived : Body ts sts) (p : Position) :
    Script.ofTokens (ts ++ [⟨.endOfInput, p⟩]) = .ok ⟨sts⟩ := by
  rw [Script.ofTokens, Parse.closed_concat]
  cases derived with
  | empty separators =>
    rw [Parse.statementsIn_of_separators separators]
    rfl
  | @statements gap ts sts gap' separators read separators' =>
    have enough : ts.length ≤ (gap ++ (ts ++ gap') ++ [(⟨.endOfInput, p⟩ : Token)]).length := by
      simp only [List.length_append]
      omega
    have ran := Parse.statementsIn_of_statements separators read separators' p enough
    simp only [List.append_assoc] at ran ⊢
    rw [ran]
    rfl

end Body

end Grammar

namespace Script

/-- The statements of a text are derived from its tokens before the end of the input. -/
theorem body_of_ofText {text : String} {ts : List Token} {script : Script}
    (read : Token.ofText text = .ok ts) (parsed : ofTokens ts = .ok script) :
    ∃ body p, ts = body ++ [⟨.endOfInput, p⟩] ∧ Grammar.Body body script.statements := by
  obtain ⟨body, q, rfl, inner⟩ := Token.areWhole_of_ofText read
  exact (Parse.script_of_ofTokens (fun t member => (inner t member).1) parsed).body

/-- Joined by a line feed, two scripts are read one after the other: the statements of the first are
    unchanged, and those of the second stand further down by the lines of the first. -/
theorem ofText_joined {a b : String} {first second : Script} (parsed : ofText a = .ok first)
    (parsed' : ofText b = .ok second) :
    ∃ ts p, Token.ofText a = .ok (ts ++ [⟨.endOfInput, p⟩]) ∧
      ofText (a ++ "\n" ++ b) =
        .ok ⟨first.statements ++ second.statements.map (.down p.line)⟩ := by
  obtain ⟨ts, read, parsed⟩ := Except.bind_eq_ok.mp parsed
  obtain ⟨ts', read', parsed'⟩ := Except.bind_eq_ok.mp parsed'
  obtain ⟨body, p, shape, joined⟩ := Token.ofText_append_lineFeed read read'
  -- The end of the first text is told in two ways, which are the same as it stands last.
  obtain ⟨_, _, shape', upper⟩ := body_of_ofText read parsed
  obtain ⟨body', q, rfl, lower⟩ := body_of_ofText read' parsed'
  obtain ⟨rfl, -⟩ := List.append_inj' (shape.symm.trans shape') rfl
  refine ⟨body, p, shape ▸ read, ?_⟩
  rw [ofText, joined, Except.ok_bind]
  have derived := upper.joined (lower.down p.line) p
  have ran := derived.parsed (q.down p.line)
  rw [List.append_assoc] at ran
  rw [List.map_append]
  exact ran

/-- A chain with a comment behind it, and a script that begins with a comment and a separator. -/
theorem ofText_joined_behind_comment :
    let a := "track().delete() // one"
    let b := "// two\n; track()"
    let first : Statement := ⟨1, .track .empty, [⟨.edit .delete, .empty⟩]⟩
    let second : Statement := ⟨2, .track .empty, []⟩
    ofText a = .ok ⟨[first]⟩ ∧ ofText b = .ok ⟨[second]⟩ ∧
      ∃ ts p, Token.ofText a = .ok (ts ++ [⟨.endOfInput, p⟩]) ∧
        ofText (a ++ "\n" ++ b) = .ok ⟨[first, second.down p.line]⟩ := by
  intro a b first second
  have parsed : ofText a = .ok ⟨[first]⟩ := by cbv
  have parsed' : ofText b = .ok ⟨[second]⟩ := by cbv
  exact ⟨parsed, parsed', ofText_joined parsed parsed'⟩

end Script

end StudioScript
