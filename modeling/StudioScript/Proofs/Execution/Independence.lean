import StudioScript.Proofs.Execution.Chains

/-! # Statements that name their track

A head that names a track by its `id`, or as the selected one, sets the current track to the same
value in every state, or fails with the same error in every state.  The methods that are chained
onto it read no more of the state than the current track.  What such a statement comes to is
therefore a matter of the session and of the statement alone: it does not depend on what was run
before (`Run.named_track_independent`), and its methods may as well stand in statements of their
own.
-/

namespace StudioScript

/-- Whether the arguments of a track call name a track that is there: by its `id`, or as the
    selected one. -/
def Arguments.NamesTrack (args : Arguments) : Prop :=
  (∃ id, args.get? "id" = some id) ∨ args.get? "selected" = some (.boolean true)

theorem Arguments.ne_none_of_whole? {args : Arguments} {call key : String} {value : Literal}
    (given : args.get? key = some value) : args.whole? call key ≠ .ok none := by
  intro missing
  obtain ⟨x, read, rest⟩ := Except.bind_eq_ok.mp missing
  simp only [number?, given] at read
  split at read
  · cases read
    dsimp only at rest
    split at rest
    · split at rest <;> cases rest
    · cases rest
  · cases read

/-- A track call that names a track creates none. -/
theorem TrackRequest.ne_new_of_namesTrack {args : Arguments} (names : args.NamesTrack)
    (instrument name : Option String) (index : Option Nat) :
    ofArguments args ≠ .ok (.new instrument name index) := by
  intro request
  obtain ⟨id, given, rest⟩ := Except.bind_eq_ok.mp request
  cases id with
  | some id =>
    dsimp only at rest
    split at rest <;> cases rest
  | none =>
    obtain ⟨selected, flag, rest⟩ := Except.bind_eq_ok.mp rest
    rcases names with ⟨value, found⟩ | found
    · exact Arguments.ne_none_of_whole? found given
    · simp only [Arguments.boolean?, found] at flag
      cases flag
      simp only [if_true] at rest
      cases rest

namespace Run

/-- A head that names a track makes the same one the current track, whatever the state is, or fails
    with the same error. -/
theorem calls_of_namesTrack (ctx : Context) {args : Arguments} (names : args.NamesTrack) :
    (∃ e, ∀ cs s, calls ctx none (.track args :: cs) s = .error e s) ∨
      ∃ index, ∀ cs s, calls ctx none (.track args :: cs) s =
        calls ctx none cs { s with currentTrack := some index } := by
  simp only [calls, call, bind_apply, track_apply]
  cases request : TrackRequest.ofArguments args with
  | error e => exact .inl ⟨e, fun _ _ => rfl⟩
  | ok request' =>
    cases request' with
    | existing index => exact .inr ⟨index, fun _ _ => rfl⟩
    | selected =>
      cases ctx.session.selectedIndex? with
      | none => exact .inl ⟨_, fun _ _ => rfl⟩
      | some index => exact .inr ⟨index, fun _ _ => rfl⟩
    | new instrument name index =>
      exact absurd request (TrackRequest.ne_new_of_namesTrack names _ _ _)

/-! ## Two runs -/

/-- Whether two outcomes, of runs from the states `s` and `t`, are the same error, or are both
    successes with the same actions behind those that were there. -/
inductive Alike {α : Type} (s t : RunState) :
    EStateM.Result RunError RunState α → EStateM.Result RunError RunState α → Prop where
  | ok {x s' t'} (new : List Action) (left : s'.actions = s.actions ++ new)
      (right : t'.actions = t.actions ++ new) : Alike s t (.ok x s') (.ok x t')
  | error {e s' t'} : Alike s t (.error e s') (.error e t')

/-- Runs that add nothing are alike. -/
theorem Alike.unchanged {α : Type} {x : α} {s t s' t' : RunState} (left : s'.actions = s.actions)
    (right : t'.actions = t.actions) : Alike s t (.ok x s') (.ok x t') :=
  .ok [] (left.trans (List.append_nil _).symm) (right.trans (List.append_nil _).symm)

/-- All that counts of the states in which two runs began are their actions. -/
theorem Alike.of_actions {α : Type} {s t s₀ t₀ : RunState}
    {outcome outcome' : EStateM.Result RunError RunState α} (alike : Alike s t outcome outcome')
    (left : s.actions = s₀.actions) (right : t.actions = t₀.actions) :
    Alike s₀ t₀ outcome outcome' := by
  cases alike with
  | ok new added added' => exact .ok new (left ▸ added) (right ▸ added')
  | error => exact .error

theorem Alike.bind {α β : Type} {step : Run α} {next : α → Run β} {s t : RunState}
    (first : Alike s t (step s) (step t))
    (second : ∀ x mid mid', step s = .ok x mid → step t = .ok x mid' →
      Alike mid mid' (next x mid) (next x mid')) :
    Alike s t ((step >>= next) s) ((step >>= next) t) := by
  rw [bind_apply, bind_apply]
  generalize ran : step s = outcome at first
  generalize ran' : step t = outcome' at first
  cases first with
  | error => exact .error
  | @ok x mid mid' own left right =>
    have rest := second x mid mid' ran ran'
    dsimp only
    generalize next x mid = last at rest
    generalize next x mid' = last' at rest
    cases rest with
    | error => exact .error
    | ok more left' right' =>
      refine .ok (own ++ more) ?_ ?_
      · rw [left', left, List.append_assoc]
      · rw [right', right, List.append_assoc]

/-- A method reads no more of the state than the current track. -/
theorem call_method_alike (ctx : Context) (pending : Option Collection) (i : Invocation)
    {s t : RunState} (same : s.currentTrack = t.currentTrack) :
    Alike s t (call ctx pending (.method i) s) (call ctx pending (.method i) t) := by
  obtain ⟨method, args⟩ := i
  cases method with
  | utility u =>
    simp only [call, bind_apply, utility_apply, pure_apply, same]
    cases u.result ctx.session t.currentTrack args with
    | error e => exact .error
    | ok c => exact .unchanged rfl rfl
  | edit e =>
    rw [call_edit_apply, call_edit_apply, same]
    split
    · exact .unchanged rfl rfl
    · cases e.actions ctx t.currentTrack args pending with
      | error error => exact .error
      | ok actions => exact .ok actions rfl rfl

theorem calls_methods_alike (ctx : Context) (pending : Option Collection)
    (chain : List Invocation) {s t : RunState} (same : s.currentTrack = t.currentTrack) :
    Alike s t (calls ctx pending (chain.map .method) s)
      (calls ctx pending (chain.map .method) t) := by
  induction chain generalizing pending s t with
  | nil => exact .unchanged rfl rfl
  | cons i chain inductionHypothesis =>
    refine (call_method_alike ctx pending i same).bind fun pending' mid mid' ran ran' => ?_
    -- No method changes the current track, so that it stays the same in both runs.
    have kept := (effect_of_call ran).of_method.2
    have kept' := (effect_of_call ran').of_method.2
    exact inductionHypothesis pending' (by rw [kept, kept', same])

variable {ctx : Context} {args : Arguments}

theorem statement_alike (names : args.NamesTrack) (chain : List Invocation) (line line' : Nat)
    (s t : RunState) :
    Alike s t (statement ctx ⟨line, .track args, chain⟩ s)
      (statement ctx ⟨line', .track args, chain⟩ t) := by
  simp only [statement, Statement.calls]
  rcases calls_of_namesTrack ctx names with ⟨e, fails⟩ | ⟨index, sets⟩
  · rw [fails, fails]
    exact .error
  · rw [sets, sets]
    refine Alike.of_actions (calls_methods_alike ctx none chain ?_) rfl rfl
    rfl

/-! ## One statement for each method -/

/-- A chain that succeeds behind a head that names a track comes to the same as its methods in
    statements of their own with the same head. -/
theorem statements_apart (names : args.NamesTrack) {chain : List Invocation}
    {apart : List Statement}
    (each : List.Forall₂ (fun i st => st.calls = [.track args, .method i]) chain apart)
    {line : Nat} {s s' : RunState}
    (ran : statement ctx ⟨line, .track args, chain⟩ s = .ok () s') :
    ∃ last, statements ctx apart s = .ok last ∧ last.actions = s'.actions := by
  simp only [statement, Statement.calls] at ran
  rcases calls_of_namesTrack ctx names with ⟨e, fails⟩ | ⟨index, sets⟩
  · rw [fails] at ran
    cases ran
  · rw [sets] at ran
    induction each generalizing s with
    | nil =>
      cases ran
      exact ⟨s, rfl, rfl⟩
    | @cons i st chain apart shape _ inductionHypothesis =>
      obtain ⟨pending, mid, first, rest⟩ := calls_cons_eq_ok.mp ran
      obtain ⟨taken, kept⟩ := (effect_of_call first).of_method
      -- Behind the first method the current track is still the one that the head has set, and
      -- nothing is pending, so that the head may be repeated.
      have repeated : { mid with currentTrack := some index } = mid :=
        congrArg (fun track => { mid with currentTrack := track }) kept.symm
      have unpended : pending = none := by
        rw [taken, pendingBehind, ite_self]
      rw [unpended, ← repeated] at rest
      obtain ⟨last, ranRest, same⟩ := inductionHypothesis rest
      have alone : statement ctx st s = .ok () mid := by
        rw [statement, shape, sets]
        exact calls_cons_eq_ok.mpr ⟨pending, mid, first, rfl⟩
      exact ⟨last, statements_cons_eq_ok.mpr ⟨mid, alone, ranRest⟩, same⟩

/-! ## Independence -/

/-- What a statement with a head that names a track comes to depends on nothing that was run before.
    From any two states it fails with the same error or adds the same actions.  So it does behind
    any statements of any two scripts, where a failure ends both scripts with the actions before
    the statement.  If it succeeds, its methods add the same actions in the same order as statements
    of their own with the same head. -/
theorem named_track_independent (ctx : Context) {args : Arguments} (names : args.NamesTrack)
    (chain : List Invocation) :
    let st (line : Nat) : Statement := ⟨line, .track args, chain⟩
    (∀ line line' s t, Alike s t (statement ctx (st line) s) (statement ctx (st line') t)) ∧
    (∀ before line after mid before' line' after' mid',
      statements ctx before (.initial ctx.session) = .ok mid →
      statements ctx before' (.initial ctx.session) = .ok mid' →
        (∃ e, ctx.execute ⟨before ++ st line :: after⟩ = .error ⟨e, mid.actions⟩ ∧
          ctx.execute ⟨before' ++ st line' :: after'⟩ = .error ⟨e, mid'.actions⟩) ∨
        ∃ new next next',
          statements ctx (before ++ [st line]) (.initial ctx.session) = .ok next ∧
          statements ctx (before' ++ [st line']) (.initial ctx.session) = .ok next' ∧
          next.actions = mid.actions ++ new ∧ next'.actions = mid'.actions ++ new) ∧
    ∀ line s s', statement ctx (st line) s = .ok () s' → ∀ apart,
      List.Forall₂ (fun i alone => alone.calls = [.track args, .method i]) chain apart →
        ∃ last, statements ctx apart s = .ok last ∧ last.actions = s'.actions := by
  intro st
  refine ⟨fun line line' s t => statement_alike names chain line line' s t, ?_, ?_⟩
  · intro before line after mid before' line' after' mid' ran ran'
    have both : Alike mid mid' (statement ctx (st line) mid) (statement ctx (st line') mid') :=
      statement_alike names chain line line' mid mid'
    generalize outcome : statement ctx (st line) mid = left at both
    generalize outcome' : statement ctx (st line') mid' = right at both
    cases both with
    | @error e _ _ =>
      refine .inl ⟨e, ?_, ?_⟩
      · simp only [Context.execute, statements_append, ran, statements_of_failure outcome]
        rfl
      · simp only [Context.execute, statements_append, ran', statements_of_failure outcome']
        rfl
    | @ok _ next next' new added added' =>
      refine .inr ⟨new, next, next', ?_, ?_, added, added'⟩
      · rw [statements_append, ran]
        exact statements_cons_eq_ok.mpr ⟨next, outcome, rfl⟩
      · rw [statements_append, ran']
        exact statements_cons_eq_ok.mpr ⟨next', outcome', rfl⟩
  · intro line s s' ran apart each
    exact statements_apart names each ran

/-- The second of two tracks is selected.  In a run that has gone to another track and deleted one,
    deleting the selected track twice deletes the second track twice, as at the start of a run, and
    so do two statements that delete it once. -/
theorem named_track_independent_of_selected :
    let ctx : Context := { session := .ofTracks [{}, { selected := true }] }
    let args : Arguments := .single "selected" (.boolean true)
    let chain : List Invocation :=
      [⟨.utility .getFxChain, .empty⟩, ⟨.edit .delete, .empty⟩, ⟨.edit .delete, .empty⟩]
    let s : RunState := { currentTrack := some 7, nextIndex := 9, actions := [.deleteTrack 5] }
    args.NamesTrack ∧
      Alike s (.initial ctx.session) (statement ctx ⟨1, .track args, chain⟩ s)
        (statement ctx ⟨2, .track args, chain⟩ (.initial ctx.session)) ∧
      ∃ last, statements ctx (chain.map fun i => ⟨1, .track args, [i]⟩) s = .ok last ∧
        last.actions = [.deleteTrack 5, .deleteTrack 1, .deleteTrack 1] := by
  intro ctx args chain s
  have names : args.NamesTrack := .inr rfl
  obtain ⟨alike, _, apart⟩ := named_track_independent ctx names chain
  obtain ⟨last, ran, same⟩ := apart 1 s _ rfl (chain.map fun i => ⟨1, .track args, [i]⟩)
    (.cons rfl (.cons rfl (.cons rfl .nil)))
  exact ⟨names, alike 1 2 s _, last, ran, same⟩

end Run

end StudioScript
