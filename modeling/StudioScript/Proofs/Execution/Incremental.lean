import StudioScript.Proofs.Execution.Errors

/-! # Incremental execution

A run only ever appends to its actions: every call does, also one that fails in the end, and
`for_each` over items that fail in part.  Therefore a script that runs to its end also runs to each
place behind one of its calls, with a prefix of the actions, and a statement that fails is undone by
cutting the actions off where it began.
-/

namespace StudioScript

namespace Run

variable {α : Type}

/-- The state that a step leaves, whether it succeeds or fails. -/
def left : EStateM.Result RunError RunState α → RunState
  | .ok _ s => s
  | .error _ s => s

/-! ## Calls append -/

theorem emitting_appends (s : RunState) (actions : List Action) :
    s.actions <+: (s.emitting actions).actions := List.prefix_append _ _

theorem invoke_appends (ctx : Context) (i : Invocation) (pending : Option Collection)
    (s : RunState) : s.actions <+: (left (invoke ctx i pending s)).actions := by
  rw [invoke_apply]
  cases i.method with
  | utility u =>
    simp only [utility_apply]
    cases u.result ctx.session s.currentTrack i.args <;> exact List.prefix_rfl
  | edit e =>
    simp only [edit_apply]
    cases e.actions ctx s.currentTrack i.args pending with
    | error error => exact List.prefix_rfl
    | ok actions => exact emitting_appends s actions

theorem afterItem_appends (ctx : Context) (i : Invocation) (saved : Option Nat) (name : String)
    (s : RunState) (item : Item) : s.actions <+: (afterItem ctx i saved name s item).actions := by
  have appended := invoke_appends ctx i (some ⟨name, [item]⟩) (s.visiting saved item)
  unfold afterItem
  cases outcome : invoke ctx i (some ⟨name, [item]⟩) (s.visiting saved item) with
  | ok _ s' =>
    rw [outcome] at appended
    exact appended
  | error e s' => exact List.prefix_rfl

theorem foldl_afterItem_appends (ctx : Context) (i : Invocation) (saved : Option Nat)
    (name : String) (items : List Item) (s : RunState) :
    s.actions <+: (items.foldl (afterItem ctx i saved name) s).actions := by
  induction items generalizing s with
  | nil => exact List.prefix_rfl
  | cons item items inductionHypothesis =>
    exact (afterItem_appends ctx i saved name s item).trans (inductionHypothesis _)

theorem Effect.appends {ctx : Context} {s s' : RunState} {pending pending' : Option Collection}
    {c : Call} (effect : Effect ctx s pending c pending' s') : s.actions <+: s'.actions := by
  cases effect with
  | existingTrack | selectedTrack | filter | map | utility | skip => exact List.prefix_rfl
  | newTrack => exact List.prefix_append _ _
  | forEach => exact foldl_afterItem_appends _ _ _ _ _ _
  | edit => exact emitting_appends _ _

/-- A call appends to the actions. -/
theorem call_appends (ctx : Context) (pending : Option Collection) (c : Call) (s : RunState) :
    s.actions <+: (left (call ctx pending c s)).actions := by
  rcases call_cases ctx pending c s with ⟨p, s', ok, effect⟩ | ⟨e, failed, _⟩
  · rw [ok]
    exact effect.appends
  · rw [failed]
    exact List.prefix_rfl

/-- Calls in a row append to the actions. -/
theorem calls_appends (ctx : Context) (cs : List Call) (pending : Option Collection)
    (s : RunState) : s.actions <+: (left (calls ctx pending cs s)).actions := by
  induction cs generalizing pending s with
  | nil => exact List.prefix_rfl
  | cons c cs inductionHypothesis =>
    have first := call_appends ctx pending c s
    simp only [calls, bind_apply]
    cases outcome : call ctx pending c s with
    | error e s' =>
      rw [outcome] at first
      exact first
    | ok pending' s' =>
      rw [outcome] at first
      exact first.trans (inductionHypothesis pending' s')

/-! ## Cutting calls off -/

/-- Calls that run to their end also run to each place among them. -/
theorem calls_cut {ctx : Context} {before after : List Call} {pending : Option Collection}
    {s final : RunState} (ran : calls ctx pending (before ++ after) s = .ok () final) :
    ∃ mid, calls ctx pending before s = .ok () mid ∧ mid.actions <+: final.actions := by
  induction before generalizing pending s with
  | nil =>
    -- The cut is here, and all that is cut off would only have appended.
    have appended := calls_appends ctx after pending s
    rw [List.nil_append] at ran
    rw [ran] at appended
    exact ⟨s, rfl, appended⟩
  | cons c before inductionHypothesis =>
    obtain ⟨pending', s', first, rest⟩ := calls_cons_eq_ok.mp ran
    obtain ⟨mid, ranRest, appended⟩ := inductionHypothesis rest
    exact ⟨mid, calls_cons_eq_ok.mpr ⟨pending', s', first, ranRest⟩, appended⟩

/-- The calls of a statement that is cut off behind `n` chained calls. -/
theorem calls_of_cut (st : Statement) (n : Nat) :
    st.calls = { st with chain := st.chain.take n }.calls ++ (st.chain.drop n).map .method := by
  simp only [Statement.calls, List.cons_append, ← List.map_append, List.take_append_drop]

/-! ## Statements in a row -/

theorem statements_append (ctx : Context) (before after : List Statement) (s : RunState) :
    statements ctx (before ++ after) s =
      match statements ctx before s with
      | .ok mid => statements ctx after mid
      | .error failure => .error failure := by
  induction before generalizing s with
  | nil => rfl
  | cons st before inductionHypothesis =>
    simp only [List.cons_append, statements]
    cases statement ctx st s with
    | ok _ s' => exact inductionHypothesis s'
    | error e s' => rfl

/-- A statement that fails takes its own actions back. -/
theorem statements_of_failure {ctx : Context} {st : Statement} {s failed : RunState} {e : RunError}
    (fails : statement ctx st s = .error e failed) (after : List Statement) :
    statements ctx (st :: after) s = .error ⟨e, s.actions⟩ := by
  have appended := calls_appends ctx st.calls none s
  simp only [statement] at fails
  rw [fails] at appended
  -- What the statement had when it began is the front that stays when its own actions are cut off.
  have kept : failed.actions.take s.actions.length = s.actions :=
    (List.prefix_iff_eq_take.mp appended).symm
  simp only [statements, statement, fails, kept]

theorem statements_appends {ctx : Context} {sts : List Statement} {s final : RunState}
    (ran : statements ctx sts s = .ok final) : s.actions <+: final.actions := by
  induction sts generalizing s with
  | nil =>
    cases ran
    exact List.prefix_rfl
  | cons st sts inductionHypothesis =>
    obtain ⟨mid, first, rest⟩ := statements_cons_eq_ok.mp ran
    have appended := calls_appends ctx st.calls none s
    rw [← statement, first] at appended
    exact appended.trans (inductionHypothesis rest)

/-- Statements that run to their end also run to each place behind one of their calls. -/
theorem statements_cut {ctx : Context} {before after : List Statement} {st : Statement} (n : Nat)
    {s final : RunState} (ran : statements ctx (before ++ st :: after) s = .ok final) :
    ∃ mid, statements ctx (before ++ [{ st with chain := st.chain.take n }]) s = .ok mid ∧
      mid.actions <+: final.actions := by
  rw [statements_append] at ran ⊢
  cases earlier : statements ctx before s with
  | error failure =>
    rw [earlier] at ran
    cases ran
  | ok start =>
    simp only [earlier] at ran ⊢
    obtain ⟨s', outcome, later⟩ := statements_cons_eq_ok.mp ran
    rw [statement, calls_of_cut st n] at outcome
    obtain ⟨mid, cutRan, appended⟩ := calls_cut outcome
    have cut : statements ctx [{ st with chain := st.chain.take n }] start = .ok mid :=
      statements_cons_eq_ok.mpr ⟨mid, cutRan, rfl⟩
    exact ⟨mid, cut, appended.trans (statements_appends later)⟩

/-- Statements fail only because one of them does, behind others that do not. -/
theorem failure_of_statements {ctx : Context} {sts : List Statement} {s : RunState}
    {failure : Failure} (fails : statements ctx sts s = .error failure) :
    ∃ before st after mid failed, sts = before ++ st :: after ∧
      statements ctx before s = .ok mid ∧
      statement ctx st mid = .error failure.error failed ∧ failure.emitted = mid.actions := by
  induction sts generalizing s with
  | nil => cases fails
  | cons st sts inductionHypothesis =>
    cases outcome : statement ctx st s with
    | error e failed =>
      rw [statements_of_failure outcome] at fails
      cases fails
      exact ⟨[], st, sts, s, failed, rfl, rfl, outcome, rfl⟩
    | ok _ s' =>
      simp only [statements, outcome] at fails
      obtain ⟨before, st', after, mid, failed, rfl, ran, rest⟩ := inductionHypothesis fails
      have earlier := statements_cons_eq_ok.mpr ⟨s', outcome, ran⟩
      exact ⟨st :: before, st', after, mid, failed, rfl, earlier, rest⟩

/-- A statement does not fail with an error about the script as a whole. -/
theorem isOfCall_of_calls_error {ctx : Context} {cs : List Call} {pending : Option Collection}
    {s failed : RunState} {e : RunError} (fails : calls ctx pending cs s = .error e failed) :
    e.isOfCall = true := by
  induction cs generalizing pending s with
  | nil => cases fails
  | cons c cs inductionHypothesis =>
    simp only [calls, bind_apply] at fails
    cases outcome : call ctx pending c s with
    | error e' s' =>
      rw [outcome] at fails
      cases fails
      exact (refusal_of_call outcome).2.isOfCall
    | ok pending' s' =>
      rw [outcome] at fails
      exact inductionHypothesis fails

end Run

namespace Context

/-- A script succeeds with the actions that its statements come to, if these are any. -/
theorem execute_eq_ok {ctx : Context} {script : Script} {actions : List Action} :
    ctx.execute script = .ok actions ↔
      ∃ final, Run.statements ctx script.statements (.initial ctx.session) = .ok final ∧
        final.actions = actions ∧ actions ≠ [] := by
  simp only [execute, Except.bind_eq_ok]
  refine exists_congr fun final => and_congr_right fun _ => ?_
  cases emitted : final.actions with
  | nil =>
    simp only [List.isEmpty_nil, if_true]
    constructor
    · intro failed
      cases failed
    · rintro ⟨rfl, some⟩
      exact absurd rfl some
  | cons action actions' =>
    simp only [List.isEmpty_cons, Bool.false_eq_true, if_false]
    constructor
    · intro done
      cases done
      exact ⟨rfl, List.cons_ne_nil _ _⟩
    · rintro ⟨rfl, _⟩
      rfl

/-- A script fails for want of actions if no statement fails and none adds an action. -/
theorem execute_eq_noActions {ctx : Context} {script : Script} {emitted : List Action} :
    ctx.execute script = .error ⟨.noActions, emitted⟩ ↔
      emitted = [] ∧ ∃ final,
        Run.statements ctx script.statements (.initial ctx.session) = .ok final ∧
          final.actions = [] := by
  simp only [execute]
  cases outcome : Run.statements ctx script.statements (.initial ctx.session) with
  | error failure =>
    constructor
    · intro failed
      cases failed
      obtain ⟨_, _, _, _, _, _, _, fails, _⟩ := Run.failure_of_statements outcome
      cases Run.isOfCall_of_calls_error fails
    · rintro ⟨_, final, ran, _⟩
      cases ran
  | ok final =>
    simp only [Except.ok.injEq, exists_eq_left', bind, Except.bind]
    cases empty : final.actions with
    | nil =>
      simp only [List.isEmpty_nil, if_true, and_true]
      constructor
      · intro failed
        cases failed
        rfl
      · rintro rfl
        rfl
    | cons action actions =>
      simp only [List.isEmpty_cons, Bool.false_eq_true, if_false, reduceCtorEq, and_false,
        iff_false]
      intro failed
      cases failed

/-- Execution is incremental, and a statement that fails is atomic.  If no statement fails, then
    none does when the script is cut off behind any of its calls, and the actions of the cut script
    are a prefix of those of the whole.  The first statement that fails hands on its error and the
    actions of the statements before it alone.  Success is never empty, and want of actions is
    reported exactly when no statement fails and none adds an action. -/
theorem execute_incremental (ctx : Context) (script : Script) :
    (∀ final, Run.statements ctx script.statements (.initial ctx.session) = .ok final →
      ∀ before st after, script.statements = before ++ st :: after → ∀ n ≤ st.chain.length,
        ∃ mid, Run.statements ctx (before ++ [{ st with chain := st.chain.take n }])
            (.initial ctx.session) = .ok mid ∧ mid.actions <+: final.actions) ∧
    (∀ before st after mid e failed, script.statements = before ++ st :: after →
      Run.statements ctx before (.initial ctx.session) = .ok mid →
      Run.statement ctx st mid = .error e failed →
        ctx.execute script = .error ⟨e, mid.actions⟩) ∧
    (∀ actions, ctx.execute script = .ok actions → actions ≠ []) ∧
    ((∃ emitted, ctx.execute script = .error ⟨.noActions, emitted⟩) ↔
      ∃ final, Run.statements ctx script.statements (.initial ctx.session) = .ok final ∧
        final.actions = []) := by
  refine ⟨?_, ?_, ?_, ?_⟩
  · intro final ran before st after shape n _
    rw [shape] at ran
    exact Run.statements_cut n ran
  · intro before st after mid e failed shape ran fails
    simp only [execute, shape, Run.statements_append, ran, Run.statements_of_failure fails]
    rfl
  · intro actions done
    obtain ⟨_, _, _, some⟩ := execute_eq_ok.mp done
    exact some
  · constructor
    · rintro ⟨emitted, failed⟩
      exact (execute_eq_noActions.mp failed).2
    · intro ran
      exact ⟨[], execute_eq_noActions.mpr ⟨rfl, ran⟩⟩

/-- Behind a statement that deletes a track, one that deletes it again and then wants a clip without
    a place fails, and only the first deletion stays. -/
theorem execute_incremental_delete_twice :
    let ctx : Context := { session := .ofTracks [{ selected := true }] }
    let head : Call := .track (.single "selected" (.boolean true))
    let delete : Invocation := ⟨.edit .delete, .empty⟩
    let clip : Invocation := ⟨.edit .newClip, .empty⟩
    ctx.execute ⟨[⟨1, head, [delete]⟩, ⟨2, head, [delete, clip]⟩]⟩ =
      .error ⟨.missingArgument "new_clip" "bar, start or position", [.deleteTrack 0]⟩ := by
  intro ctx head delete clip
  exact (execute_incremental ctx _).2.1 [⟨1, head, [delete]⟩] ⟨2, head, [delete, clip]⟩ [] _ _ _
    rfl rfl rfl

end Context

end StudioScript
