import StudioScript.Proofs.Execution.Incremental
import StudioScript.Proofs.Execution.Itemwise

/-! # Where actions come from

`Run.Emits` lists what a call may add to the actions of a run: the track that it creates, or what an
edit makes, for an item of the pending collection, for an item of the collection that `for_each`
visits, or for the track that calls go to.  Every action of a run, also of one that fails later, was
added in this way by one of its calls, in a state with fewer actions (`Run.Reaches.emits`).
-/

namespace StudioScript

/-- The edit that a call applies, with its arguments, if it applies one. -/
def Call.edit? : Call → Option (Edit × Arguments)
  | .method ⟨.edit e, args⟩ | .forEach _ (.method _ ⟨.edit e, args⟩) => some (e, args)
  | _ => none

theorem Call.edit?_forEach (name binder : String) (i : Invocation) :
    (Call.forEach name (.method binder i)).edit? = (Call.method i).edit? := by
  obtain ⟨method, args⟩ := i
  cases method <;> rfl

/-! ## The track of an edit -/

/-- A new clip is the only edit that finds a track when there is no current one. -/
theorem Edit.newClip_of_trackFrom_none {session : Session} {e : Edit} {track : Nat}
    (chosen : e.trackFrom session none = .ok track) :
    e = .newClip ∧ session.selectedIndex? = some track := by
  unfold Edit.trackFrom at chosen
  split at chosen
  · next given => cases given
  · next selected =>
    cases chosen
    exact ⟨rfl, selected⟩
  · cases chosen

theorem Edit.current_or_selected_of_trackFrom {session : Session} {current : Option Nat} {e : Edit}
    {track : Nat} (chosen : e.trackFrom session current = .ok track) :
    current = some track ∨ session.selectedIndex? = some track := by
  cases current with
  | some here =>
    cases chosen
    exact .inl rfl
  | none => exact .inr (newClip_of_trackFrom_none chosen).2

namespace Run

/-! ## What a call adds -/

/-- What a call may add to the actions when it is made in a state, with a collection pending. -/
inductive Emits (ctx : Context) (s : RunState) : Option Collection → Call → Action → Prop where
  | created {pending args instrument name given}
      (request : TrackRequest.ofArguments args = .ok (.new instrument name given)) :
      Emits ctx s pending (.track args) (.createTrack instrument name (given.getD s.nextIndex))
  | broadcast {c e args item track action} (member : item ∈ c.items)
      (target : item.target? = some track)
      (makes : e.Makes ctx.defaults args track (some item) action) :
      Emits ctx s (some c) (.method ⟨.edit e, args⟩) action
  | single {e args track action}
      (chosen : e.trackFrom ctx.session s.currentTrack = .ok track)
      (makes : e.Makes ctx.defaults args track none action) :
      Emits ctx s none (.method ⟨.edit e, args⟩) action
  | each {pending name binder e args source item track action}
      (found : s.collection? ctx.session name = some source) (member : item ∈ source.items)
      (target : item.target? = some track)
      (makes : e.Makes ctx.defaults args track (some item) action) :
      Emits ctx s pending (.forEach name (.method binder ⟨.edit e, args⟩)) action

/-- An action besides a new track is made by the edit of a call, for an item that satisfies what all
    items of the collections of the state satisfy. -/
theorem Emits.makes {ctx : Context} {s : RunState} {pending : Option Collection} {c : Call}
    {action : Action} (emits : Emits ctx s pending c action) {P : Item → Prop}
    (pended : ∀ source, pending = some source → ∀ item ∈ source.items, P item)
    (stored : ∀ name source, s.collection? ctx.session name = some source →
      ∀ item ∈ source.items, P item) :
    (∃ instrument name index, action = .createTrack instrument name index) ∨
      ∃ e args track item, c.edit? = some (e, args) ∧
        e.Makes ctx.defaults args track item action ∧
        ∀ element, item = some element → P element := by
  cases emits with
  | created => exact .inl ⟨_, _, _, rfl⟩
  | broadcast member _ makes =>
    refine .inr ⟨_, _, _, _, rfl, makes, fun element same => ?_⟩
    cases same
    exact pended _ rfl _ member
  | single _ makes => exact .inr ⟨_, _, _, none, rfl, makes, fun element same => by cases same⟩
  | each found member _ makes =>
    refine .inr ⟨_, _, _, _, rfl, makes, fun element same => ?_⟩
    cases same
    exact stored _ _ found _ member

theorem emits_of_mem_actions {ctx : Context} {s : RunState} {e : Edit} {args : Arguments}
    {pending : Option Collection} {actions : List Action}
    (made : e.actions ctx s.currentTrack args pending = .ok actions) :
    ∀ action ∈ actions, Emits ctx s pending (.method ⟨.edit e, args⟩) action := by
  intro action member
  obtain ⟨track, item, makes, origin⟩ := makes_of_mem_actions made action member
  cases pending with
  | some c =>
    obtain ⟨element, member', rfl, target⟩ := origin
    exact .broadcast member' target makes
  | none =>
    obtain ⟨rfl, chosen⟩ := origin
    exact .single chosen makes

theorem emits_of_mem_actionsAlone {ctx : Context} {s base : RunState} {e : Edit}
    {args : Arguments} {pending : Option Collection} {name binder : String} {source : Collection}
    (found : s.collection? ctx.session name = some source) {item : Item}
    (member : item ∈ source.items) :
    ∀ action ∈ actionsAlone ctx e args source.name base item,
      Emits ctx s pending (.forEach name (.method binder ⟨.edit e, args⟩)) action := by
  intro action among
  rw [actionsAlone_eq] at among
  cases made : e.broadcast ctx args [item] with
  | error error =>
    rw [made] at among
    cases among
  | ok actions =>
    rw [made] at among
    obtain ⟨build, built, made⟩ := Except.bind_eq_ok.mp made
    obtain ⟨item', single, track, target, acted⟩ := built_of_mem_actionsFor made action among
    cases List.mem_singleton.mp single
    exact .each found member target ⟨build, built, acted⟩

theorem foldl_afterItem_utility (ctx : Context) (u : Utility) (args : Arguments)
    (saved : Option Nat) (name : String) (items : List Item) (s : RunState) :
    (items.foldl (afterItem ctx ⟨.utility u, args⟩ saved name) s).actions = s.actions := by
  induction items generalizing s with
  | nil => rfl
  | cons item items inductionHypothesis =>
    rw [List.foldl_cons, inductionHypothesis]
    simp only [afterItem, invoke_apply, utility_apply]
    cases u.result ctx.session (s.visiting saved item).currentTrack args <;> rfl

/-- A call adds actions behind those that are there, and only such as are listed. -/
theorem Effect.emits {ctx : Context} {s s' : RunState} {pending pending' : Option Collection}
    {c : Call} (effect : Effect ctx s pending c pending' s') :
    ∃ new, s'.actions = s.actions ++ new ∧ ∀ action ∈ new, Emits ctx s pending c action := by
  have nothing : s.actions = s.actions ++ [] ∧ ∀ action ∈ ([] : List Action),
      Emits ctx s pending c action := ⟨(List.append_nil _).symm, List.forall_mem_nil _⟩
  cases effect with
  | existingTrack | selectedTrack | filter | map | utility | skip => exact ⟨[], nothing⟩
  | newTrack request =>
    refine ⟨[_], rfl, fun action member => ?_⟩
    cases List.mem_singleton.mp member
    exact .created request
  | @forEach _ _ _ i source found =>
    obtain ⟨method, args⟩ := i
    cases method with
    | utility u =>
      have same := foldl_afterItem_utility ctx u args s.currentTrack source.name source.items s
      exact ⟨[], same.trans nothing.1, nothing.2⟩
    | edit e =>
      rw [foldl_afterItem_edit ctx e args s.currentTrack s.currentTrack source.name _ s s]
      refine ⟨_, rfl, fun action member => ?_⟩
      obtain ⟨item, member, among⟩ := List.mem_flatMap.mp member
      exact emits_of_mem_actionsAlone found member action among
  | edit _ made => exact ⟨_, rfl, emits_of_mem_actions made⟩

/-! ## What a run has added -/

/-- Every action of a run was added by one of its calls, behind the actions that were there. -/
theorem Reaches.emits {ctx : Context} {made : List MadeCall} {s : RunState}
    {pending : Option Collection} (reached : Reaches ctx made s pending) {n : Nat}
    {action : Action} (emitted : s.actions[n]? = some action) :
    ∃ earlier state before c, Reaches ctx earlier state before ∧
      earlier ++ [⟨state, c⟩] <+: made ∧ state.actions <+: s.actions.take n ∧
      Emits ctx state before c action := by
  induction reached with
  | start => cases emitted
  | nextStatement _ inductionHypothesis => exact inductionHypothesis emitted
  | @call made s pending c pending' s' reached ran inductionHypothesis =>
    obtain ⟨new, appended, each⟩ := (effect_of_call ran).emits
    rw [appended] at emitted ⊢
    -- Either the action was there before the last call, or it is one of those that the call adds.
    rcases Nat.lt_or_ge n s.actions.length with old | late
    · rw [List.getElem?_append_left old] at emitted
      obtain ⟨earlier, state, before, c', reached', among, front, emits⟩ :=
        inductionHypothesis emitted
      refine ⟨earlier, state, before, c', reached', among.trans (List.prefix_append _ _), ?_, emits⟩
      rwa [List.take_append_of_le_length (Nat.le_of_lt old)]
    · rw [List.getElem?_append_right late] at emitted
      have emits := each action (List.mem_of_getElem? emitted)
      refine ⟨made, s, pending, c, reached, List.prefix_rfl, ?_, emits⟩
      rw [List.take_append, List.take_of_length_le late]
      exact List.prefix_append _ _

section

variable {ctx : Context} {P : Item → Prop}
  (studio : ∀ item index, item.IsOn ctx.session index → P item)
include studio

/-- What holds of the items of the session, and of those that a run writes, holds of the items of a
    pending collection. -/
theorem Reaches.pending_satisfies {made : List MadeCall} {s : RunState}
    {pending : Option Collection} (reached : Reaches ctx made s pending)
    (written : ∀ step ∈ made, ∀ item ∈ step.call.writes, P item) :
    ∀ c, pending = some c → ∀ item ∈ c.items, P item := by
  induction reached with
  | start | nextStatement =>
    intro c some
    cases some
  | @call made s pending c pending' s' reached ran inductionHypothesis =>
    have before : ∀ step ∈ made, ∀ item ∈ step.call.writes, P item :=
      fun step member => written step (List.mem_append_left _ member)
    cases effect_of_call ran with
    | existingTrack | selectedTrack | newTrack | map | forEach | skip | edit =>
      intro c some
      cases some
    | utility => exact inductionHypothesis before
    | filter found kept =>
      subst kept
      intro c same item member
      cases same
      exact RunState.collection?_satisfies studio (reached.satisfies studio before) found item
        (List.mem_filter.mp member).1

end

end Run

/-! ## The actions of an outcome -/

/-- The actions that a run hands on, whether it succeeds or fails. -/
def Outcome.emitted : Outcome → List Action
  | .ok actions => actions
  | .error failure => failure.emitted

/-- What a script hands on are the actions of a state that a run of it reaches. -/
theorem Context.emitted_reached (ctx : Context) (script : Script) :
    ∃ made s, Run.Reaches ctx made s none ∧ (∀ step ∈ made, step.call ∈ script.calls) ∧
      s.actions = (ctx.execute script).emitted := by
  have among {made : List MadeCall} {sts : List Statement}
      (calls : made.map MadeCall.call = sts.flatMap Statement.calls)
      (front : sts <+: script.statements) : ∀ step ∈ made, step.call ∈ script.calls := by
    intro step member
    have called : step.call ∈ sts.flatMap Statement.calls :=
      calls ▸ List.mem_map_of_mem member
    obtain ⟨st, member', inside⟩ := List.mem_flatMap.mp called
    exact List.mem_flatMap.mpr ⟨st, front.subset member', inside⟩
  cases outcome : Run.statements ctx script.statements (.initial ctx.session) with
  | ok final =>
    obtain ⟨made, reached, calls⟩ := Run.Reaches.start.statements outcome
    refine ⟨_, final, reached, among calls List.prefix_rfl, ?_⟩
    simp only [execute, outcome, Except.ok_bind]
    split
    · next empty => exact List.isEmpty_iff.mp empty
    · rfl
  | error failure =>
    obtain ⟨before, st, after, mid, _, shape, ran, _, emitted⟩ :=
      Run.failure_of_statements outcome
    obtain ⟨made, reached, calls⟩ := Run.Reaches.start.statements ran
    refine ⟨_, mid, reached, among calls (shape ▸ List.prefix_append _ _), ?_⟩
    simp only [execute, outcome]
    exact emitted.symm

/-- Every action of a script creates a track, or is made by an edit of a call of the script, for no
    item or for one of the session or a literal. -/
theorem Context.makes_of_mem_emitted (ctx : Context) (script : Script) {P : Item → Prop}
    (studio : ∀ item index, item.IsOn ctx.session index → P item)
    (literals : ∀ v, P (.literal v)) :
    ∀ action ∈ (ctx.execute script).emitted,
      (∃ instrument name index, action = .createTrack instrument name index) ∨
        ∃ c ∈ script.calls, ∃ e args track item, c.edit? = some (e, args) ∧
          e.Makes ctx.defaults args track item action ∧
          ∀ element, item = some element → P element := by
  intro action member
  obtain ⟨made, s, reached, called, same⟩ := ctx.emitted_reached script
  rw [← same] at member
  obtain ⟨n, emitted⟩ := List.mem_iff_getElem?.mp member
  obtain ⟨earlier, state, before, c, reached', among, _, emits⟩ := reached.emits emitted
  have written : ∀ step ∈ earlier, ∀ item ∈ step.call.writes, P item := by
    intro step _ item inside
    obtain ⟨v, rfl⟩ := Call.literal_of_mem_writes inside
    exact literals v
  have stored := reached'.satisfies studio written
  have made' := emits.makes (reached'.pending_satisfies studio written) fun _ _ found =>
    RunState.collection?_satisfies studio stored found
  have inScript : c ∈ script.calls :=
    called _ (among.subset (List.mem_append_right _ (List.mem_singleton_self _)))
  exact made'.imp_right fun ⟨e, args, track, item, applied, makes, satisfied⟩ =>
    ⟨c, inScript, e, args, track, item, applied, makes, satisfied⟩

end StudioScript
