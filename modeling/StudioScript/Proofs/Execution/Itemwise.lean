import StudioScript.Proofs.Execution.Broadcast

/-! # One item after another

`for_each` applies an edit to one item after another and passes over those that it fails for; a
broadcast applies it to all items at once, and fails for all of them as soon as it fails for one.
What the edit comes to for an item depends on the item alone (`Run.actionsAlone_eq`), neither on the
items beside it nor on the state, so that the two agree wherever the broadcast succeeds.
-/

namespace StudioScript

/-- The actions of an edit of items. -/
def Edit.broadcast (ctx : Context) (e : Edit) (args : Arguments) (items : List Item) :
    Except RunError (List Action) := do
  let build ← e.builder ctx.defaults args
  Run.actionsFor build items

namespace Edit

theorem actions_some (ctx : Context) (current : Option Nat) (e : Edit) (args : Arguments)
    (c : Collection) : e.actions ctx current args (some c) = e.broadcast ctx args c.items := rfl

/-- A broadcast that succeeds also succeeds for the first item alone and for the others alone. -/
theorem broadcast_cons {ctx : Context} {e : Edit} {args : Arguments} {item : Item}
    {items : List Item} {actions : List Action}
    (made : e.broadcast ctx args (item :: items) = .ok actions) :
    ∃ first rest, e.broadcast ctx args [item] = .ok first ∧
      e.broadcast ctx args items = .ok rest ∧ actions = first ++ rest := by
  obtain ⟨build, built, made⟩ := Except.bind_eq_ok.mp made
  simp only [broadcast, built, Except.ok_bind]
  cases target : item.target? with
  | none =>
    -- An item without a track is left out by both.
    simp only [Run.actionsFor, target] at made ⊢
    exact ⟨[], actions, rfl, made, rfl⟩
  | some track =>
    simp only [Run.actionsFor, target] at made ⊢
    obtain ⟨result, acted, made⟩ := Except.bind_eq_ok.mp made
    obtain ⟨others, later, joined⟩ := Except.bind_eq_ok.mp made
    cases joined
    refine ⟨result.toList, others, ?_, later, rfl⟩
    simp only [acted, Except.ok_bind, List.append_nil]
    rfl

end Edit

namespace Run

/-- The actions that an edit of a single item comes to, none if it fails. -/
def actionsAlone (ctx : Context) (e : Edit) (args : Arguments) (name : String) (s : RunState)
    (item : Item) : List Action :=
  match call ctx (some ⟨name, [item]⟩) (.method ⟨.edit e, args⟩) s with
  | .ok _ s' => s'.actions.drop s.actions.length
  | .error .. => []

theorem actionsAlone_eq (ctx : Context) (e : Edit) (args : Arguments) (name : String)
    (s : RunState) (item : Item) :
    actionsAlone ctx e args name s item =
      match e.broadcast ctx args [item] with
      | .ok actions => actions
      | .error _ => [] := by
  have nonempty : (some (⟨name, [item]⟩ : Collection)).any (·.items.isEmpty) = false := rfl
  simp only [actionsAlone, call_edit_apply, nonempty, Edit.actions_some]
  cases e.broadcast ctx args [item] with
  | error error => rfl
  | ok actions => exact List.drop_left

/-- A broadcast that succeeds makes what the items come to alone, in their order. -/
theorem eq_flatMap_of_broadcast {ctx : Context} {e : Edit} {args : Arguments} {items : List Item}
    {actions : List Action} (made : e.broadcast ctx args items = .ok actions) (name : String)
    (s : RunState) : actions = items.flatMap (actionsAlone ctx e args name s) := by
  induction items generalizing actions with
  | nil =>
    obtain ⟨build, _, made⟩ := Except.bind_eq_ok.mp made
    cases made
    rfl
  | cons item items inductionHypothesis =>
    obtain ⟨first, rest, alone, others, rfl⟩ := Edit.broadcast_cons made
    have here : actionsAlone ctx e args name s item = first := by
      rw [actionsAlone_eq, alone]
    rw [List.flatMap_cons, here, inductionHypothesis others]

/-! ## Edits in `for_each` -/

theorem afterItem_edit (ctx : Context) (e : Edit) (args : Arguments) (saved : Option Nat)
    (name : String) (s base : RunState) (item : Item) :
    afterItem ctx ⟨.edit e, args⟩ saved name s item =
      (s.visiting saved item).emitting (actionsAlone ctx e args name base item) := by
  simp only [afterItem, invoke_apply, edit_apply, Edit.actions_some, actionsAlone_eq]
  cases e.broadcast ctx args [item] with
  | error error => simp only [RunState.emitting_nil]
  | ok actions => rfl

theorem foldl_afterItem_edit (ctx : Context) (e : Edit) (args : Arguments)
    (saved current : Option Nat) (name : String) (items : List Item) (s base : RunState) :
    { items.foldl (afterItem ctx ⟨.edit e, args⟩ saved name) s with currentTrack := current } =
      { s.emitting (items.flatMap (actionsAlone ctx e args name base)) with
        currentTrack := current } := by
  induction items generalizing s with
  | nil => simp only [List.foldl_nil, List.flatMap_nil, RunState.emitting_nil]
  | cons item items inductionHypothesis =>
    rw [List.foldl_cons, inductionHypothesis, afterItem_edit ctx e args saved name s base item]
    simp only [RunState.emitting, RunState.visiting, List.flatMap_cons, List.append_assoc]

/-- `for_each` with an edit never fails, and changes nothing but the actions: it appends what the
    items come to alone. -/
theorem forEach_edit_apply {ctx : Context} {s : RunState} {name : String} {source : Collection}
    (found : s.collection? ctx.session name = some source) (binder : String) (e : Edit)
    (args : Arguments) (base : RunState) :
    forEach ctx name (.method binder ⟨.edit e, args⟩) s =
      .ok () (s.emitting (source.items.flatMap (actionsAlone ctx e args source.name base))) := by
  rw [forEach_apply, found]
  simp only [foldl_afterItem_edit ctx e args _ _ _ _ _ base]
  rfl

end Run

namespace RunState

/-- The state behind a filter with the given result. -/
def filtering (s : RunState) (result : Collection) : RunState :=
  { s.keeping result with currentTrack := none }

theorem collection?_filtering (session : Session) (s : RunState) (result : Collection) :
    (s.filtering result).collection? session result.name = some result :=
  collection?_of_stored (Store.collection?_keep_self s.store result)

end RunState

namespace Run

/-! ## Broadcasts behind a filter -/

theorem call_filter_found {ctx : Context} {s : RunState} {name : String} {source : Collection}
    (found : s.collection? ctx.session name = some source) (p : Predicate) :
    let result : Collection :=
      ⟨name ++ Collection.filteredSuffix, source.items.filter (p.holds source.itemName)⟩
    call ctx none (.filter name p) s = .ok (some result) (s.filtering result) := by
  rw [call_filter_apply, found]
  rfl

/-- A broadcast that succeeds appends what the items come to alone. -/
theorem emitting_of_broadcast {ctx : Context} {c : Collection} {pending' : Option Collection}
    {e : Edit} {args : Arguments} {s s' : RunState}
    (applied : call ctx (some c) (.method ⟨.edit e, args⟩) s = .ok pending' s') (name : String)
    (base : RunState) :
    s' = s.emitting (c.items.flatMap (actionsAlone ctx e args name base)) := by
  cases effect_of_call applied with
  | skip empty =>
    -- Without items no argument is read, neither here nor by `for_each`.
    rw [empty, List.flatMap_nil, RunState.emitting_nil]
  | edit _ made => rw [eq_flatMap_of_broadcast made name base]

/-- An edit chained onto a filter agrees with `for_each` over the collection that the filter
    leaves.  If the broadcast succeeds, then the statement with the filter alone and the one with
    `for_each` behind it succeed as well and end in the same state, with the same actions.  If it
    fails, they still succeed, and append what the edit comes to for each of the items that match
    and that it does not fail for, in their order. -/
theorem forEach_filtered_agrees {ctx : Context} {s : RunState} {name : String}
    {source : Collection} (found : s.collection? ctx.session name = some source) (p : Predicate)
    (e : Edit) (args : Arguments) (binder : String) (line next : Nat) :
    let edit : Invocation := ⟨.edit e, args⟩
    let derived := name ++ Collection.filteredSuffix
    let matching := source.items.filter (p.holds source.itemName)
    let chained := statement ctx ⟨line, .filter name p, [edit]⟩ s
    let itemwise := statements ctx
      [⟨line, .filter name p, []⟩, ⟨next, .forEach derived (.method binder edit), []⟩] s
    (∀ s', chained = .ok () s' → itemwise = .ok s' ∧
      s'.actions = s.actions ++ matching.flatMap (actionsAlone ctx e args derived s)) ∧
    (∀ error failed, chained = .error error failed → ∃ s', itemwise = .ok s' ∧
      s'.actions = s.actions ++ matching.flatMap (actionsAlone ctx e args derived s)) := by
  intro edit derived matching chained itemwise
  let result : Collection := ⟨derived, matching⟩
  let final := (s.filtering result).emitting (matching.flatMap (actionsAlone ctx e args derived s))
  have filtered : call ctx none (.filter name p) s = .ok (some result) (s.filtering result) :=
    call_filter_found found p
  have ran : itemwise = .ok final := by
    have first : statement ctx ⟨line, .filter name p, []⟩ s = .ok () (s.filtering result) :=
      calls_cons_eq_ok.mpr ⟨_, _, filtered, rfl⟩
    have each : forEach ctx derived (.method binder edit) (s.filtering result) = .ok () final :=
      forEach_edit_apply (RunState.collection?_filtering ctx.session s result) binder e args s
    have second : statement ctx ⟨next, .forEach derived (.method binder edit), []⟩
        (s.filtering result) = .ok () final :=
      calls_cons_eq_ok.mpr ⟨none, final, bind_eq_ok.mpr ⟨(), final, each, rfl⟩, rfl⟩
    exact statements_cons_eq_ok.mpr ⟨_, first, statements_cons_eq_ok.mpr ⟨_, second, rfl⟩⟩
  refine ⟨fun s' succeeded => ?_, fun error failed _ => ⟨final, ran, rfl⟩⟩
  obtain ⟨pending, mid, filtered', rest⟩ := calls_cons_eq_ok.mp succeeded
  rw [filtered] at filtered'
  cases filtered'
  obtain ⟨pending', last, applied, done⟩ := calls_cons_eq_ok.mp rest
  cases done
  have same : s' = final := emitting_of_broadcast applied derived s
  exact ⟨same ▸ ran, same ▸ rfl⟩

/-- The first and the last of three tracks are muted.  Deleting the muted tracks at once deletes
    these two, and so does deleting them one after the other. -/
theorem forEach_filtered_agrees_on_muted :
    let ctx : Context := { session := .ofTracks [{ muted := true }, {}, { muted := true }] }
    let s := RunState.initial ctx.session
    let p : Predicate := ⟨"track", "muted", .equal, .boolean true⟩
    let delete : Invocation := ⟨.edit .delete, .empty⟩
    let derived := "tracks" ++ Collection.filteredSuffix
    s.collection? ctx.session "tracks" = some ctx.session.trackCollection ∧
      ∃ s', statement ctx ⟨1, .filter "tracks" p, [delete]⟩ s = .ok () s' ∧
        statements ctx
          [⟨1, .filter "tracks" p, []⟩, ⟨2, .forEach derived (.method "track" delete), []⟩] s =
            .ok s' ∧
        s'.actions = [.deleteTrack 0, .deleteTrack 2] := by
  intro ctx s p delete derived
  have found : s.collection? ctx.session "tracks" = some ctx.session.trackCollection :=
    RunState.initial_tracks ctx.session
  obtain ⟨s', actions, chained, appended, deletes⟩ := delete_matching found 1 p .empty
  have both : actions = [.deleteTrack 0, .deleteTrack 2] := by
    obtain _ | ⟨⟨_, first, rfl⟩, _ | ⟨⟨_, last, rfl⟩, ⟨⟩⟩⟩ := deletes
    cases first
    cases last
    rfl
  have agrees := (forEach_filtered_agrees found p .delete .empty "track" 1 2).1 s' chained
  exact ⟨found, s', chained, agrees.1, by rw [appended, both]; rfl⟩

end Run

end StudioScript
