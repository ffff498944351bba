import StudioScript.Proofs.Execution.Itemwise

/-! # Calls that fail

All that can go wrong in a call goes wrong before the first change of the state, for every kind of
call: a call that fails leaves no trace (`Run.failed_call_changes_nothing`).  A broadcast works out
the actions of all items before it adds one, and therefore stands or falls with each of them.
`for_each` cuts the actions off behind an item that it fails for, but there is nothing to cut off:
without that step it is the same function.
-/

namespace StudioScript

namespace Edit

/-- A broadcast that succeeds also succeeds for each of the items alone. -/
theorem broadcast_of_mem {ctx : Context} {e : Edit} {args : Arguments} {items : List Item}
    {actions : List Action} (made : e.broadcast ctx args items = .ok actions) :
    ∀ item ∈ items, ∃ own, e.broadcast ctx args [item] = .ok own := by
  induction items generalizing actions with
  | nil => exact List.forall_mem_nil _
  | cons first items inductionHypothesis =>
    obtain ⟨own, others, alone, rest, _⟩ := broadcast_cons made
    intro item member
    rcases List.mem_cons.mp member with rfl | among
    · exact ⟨own, alone⟩
    · exact inductionHypothesis rest item among

end Edit

namespace Run

/-! ## Broadcasts -/

theorem call_broadcast_apply (ctx : Context) (name : String) {items : List Item}
    (filled : items ≠ []) (e : Edit) (args : Arguments) (s : RunState) :
    call ctx (some ⟨name, items⟩) (.method ⟨.edit e, args⟩) s =
      match e.broadcast ctx args items with
      | .ok actions => .ok none (s.emitting actions)
      | .error error => .error error s := by
  have nonempty : (some (⟨name, items⟩ : Collection)).any (·.items.isEmpty) = false := by
    rwa [Option.any_some, List.isEmpty_eq_false_iff]
  rw [call_edit_apply, nonempty, Edit.actions_some]
  rfl

/-- An edit that fails for one item alone fails for every collection with this item, and adds
    nothing for the others. -/
theorem call_broadcast_fails {ctx : Context} {e : Edit} {args : Arguments} {item : Item}
    {error : RunError} {s failed : RunState} {name : String}
    (fails : call ctx (some ⟨name, [item]⟩) (.method ⟨.edit e, args⟩) s = .error error failed)
    {items : List Item} (member : item ∈ items) :
    ∃ error, call ctx (some ⟨name, items⟩) (.method ⟨.edit e, args⟩) s = .error error s := by
  rw [call_broadcast_apply ctx name (List.cons_ne_nil item [])] at fails
  rw [call_broadcast_apply ctx name (List.ne_nil_of_mem member)]
  cases outcome : e.broadcast ctx args items with
  | error error => exact ⟨error, rfl⟩
  | ok actions =>
    obtain ⟨own, alone⟩ := Edit.broadcast_of_mem outcome item member
    rw [alone] at fails
    cases fails

/-! ## `for_each` without cutting off -/

/-- Runs a step of which a failure does not matter.  All that a failed step leaves behind stays. -/
def attemptUncut (step : Run Unit) : Run Unit := fun s =>
  match step s with
  | .ok _ s' => .ok () s'
  | .error _ s' => .ok () s'

/-- Applies a method to each of the items, as `invokeOnEach` does, but never cuts actions off. -/
def invokeOnEachUncut (ctx : Context) (i : Invocation) (saved : Option Nat) (name : String) :
    List Item → Run Unit
  | [] => pure ()
  | item :: items => do
      setTrack (item.target?.or saved)
      attemptUncut (invoke ctx i (some ⟨name, [item]⟩))
      invokeOnEachUncut ctx i saved name items

/-- `for_each(...)`, as `forEach` runs it, but without ever cutting actions off. -/
def forEachUncut (ctx : Context) (name : String) (function : ItemFunction) : Run Unit := do
  let source ← resolve ctx.session name
  match function with
  | .named f => throw (.unsupportedFunction "for_each" f)
  | .method _ i =>
      let saved := (← get).currentTrack
      invokeOnEachUncut ctx i saved source.name source.items
      setTrack saved

theorem attempt_invoke_eq_uncut (ctx : Context) (i : Invocation) (pending : Option Collection) :
    attempt (invoke ctx i pending) = attemptUncut (invoke ctx i pending) := by
  funext s
  rw [attempt_invoke, attemptUncut]
  cases outcome : invoke ctx i pending s with
  | ok _ s' => rfl
  | error e s' => rw [invoke_error outcome]

theorem invokeOnEach_eq_uncut (ctx : Context) (i : Invocation) (saved : Option Nat)
    (name : String) (items : List Item) :
    invokeOnEach ctx i saved name items = invokeOnEachUncut ctx i saved name items := by
  induction items with
  | nil => rfl
  | cons item items inductionHypothesis =>
    rw [invokeOnEach, invokeOnEachUncut, attempt_invoke_eq_uncut, inductionHypothesis]

theorem forEach_eq_uncut (ctx : Context) (name : String) (function : ItemFunction) :
    forEach ctx name function = forEachUncut ctx name function := by
  cases function with
  | named f => rfl
  | method binder i => simp only [forEach, forEachUncut, invokeOnEach_eq_uncut]

/-! ## All calls -/

/-- A call that fails changes nothing: neither the current track nor the index of the next track,
    neither a collection nor the actions.  A broadcast fails as soon as the edit fails for one of
    the items alone, and adds nothing, for the items before that one neither.  Where `for_each` cuts
    off what a method leaves behind that fails for an item, no action is removed, so that `for_each`
    comes to the same if nothing is cut off. -/
theorem failed_call_changes_nothing (ctx : Context) (s : RunState) :
    (∀ pending c error failed, call ctx pending c s = .error error failed → failed = s) ∧
    (∀ name e args before item after,
      (∃ error failed,
        call ctx (some ⟨name, [item]⟩) (.method ⟨.edit e, args⟩) s = .error error failed) →
      ∃ error, call ctx (some ⟨name, before ++ item :: after⟩) (.method ⟨.edit e, args⟩) s =
        .error error s) ∧
    (∀ i pending error failed, invoke ctx i pending s = .error error failed →
      failed.actions.take s.actions.length = failed.actions) ∧
    ∀ name function, forEach ctx name function s = forEachUncut ctx name function s := by
  refine ⟨?_, ?_, ?_, ?_⟩
  · intro pending c error failed fails
    exact (refusal_of_call fails).1
  · rintro name e args before item after ⟨error, failed, fails⟩
    exact call_broadcast_fails fails (List.mem_append_right before List.mem_cons_self)
  · intro i pending error failed fails
    rw [invoke_error fails, List.take_length]
  · intro name function
    rw [forEach_eq_uncut]

/-- A track has a clip, and a literal that stands beside the clip names the track, but not a clip on
    it.  Deleting the clips of both fails for the literal, and the clip stays as well. -/
theorem failed_call_changes_nothing_behind_clip :
    let ctx : Context := { session := .ofTracks [{ clips := [{ position := some .zero }] }] }
    let clip : Item := .clip { index := some 0, position := some .zero, track := some 0 }
    let literal : Item := .literal (.object [("track", .number .zero)])
    let s : RunState := { currentTrack := some 0, nextIndex := 1, actions := [.deleteTrack 7] }
    let delete : Call := .method ⟨.edit .deleteClip, .empty⟩
    call ctx (some ⟨"found", [clip]⟩) delete s =
        .ok none (s.emitting [.deleteClip 0 (.position .zero)]) ∧
      (∃ error failed, call ctx (some ⟨"found", [literal]⟩) delete s = .error error failed) ∧
      ∃ error, call ctx (some ⟨"found", [clip, literal]⟩) delete s = .error error s := by
  intro ctx clip literal s delete
  have alone : ∃ error failed,
      call ctx (some ⟨"found", [literal]⟩) delete s = .error error failed := by
    have target : literal.target? = some 0 := by
      simp [literal, Item.target?, Item.literalField?, Members.get?, Item.literalTarget?,
        Number.whole?, Number.zero, Magnitude.whole?, Magnitude.units, Magnitude.zero]
    refine ⟨.ambiguousClip "delete_clip" "clip, position or bar" 0, s, ?_⟩
    rw [call_broadcast_apply ctx _ (List.cons_ne_nil _ _)]
    simp only [Edit.broadcast, Edit.builder, actionsFor, target]
    rfl
  exact ⟨rfl, alone, (failed_call_changes_nothing ctx s).2.1 _ _ _ [clip] literal [] alone⟩

end Run

end StudioScript
