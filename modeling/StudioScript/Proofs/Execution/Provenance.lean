import StudioScript.Proofs.Execution.Emissions

/-! # Where targets come from

A script cannot make track numbers up.  The current track, and the track of every item that a run
keeps, is a track of the session, one that the script has named by its `id` or in a stored literal,
or one that the run has created before (`Accounted`).  As an action is made for the current track,
for the selected track or for the track of an item, the same holds of every action
(`Context.targets_accounted`).
-/

namespace StudioScript

/-- Where a track number may come from, for calls of a script and actions that a run has come to. -/
inductive Accounted (session : Session) (calls : List Call) (log : List Action) : Nat → Prop where
  | ofSession {t index} (member : t ∈ session.tracks) (indexed : t.index = some index) :
      Accounted session calls log index
  | ofId {args n} (called : .track args ∈ calls) (read : args.whole? "track" "id" = .ok (some n))
      (positive : 1 ≤ n) : Accounted session calls log (n - 1).toNat
  | ofCreation {instrument name index} (created : .createTrack instrument name index ∈ log) :
      Accounted session calls log index
  | ofLiteral {c fields x} {n : Nat} (called : c ∈ calls)
      (written : .literal (.object fields) ∈ c.writes)
      (field : Members.get? "track" fields = some (.number x) ∨
        Members.get? "track" fields = none ∧ Members.get? "index" fields = some (.number x))
      (whole : x.whole? = some (n : Int)) : Accounted session calls log (min n Item.maxIndex)

namespace Accounted

variable {session : Session} {calls : List Call} {log longer : List Action} {track : Nat}

theorem mono (front : log <+: longer) (accounted : Accounted session calls log track) :
    Accounted session calls longer track := by
  cases accounted with
  | ofSession member indexed => exact .ofSession member indexed
  | ofId called read positive => exact .ofId called read positive
  | ofCreation created => exact .ofCreation (front.subset created)
  | ofLiteral called written field whole => exact .ofLiteral called written field whole

theorem of_selected (selected : session.selectedIndex? = some track) :
    Accounted session calls log track := by
  obtain ⟨t, found, indexed⟩ := Option.bind_eq_some_iff.mp selected
  exact .ofSession (List.mem_of_find?_eq_some found) indexed

end Accounted

/-! ## Items -/

namespace Item

theorem IsOn.mem_tracks {session : Session} {index : Nat} {item : Item}
    (on : item.IsOn session index) : ∃ t ∈ session.tracks, t.index = some index := by
  cases item with
  | track t => exact ⟨t, on⟩
  | clip | effect =>
    obtain ⟨t, member, indexed, _⟩ := on
    exact ⟨t, member, indexed⟩
  | literal v => exact on.elim

/-- A literal names a track by a whole number from zero on, in its field `track` or else in its
    field `index`. -/
theorem literal_target {v : Literal} {track : Nat} (target : (literal v).target? = some track) :
    ∃ fields x, ∃ n : Nat, v = .object fields ∧
      (Members.get? "track" fields = some (.number x) ∨
        Members.get? "track" fields = none ∧ Members.get? "index" fields = some (.number x)) ∧
      x.whole? = some (n : Int) ∧ track = min n maxIndex := by
  obtain ⟨value, field, named⟩ := Option.bind_eq_some_iff.mp target
  cases v with
  | object fields =>
    cases value with
    | number x =>
      simp only [literalTarget?] at named
      split at named
      · next i whole =>
        split at named
        · next natural =>
          cases named
          refine ⟨fields, x, i.toNat, rfl, Option.or_eq_some_iff.mp field, ?_, rfl⟩
          rw [whole, Int.toNat_of_nonneg natural]
        · cases named
      · cases named
    | _ => cases named
  | _ => cases field

end Item

/-- The track of an item is accounted for before any action is made. -/
def Item.IsAccounted (session : Session) (calls : List Call) (item : Item) : Prop :=
  ∀ track, item.target? = some track → Accounted session calls [] track

theorem Item.IsOn.isAccounted {session : Session} {calls : List Call} {item : Item} {index : Nat}
    (on : item.IsOn session index) : item.IsAccounted session calls := by
  intro track target
  rw [on.target] at target
  cases target
  obtain ⟨t, member, indexed⟩ := on.mem_tracks
  exact .ofSession member indexed

theorem Call.isAccounted_of_mem_writes {session : Session} {calls : List Call} {c : Call}
    (called : c ∈ calls) : ∀ item ∈ c.writes, item.IsAccounted session calls := by
  intro item written track target
  obtain ⟨v, rfl⟩ := Call.literal_of_mem_writes written
  obtain ⟨fields, x, n, rfl, field, whole, rfl⟩ := Item.literal_target target
  exact .ofLiteral called written field whole

/-! ## The current track -/

theorem TrackRequest.id_of_existing {args : Arguments} {index : Nat}
    (request : ofArguments args = .ok (.existing index)) :
    ∃ n, args.whole? "track" "id" = .ok (some n) ∧ 1 ≤ n ∧ index = (n - 1).toNat := by
  obtain ⟨id, read, rest⟩ := Except.bind_eq_ok.mp request
  cases id with
  | some n =>
    dsimp only at rest
    split at rest
    · cases rest
    · next positive =>
      cases rest
      exact ⟨n, read, Int.not_lt.mp positive, rfl⟩
  | none =>
    obtain ⟨selected, _, rest⟩ := Except.bind_eq_ok.mp rest
    split at rest
    · cases rest
    · obtain ⟨instrument, _, rest⟩ := Except.bind_eq_ok.mp rest
      obtain ⟨name, _, rest⟩ := Except.bind_eq_ok.mp rest
      obtain ⟨index, _, rest⟩ := Except.bind_eq_ok.mp rest
      cases rest

namespace Run

theorem Reaches.currentTrack_accounted {ctx : Context} {calls : List Call} {made : List MadeCall}
    {s : RunState} {pending : Option Collection} (reached : Reaches ctx made s pending)
    (called : ∀ step ∈ made, step.call ∈ calls) :
    ∀ track, s.currentTrack = some track → Accounted ctx.session calls s.actions track := by
  induction reached with
  | start =>
    intro track current
    cases current
  | nextStatement _ inductionHypothesis => exact inductionHypothesis called
  | @call made s pending c pending' s' reached ran inductionHypothesis =>
    have before := inductionHypothesis fun step member =>
      called step (List.mem_append_left _ member)
    have last : c ∈ calls := called _ (List.mem_append_right _ (List.mem_singleton_self _))
    have effect := effect_of_call ran
    have appended := effect.appends
    intro track current
    -- Track calls are the only ones that move to another track; a filter leaves none.
    cases effect with
    | existingTrack request =>
      cases current
      obtain ⟨n, read, positive, rfl⟩ := TrackRequest.id_of_existing request
      exact .ofId last read positive
    | selectedTrack request selected =>
      cases current
      exact .of_selected selected
    | newTrack request =>
      cases current
      exact .ofCreation (List.mem_append_right _ (List.mem_singleton_self _))
    | filter => cases current
    | map | utility | skip => exact before track current
    | forEach | edit => exact (before track current).mono appended

/-! ## Actions -/

/-- An action is accounted for in a run that has come to it. -/
theorem Reaches.target_accounted {ctx : Context} {calls : List Call} {made : List MadeCall}
    {s : RunState} {pending : Option Collection} (reached : Reaches ctx made s pending)
    (called : ∀ step ∈ made, step.call ∈ calls) {n : Nat} {action : Action}
    (emitted : s.actions[n]? = some action) :
    Accounted ctx.session calls (s.actions.take (n + 1)) action.target := by
  obtain ⟨earlier, state, before, c, reached', among, kept, emits⟩ := reached.emits emitted
  have calledBefore : ∀ step ∈ earlier, step.call ∈ calls := fun step member =>
    called step (among.subset (List.mem_append_left _ member))
  have studio : ∀ (item : Item) index, item.IsOn ctx.session index →
      item.IsAccounted ctx.session calls := fun _ _ on => on.isAccounted
  have written : ∀ step ∈ earlier, ∀ item ∈ step.call.writes, item.IsAccounted ctx.session calls :=
    fun step member => Call.isAccounted_of_mem_writes (calledBefore step member)
  -- The action itself is among those up to it, so that one that creates a track accounts for it.
  have itself : action ∈ s.actions.take (n + 1) := by
    apply List.mem_of_getElem? (i := n)
    rw [List.getElem?_take_of_lt (Nat.lt_succ_self n), emitted]
  cases emits with
  | created request =>
    exact .ofCreation itself
  | broadcast member target makes =>
    have accounted := reached'.pending_satisfies studio written _ rfl _ member _ target
    rw [makes.make.target]
    exact accounted.mono List.nil_prefix
  | each found member target makes =>
    have stored := reached'.satisfies studio written
    have accounted := RunState.collection?_satisfies studio stored found _ member _ target
    rw [makes.make.target]
    exact accounted.mono List.nil_prefix
  | single chosen makes =>
    rw [makes.make.target]
    rcases Edit.current_or_selected_of_trackFrom chosen with current | selected
    · have accounted := reached'.currentTrack_accounted calledBefore _ current
      exact accounted.mono (kept.trans (List.take_prefix_take_left (Nat.le_succ n)))
    · exact .of_selected selected

end Run

/-- Every target is accounted for.  The track that an action of a run is for, also of a run that
    fails, is a track of the session, the one before the number `id` of a track call of the script,
    one that this action or an earlier one creates, or one that an object names which the script
    stores: by a whole number in its field `track`, or else in its field `index`, cut down to the
    largest index. -/
theorem Context.targets_accounted (ctx : Context) (script : Script) {n : Nat} {action : Action}
    (emitted : (ctx.execute script).emitted[n]? = some action) :
    Accounted ctx.session script.calls ((ctx.execute script).emitted.take (n + 1))
      action.target := by
  obtain ⟨made, s, reached, called, same⟩ := ctx.emitted_reached script
  rw [← same] at emitted ⊢
  exact reached.target_accounted called emitted

/-- Without tracks in the session, what is deleted behind `track()` is the track that it creates. -/
theorem Context.targets_accounted_behind_creation :
    let ctx : Context := { session := .ofTracks [] }
    let script : Script := ⟨[⟨1, .track .empty, [⟨.edit .delete, .empty⟩]⟩]⟩
    ctx.execute script = .ok [.createTrack none none 0, .deleteTrack 0] ∧
      Accounted ctx.session script.calls [.createTrack none none 0, .deleteTrack 0] 0 :=
  ⟨rfl, targets_accounted _ ⟨[⟨1, .track .empty, [⟨.edit .delete, .empty⟩]⟩]⟩ (n := 1) rfl⟩

end StudioScript
