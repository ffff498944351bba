import StudioScript.Proofs.Execution.Steps
import StudioScript.Proofs.Results

/-! # Reachable states

The states that runs over a session come to: between two calls, with the calls that were made until
then (`Run.Reaches`), and inside `for_each`, where a method is applied to one item after another
(`Run.Visits`).  What every call preserves of the items that a run keeps holds in all of them.
-/

namespace StudioScript

/-- A call that a run has made, and the state that it was made in. -/
structure MadeCall where
  state : RunState
  call : Call

namespace Run

/-- The states that runs come to between two calls, with the calls made so far and the collection
    that is pending.  A statement may end behind any of its calls. -/
inductive Reaches (ctx : Context) : List MadeCall → RunState → Option Collection → Prop where
  | start : Reaches ctx [] (.initial ctx.session) none
  | call {made s pending c pending' s'} (reached : Reaches ctx made s pending)
      (ran : Run.call ctx pending c s = .ok pending' s') :
      Reaches ctx (made ++ [⟨s, c⟩]) s' pending'
  | nextStatement {made s pending} (reached : Reaches ctx made s pending) : Reaches ctx made s none

theorem Reaches.calls {ctx : Context} {made : List MadeCall} {cs : List Call} {s s' : RunState}
    {pending : Option Collection} (reached : Reaches ctx made s pending)
    (ran : Run.calls ctx pending cs s = .ok () s') :
    ∃ more pending', Reaches ctx (made ++ more) s' pending' ∧ more.map MadeCall.call = cs := by
  induction cs generalizing made s pending with
  | nil =>
    cases ran
    exact ⟨[], pending, (List.append_nil made).symm ▸ reached, rfl⟩
  | cons c cs inductionHypothesis =>
    obtain ⟨pending', mid, first, rest⟩ := calls_cons_eq_ok.mp ran
    obtain ⟨more, last, after, same⟩ := inductionHypothesis (reached.call first) rest
    refine ⟨⟨s, c⟩ :: more, last, ?_, congrArg (List.cons c) same⟩
    rwa [List.append_assoc, List.singleton_append] at after

theorem Reaches.statements {ctx : Context} {made : List MadeCall} {sts : List Statement}
    {s s' : RunState} (reached : Reaches ctx made s none)
    (ran : Run.statements ctx sts s = .ok s') :
    ∃ more, Reaches ctx (made ++ more) s' none ∧
      more.map MadeCall.call = sts.flatMap Statement.calls := by
  induction sts generalizing made s with
  | nil =>
    cases ran
    exact ⟨[], (List.append_nil made).symm ▸ reached, rfl⟩
  | cons st sts inductionHypothesis =>
    obtain ⟨mid, ranFirst, ranRest⟩ := statements_cons_eq_ok.mp ran
    obtain ⟨first, _, between, same⟩ := reached.calls ranFirst
    obtain ⟨rest, after, same'⟩ := inductionHypothesis between.nextStatement ranRest
    refine ⟨first ++ rest, ?_, ?_⟩
    · rwa [List.append_assoc] at after
    · rw [List.map_append, same, same', List.flatMap_cons]

/-- All states of a run are reached: those behind some statements and then some calls of the next
    statement, whatever becomes of the rest. -/
theorem reaches_of_statements {ctx : Context} {sts : List Statement} {cs : List Call}
    {mid s : RunState} (before : Run.statements ctx sts (.initial ctx.session) = .ok mid)
    (ran : Run.calls ctx none cs mid = .ok () s) :
    ∃ made pending, Reaches ctx made s pending ∧
      made.map MadeCall.call = sts.flatMap Statement.calls ++ cs := by
  obtain ⟨first, between, same⟩ := Reaches.start.statements before
  obtain ⟨more, pending, reached, same'⟩ := between.calls ran
  refine ⟨[] ++ first ++ more, pending, reached, ?_⟩
  rw [List.nil_append, List.map_append, same, same']

/-- The states in which a method may be applied, with the collection that is pending: those between
    two calls, and in `for_each` those behind the items `done`, when the next one is visited. -/
inductive Visits (ctx : Context) : RunState → Option Collection → Prop where
  | call {made s pending} (reached : Reaches ctx made s pending) : Visits ctx s pending
  | item {made s pending name source i done item rest} (reached : Reaches ctx made s pending)
      (found : s.collection? ctx.session name = some source)
      (items : source.items = done ++ item :: rest) :
      Visits ctx
        ((done.foldl (afterItem ctx i s.currentTrack source.name) s).visiting s.currentTrack item)
        (some ⟨source.name, [item]⟩)

end Run

/-! ## Items of the session -/

/-- Whether the item is the track with the given index, or a clip or an effect on it. -/
def Item.IsOn (session : Session) (index : Nat) : Item → Prop
  | .track t => t ∈ session.tracks ∧ t.index = some index
  | .clip c => ∃ t ∈ session.tracks, t.index = some index ∧ c ∈ t.clips
  | .effect e => ∃ t ∈ session.tracks, t.index = some index ∧ e ∈ t.effects
  | .literal _ => False

namespace Item

/-- Calls on an item go to the track that it is on. -/
theorem IsOn.target {session : Session} {index : Nat} {item : Item}
    (on : item.IsOn session index) : item.target? = some index := by
  cases item with
  | track t => exact on.2
  | clip c =>
    obtain ⟨t, member, indexed, onTrack⟩ := on
    obtain ⟨i, indexed', clips, _⟩ := session.isPlaced t member
    rw [indexed] at indexed'
    cases indexed'
    exact (clips c onTrack).2
  | effect e =>
    obtain ⟨t, member, indexed, onTrack⟩ := on
    obtain ⟨i, indexed', _, effects⟩ := session.isPlaced t member
    rw [indexed] at indexed'
    cases indexed'
    exact (effects e onTrack).2
  | literal v => exact on.elim

/-- A clip of the session has an index. -/
theorem IsOn.clip_index {session : Session} {index : Nat} {c : Clip}
    (on : (Item.clip c).IsOn session index) : ∃ i, c.index = some i := by
  obtain ⟨t, member, _, onTrack⟩ := on
  obtain ⟨_, _, clips, _⟩ := session.isPlaced t member
  exact Option.isSome_iff_exists.mp (clips c onTrack).1

end Item

namespace Session

theorem isOn_of_mem_tracks {session : Session} {item : Item}
    (member : item ∈ session.trackCollection.items) : ∃ index, item.IsOn session index := by
  obtain ⟨t, tracked, rfl⟩ := List.mem_map.mp member
  obtain ⟨index, indexed, _⟩ := session.isPlaced t tracked
  exact ⟨index, tracked, indexed⟩

theorem isOn_of_mem_clips {session : Session} {item : Item}
    (member : item ∈ session.clipCollection.items) : ∃ index, item.IsOn session index := by
  obtain ⟨c, clipped, rfl⟩ := List.mem_map.mp member
  obtain ⟨t, tracked, onTrack⟩ := List.mem_flatMap.mp clipped
  obtain ⟨index, indexed, _⟩ := session.isPlaced t tracked
  exact ⟨index, t, tracked, indexed, onTrack⟩

theorem isOn_of_mem_effects {session : Session} {track : Nat} {item : Item}
    (member : item ∈ (session.effectCollection track).items) : item.IsOn session track := by
  obtain ⟨e, chained, rfl⟩ := List.mem_map.mp member
  simp only [effectsOf] at chained
  split at chained
  · next t found =>
    have indexed : t.index = some track := by simpa using List.find?_some found
    exact ⟨t, List.mem_of_find?_eq_some found, indexed, chained⟩
  · cases chained

end Session

/-! ## What is found -/

namespace Store

@[simp] theorem collection?_keep_self (store : Store) (c : Collection) :
    (store.keep c).collection? c.name = some c := by
  simp only [collection?, keep, Members.get?_insert_self, Option.map_some]

theorem collection?_keep_of_ne {store : Store} {c : Collection} {name : String}
    (other : name ≠ c.name) : (store.keep c).collection? name = store.collection? name := by
  simp only [collection?, keep, Members.get?_insert_of_ne _ _ other]

end Store

namespace RunState

theorem collection?_of_stored {s : RunState} {session : Session} {name : String} {c : Collection}
    (stored : s.store.collection? name = some c) : s.collection? session name = some c := by
  simp only [collection?, stored]

/-- A run starts with the tracks of the session. -/
theorem initial_tracks (session : Session) :
    (initial session).collection? session "tracks" = some session.trackCollection := by
  have other : "tracks" ≠ session.clipCollection.name := by simp [Session.clipCollection]
  apply collection?_of_stored
  simp only [initial, Store.collection?_keep_of_ne other]
  exact Store.collection?_keep_self [] session.trackCollection

/-- A run starts with the clips of the session. -/
theorem initial_clips (session : Session) :
    (initial session).collection? session "clips" = some session.clipCollection :=
  collection?_of_stored (Store.collection?_keep_self _ session.clipCollection)

end RunState

/-! ## What a run keeps -/

/-- The items that a method stores which the script itself has written. -/
def Invocation.writes (i : Invocation) : List Item :=
  match i.method, i.args.string Utility.store.name "name", i.args.get? "value" with
  | .utility .store, .ok _, some value => Run.literalItems value
  | _, _, _ => []

theorem Invocation.literal_of_mem_writes {i : Invocation} {item : Item}
    (written : item ∈ i.writes) : ∃ v, item = .literal v := by
  unfold writes at written
  split at written
  · next value _ _ _ =>
    unfold Run.literalItems at written
    split at written
    · obtain ⟨v, _, rfl⟩ := List.mem_map.mp written
      exact ⟨v, rfl⟩
    · exact ⟨value, List.mem_singleton.mp written⟩
  · cases written

/-- The items that a call stores which the script itself has written. -/
def Call.writes : Call → List Item
  | .method i | .forEach _ (.method _ i) => i.writes
  | _ => []

theorem Call.literal_of_mem_writes {c : Call} {item : Item} (written : item ∈ c.writes) :
    ∃ v, item = .literal v := by
  unfold writes at written
  split at written
  · exact Invocation.literal_of_mem_writes written
  · exact Invocation.literal_of_mem_writes written
  · cases written

/-- Whether all items of all collections satisfy a condition. -/
def Store.Satisfies (P : Item → Prop) (store : Store) : Prop :=
  ∀ name items, Members.get? name store = some items → ∀ item ∈ items, P item

theorem Store.Satisfies.keep {P : Item → Prop} {store : Store} {c : Collection}
    (kept : store.Satisfies P) (new : ∀ item ∈ c.items, P item) : (store.keep c).Satisfies P := by
  intro name items found
  by_cases same : name = c.name
  · subst same
    simp only [Store.keep, Members.get?_insert_self, Option.some.injEq] at found
    exact found ▸ new
  · rw [Store.keep, Members.get?_insert_of_ne _ _ same] at found
    exact kept name items found

section

variable {ctx : Context} {P : Item → Prop}
  (studio : ∀ item index, item.IsOn ctx.session index → P item)
include studio

theorem RunState.initial_satisfies : (RunState.initial ctx.session).store.Satisfies P := by
  have none : Store.Satisfies P [] := by
    intro name items found
    cases found
  refine (none.keep ?_).keep ?_
  · intro item member
    obtain ⟨index, on⟩ := Session.isOn_of_mem_tracks member
    exact studio item index on
  · intro item member
    obtain ⟨index, on⟩ := Session.isOn_of_mem_clips member
    exact studio item index on

theorem RunState.collection?_satisfies {s : RunState} {name : String} {c : Collection}
    (kept : s.store.Satisfies P) (found : s.collection? ctx.session name = some c) :
    ∀ item ∈ c.items, P item := by
  simp only [RunState.collection?, Store.collection?] at found
  cases stored : Members.get? name s.store with
  | some items =>
    simp only [stored, Option.map_some, Option.some.injEq] at found
    subst found
    exact kept name items stored
  | none =>
    simp only [stored, Option.map_none] at found
    -- A name that is not stored can only be that of the chain of the current track.
    split at found
    · obtain ⟨track, _, rfl⟩ := Option.map_eq_some_iff.mp found
      exact fun item member => studio item track (Session.isOn_of_mem_effects member)
    · cases found

theorem Utility.result_satisfies {current : Option Nat} {u : Utility} {args : Arguments}
    {c : Collection} (written : ∀ item ∈ Invocation.writes ⟨.utility u, args⟩, P item)
    (kept : u.result ctx.session current args = .ok c) : ∀ item ∈ c.items, P item := by
  cases u with
  | store =>
    obtain ⟨name, named, rest⟩ := Except.bind_eq_ok.mp kept
    cases given : args.get? "value" with
    | none => simp [given] at rest
    | some value =>
      simp only [given] at rest
      cases rest
      simpa only [Invocation.writes, named, given] using written
  | getTracks =>
    cases kept
    intro item member
    obtain ⟨index, on⟩ := Session.isOn_of_mem_tracks member
    exact studio item index on
  | getFxChain =>
    cases current with
    | none => cases kept
    | some track =>
      cases kept
      exact fun item member => studio item track (Session.isOn_of_mem_effects member)

namespace Run

theorem afterItem_satisfies {i : Invocation} {saved : Option Nat} {name : String} {s : RunState}
    {item : Item} (written : ∀ item ∈ i.writes, P item) (kept : s.store.Satisfies P) :
    (afterItem ctx i saved name s item).store.Satisfies P := by
  obtain ⟨method, args⟩ := i
  cases method with
  | utility u =>
    simp only [afterItem, invoke_apply, utility_apply]
    cases result : u.result ctx.session (s.visiting saved item).currentTrack args with
    | error e => exact kept
    | ok c => exact kept.keep (Utility.result_satisfies studio written result)
  | edit e =>
    simp only [afterItem, invoke_apply, edit_apply]
    cases e.actions ctx (s.visiting saved item).currentTrack args (some ⟨name, [item]⟩) <;>
      exact kept

theorem foldl_afterItem_satisfies {i : Invocation} {saved : Option Nat} {name : String}
    {items : List Item} {s : RunState} (written : ∀ item ∈ i.writes, P item)
    (kept : s.store.Satisfies P) :
    (items.foldl (afterItem ctx i saved name) s).store.Satisfies P := by
  induction items generalizing s with
  | nil => exact kept
  | cons item items inductionHypothesis =>
    exact inductionHypothesis (afterItem_satisfies studio written kept)

/-- A call keeps nothing but items of the session and of what it writes itself. -/
theorem Effect.satisfies {s s' : RunState} {pending pending' : Option Collection} {c : Call}
    (effect : Effect ctx s pending c pending' s') (written : ∀ item ∈ c.writes, P item)
    (kept : s.store.Satisfies P) : s'.store.Satisfies P := by
  cases effect with
  | existingTrack | selectedTrack | newTrack | skip | edit => exact kept
  | filter found result =>
    subst result
    refine kept.keep fun item member => ?_
    exact RunState.collection?_satisfies studio kept found item (List.mem_filter.mp member).1
  | map found =>
    refine kept.keep fun item member => ?_
    exact RunState.collection?_satisfies studio kept found item member
  | forEach found => exact foldl_afterItem_satisfies studio written kept
  | utility result => exact kept.keep (Utility.result_satisfies studio written result)

theorem Reaches.satisfies {made : List MadeCall} {s : RunState} {pending : Option Collection}
    (reached : Reaches ctx made s pending)
    (written : ∀ step ∈ made, ∀ item ∈ step.call.writes, P item) : s.store.Satisfies P := by
  induction reached with
  | start => exact RunState.initial_satisfies studio
  | nextStatement _ inductionHypothesis => exact inductionHypothesis written
  | call _ ran inductionHypothesis =>
    have before := inductionHypothesis fun step member =>
      written step (List.mem_append_left _ member)
    have last := written _ (List.mem_append_right _ (List.mem_singleton_self _))
    exact (effect_of_call ran).satisfies studio last before

/-- Where literals satisfy the condition as well as the items of the session do, all items that a
    run keeps satisfy it at all times. -/
theorem Visits.satisfies (literals : ∀ v, P (.literal v)) {s : RunState}
    {pending : Option Collection} (visited : Visits ctx s pending) : s.store.Satisfies P := by
  have written (c : Call) : ∀ item ∈ c.writes, P item := by
    intro item member
    obtain ⟨v, rfl⟩ := Call.literal_of_mem_writes member
    exact literals v
  cases visited with
  | call reached => exact reached.satisfies studio fun step _ => written step.call
  | @item _ _ _ name _ i _ _ _ reached =>
    have between := reached.satisfies studio fun step _ => written step.call
    have inside : ∀ item ∈ i.writes, P item := written (.forEach name (.method "" i))
    exact foldl_afterItem_satisfies studio inside between

end Run

end

end StudioScript
