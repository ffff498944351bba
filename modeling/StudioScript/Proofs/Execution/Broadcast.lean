import Mathlib.Data.List.Forall2
import StudioScript.Proofs.Execution.Edits
import StudioScript.Proofs.Execution.Reachable

/-! # Broadcasts

An edit of a collection leaves items out that have no track, and clips that nothing identifies.  In
no state of a run does a collection of tracks, clips and effects hold such items, so that an edit of
it makes exactly one action for each item, in the order of the items, for the item's own track and,
where the edit is one of clips, for the very clip.
-/

namespace StudioScript

/-! ## What an action is for -/

/-- The clip that an action is for. -/
def Action.clip? : Action → Option ClipRef
  | .deleteClip _ clip => some clip
  | .setClip _ clip _ => some clip
  | .setClipPosition _ _ (.clip index) => some (.clip index)
  | .setClipPosition _ _ (.oldPosition seconds) => some (.position seconds)
  | _ => none

/-- How a clip is identified: by its position, or else by its index. -/
def Clip.ref? (c : Clip) : Option ClipRef := (c.position.map .position).or (c.index.map .clip)

namespace Edit

/-- Whether the edit changes clips that are there. -/
def isOfClips : Edit → Bool
  | .deleteClip | .setClip | .moveClip => true
  | _ => false

/-- What an action has to do with the item that a broadcast makes it for. -/
structure Serves (session : Session) (e : Edit) (item : Item) (action : Action) : Prop where
  track : item.IsOn session action.target
  clip : e.isOfClips = true → ∀ c, item = .clip c → ∃ index, c.index = some index ∧
    action.clip? = some (match c.position with
      | some seconds => .position seconds
      | none => .clip index)

/-! ## Making one action -/

theorem clipRef_clip (e : Edit) (args : Arguments) (c : Clip) :
    clipRef e args (some (.clip c)) = .ok c.ref? := rfl

theorem clipSource_clip (args : Arguments) (c : Clip) :
    clipSource args (some (.clip c)) =
      .ok ((c.position.map .oldPosition).or (c.index.map .clip)) := rfl

/-- Without a clip to go by, the arguments name one or the edit fails. -/
theorem clip_of_clipRef_none {e : Edit} {args : Arguments} {item : Item}
    (named : clipRef e args (some item) = .ok none) : ∃ c, item = .clip c ∧ c.ref? = none := by
  cases item with
  | clip c =>
    rw [clipRef_clip] at named
    exact ⟨c, rfl, Except.ok.inj named⟩
  | track | effect | literal =>
    obtain ⟨index, _, rest⟩ := Except.bind_eq_ok.mp named
    obtain ⟨position, _, rest⟩ := Except.bind_eq_ok.mp rest
    obtain ⟨bar, _, rest⟩ := Except.bind_eq_ok.mp rest
    split at rest <;> cases rest

theorem clip_of_clipSource_none {args : Arguments} {item : Item}
    (named : clipSource args (some item) = .ok none) : ∃ c, item = .clip c ∧ c.ref? = none := by
  cases item with
  | clip c =>
    rw [clipSource_clip, Except.ok.injEq, Option.or_eq_none_iff, Option.map_eq_none_iff,
      Option.map_eq_none_iff] at named
    exact ⟨c, rfl, by simp only [Clip.ref?, named.1, named.2, Option.map_none, Option.or_none]⟩
  | track | effect | literal =>
    obtain ⟨index, _, rest⟩ := Except.bind_eq_ok.mp named
    obtain ⟨position, _, rest⟩ := Except.bind_eq_ok.mp rest
    split at rest <;> cases rest

section

variable {session : Session} {e : Edit} {track : Nat} {item : Item}
  (on : item.IsOn session track)
include on

/-- An action of an edit that is not one of clips. -/
theorem serves_of_target {action : Action} (plain : e.isOfClips = false)
    (target : action.target = track) : e.Serves session item action where
  track := target ▸ on
  clip := by
    intro ofClips
    rw [plain] at ofClips
    cases ofClips

/-- The action of an edit of clips, when the item decides on the clip if it is one. -/
theorem serves_of_clip {α : Type} {named : Option α} {act : α → Action}
    (target : ∀ x, (act x).target = track)
    (clip : ∀ c, item = .clip c → named.bind (fun x => (act x).clip?) = c.ref?)
    (nothing : named = none → ∃ c, item = .clip c ∧ c.ref? = none) :
    ∃ action, named.map act = some action ∧ e.Serves session item action := by
  have identified : ∀ c, item = .clip c → ∃ index, c.index = some index ∧
      c.ref? = some (match c.position with
        | some seconds => .position seconds
        | none => .clip index) := by
    rintro c rfl
    obtain ⟨index, indexed⟩ := on.clip_index
    refine ⟨index, indexed, ?_⟩
    simp only [Clip.ref?, indexed]
    cases c.position <;> rfl
  cases named with
  | none =>
    -- Only a clip without position and index would be left out, and the session has none.
    obtain ⟨c, same, unnamed⟩ := nothing rfl
    obtain ⟨_, _, ref⟩ := identified c same
    rw [unnamed] at ref
    cases ref
  | some x =>
    refine ⟨act x, rfl, (target x).symm ▸ on, fun _ c same => ?_⟩
    obtain ⟨index, indexed, ref⟩ := identified c same
    exact ⟨index, indexed, (clip c same).trans ref⟩

theorem serves_of_clipRef {args : Arguments} {named : Option ClipRef} {act : ClipRef → Action}
    (target : ∀ r, (act r).target = track) (clip : ∀ r, (act r).clip? = some r)
    (ref : clipRef e args (some item) = .ok named) :
    ∃ action, named.map act = some action ∧ e.Serves session item action := by
  refine serves_of_clip on target ?_ (fun none => clip_of_clipRef_none (none ▸ ref))
  rintro c rfl
  rw [clipRef_clip] at ref
  cases ref
  simp only [clip, Option.bind_fun_some]

/-- For an item of the session an edit makes an action, and one that serves the item. -/
theorem serves_of_make {args : Arguments} {result : Option Action}
    (make : Make args track (some item) e result) :
    ∃ action, result = some action ∧ e.Serves session item action := by
  cases make with
  | clipAtBar | clip | fx | instrument | setTrack | delete | automation =>
    exact ⟨_, rfl, serves_of_target on rfl rfl⟩
  | deleteClip ref | setClip _ ref =>
    exact serves_of_clipRef on (fun _ => rfl) (fun _ => rfl) ref
  | moveClip _ source =>
    refine serves_of_clip on (fun _ => rfl) ?_
      (fun none => clip_of_clipSource_none (none ▸ source))
    rintro c rfl
    rw [clipSource_clip] at source
    cases source
    unfold Clip.ref?
    cases c.position <;> cases c.index <;> rfl

end

end Edit

/-! ## Making all actions -/

namespace Run

/-- When every item has a track and an action for it, there is one action for each. -/
theorem actionsFor_forall₂ {R : Item → Action → Prop} {build : Builder} {items : List Item}
    {actions : List Action}
    (each : ∀ item ∈ items, ∃ track, item.target? = some track ∧
      ∀ result, build track (some item) = .ok result →
        ∃ action, result = some action ∧ R item action)
    (made : actionsFor build items = .ok actions) : List.Forall₂ R items actions := by
  induction items generalizing actions with
  | nil =>
    cases made
    exact .nil
  | cons item items inductionHypothesis =>
    obtain ⟨track, target, serves⟩ := each item List.mem_cons_self
    simp only [actionsFor, target] at made
    obtain ⟨result, first, rest⟩ := Except.bind_eq_ok.mp made
    obtain ⟨others, later, joined⟩ := Except.bind_eq_ok.mp rest
    obtain ⟨action, rfl, related⟩ := serves result first
    cases joined
    exact .cons related
      (inductionHypothesis (fun item' member => each item' (List.mem_cons_of_mem _ member)) later)

/-- An edit of a collection of items of the session makes one action for each of them. -/
theorem actions_forall₂ {ctx : Context} {current : Option Nat} {e : Edit} {args : Arguments}
    {c : Collection} {actions : List Action}
    (studio : ∀ item ∈ c.items, ∃ index, item.IsOn ctx.session index)
    (made : e.actions ctx current args (some c) = .ok actions) :
    List.Forall₂ (e.Serves ctx.session) c.items actions := by
  obtain ⟨build, built, made⟩ := Except.bind_eq_ok.mp made
  refine actionsFor_forall₂ (fun item member => ?_) made
  obtain ⟨index, on⟩ := studio item member
  exact ⟨index, on.target, fun result acted =>
    Edit.serves_of_make on (Edit.make_of_build built acted)⟩

/-- What a collection of a run holds besides literals are items of the session. -/
theorem Visits.isOn {ctx : Context} {s : RunState} {pending : Option Collection}
    (visited : Visits ctx s pending) {name : String} {c : Collection}
    (found : s.collection? ctx.session name = some c) :
    ∀ item ∈ c.items, (∀ v, item ≠ .literal v) → ∃ index, item.IsOn ctx.session index := by
  let OfSession (item : Item) : Prop :=
    (∀ v, item ≠ .literal v) → ∃ index, item.IsOn ctx.session index
  -- Literals satisfy this as well, so that all that a run keeps does.
  have studio : ∀ item index, item.IsOn ctx.session index → OfSession item :=
    fun item index on _ => ⟨index, on⟩
  have literals : ∀ v, OfSession (.literal v) := fun v other => absurd rfl (other v)
  exact RunState.collection?_satisfies studio (visited.satisfies studio literals) found

/-! ## Deleting the tracks that match -/

theorem itemName_trackCollection (session : Session) :
    session.trackCollection.itemName = "track" := by
  have base : Collection.baseName "tracks".toList = "tracks".toList := by
    rw [Collection.baseName]
    rfl
  simp only [Session.trackCollection, Collection.itemName, Collection.itemNameOf, base]
  rfl

/-- What `delete` makes for a track. -/
def Deletes (t : Track) (action : Action) : Prop :=
  ∃ index, t.index = some index ∧ action = .deleteTrack index

theorem deletions {tracks : List Track} (indexed : ∀ t ∈ tracks, ∃ index, t.index = some index) :
    ∃ actions,
      actionsFor (fun track _ => .ok (some (.deleteTrack track))) (tracks.map .track) =
        .ok actions ∧ List.Forall₂ Deletes tracks actions := by
  induction tracks with
  | nil => exact ⟨[], rfl, .nil⟩
  | cons t tracks inductionHypothesis =>
    obtain ⟨index, indexed'⟩ := indexed t List.mem_cons_self
    obtain ⟨actions, made, deletes⟩ :=
      inductionHypothesis fun t' member => indexed t' (List.mem_cons_of_mem _ member)
    refine ⟨.deleteTrack index :: actions, ?_, .cons ⟨index, indexed', rfl⟩ deletes⟩
    simp only [List.map_cons, actionsFor, Item.target?, indexed', made]
    rfl

/-- A filter of the tracks of the session, with a deletion chained onto it, deletes exactly the
    tracks that match, in their order. -/
theorem delete_matching {ctx : Context} {s : RunState}
    (found : s.collection? ctx.session "tracks" = some ctx.session.trackCollection) (line : Nat)
    (p : Predicate) (args : Arguments) :
    ∃ s' actions,
      statement ctx ⟨line, .filter "tracks" p, [⟨.edit .delete, args⟩]⟩ s = .ok () s' ∧
        s'.actions = s.actions ++ actions ∧
        List.Forall₂ Deletes (ctx.session.tracks.filter fun t => p.holds "track" (.track t))
          actions := by
  let matching := ctx.session.tracks.filter fun t => p.holds "track" (.track t)
  have items : ctx.session.trackCollection.items.filter (p.holds "track") =
      matching.map .track := List.filter_map
  have indexed : ∀ t ∈ matching, ∃ index, t.index = some index := by
    intro t member
    obtain ⟨index, indexed, _⟩ := ctx.session.isPlaced t (List.mem_filter.mp member).1
    exact ⟨index, indexed⟩
  obtain ⟨actions, made, deletes⟩ := deletions indexed
  let result : Collection := ⟨"tracks" ++ Collection.filteredSuffix, matching.map .track⟩
  let filtered : RunState := { s.keeping result with currentTrack := none }
  have first : call ctx none (.filter "tracks" p) s = .ok (some result) filtered := by
    simp only [call_filter_apply, found, itemName_trackCollection, items]
    rfl
  have second : call ctx (some result) (.method ⟨.edit .delete, args⟩) filtered =
      .ok none (filtered.emitting actions) := by
    have acted : Edit.actions ctx filtered.currentTrack .delete args (some result) =
        .ok actions := made
    rw [call_edit_apply, acted]
    split
    · next empty =>
      -- Nothing matches, and there is nothing to append.
      have none : matching = [] := by simpa [result] using empty
      rw [none] at deletes
      cases deletes
      rw [RunState.emitting_nil]
    · rfl
  refine ⟨filtered.emitting actions, actions, ?_, rfl, deletes⟩
  simp only [statement, Statement.calls, List.map_cons, List.map_nil, calls, bind_apply, first,
    second, pure_apply]

/-! ## Broadcasts -/

/-- A broadcast loses, repeats and reorders nothing.  In every state of a run, an edit of a
    collection of tracks, clips and effects that succeeds appends one action for each item, in
    order; every action is for the item's own track, and that of an edit of clips for the very clip,
    by its position if it has one and else by its index.  So the tracks that match a predicate are
    deleted one by one. -/
theorem broadcast_serves_each {ctx : Context} {s : RunState} {pending : Option Collection}
    (visited : Visits ctx s pending) {name : String} {c : Collection}
    (found : s.collection? ctx.session name = some c)
    (studio : ∀ item ∈ c.items, ∀ v, item ≠ .literal v) (e : Edit) (args : Arguments) :
    (∀ pending' s', call ctx (some c) (.method ⟨.edit e, args⟩) s = .ok pending' s' →
      ∃ actions, s'.actions = s.actions ++ actions ∧
        List.Forall₂ (e.Serves ctx.session) c.items actions) ∧
    (∀ s', invoke ctx ⟨.edit e, args⟩ (some c) s = .ok () s' →
      ∃ actions, s'.actions = s.actions ++ actions ∧
        List.Forall₂ (e.Serves ctx.session) c.items actions) ∧
    (s.collection? ctx.session "tracks" = some ctx.session.trackCollection → ∀ line p,
      ∃ s' actions,
        statement ctx ⟨line, .filter "tracks" p, [⟨.edit .delete, args⟩]⟩ s = .ok () s' ∧
          s'.actions = s.actions ++ actions ∧
          List.Forall₂ Deletes (ctx.session.tracks.filter fun t => p.holds "track" (.track t))
            actions) := by
  have on : ∀ item ∈ c.items, ∃ index, item.IsOn ctx.session index :=
    fun item member => visited.isOn found item member (studio item member)
  refine ⟨?_, ?_, fun tracks line p => delete_matching tracks line p args⟩
  · intro pending' s' ran
    cases effect_of_call ran with
    | skip empty => exact ⟨[], (List.append_nil _).symm, empty ▸ .nil⟩
    | edit _ made => exact ⟨_, rfl, actions_forall₂ on made⟩
  · intro s' ran
    simp only [invoke_apply, edit_apply] at ran
    split at ran
    · next actions made =>
      cases ran
      exact ⟨actions, rfl, actions_forall₂ on made⟩
    · cases ran

/-- Of two clips the first has a position, and the second has not: deleting all clips names the one
    by its position and the other by its index. -/
theorem broadcast_serves_each_of_two_clips :
    let ctx : Context := { session := .ofTracks [{ clips := [{ position := some .zero }, {}] }] }
    let s := RunState.initial ctx.session
    let actions : List Action := [.deleteClip 0 (.position .zero), .deleteClip 0 (.clip 1)]
    let c := ctx.session.clipCollection
    s.collection? ctx.session "clips" = some c ∧ (∀ item ∈ c.items, ∀ v, item ≠ .literal v) ∧
      call ctx (some c) (.method ⟨.edit .deleteClip, .empty⟩) s = .ok none (s.emitting actions) ∧
      List.Forall₂ (Edit.Serves ctx.session .deleteClip) c.items actions := by
  intro ctx s actions c
  have found : s.collection? ctx.session "clips" = some c := RunState.initial_clips _
  have studio : ∀ item ∈ c.items, ∀ v, item ≠ .literal v := by
    rintro item member v rfl
    obtain ⟨_, _, same⟩ := List.mem_map.mp member
    cases same
  have ran : call ctx (some c) (.method ⟨.edit .deleteClip, .empty⟩) s =
      .ok none (s.emitting actions) := rfl
  obtain ⟨emitted, appended, served⟩ :=
    (broadcast_serves_each (.call .start) found studio .deleteClip .empty).1 _ _ ran
  have same : actions = emitted := appended
  exact ⟨found, studio, ran, same ▸ served⟩

end Run

end StudioScript
