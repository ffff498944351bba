import StudioScript.Proofs.Execution.Incremental
import StudioScript.Proofs.Execution.Itemwise
import StudioScript.Proofs.Execution.Numbering

/-! # States as replays

What a run records besides its actions can be read off the calls that it has made: the current track
off the last track call or filter, the count of tracks off the last track created, and the
collections off what was kept last under each name.  Every call contributes to these what
`MadeCall.trackSetting?`, `RunState.created` and `MadeCall.kept` say, and nothing else
(`Run.Reaches.replays`).
-/

namespace StudioScript

/-! ## What a call sets and keeps -/

/-- The index of the track that is asked for, where a new track gets the index `next`. -/
def TrackRequest.index? (session : Session) (next : Nat) : TrackRequest → Option Nat
  | .existing index => some index
  | .selected => session.selectedIndex?
  | .new _ _ given => some (given.getD next)

/-- The collections that a method keeps, when calls go to the track `current`. -/
def Invocation.kept (session : Session) (current : Option Nat) (i : Invocation) :
    List Collection :=
  match i.method with
  | .utility u => (u.result session current i.args).toOption.toList
  | .edit _ => []

namespace MadeCall

/-- What the call makes of the current track, if it sets it: a track call makes it the track that it
    asks for, and a filter makes it none. -/
def trackSetting? (session : Session) (m : MadeCall) : Option (Option Nat) :=
  match m.call with
  | .track args =>
      some ((TrackRequest.ofArguments args).toOption.bind (·.index? session m.state.nextIndex))
  | .filter .. => some none
  | .map .. | .forEach .. | .method _ => none

/-- The collections that the call keeps, in order.  In `for_each` a method is applied to one item
    after another, each time with the track of the item as the current track. -/
def kept (session : Session) (m : MadeCall) : List Collection :=
  match m.call with
  | .filter name p =>
      (m.state.collection? session name).toList.map fun source =>
        ⟨name ++ Collection.filteredSuffix, source.items.filter (p.holds source.itemName)⟩
  | .map name (.method ..) =>
      (m.state.collection? session name).toList.map fun source =>
        ⟨name ++ Collection.mappedSuffix, source.items⟩
  | .forEach name (.method _ i) =>
      (m.state.collection? session name).toList.flatMap fun source =>
        source.items.flatMap fun item => i.kept session (item.target?.or m.state.currentTrack)
  | .method i => i.kept session m.state.currentTrack
  | .track _ | .map _ (.named _) | .forEach _ (.named _) => []

end MadeCall

/-- The last of the collections with the name. -/
def Collection.lastNamed? (name : String) (cs : List Collection) : Option Collection :=
  (cs.filter (·.name == name)).getLast?

/-- The collection with the name that a run starts with. -/
def Session.view? (session : Session) (name : String) : Option Collection :=
  if name = "tracks" then some session.trackCollection
  else if name = "clips" then some session.clipCollection
  else none

/-! ## Collections kept in a row -/

namespace Store

/-- Of the collections that are kept under one name, the last one is found. -/
theorem collection?_foldl_keep (store : Store) (cs : List Collection) (name : String) :
    (cs.foldl keep store).collection? name =
      (Collection.lastNamed? name cs).or (store.collection? name) := by
  induction cs generalizing store with
  | nil => rfl
  | cons c cs inductionHypothesis =>
    rw [List.foldl_cons, inductionHypothesis, ← List.singleton_append]
    simp only [Collection.lastNamed?, List.filter_append, List.getLast?_append, Option.or_assoc]
    congr 1
    by_cases same : c.name = name
    · subst same
      simp
    · rw [collection?_keep_of_ne (Ne.symm same)]
      simp [same]

end Store

theorem RunState.initial_view (session : Session) (name : String) :
    (initial session).store.collection? name = session.view? name := by
  unfold Session.view?
  by_cases clips : name = "clips"
  · subst clips
    exact Store.collection?_keep_self _ session.clipCollection
  · rw [initial, Store.collection?_keep_of_ne (c := session.clipCollection) clips, if_neg clips]
    by_cases tracks : name = "tracks"
    · subst tracks
      exact Store.collection?_keep_self [] session.trackCollection
    · rw [Store.collection?_keep_of_ne (c := session.trackCollection) tracks, if_neg tracks]
      rfl

namespace Run

/-! ## What a call leaves of the state -/

theorem afterItem_store (ctx : Context) (i : Invocation) (saved : Option Nat) (name : String)
    (s : RunState) (item : Item) :
    (afterItem ctx i saved name s item).store =
      (i.kept ctx.session (item.target?.or saved)).foldl Store.keep s.store := by
  obtain ⟨method, args⟩ := i
  cases method with
  | utility u =>
    simp only [afterItem, invoke_apply, utility_apply, Invocation.kept, RunState.visiting]
    cases u.result ctx.session (item.target?.or saved) args <;> rfl
  | edit e =>
    simp only [afterItem, invoke_apply, edit_apply, Invocation.kept]
    cases e.actions ctx (s.visiting saved item).currentTrack args (some ⟨name, [item]⟩) <;> rfl

theorem foldl_afterItem_store (ctx : Context) (i : Invocation) (saved : Option Nat)
    (name : String) (items : List Item) (s : RunState) :
    (items.foldl (afterItem ctx i saved name) s).store =
      (items.flatMap fun item => i.kept ctx.session (item.target?.or saved)).foldl Store.keep
        s.store := by
  induction items generalizing s with
  | nil => rfl
  | cons item items inductionHypothesis =>
    rw [List.foldl_cons, inductionHypothesis, afterItem_store, List.flatMap_cons, List.foldl_append]

/-- A call keeps the collections that are listed for it, and no others. -/
theorem Effect.store {ctx : Context} {s s' : RunState} {pending pending' : Option Collection}
    {c : Call} (effect : Effect ctx s pending c pending' s') :
    s'.store = (MadeCall.kept ctx.session ⟨s, c⟩).foldl Store.keep s.store := by
  cases effect with
  | existingTrack | selectedTrack | newTrack | skip | edit => rfl
  | filter found result =>
    subst result
    simp only [MadeCall.kept, found]
    rfl
  | map found =>
    simp only [MadeCall.kept, found]
    rfl
  | forEach found =>
    simp only [MadeCall.kept, found, Option.toList_some, List.flatMap_singleton]
    exact foldl_afterItem_store _ _ _ _ _ _
  | utility result =>
    simp only [MadeCall.kept, Invocation.kept, result]
    rfl

/-- The current track is set by track calls and filters alone. -/
theorem Effect.currentTrack {ctx : Context} {s s' : RunState}
    {pending pending' : Option Collection} {c : Call}
    (effect : Effect ctx s pending c pending' s') :
    s'.currentTrack = (MadeCall.trackSetting? ctx.session ⟨s, c⟩).getD s.currentTrack := by
  cases effect with
  | existingTrack request | newTrack request =>
    simp only [MadeCall.trackSetting?, request]
    rfl
  | selectedTrack request selected =>
    simp only [MadeCall.trackSetting?, request]
    exact selected.symm
  | filter | map | forEach | utility | skip | edit => rfl

/-! ## The count of tracks -/

/-- The number of track calls among the calls. -/
def trackCalls (made : List MadeCall) : Nat := made.countP (·.call matches .track _)

theorem trackCalls_append (made : List MadeCall) (s : RunState) (c : Call) :
    trackCalls (made ++ [⟨s, c⟩]) = trackCalls made + if c matches .track _ then 1 else 0 := by
  rw [trackCalls, List.countP_append, List.countP_singleton]
  rfl

/-- No track call takes the count further than one past where it was or past the greatest index that
    can be given, and no other call changes it. -/
theorem Reaches.nextIndex_le {ctx : Context} {made : List MadeCall} {s : RunState}
    {pending : Option Collection} (reached : Reaches ctx made s pending) :
    s.nextIndex ≤
      max ctx.session.tracks.length Arguments.wholeBound.toNat + trackCalls made := by
  induction reached with
  | start => exact Nat.le_max_left _ _
  | nextStatement _ inductionHypothesis => exact inductionHypothesis
  | @call made s pending c pending' s' _ ran inductionHypothesis =>
    rw [trackCalls_append]
    rcases (effect_of_call ran).sameCount_or_creates with same | creates
    · rw [same.1]
      omega
    · obtain ⟨args, instrument, name, given, rfl, request, rfl⟩ := creates
      have next : (s.creating instrument name (given.getD s.nextIndex)).nextIndex ≤
          given.getD s.nextIndex + 1 := Nat.mod_le _ _
      simp only [if_true]
      cases given with
      | none =>
        simp only [Option.getD_none] at next ⊢
        omega
      | some index =>
        have inside := TrackRequest.lt_of_new request
        simp only [Option.getD_some] at next ⊢
        omega

/-- A call either creates no track and leaves the count alone, or it creates one and takes the count
    to one past its index. -/
theorem Effect.created {ctx : Context} {s s' : RunState} {pending pending' : Option Collection}
    {c : Call} (effect : Effect ctx s pending c pending' s') :
    SameCount s s' ∨ ∃ index, s'.created = s.created ++ [index] ∧
      s'.nextIndex = (index + 1) % indexModulus ∧
      (index ≤ s.nextIndex ∨ (index : Int) < Arguments.wholeBound) := by
  refine effect.sameCount_or_creates.imp_right ?_
  rintro ⟨args, instrument, name, given, _, request, rfl⟩
  refine ⟨_, created_creating s instrument name _, rfl, ?_⟩
  cases given with
  | none => exact .inl (Nat.le_refl _)
  | some index => exact .inr (TrackRequest.lt_of_new request)

/-! ## Replays -/

/-- Whether the state is what the calls that were made come to, one after another. -/
structure Replays (ctx : Context) (made : List MadeCall) (s : RunState) : Prop where
  /-- The current track is the one that the last track call asked for, if no filter came behind it,
      and none otherwise. -/
  currentTrack :
    s.currentTrack = (made.filterMap (MadeCall.trackSetting? ctx.session)).getLast?.join
  /-- The count of tracks is one past the index of the last track created, or the number of tracks
      of the session.  It is held in 64 bits. -/
  nextIndex :
    s.nextIndex =
      (s.created.getLast?.map fun i => (i + 1) % indexModulus).getD ctx.session.tracks.length
  /-- The 64 bits are enough for it. -/
  nextIndex_exact (room : HasRoom ctx made.length) :
    s.nextIndex = (s.created.getLast?.map (· + 1)).getD ctx.session.tracks.length
  /-- Under each name there is what was kept last under it, or the view of the session that the run
      started with, or nothing. -/
  store (name : String) :
    s.store.collection? name =
      (Collection.lastNamed? name (made.flatMap (MadeCall.kept ctx.session))).or
        (ctx.session.view? name)
  /-- The actions that there were before any of the calls are still there. -/
  actions : ∀ m ∈ made, m.state.actions <+: s.actions

theorem Replays.start (ctx : Context) : Replays ctx [] (.initial ctx.session) where
  currentTrack := rfl
  nextIndex := rfl
  nextIndex_exact _ := rfl
  store := RunState.initial_view ctx.session
  actions := List.forall_mem_nil _

/-- A call takes the replay one step further. -/
theorem Replays.call {ctx : Context} {made : List MadeCall} {s s' : RunState}
    {pending pending' : Option Collection} {c : Call} (replays : Replays ctx made s)
    (below : s.nextIndex ≤ max ctx.session.tracks.length Arguments.wholeBound.toNat + made.length)
    (effect : Effect ctx s pending c pending' s') : Replays ctx (made ++ [⟨s, c⟩]) s' where
  currentTrack := by
    rw [effect.currentTrack, replays.currentTrack, List.filterMap_append, List.getLast?_append]
    cases setting : MadeCall.trackSetting? ctx.session ⟨s, c⟩ <;> simp [setting]
  nextIndex := by
    rcases effect.created with same | ⟨index, created, next, _⟩
    · rw [same.1, same.2, replays.nextIndex]
    · simp [created, next]
  nextIndex_exact room := by
    rw [List.length_append, List.length_singleton] at room
    have roomBefore : HasRoom ctx made.length := ⟨room.1, by have := room.2; omega⟩
    rcases effect.created with same | ⟨index, created, next, given⟩
    · rw [same.1, same.2, replays.nextIndex_exact roomBefore]
    · have inside : index ≤
          max ctx.session.tracks.length Arguments.wholeBound.toNat + made.length := by omega
      have creating : (s.creating none none index).nextIndex = index + 1 :=
        nextIndex_creating roomBefore inside
      have exact : (index + 1) % indexModulus = index + 1 := creating
      simp [created, next, exact]
  store name := by
    rw [effect.store, Store.collection?_foldl_keep, replays.store, ← Option.or_assoc]
    simp only [Collection.lastNamed?, List.flatMap_append, List.flatMap_singleton,
      List.filter_append, List.getLast?_append]
  actions := by
    intro m member
    rcases List.mem_append.mp member with old | last
    · exact (replays.actions m old).trans effect.appends
    · cases List.mem_singleton.mp last
      exact effect.appends

theorem Reaches.replays {ctx : Context} {made : List MadeCall} {s : RunState}
    {pending : Option Collection} (reached : Reaches ctx made s pending) : Replays ctx made s := by
  induction reached with
  | start => exact .start ctx
  | nextStatement _ inductionHypothesis => exact inductionHypothesis
  | @call made s pending c pending' s' reached ran inductionHypothesis =>
    have below := reached.nextIndex_le
    have fewer : trackCalls made ≤ made.length := List.countP_le_length
    exact inductionHypothesis.call (by omega) (effect_of_call ran)

/-! ## What `for_each` leaves -/

end Run

end StudioScript
