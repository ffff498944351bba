import StudioScript.Proofs.Execution.Edits
import StudioScript.Proofs.Execution.Reachable

/-! # The indices of new tracks

A run counts new tracks from the number of tracks that the session has.  As long as no index that a
script gives lies below the count, the count stays above all indices of created tracks, and an index
that is taken from it is a new one.

A session may number a track at or above the number of its tracks, and the count takes no notice of
that (`Run.new_index_taken_in_session`).
-/

namespace StudioScript

/-- The index of the track that an action creates. -/
def Action.created? : Action → Option Nat
  | .createTrack _ _ index => some index
  | _ => none

/-- The indices of the tracks that a run has created so far. -/
def RunState.created (s : RunState) : List Nat := s.actions.filterMap Action.created?

/-- Whether the call, if it creates a track at a given index, does not go below the count. -/
def MadeCall.Advances (m : MadeCall) : Prop :=
  ∀ args instrument name index, m.call = .track args →
    TrackRequest.ofArguments args = .ok (.new instrument name (some index)) →
      m.state.nextIndex ≤ index

/-! ## Only track calls create tracks -/

theorem Edit.Make.created? {args : Arguments} {track : Nat} {item : Option Item} {e : Edit}
    {action : Action} (make : Make args track item e (some action)) : action.created? = none := by
  generalize same : some action = result at make
  cases make with
  | clipAtBar | clip | fx | instrument | setTrack | delete | automation =>
    cases same
    rfl
  | deleteClip | setClip | moveClip =>
    obtain ⟨_, _, rfl⟩ := Option.map_eq_some_iff.mp same.symm
    rfl

namespace Run

/-- Whether the one state has the count and the created tracks of the other. -/
def SameCount (s s' : RunState) : Prop := s'.nextIndex = s.nextIndex ∧ s'.created = s.created

theorem sameCount_emitting {ctx : Context} {current : Option Nat} {s : RunState} {e : Edit}
    {args : Arguments} {pending : Option Collection} {actions : List Action}
    (made : e.actions ctx current args pending = .ok actions) :
    SameCount s (s.emitting actions) := by
  have nothing : actions.filterMap Action.created? = [] := by
    apply List.filterMap_eq_nil_iff.mpr
    intro action member
    obtain ⟨_, _, makes, _⟩ := makes_of_mem_actions made action member
    exact makes.make.created?
  refine ⟨rfl, ?_⟩
  simp only [RunState.created, RunState.emitting, List.filterMap_append, nothing, List.append_nil]

theorem sameCount_afterItem (ctx : Context) (i : Invocation) (saved : Option Nat) (name : String)
    (s : RunState) (item : Item) : SameCount s (afterItem ctx i saved name s item) := by
  obtain ⟨method, args⟩ := i
  cases method with
  | utility u =>
    simp only [afterItem, invoke_apply, utility_apply]
    cases u.result ctx.session (s.visiting saved item).currentTrack args <;> exact ⟨rfl, rfl⟩
  | edit e =>
    simp only [afterItem, invoke_apply, edit_apply]
    cases made : e.actions ctx (s.visiting saved item).currentTrack args (some ⟨name, [item]⟩) with
    | error error => exact ⟨rfl, rfl⟩
    | ok actions => exact sameCount_emitting (s := s.visiting saved item) made

theorem sameCount_foldl_afterItem (ctx : Context) (i : Invocation) (saved : Option Nat)
    (name : String) (items : List Item) (s : RunState) :
    SameCount s (items.foldl (afterItem ctx i saved name) s) := by
  induction items generalizing s with
  | nil => exact ⟨rfl, rfl⟩
  | cons item items inductionHypothesis =>
    have first := sameCount_afterItem ctx i saved name s item
    have rest := inductionHypothesis (afterItem ctx i saved name s item)
    exact ⟨rest.1.trans first.1, rest.2.trans first.2⟩

/-- A call that succeeds leaves the count alone, or it creates a track. -/
theorem Effect.sameCount_or_creates {ctx : Context} {s s' : RunState}
    {pending pending' : Option Collection} {c : Call}
    (effect : Effect ctx s pending c pending' s') :
    SameCount s s' ∨ ∃ args instrument name index, c = .track args ∧
      TrackRequest.ofArguments args = .ok (.new instrument name index) ∧
      s' = s.creating instrument name (index.getD s.nextIndex) := by
  cases effect with
  | existingTrack | selectedTrack | filter | map | utility | skip => exact Or.inl ⟨rfl, rfl⟩
  | newTrack request => exact Or.inr ⟨_, _, _, _, rfl, request, rfl⟩
  | @forEach _ _ _ i source =>
    exact Or.inl (sameCount_foldl_afterItem ctx i s.currentTrack source.name source.items s)
  | edit _ made => exact Or.inl (sameCount_emitting made)

end Run

/-! ## The count -/

theorem Arguments.bounds_of_whole? {args : Arguments} {call key : String} {i : Int}
    (read : args.whole? call key = .ok (some i)) : -wholeBound < i ∧ i < wholeBound := by
  obtain ⟨number, _, rest⟩ := Except.bind_eq_ok.mp read
  cases number with
  | none => cases rest
  | some x =>
    dsimp only at rest
    split at rest
    · split at rest
      · next inside =>
        cases rest
        exact inside
      · cases rest
    · cases rest

/-- An index that is given is below the bound of whole arguments. -/
theorem Arguments.lt_of_index? {args : Arguments} {call key : String} {index : Nat}
    (given : args.index? call key = .ok (some index)) : (index : Int) < wholeBound := by
  obtain ⟨whole, found, given⟩ := Except.bind_eq_ok.mp given
  cases whole with
  | none => cases given
  | some i =>
    have inside := bounds_of_whole? found
    dsimp only at given
    split at given
    · cases given
      omega
    · cases given

theorem TrackRequest.index_of_new {args : Arguments} {instrument name : Option String}
    {given : Option Nat} (request : ofArguments args = .ok (.new instrument name given)) :
    args.index? "track" "index" = .ok given := by
  obtain ⟨id, _, request⟩ := Except.bind_eq_ok.mp request
  cases id with
  | some id =>
    dsimp only at request
    split at request <;> cases request
  | none =>
    obtain ⟨selected, _, request⟩ := Except.bind_eq_ok.mp request
    split at request
    · cases request
    · obtain ⟨_, _, request⟩ := Except.bind_eq_ok.mp request
      obtain ⟨_, _, request⟩ := Except.bind_eq_ok.mp request
      obtain ⟨_, found, request⟩ := Except.bind_eq_ok.mp request
      cases request
      exact found

theorem TrackRequest.lt_of_new {args : Arguments} {instrument name : Option String} {index : Nat}
    (request : ofArguments args = .ok (.new instrument name (some index))) :
    (index : Int) < Arguments.wholeBound :=
  Arguments.lt_of_index? (index_of_new request)

namespace Run

/-- The count is above the number of the tracks of the session and above all created tracks, and a
    run of `calls` calls has not taken it further than that many steps past the greatest index that
    can be given. -/
structure Counted (ctx : Context) (calls : Nat) (s : RunState) : Prop where
  session : ctx.session.tracks.length ≤ s.nextIndex
  created : ∀ index ∈ s.created, index < s.nextIndex
  bounded : s.nextIndex ≤ max ctx.session.tracks.length Arguments.wholeBound.toNat + calls

theorem Counted.of_sameCount {ctx : Context} {calls : Nat} {s s' : RunState}
    (counted : Counted ctx calls s) (same : SameCount s s') : Counted ctx (calls + 1) s' where
  session := same.1 ▸ counted.session
  created := by
    rw [same.1, same.2]
    exact counted.created
  bounded := by
    have before := counted.bounded
    rw [same.1]
    omega

/-- Room for the count: no list in memory, of tracks or of calls, is longer than this. -/
def HasRoom (ctx : Context) (calls : Nat) : Prop :=
  ctx.session.tracks.length < indexModulus / 2 ∧ calls < indexModulus / 2

theorem created_creating (s : RunState) (instrument name : Option String) (index : Nat) :
    (s.creating instrument name index).created = s.created ++ [index] := by
  simp [RunState.created, RunState.creating, Action.created?]

theorem nextIndex_creating {ctx : Context} {calls index : Nat} {s : RunState}
    {instrument name : Option String} (room : HasRoom ctx calls)
    (below : index ≤ max ctx.session.tracks.length Arguments.wholeBound.toNat + calls) :
    (s.creating instrument name index).nextIndex = index + 1 := by
  -- The count stays far below the modulus, so that it never starts again from zero.
  have bound : Arguments.wholeBound.toNat < indexModulus / 2 := by decide
  have inside : index + 1 < indexModulus := by
    have tracks := room.1
    have calls := room.2
    omega
  exact Nat.mod_eq_of_lt inside

theorem Counted.creating {ctx : Context} {calls : Nat} {s : RunState}
    {instrument name : Option String} {given : Option Nat} (counted : Counted ctx calls s)
    (room : HasRoom ctx calls) (advances : ∀ index, given = some index → s.nextIndex ≤ index)
    (inside : ∀ index, given = some index → (index : Int) < Arguments.wholeBound) :
    Counted ctx (calls + 1) (s.creating instrument name (given.getD s.nextIndex)) := by
  obtain ⟨session, created, bounded⟩ := counted
  have above : s.nextIndex ≤ given.getD s.nextIndex := by
    cases given with
    | none => exact Nat.le_refl _
    | some index => exact advances index rfl
  have below : given.getD s.nextIndex ≤
      max ctx.session.tracks.length Arguments.wholeBound.toNat + calls := by
    cases given with
    | none => exact bounded
    | some index =>
      have := inside index rfl
      simp only [Option.getD_some]
      omega
  have next : (s.creating instrument name (given.getD s.nextIndex)).nextIndex =
      given.getD s.nextIndex + 1 := nextIndex_creating room below
  refine ⟨?_, ?_, ?_⟩
  · omega
  · intro index member
    rw [created_creating] at member
    rcases List.mem_append.mp member with old | new
    · have := created index old
      omega
    · rw [List.mem_singleton.mp new]
      omega
  · omega

/-- Only a track that is created changes the count. -/
theorem Reaches.counted {ctx : Context} {made : List MadeCall} {s : RunState}
    {pending : Option Collection} (reached : Reaches ctx made s pending)
    (advances : ∀ m ∈ made, m.Advances) (room : HasRoom ctx made.length) :
    Counted ctx made.length s := by
  induction reached with
  | start =>
    refine ⟨Nat.le_refl _, ?_, Nat.le_max_left _ _⟩
    intro index member
    cases member
  | nextStatement _ inductionHypothesis => exact inductionHypothesis advances room
  | @call made s pending c pending' s' _ ran inductionHypothesis =>
    rw [List.length_append, List.length_singleton] at room ⊢
    have roomBefore : HasRoom ctx made.length := ⟨room.1, by have := room.2; omega⟩
    have counted := inductionHypothesis
      (fun m member => advances m (List.mem_append_left _ member)) roomBefore
    have last := advances ⟨s, c⟩ (List.mem_append_right _ (List.mem_singleton_self _))
    -- The count only changes here: it goes one past the new track, which never takes it back.
    rcases (effect_of_call ran).sameCount_or_creates with same | creates
    · exact counted.of_sameCount same
    · obtain ⟨args, instrument, name, given, rfl, request, rfl⟩ := creates
      apply counted.creating roomBefore
      · rintro index rfl
        exact last args instrument name index rfl request
      · rintro index rfl
        exact TrackRequest.lt_of_new request

/-! ## New tracks -/

/-- While no index that a script gave went below the count, a track that is created without an index
    gets one that no track created in the run has, and no track of the session that is numbered
    below the number of tracks.  An index that is given and does not go below the count takes it to
    one past itself. -/
theorem new_index_unused {ctx : Context} {made : List MadeCall} {s : RunState}
    {pending : Option Collection} (reached : Reaches ctx made s pending)
    (advances : ∀ m ∈ made, m.Advances) (room : HasRoom ctx made.length) (args : Arguments)
    (instrument name : Option String) :
    (TrackRequest.ofArguments args = .ok (.new instrument name none) →
      ∃ index s', call ctx pending (.track args) s = .ok none s' ∧
        s'.actions = s.actions ++ [.createTrack instrument name index] ∧
        index ∉ s.created ∧
        (∀ t ∈ ctx.session.tracks, ∀ i < ctx.session.tracks.length, t.index = some i → i ≠ index) ∧
        s'.nextIndex = index + 1) ∧
    (∀ index, TrackRequest.ofArguments args = .ok (.new instrument name (some index)) →
      s.nextIndex ≤ index →
        ∃ s', call ctx pending (.track args) s = .ok none s' ∧
          s'.actions = s.actions ++ [.createTrack instrument name index] ∧
          s'.nextIndex = index + 1) := by
  have counted := reached.counted advances room
  have created (given : Option Nat)
      (request : TrackRequest.ofArguments args = .ok (.new instrument name given)) :
      call ctx pending (.track args) s =
        .ok none (s.creating instrument name (given.getD s.nextIndex)) := by
    simp only [call, bind_apply, track_apply, request, pure_apply]
  refine ⟨fun request => ?_, fun index request above => ?_⟩
  · refine ⟨s.nextIndex, _, created none request, rfl, ?_, ?_, ?_⟩
    · intro taken
      exact Nat.lt_irrefl _ (counted.created _ taken)
    · intro t _ i small _ same
      have := counted.session
      omega
    · exact nextIndex_creating room counted.bounded
  · refine ⟨_, created (some index) request, rfl, ?_⟩
    have inside := TrackRequest.lt_of_new request
    apply nextIndex_creating room
    simp only [Option.getD_some]
    omega

/-- In a session without tracks, the track behind one that is created at index 0 is created at
    index 1. -/
theorem new_index_unused_behind_first :
    let ctx : Context := { session := .ofTracks [] }
    let args : Arguments := .single "index" (.number .zero)
    let s := (RunState.initial ctx.session).creating none none 0
    Reaches ctx [⟨.initial ctx.session, .track args⟩] s none ∧
      (∀ m ∈ [MadeCall.mk (.initial ctx.session) (.track args)], m.Advances) ∧
      ∃ index s', call ctx none (.track .empty) s = .ok none s' ∧
        s'.actions = [.createTrack none none 0, .createTrack none none index] ∧ index ≠ 0 := by
  intro ctx args s
  have zero : Number.zero.whole? = some 0 := by
    simp [Number.whole?, Number.zero, Magnitude.whole?, Magnitude.units, Magnitude.zero]
  have number : args.number? "track" "index" = .ok (some .zero) := rfl
  have whole : args.whole? "track" "index" = .ok (some 0) := by
    simp [Arguments.whole?, number, zero, Arguments.wholeBound, bind, Except.bind, pure,
      Except.pure]
  have index : args.index? "track" "index" = .ok (some 0) := by
    simp [Arguments.index?, whole, bind, Except.bind, pure, Except.pure]
  have request : TrackRequest.ofArguments args = .ok (.new none none (some 0)) := by
    have id : args.whole? "track" "id" = .ok none := rfl
    have selected : args.boolean? "track" "selected" = .ok none := rfl
    have instrument : args.string? "track" "instrument" = .ok none := rfl
    have name : args.string? "track" "name" = .ok none := rfl
    simp [TrackRequest.ofArguments, id, selected, instrument, name, index, bind, Except.bind, pure,
      Except.pure]
  have ran : call ctx none (.track args) (.initial ctx.session) = .ok none s := by
    simp only [call, bind_apply, track_apply, request, pure_apply]
    rfl
  have reached : Reaches ctx [⟨.initial ctx.session, .track args⟩] s none := .call .start ran
  have advances : ∀ m ∈ [MadeCall.mk (.initial ctx.session) (.track args)], m.Advances := by
    intro m member args' instrument name index _ _
    rw [List.mem_singleton.mp member]
    exact Nat.zero_le _
  have room : HasRoom ctx 1 := ⟨by decide, by decide⟩
  obtain ⟨index, s', ran, emitted, unused, _⟩ :=
    (new_index_unused reached advances room .empty none none).1 rfl
  refine ⟨reached, advances, index, s', ran, emitted, ?_⟩
  rintro rfl
  exact unused (List.mem_singleton_self _)

/-- The one track of a session may have index 1, which the first track that a script creates gets as
    well. -/
theorem new_index_taken_in_session :
    let ctx : Context := { session := .ofTracks [{ index := some 1 }] }
    ctx.execute ⟨[⟨1, .track .empty, []⟩]⟩ = .ok [.createTrack none none 1] ∧
      ctx.session.tracks.map Track.index = [some 1] :=
  ⟨rfl, rfl⟩

end Run

end StudioScript
