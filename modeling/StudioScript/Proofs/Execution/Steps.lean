import StudioScript.Execution.Outcome

/-! # What the calls of a run do

The calls of a run as functions of the state.  What a call adds or keeps is worked out from the
session, the arguments and the current track alone (`Edit.actions`, `Utility.result`), and only
then is the state changed.  `Run.Effect` lists all that a call that succeeds can do, and
`Run.Refusal` all that one can fail with, which leaves the state as it was (`Run.call_cases`).
-/

namespace StudioScript

/-! ## Edits and utilities as functions -/

/-- The track of an edit without a collection, when calls go to the track `current`. -/
def Edit.trackFrom (session : Session) (current : Option Nat) (e : Edit) : Except RunError Nat :=
  match current, e, session.selectedIndex? with
  | some track, _, _ => .ok track
  | none, .newClip, some track => .ok track
  | none, _, _ => .error (.noTrackContext e.name)

/-- The actions of an edit, when calls go to the track `current`. -/
def Edit.actions (ctx : Context) (current : Option Nat) (e : Edit) (args : Arguments)
    (pending : Option Collection) : Except RunError (List Action) := do
  let build ← e.builder ctx.defaults args
  match pending with
  | some c => Run.actionsFor build c.items
  | none =>
      let track ← e.trackFrom ctx.session current
      let action ← build track none
      return action.toList

/-- The collection that a utility keeps, when calls go to the track `current`. -/
def Utility.result (session : Session) (current : Option Nat) (u : Utility) (args : Arguments) :
    Except RunError Collection :=
  match u with
  | .store => do
      let name ← args.string Utility.store.name "name"
      match args.get? "value" with
      | some value => return ⟨name, Run.literalItems value⟩
      | none => throw (.missingArgument Utility.store.name "value")
  | .getTracks => .ok session.trackCollection
  | .getFxChain =>
      match current with
      | some track => .ok (session.effectCollection track)
      | none => .error (.noTrackContext u.name)

namespace RunState

/-- The state behind more actions. -/
def emitting (s : RunState) (actions : List Action) : RunState :=
  { s with actions := s.actions ++ actions }

@[simp] theorem emitting_nil (s : RunState) : s.emitting [] = s := by
  simp only [emitting, List.append_nil]

/-- The state behind a collection that is kept. -/
def keeping (s : RunState) (c : Collection) : RunState := { s with store := s.store.keep c }

/-- The state behind a new track. -/
def creating (s : RunState) (instrument name : Option String) (index : Nat) : RunState :=
  { s with
    nextIndex := (index + 1) % Run.indexModulus
    currentTrack := some index
    actions := s.actions ++ [.createTrack instrument name index] }

/-- The state in which a method is applied to one of several items. -/
def visiting (s : RunState) (saved : Option Nat) (item : Item) : RunState :=
  { s with currentTrack := item.target?.or saved }

end RunState

namespace Run

variable {α β : Type}

/-! ## Single steps -/

theorem bind_apply (step : Run α) (next : α → Run β) (s : RunState) :
    (step >>= next) s =
      match step s with
      | .ok x s' => next x s'
      | .error e s' => .error e s' := by
  simp only [bind, EStateM.bind]
  cases step s <;> rfl

theorem bind_eq_ok {step : Run α} {next : α → Run β} {s s' : RunState} {y : β} :
    (step >>= next) s = .ok y s' ↔ ∃ x mid, step s = .ok x mid ∧ next x mid = .ok y s' := by
  rw [bind_apply]
  cases step s with
  | ok x mid =>
    constructor
    · intro ran
      exact ⟨x, mid, rfl, ran⟩
    · rintro ⟨_, _, same, ran⟩
      cases same
      exact ran
  | error e mid => simp

@[simp] theorem pure_apply (x : α) (s : RunState) : (pure x : Run α) s = .ok x s := rfl

@[simp] theorem get_apply (s : RunState) : (get : Run RunState) s = .ok s s := rfl

@[simp] theorem setTrack_apply (track : Option Nat) (s : RunState) :
    setTrack track s = .ok () { s with currentTrack := track } := rfl

/-- A step that takes a result over leaves the state alone. -/
theorem lift_apply (result : Except RunError α) (s : RunState) :
    lift result s =
      match result with
      | .ok x => .ok x s
      | .error e => .error e s := by
  cases result <;> rfl

theorem resolve_apply (session : Session) (name : String) (s : RunState) :
    resolve session name s =
      match s.collection? session name with
      | some c => .ok c s
      | none => .error (.noCollection name) s := by
  simp only [resolve, bind_apply, get_apply]
  cases s.collection? session name <;> rfl

/-! ## Calls -/

theorem track_apply (session : Session) (args : Arguments) (s : RunState) :
    track session args s =
      match TrackRequest.ofArguments args with
      | .error e => .error e s
      | .ok (.existing index) => .ok () { s with currentTrack := some index }
      | .ok .selected =>
          match session.selectedIndex? with
          | some index => .ok () { s with currentTrack := some index }
          | none => .error .noSelectedTrack s
      | .ok (.new instrument name index) =>
          .ok () (s.creating instrument name (index.getD s.nextIndex)) := by
  simp only [track, bind_apply, lift_apply]
  cases TrackRequest.ofArguments args with
  | error e => rfl
  | ok request =>
    cases request with
    | existing index => rfl
    | selected => cases session.selectedIndex? <;> rfl
    | new instrument name index => rfl

theorem editedTrack_apply (session : Session) (e : Edit) (s : RunState) :
    editedTrack session e s =
      match e.trackFrom session s.currentTrack with
      | .ok track => .ok track s
      | .error error => .error error s := by
  simp only [editedTrack, Edit.trackFrom, bind_apply, get_apply]
  cases s.currentTrack with
  | some track => rfl
  | none => cases e <;> cases session.selectedIndex? <;> rfl

theorem edit_apply (ctx : Context) (e : Edit) (args : Arguments) (pending : Option Collection)
    (s : RunState) :
    edit ctx e args pending s =
      match e.actions ctx s.currentTrack args pending with
      | .ok actions => .ok () (s.emitting actions)
      | .error error => .error error s := by
  simp only [edit, Edit.actions, bind_apply, lift_apply]
  cases e.builder ctx.defaults args with
  | error error => rfl
  | ok build =>
    cases pending with
    | some c =>
      simp only [bind, Except.bind]
      cases actionsFor build c.items <;> rfl
    | none =>
      simp only [bind_apply, editedTrack_apply, lift_apply]
      cases e.trackFrom ctx.session s.currentTrack with
      | error error => rfl
      | ok track =>
        cases built : build track none with
        | error error => simp only [built, bind, Except.bind]
        | ok result =>
          simp only [built, bind, Except.bind]
          rfl

theorem utility_apply (session : Session) (u : Utility) (args : Arguments) (s : RunState) :
    utility session u args s =
      match u.result session s.currentTrack args with
      | .ok c => .ok () (s.keeping c)
      | .error e => .error e s := by
  cases u with
  | store =>
    simp only [utility, store, Utility.result, bind_apply, lift_apply]
    cases args.string Utility.store.name "name" with
    | error e => rfl
    | ok name => cases args.get? "value" <;> rfl
  | getTracks => rfl
  | getFxChain =>
    obtain ⟨currentTrack, nextIndex, store, actions⟩ := s
    cases currentTrack <;> rfl

theorem invoke_apply (ctx : Context) (i : Invocation) (pending : Option Collection)
    (s : RunState) :
    invoke ctx i pending s =
      match i.method with
      | .utility u => utility ctx.session u i.args s
      | .edit e => edit ctx e i.args pending s := by
  simp only [invoke]
  cases i.method <;> rfl

theorem filter_apply (session : Session) (name : String) (p : Predicate) (s : RunState) :
    filter session name p s =
      match s.collection? session name with
      | some source =>
          .ok ⟨name ++ Collection.filteredSuffix, source.items.filter (p.holds source.itemName)⟩ s
      | none => .error (.noCollection name) s := by
  simp only [filter, bind_apply, resolve_apply]
  cases s.collection? session name <;> rfl

theorem map_apply (session : Session) (name : String) (function : ItemFunction) (s : RunState) :
    map session name function s =
      match s.collection? session name, function with
      | none, _ => .error (.noCollection name) s
      | some _, .named f => .error (.unsupportedFunction "map" f) s
      | some source, .method .. => .ok ⟨name ++ Collection.mappedSuffix, source.items⟩ s := by
  simp only [map, bind_apply, resolve_apply]
  cases s.collection? session name with
  | none => rfl
  | some source => cases function <;> rfl

/-- The state behind a method that is applied to one of several items. -/
def afterItem (ctx : Context) (i : Invocation) (saved : Option Nat) (name : String)
    (s : RunState) (item : Item) : RunState :=
  match invoke ctx i (some ⟨name, [item]⟩) (s.visiting saved item) with
  | .ok _ s' => s'
  | .error _ _ => s.visiting saved item

/-! ## Failures -/

/-- A method that fails leaves the state as it was. -/
theorem invoke_error {ctx : Context} {i : Invocation} {pending : Option Collection}
    {s s' : RunState} {e : RunError} (failed : invoke ctx i pending s = .error e s') : s' = s := by
  rw [invoke_apply] at failed
  cases method : i.method with
  | utility u =>
    simp only [method, utility_apply] at failed
    split at failed <;> cases failed
    rfl
  | edit edit =>
    simp only [method, edit_apply] at failed
    split at failed <;> cases failed
    rfl

/-- Nothing is cut off behind a method that fails. -/
theorem attempt_invoke (ctx : Context) (i : Invocation) (pending : Option Collection)
    (s : RunState) :
    attempt (invoke ctx i pending) s =
      .ok () (match invoke ctx i pending s with
        | .ok _ s' => s'
        | .error _ _ => s) := by
  simp only [attempt]
  cases outcome : invoke ctx i pending s with
  | ok _ s' => rfl
  | error e s' =>
    -- The actions are cut off where the method began, and that is where they still end.
    cases invoke_error outcome
    simp only [List.take_length]

theorem invokeOnEach_apply (ctx : Context) (i : Invocation) (saved : Option Nat) (name : String)
    (items : List Item) (s : RunState) :
    invokeOnEach ctx i saved name items s =
      .ok () (items.foldl (afterItem ctx i saved name) s) := by
  induction items generalizing s with
  | nil => rfl
  | cons item items inductionHypothesis =>
    simp only [invokeOnEach, bind_apply, setTrack_apply, attempt_invoke, inductionHypothesis]
    rfl

theorem forEach_apply (ctx : Context) (name : String) (function : ItemFunction) (s : RunState) :
    forEach ctx name function s =
      match s.collection? ctx.session name, function with
      | none, _ => .error (.noCollection name) s
      | some _, .named f => .error (.unsupportedFunction "for_each" f) s
      | some source, .method _ i =>
          .ok () { source.items.foldl (afterItem ctx i s.currentTrack source.name) s with
            currentTrack := s.currentTrack } := by
  simp only [forEach, bind_apply, resolve_apply]
  cases s.collection? ctx.session name with
  | none => rfl
  | some source =>
    cases function with
    | named f => rfl
    | method binder i =>
      simp only [bind_apply, get_apply, invokeOnEach_apply, setTrack_apply]

theorem call_filter_apply (ctx : Context) (pending : Option Collection) (name : String)
    (p : Predicate) (s : RunState) :
    call ctx pending (.filter name p) s =
      match s.collection? ctx.session name with
      | some source =>
          let result : Collection := ⟨name ++ Collection.filteredSuffix,
            source.items.filter (p.holds source.itemName)⟩
          .ok (some result) { s.keeping result with currentTrack := none }
      | none => .error (.noCollection name) s := by
  simp only [call, bind_apply, filter_apply]
  cases s.collection? ctx.session name <;> rfl

theorem call_edit_apply (ctx : Context) (pending : Option Collection) (e : Edit)
    (args : Arguments) (s : RunState) :
    call ctx pending (.method ⟨.edit e, args⟩) s =
      if pending.any (·.items.isEmpty) then .ok none s
      else
        match e.actions ctx s.currentTrack args pending with
        | .ok actions => .ok none (s.emitting actions)
        | .error error => .error error s := by
  simp only [call]
  split
  · rfl
  · simp only [bind_apply, edit_apply]
    cases e.actions ctx s.currentTrack args pending <;> rfl

/-- All that a call does when it succeeds: the collection that is pending behind it and the state
    that it leaves. -/
inductive Effect (ctx : Context) (s : RunState) :
    Option Collection → Call → Option Collection → RunState → Prop where
  | existingTrack {pending args index}
      (request : TrackRequest.ofArguments args = .ok (.existing index)) :
      Effect ctx s pending (.track args) none { s with currentTrack := some index }
  | selectedTrack {pending args index}
      (request : TrackRequest.ofArguments args = .ok .selected)
      (selected : ctx.session.selectedIndex? = some index) :
      Effect ctx s pending (.track args) none { s with currentTrack := some index }
  | newTrack {pending args instrument name index}
      (request : TrackRequest.ofArguments args = .ok (.new instrument name index)) :
      Effect ctx s pending (.track args) none
        (s.creating instrument name (index.getD s.nextIndex))
  | filter {pending name p source result}
      (found : s.collection? ctx.session name = some source)
      (kept : result = ⟨name ++ Collection.filteredSuffix,
        source.items.filter (p.holds source.itemName)⟩) :
      Effect ctx s pending (.filter name p) (some result)
        { s.keeping result with currentTrack := none }
  | map {pending name binder i source}
      (found : s.collection? ctx.session name = some source) :
      Effect ctx s pending (.map name (.method binder i)) none
        (s.keeping ⟨name ++ Collection.mappedSuffix, source.items⟩)
  | forEach {pending name binder i source}
      (found : s.collection? ctx.session name = some source) :
      Effect ctx s pending (.forEach name (.method binder i)) none
        { source.items.foldl (afterItem ctx i s.currentTrack source.name) s with
          currentTrack := s.currentTrack }
  | utility {pending u args c}
      (kept : u.result ctx.session s.currentTrack args = .ok c) :
      Effect ctx s pending (.method ⟨.utility u, args⟩) pending (s.keeping c)
  | skip {c e args} (empty : c.items = []) :
      Effect ctx s (some c) (.method ⟨.edit e, args⟩) none s
  | edit {pending e args actions}
      (nonempty : pending.any (·.items.isEmpty) = false)
      (made : e.actions ctx s.currentTrack args pending = .ok actions) :
      Effect ctx s pending (.method ⟨.edit e, args⟩) none (s.emitting actions)

/-- All that a call can fail with. -/
inductive Refusal (ctx : Context) (s : RunState) : Option Collection → Call → RunError → Prop where
  | request {pending args e} (refused : TrackRequest.ofArguments args = .error e) :
      Refusal ctx s pending (.track args) e
  | noSelection {pending args} (request : TrackRequest.ofArguments args = .ok .selected)
      (missing : ctx.session.selectedIndex? = none) :
      Refusal ctx s pending (.track args) .noSelectedTrack
  | filter {pending name p} (missing : s.collection? ctx.session name = none) :
      Refusal ctx s pending (.filter name p) (.noCollection name)
  | map {pending name function} (missing : s.collection? ctx.session name = none) :
      Refusal ctx s pending (.map name function) (.noCollection name)
  | mapNamed {pending name f source} (found : s.collection? ctx.session name = some source) :
      Refusal ctx s pending (.map name (.named f)) (.unsupportedFunction "map" f)
  | forEach {pending name function} (missing : s.collection? ctx.session name = none) :
      Refusal ctx s pending (.forEach name function) (.noCollection name)
  | forEachNamed {pending name f source} (found : s.collection? ctx.session name = some source) :
      Refusal ctx s pending (.forEach name (.named f)) (.unsupportedFunction "for_each" f)
  | utility {pending u args e} (refused : u.result ctx.session s.currentTrack args = .error e) :
      Refusal ctx s pending (.method ⟨.utility u, args⟩) e
  | edit {pending e args error} (nonempty : pending.any (·.items.isEmpty) = false)
      (refused : e.actions ctx s.currentTrack args pending = .error error) :
      Refusal ctx s pending (.method ⟨.edit e, args⟩) error

/-- A call either has one of the listed effects, or it fails for one of the listed reasons and
    leaves the state as it was. -/
theorem call_cases (ctx : Context) (pending : Option Collection) (c : Call) (s : RunState) :
    (∃ pending' s', call ctx pending c s = .ok pending' s' ∧ Effect ctx s pending c pending' s') ∨
      ∃ e, call ctx pending c s = .error e s ∧ Refusal ctx s pending c e := by
  cases c with
  | track args =>
    simp only [call, bind_apply, track_apply]
    cases request : TrackRequest.ofArguments args with
    | error e => exact Or.inr ⟨e, rfl, .request request⟩
    | ok request' =>
      cases request' with
      | existing index => exact Or.inl ⟨_, _, rfl, .existingTrack request⟩
      | selected =>
        cases selected : ctx.session.selectedIndex? with
        | none => exact Or.inr ⟨_, rfl, .noSelection request selected⟩
        | some index => exact Or.inl ⟨_, _, rfl, .selectedTrack request selected⟩
      | new instrument name index => exact Or.inl ⟨_, _, rfl, .newTrack request⟩
  | filter name p =>
    rw [call_filter_apply]
    cases found : s.collection? ctx.session name with
    | none => exact Or.inr ⟨_, rfl, .filter found⟩
    | some source => exact Or.inl ⟨_, _, rfl, .filter found rfl⟩
  | map name function =>
    simp only [call, bind_apply, map_apply]
    cases found : s.collection? ctx.session name with
    | none => exact Or.inr ⟨_, rfl, .map found⟩
    | some source =>
      cases function with
      | named f => exact Or.inr ⟨_, rfl, .mapNamed found⟩
      | method binder i => exact Or.inl ⟨_, _, rfl, .map found⟩
  | forEach name function =>
    simp only [call, bind_apply, forEach_apply]
    cases found : s.collection? ctx.session name with
    | none => exact Or.inr ⟨_, rfl, .forEach found⟩
    | some source =>
      cases function with
      | named f => exact Or.inr ⟨_, rfl, .forEachNamed found⟩
      | method binder i => exact Or.inl ⟨_, _, rfl, .forEach found⟩
  | method i =>
    obtain ⟨method, args⟩ := i
    cases method with
    | utility u =>
      simp only [call, bind_apply, utility_apply]
      cases kept : u.result ctx.session s.currentTrack args with
      | error e => exact Or.inr ⟨e, rfl, .utility kept⟩
      | ok c => exact Or.inl ⟨_, _, rfl, .utility kept⟩
    | edit e =>
      rw [call_edit_apply]
      -- An empty collection is skipped before any argument is read, even one that cannot be read.
      cases empty : pending.any (·.items.isEmpty) with
      | true =>
        obtain ⟨c, rfl, none⟩ := (Option.any_eq_true _ _).mp empty
        exact Or.inl ⟨_, _, rfl, .skip (List.isEmpty_iff.mp none)⟩
      | false =>
        simp only [Bool.false_eq_true, if_false]
        cases made : e.actions ctx s.currentTrack args pending with
        | error error => exact Or.inr ⟨error, rfl, .edit empty made⟩
        | ok actions => exact Or.inl ⟨_, _, rfl, .edit empty made⟩

theorem calls_cons_eq_ok {ctx : Context} {pending : Option Collection} {c : Call} {cs : List Call}
    {s final : RunState} :
    calls ctx pending (c :: cs) s = .ok () final ↔
      ∃ pending' mid, call ctx pending c s = .ok pending' mid ∧
        calls ctx pending' cs mid = .ok () final :=
  bind_eq_ok

theorem statements_cons_eq_ok {ctx : Context} {st : Statement} {sts : List Statement}
    {s final : RunState} :
    statements ctx (st :: sts) s = .ok final ↔
      ∃ mid, statement ctx st s = .ok () mid ∧ statements ctx sts mid = .ok final := by
  rw [statements]
  cases statement ctx st s with
  | ok _ mid => simp
  | error e mid => simp

theorem effect_of_call {ctx : Context} {pending pending' : Option Collection} {c : Call}
    {s s' : RunState} (ran : call ctx pending c s = .ok pending' s') :
    Effect ctx s pending c pending' s' := by
  rcases call_cases ctx pending c s with ⟨p, t, ok, effect⟩ | ⟨e, failed, _⟩
  · rw [ran] at ok
    cases ok
    exact effect
  · rw [ran] at failed
    cases failed

/-- A call that fails leaves the state as it was. -/
theorem refusal_of_call {ctx : Context} {pending : Option Collection} {c : Call} {s s' : RunState}
    {e : RunError} (failed : call ctx pending c s = .error e s') :
    s' = s ∧ Refusal ctx s pending c e := by
  rcases call_cases ctx pending c s with ⟨p, t, ok, _⟩ | ⟨e', failed', refusal⟩
  · rw [failed] at ok
    cases ok
  · rw [failed] at failed'
    cases failed'
    exact ⟨rfl, refusal⟩

end Run

end StudioScript
