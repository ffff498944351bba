import StudioScript.Proofs.Execution.Steps
import StudioScript.Proofs.Results

/-! # The errors of calls

Two kinds of errors are about a script as a whole: that it cannot be parsed, and that it comes to no
actions.  No call fails with one of them, so that whoever meets one knows that no call has failed.
-/

namespace StudioScript

/-- Whether the error is one that a call may fail with, and not one about a script as a whole. -/
def RunError.isOfCall : RunError → Bool
  | .syntaxError _ | .noActions => false
  | _ => true

/-- Whether the result, if it is a failure, fails with an error of a call. -/
def FailsAsCall {α : Type} (result : Except RunError α) : Prop :=
  ∀ e, result = .error e → e.isOfCall = true

namespace FailsAsCall

variable {α β : Type}

theorem ok (x : α) : FailsAsCall (.ok x : Except RunError α) := by
  intro e failed
  cases failed

theorem error {e : RunError} (ofCall : e.isOfCall = true) :
    FailsAsCall (.error e : Except RunError α) := by
  intro e' failed
  cases failed
  exact ofCall

theorem bind_of_ok {result : Except RunError α} {next : α → Except RunError β}
    (first : FailsAsCall result) (second : ∀ x, result = .ok x → FailsAsCall (next x)) :
    FailsAsCall (result >>= next) := by
  cases result with
  | error e => exact error (first e rfl)
  | ok x => exact second x rfl

theorem bind {result : Except RunError α} {next : α → Except RunError β}
    (first : FailsAsCall result) (second : ∀ x, FailsAsCall (next x)) :
    FailsAsCall (result >>= next) := bind_of_ok first fun x _ => second x

theorem map {result : Except RunError α} (f : α → β) (first : FailsAsCall result) :
    FailsAsCall (f <$> result) := by
  cases result with
  | error e => exact error (first e rfl)
  | ok x => exact ok (f x)

end FailsAsCall

/-! ## Arguments -/

namespace Arguments

theorem number?_failsAsCall (args : Arguments) (call key : String) :
    FailsAsCall (args.number? call key) := by
  unfold number?
  split
  · exact .ok _
  · split
    · exact .ok _
    · exact .error rfl

theorem whole?_failsAsCall (args : Arguments) (call key : String) :
    FailsAsCall (args.whole? call key) := by
  refine .bind (number?_failsAsCall args call key) fun x => ?_
  split
  · exact .ok _
  · split
    · split
      · exact .ok _
      · exact .error rfl
    · exact .error rfl

theorem index?_failsAsCall (args : Arguments) (call key : String) :
    FailsAsCall (args.index? call key) := by
  refine .bind (whole?_failsAsCall args call key) fun x => ?_
  split
  · exact .ok _
  · split
    · exact .ok _
    · exact .error rfl

theorem string?_failsAsCall (args : Arguments) (call key : String) :
    FailsAsCall (args.string? call key) := by
  unfold string?
  split
  · exact .ok _
  · exact .ok _
  · exact .error rfl

theorem boolean?_failsAsCall (args : Arguments) (call key : String) :
    FailsAsCall (args.boolean? call key) := by
  unfold boolean?
  split
  · exact .ok _
  · exact .ok _
  · exact .error rfl

theorem color?_failsAsCall (args : Arguments) (call : String) :
    FailsAsCall (args.color? call) := by
  unfold color?
  split
  · exact .ok _
  · split
    · exact .ok _
    · exact .error rfl

theorem string_failsAsCall (args : Arguments) (call key : String) :
    FailsAsCall (args.string call key) := by
  refine .bind (string?_failsAsCall args call key) fun s => ?_
  split
  · exact .ok _
  · exact .error rfl

end Arguments

open Arguments

/-! ## Edits -/

namespace Edit

theorem newClipPosition?_failsAsCall (args : Arguments) : FailsAsCall (newClipPosition? args) := by
  refine .bind (number?_failsAsCall _ _ _) fun start => ?_
  split
  · exact .ok _
  · exact number?_failsAsCall _ _ _

theorem newClipAction_failsAsCall (defaults : ClipDefaults) (args : Arguments) (track : Nat) :
    FailsAsCall (newClipAction defaults args track) := by
  refine .bind (whole?_failsAsCall _ _ _) fun bar => ?_
  split
  · refine .bind (whole?_failsAsCall _ _ _) fun lengthBars => ?_
    dsimp only
    split
    · exact .error rfl
    · exact .ok _
  · refine .bind (newClipPosition?_failsAsCall _) fun position => ?_
    split
    · exact .error rfl
    · split
      · exact .error rfl
      · refine .bind (number?_failsAsCall _ _ _) fun length => ?_
        dsimp only
        split
        · exact .error rfl
        · exact .ok _

theorem addFxAction_failsAsCall (args : Arguments) (track : Nat) :
    FailsAsCall (addFxAction args track) := by
  refine .bind (string?_failsAsCall _ _ _) fun fxname => ?_
  refine .bind (string?_failsAsCall _ _ _) fun instrument => ?_
  split
  · exact .ok _
  · exact .ok _
  · exact .error rfl
  · exact .error rfl

theorem trackProps_failsAsCall (args : Arguments) : FailsAsCall (trackProps args) := by
  refine .bind (string?_failsAsCall _ _ _) fun name => ?_
  refine .bind (number?_failsAsCall _ _ _) fun volumeDb => ?_
  refine .bind (number?_failsAsCall _ _ _) fun pan => ?_
  refine .bind (boolean?_failsAsCall _ _ _) fun mute => ?_
  refine .bind (boolean?_failsAsCall _ _ _) fun solo => ?_
  refine .bind (boolean?_failsAsCall _ _ _) fun selected => ?_
  refine .bind (color?_failsAsCall _ _) fun color => ?_
  dsimp only
  split
  · exact .error rfl
  · exact .ok _

theorem clipProps_failsAsCall (args : Arguments) : FailsAsCall (clipProps args) := by
  refine .bind (string?_failsAsCall _ _ _) fun name => ?_
  refine .bind (color?_failsAsCall _ _) fun color => ?_
  refine .bind (boolean?_failsAsCall _ _ _) fun selected => ?_
  refine .bind (number?_failsAsCall _ _ _) fun length => ?_
  dsimp only
  split
  · exact .error rfl
  · split
    · exact .error rfl
    · exact .ok _

theorem clipRef_failsAsCall (edit : Edit) (args : Arguments) (item : Option Item) :
    FailsAsCall (clipRef edit args item) := by
  unfold clipRef
  split
  · exact .ok _
  · refine .bind (index?_failsAsCall _ _ _) fun index => ?_
    refine .bind (number?_failsAsCall _ _ _) fun position => ?_
    refine .bind (whole?_failsAsCall _ _ _) fun bar => ?_
    split
    · exact .ok _
    · exact .ok _
    · exact .ok _
    · exact .error rfl

theorem clipDestination_failsAsCall (args : Arguments) : FailsAsCall (clipDestination args) := by
  refine .bind (number?_failsAsCall _ _ _) fun position => ?_
  split
  · split
    · exact .error rfl
    · exact .ok _
  · refine .bind (whole?_failsAsCall _ _ _) fun bar => ?_
    split
    · exact .ok _
    · exact .error rfl

theorem clipSource_failsAsCall (args : Arguments) (item : Option Item) :
    FailsAsCall (clipSource args item) := by
  unfold clipSource
  split
  · exact .ok _
  · refine .bind (index?_failsAsCall _ _ _) fun index => ?_
    refine .bind (number?_failsAsCall _ _ _) fun position => ?_
    split
    · exact .ok _
    · exact .ok _
    · exact .error rfl

theorem automation_failsAsCall (args : Arguments) : FailsAsCall (automation args) := by
  refine .bind (string?_failsAsCall _ _ _) fun curve => ?_
  split
  · repeat refine .bind (number?_failsAsCall _ _ _) fun _ => ?_
    exact .ok _
  · split
    · exact .error rfl
    · next literal _ =>
      have points : FailsAsCall ((automationPoints literal).mapError .malformedPoints) := by
        cases automationPoints literal with
        | error fault => exact .error rfl
        | ok points => exact .ok _
      refine .bind points fun points => ?_
      exact .bind (whole?_failsAsCall _ _ _) fun shape => .ok _

theorem builder_failsAsCall (defaults : ClipDefaults) (args : Arguments) (e : Edit) :
    FailsAsCall (e.builder defaults args) := by
  cases e with
  | newClip | addFx | delete | deleteClip => exact .ok _
  | setTrack => exact .bind (trackProps_failsAsCall _) fun props => .ok _
  | setClip => exact .bind (clipProps_failsAsCall _) fun props => .ok _
  | moveClip => exact .bind (clipDestination_failsAsCall _) fun destination => .ok _
  | addAutomation =>
    refine .bind (string_failsAsCall _ _ _) fun param => ?_
    exact .bind (automation_failsAsCall _) fun body => .ok _

/-- A maker of actions fails with errors of calls only. -/
theorem make_failsAsCall {defaults : ClipDefaults} {args : Arguments} {e : Edit} {build : Builder}
    (built : e.builder defaults args = .ok build) (track : Nat) (item : Option Item) :
    FailsAsCall (build track item) := by
  cases e with
  | newClip =>
    cases built
    exact .map _ (newClipAction_failsAsCall _ _ _)
  | addFx =>
    cases built
    exact .map _ (addFxAction_failsAsCall _ _)
  | delete =>
    cases built
    exact .ok _
  | deleteClip =>
    cases built
    exact .bind (clipRef_failsAsCall _ _ _) fun clip => .ok _
  | setTrack =>
    obtain ⟨props, _, made⟩ := Except.bind_eq_ok.mp built
    cases made
    exact .ok _
  | setClip =>
    obtain ⟨props, _, made⟩ := Except.bind_eq_ok.mp built
    cases made
    exact .bind (clipRef_failsAsCall _ _ _) fun clip => .ok _
  | moveClip =>
    obtain ⟨destination, _, made⟩ := Except.bind_eq_ok.mp built
    cases made
    exact .bind (clipSource_failsAsCall _ _) fun source => .ok _
  | addAutomation =>
    obtain ⟨param, _, rest⟩ := Except.bind_eq_ok.mp built
    obtain ⟨body, _, made⟩ := Except.bind_eq_ok.mp rest
    cases made
    exact .ok _

theorem trackFrom_failsAsCall (session : Session) (current : Option Nat) (e : Edit) :
    FailsAsCall (e.trackFrom session current) := by
  unfold trackFrom
  split
  · exact .ok _
  · exact .ok _
  · exact .error rfl

end Edit

open Edit

/-! ## Calls -/

namespace Run

theorem actionsFor_failsAsCall {build : Builder}
    (made : ∀ track item, FailsAsCall (build track item)) (items : List Item) :
    FailsAsCall (actionsFor build items) := by
  induction items with
  | nil => exact .ok _
  | cons item items inductionHypothesis =>
    unfold actionsFor
    split
    · exact inductionHypothesis
    · refine .bind (made _ _) fun action => ?_
      exact .bind inductionHypothesis fun actions => .ok _

end Run

open Run

theorem Edit.actions_failsAsCall (ctx : Context) (current : Option Nat) (e : Edit)
    (args : Arguments) (pending : Option Collection) :
    FailsAsCall (e.actions ctx current args pending) := by
  refine .bind_of_ok (builder_failsAsCall _ _ _) fun build built => ?_
  have made := make_failsAsCall built
  cases pending with
  | some c => exact actionsFor_failsAsCall made c.items
  | none =>
    refine .bind (trackFrom_failsAsCall _ _ _) fun track => ?_
    exact .bind (made track none) fun action => .ok _

theorem Utility.result_failsAsCall (session : Session) (current : Option Nat) (u : Utility)
    (args : Arguments) : FailsAsCall (u.result session current args) := by
  cases u with
  | store =>
    refine FailsAsCall.bind (string_failsAsCall _ _ _) fun name => ?_
    split
    · exact .ok _
    · exact .error rfl
  | getTracks => exact .ok _
  | getFxChain =>
    cases current with
    | none => exact .error rfl
    | some track => exact .ok _

theorem TrackRequest.ofArguments_failsAsCall (args : Arguments) :
    FailsAsCall (TrackRequest.ofArguments args) := by
  refine .bind (whole?_failsAsCall _ _ _) fun id => ?_
  split
  · split
    · exact .error rfl
    · exact .ok _
  · refine .bind (boolean?_failsAsCall _ _ _) fun selected => ?_
    split
    · exact .ok _
    · refine .bind (string?_failsAsCall _ _ _) fun instrument => ?_
      refine .bind (string?_failsAsCall _ _ _) fun name => ?_
      exact .bind (index?_failsAsCall _ _ _) fun index => .ok _

/-- No call fails with an error about the script as a whole. -/
theorem Run.Refusal.isOfCall {ctx : Context} {s : RunState} {pending : Option Collection}
    {c : Call} {e : RunError} (refusal : Refusal ctx s pending c e) : e.isOfCall = true := by
  cases refusal with
  | request refused => exact TrackRequest.ofArguments_failsAsCall _ _ refused
  | utility refused => exact Utility.result_failsAsCall _ _ _ _ _ refused
  | edit nonempty refused => exact Edit.actions_failsAsCall _ _ _ _ _ _ refused
  | noSelection | filter | map | mapNamed | forEach | forEachNamed => rfl

end StudioScript
