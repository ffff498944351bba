import StudioScript.Proofs.Execution.Arguments
import StudioScript.Proofs.Execution.Readings

/-! # Automation

With a curve, `add_automation` comes to that curve or to the fault of a number beside it
(`Edit.IsCurve`), and there are no points to read.  Without one, the points of the automation are
those of its argument, all of them or none (`Edit.automation_whole`).
-/

namespace StudioScript

/-! ## Strings -/

namespace Arguments

variable {args : Arguments} {call key : String}

theorem string?_eq_some {s : String} :
    args.string? call key = .ok (some s) ↔ args.get? key = some (.string s) := by
  constructor
  · intro read
    unfold string? at read
    split at read
    · cases read
    · next given =>
      cases read
      exact given
    · cases read
  · intro given
    rw [string?, given]

theorem string?_eq_none : args.string? call key = .ok none ↔ args.get? key = none := by
  constructor
  · intro read
    unfold string? at read
    split at read
    · next missing => exact missing
    · cases read
    · cases read
  · intro missing
    rw [string?, missing]

end Arguments

open Arguments

namespace Edit

/-! ## Curves -/

variable {args args' : Arguments} {curve : String}

/-- Whether `add_automation` comes to a curve with the given name, or to the fault of an argument
    that it reads as a number. -/
inductive IsCurve (args : Arguments) (curve : String) : Except RunError Automation → Prop where
  | curve {spec : Curve} (named : spec.curve = curve) : IsCurve args curve (.ok (.curve spec))
  | fault {key e} (known : key ∈ addAutomation.numberKeys)
      (failed : args.number? addAutomation.name key = .error e) : IsCurve args curve (.error e)

theorem IsCurve.number? {key : String} {next : Option Number → Except RunError Automation}
    (known : key ∈ addAutomation.numberKeys) (others : ∀ given, IsCurve args curve (next given)) :
    IsCurve args curve (args.number? addAutomation.name key >>= next) := by
  cases read : args.number? addAutomation.name key with
  | error e => exact .fault known read
  | ok given => exact others given

theorem automation_isCurve (given : args.get? "curve" = some (.string curve)) :
    IsCurve args curve (automation args) := by
  rw [automation, string?_eq_some.mpr given]
  -- The numbers are read one after another, and the first that is none is the fault.
  exact IsCurve.number? (by decide) fun start => IsCurve.number? (by decide) fun stop =>
    IsCurve.number? (by decide) fun startBar => IsCurve.number? (by decide) fun stopBar =>
    IsCurve.number? (by decide) fun fromValue => IsCurve.number? (by decide) fun toValue =>
    IsCurve.number? (by decide) fun frequency => IsCurve.number? (by decide) fun amplitude =>
    IsCurve.number? (by decide) fun phase => .curve rfl

/-- With a curve, the points do not matter. -/
theorem automation_congr_of_curve (given : args.get? "curve" = some (.string curve))
    (agree : ∀ key, key ≠ "points" → args.get? key = args'.get? key) :
    automation args = automation args' := by
  have given' : args'.get? "curve" = some (.string curve) := agree "curve" (by decide) ▸ given
  have start := number?_congr (agree "start" (by decide))
  have stop := number?_congr (agree "end" (by decide))
  have startBar := number?_congr (agree "start_bar" (by decide))
  have stopBar := number?_congr (agree "end_bar" (by decide))
  have fromValue := number?_congr (agree "from" (by decide))
  have toValue := number?_congr (agree "to" (by decide))
  have frequency := number?_congr (agree "freq" (by decide))
  have amplitude := number?_congr (agree "amplitude" (by decide))
  have phase := number?_congr (agree "phase" (by decide))
  simp only [automation, string?_eq_some.mpr given, string?_eq_some.mpr given', Except.ok_bind,
    start, stop, startBar, stopBar, fromValue, toValue, frequency, amplitude, phase]

/-! ## Either of them -/

/-- Without a curve, the points are taken over or rejected as a whole, before the shape is read. -/
theorem automation_of_points {literal : Literal} (noCurve : args.get? "curve" = none)
    (given : args.get? "points" = some literal) :
    automation args = (do
      let points ← (automationPoints literal).mapError .malformedPoints
      let shape ← args.whole? addAutomation.name "shape"
      return .points points shape) := by
  rw [automation, string?_eq_none.mpr noCurve, Except.ok_bind]
  simp only [given]

theorem points_of_automation {points : List AutomationPoint} {shape : Option Int}
    (read : automation args = .ok (.points points shape)) :
    args.get? "curve" = none ∧
      ∃ literal, args.get? "points" = some literal ∧ automationPoints literal = .ok points := by
  obtain ⟨curve, readCurve, rest⟩ := Except.bind_eq_ok.mp read
  -- A curve is never points.
  cases curve with
  | some curve =>
    have isCurve := automation_isCurve (string?_eq_some.mp readCurve)
    rw [read] at isCurve
    cases isCurve
  | none =>
    have noCurve := string?_eq_none.mp readCurve
    cases given : args.get? "points" with
    | none =>
      simp only [given] at rest
      cases rest
    | some literal =>
      rw [automation_of_points noCurve given] at read
      obtain ⟨points', written, rest⟩ := Except.bind_eq_ok.mp read
      obtain ⟨shape', _, joined⟩ := Except.bind_eq_ok.mp rest
      cases joined
      exact ⟨noCurve, literal, rfl, Except.mapError_eq_ok.mp written⟩

theorem points_ne_nil {points : List AutomationPoint} {shape : Option Int}
    (read : automation args = .ok (.points points shape)) : points ≠ [] := by
  obtain ⟨-, literal, -, written⟩ := points_of_automation read
  obtain ⟨elements, -, some, writes⟩ := automationPoints_eq_ok.mp written
  rintro rfl
  exact some (List.forall₂_nil_right_iff.mp writes)

/-! ## Actions -/

section

variable {defaults : ClipDefaults} {track : Nat} {item : Option Item}

theorem Makes.automation {action : Action}
    (makes : addAutomation.Makes defaults args track item action) :
    ∃ param body, action = .addAutomation track param body ∧ Edit.automation args = .ok body := by
  have make := makes.make
  generalize same : some action = result at make
  cases make with
  | automation read =>
    cases same
    exact ⟨_, _, rfl, read⟩

theorem Makes.body {e : Edit} {track' : Nat} {param : String} {body : Automation}
    (makes : e.Makes defaults args track item (.addAutomation track' param body)) :
    Edit.automation args = .ok body := by
  have make := makes.make
  generalize same : some (Action.addAutomation track' param body) = result at make
  cases make with
  | automation read =>
    cases same
    exact read
  | clipAtBar | clip | fx | instrument | setTrack | delete => cases same
  | deleteClip | setClip | moveClip =>
    obtain ⟨_, _, other⟩ := Option.map_eq_some_iff.mp same.symm
    cases other

end

end Edit

/-! ## Runs -/

namespace Run

variable {args args' : Arguments} {curve : String}

/-- With a curve, `add_automation` does the same whatever the points are. -/
theorem invoke_automation_congr (ctx : Context)
    (given : args.get? "curve" = some (.string curve))
    (agree : ∀ key, key ≠ "points" → args.get? key = args'.get? key)
    (pending : Option Collection) :
    invoke ctx ⟨.edit .addAutomation, args⟩ pending =
      invoke ctx ⟨.edit .addAutomation, args'⟩ pending := by
  have param := string_congr (agree "param" (by decide))
  have body := Edit.automation_congr_of_curve given agree
  simp only [invoke, edit, Edit.builder, param, body]

/-- With a curve, `add_automation` adds actions with that curve, and changes nothing else. -/
theorem invoke_automation_emits {ctx : Context} (given : args.get? "curve" = some (.string curve))
    {pending : Option Collection} {s s' : RunState}
    (ran : invoke ctx ⟨.edit .addAutomation, args⟩ pending s = .ok () s') :
    ∃ new, s' = s.emitting new ∧ ∀ action ∈ new, ∃ track param spec,
      action = .addAutomation track param (.curve spec) ∧ spec.curve = curve := by
  have applied : edit ctx .addAutomation args pending s = .ok () s' := ran
  rw [edit_apply] at applied
  split at applied
  · next new made =>
    cases applied
    refine ⟨new, rfl, fun action member => ?_⟩
    obtain ⟨track, item, makes, _⟩ := makes_of_mem_actions made action member
    obtain ⟨param, body, rfl, read⟩ := makes.automation
    have isCurve := Edit.automation_isCurve given
    rw [read] at isCurve
    obtain @⟨spec, named⟩ := isCurve
    exact ⟨track, param, spec, rfl, named⟩
  · cases applied

end Run

/-- No run hands on automation without points. -/
theorem Context.points_ne_nil_of_mem_emitted (ctx : Context) (text : String) {track : Nat}
    {param : String} {points : List AutomationPoint} {shape : Option Int}
    (member : .addAutomation track param (.points points shape) ∈ (ctx.run text).emitted) :
    points ≠ [] := by
  unfold run at member
  split at member
  · next script _ =>
    obtain ⟨_, _, _, created⟩ | ⟨_, _, _, _, _, _, _, makes, _⟩ :=
      ctx.makes_of_mem_emitted script (P := fun _ => True) (fun _ _ _ => trivial)
        (fun _ => trivial) _ member
    · cases created
    · exact Edit.points_ne_nil makes.body
  · cases member

namespace Edit

/-- Automation points are taken over completely, one for each element of an array that has one at
    least, or rejected as a whole for the first element that writes none.  With a curve,
    `add_automation` comes to this curve or to a fault of a number beside it, whatever the points
    are, and no run hands on automation without points. -/
theorem automation_whole :
    (∀ literal points, automationPoints literal = .ok points ↔
      ∃ elements, literal = .array elements ∧ elements ≠ [] ∧
        List.Forall₂ WritesPoint elements points) ∧
    (∀ literal, (∃ points, automationPoints literal = .ok points) ↔
      ∃ elements, literal = .array elements ∧ elements ≠ [] ∧
        ∀ e ∈ elements, ∃ point, WritesPoint e point) ∧
    (∀ elements fault, elements ≠ [] → automationPoints (.array elements) = .error fault →
      ∃ before element after reason, elements = before ++ element :: after ∧
        (∀ e ∈ before, ∃ point, WritesPoint e point) ∧ (∀ point, ¬ WritesPoint element point) ∧
        fault.message = "point " ++ toString before.length ++ ": " ++ reason) ∧
    (∀ args literal, args.get? "curve" = none → args.get? "points" = some literal →
      (∀ fault, automationPoints literal = .error fault →
        automation args = .error (.malformedPoints fault)) ∧
      ∀ points shape, automation args = .ok (.points points shape) →
        automationPoints literal = .ok points) ∧
    (∀ args curve, args.get? "curve" = some (.string curve) →
      IsCurve args curve (automation args) ∧
      (∀ args', (∀ key, key ≠ "points" → args.get? key = args'.get? key) → ∀ ctx pending,
        Run.invoke ctx ⟨.edit .addAutomation, args⟩ pending =
          Run.invoke ctx ⟨.edit .addAutomation, args'⟩ pending) ∧
      ∀ ctx pending s s', Run.invoke ctx ⟨.edit .addAutomation, args⟩ pending s = .ok () s' →
        ∃ new, s' = s.emitting new ∧ ∀ action ∈ new, ∃ track param spec,
          action = .addAutomation track param (.curve spec) ∧ spec.curve = curve) ∧
    ∀ (ctx : Context) text track param points shape,
      .addAutomation track param (.points points shape) ∈ (ctx.run text).emitted →
        points ≠ [] := by
  refine ⟨fun _ _ => automationPoints_eq_ok, fun _ => automationPoints_succeeds_iff,
    fun _ _ => automationPoints_eq_error, ?points, ?curve, ?emitted⟩
  case points =>
    intro args literal noCurve given
    constructor
    · intro fault failed
      rw [automation_of_points noCurve given, failed]
      rfl
    · intro points shape read
      obtain ⟨-, literal', given', written⟩ := points_of_automation read
      cases given.symm.trans given'
      exact written
  case curve =>
    intro args curve given
    exact ⟨automation_isCurve given, fun args' agree ctx =>
      Run.invoke_automation_congr ctx given agree, fun _ _ _ _ => Run.invoke_automation_emits given⟩
  case emitted =>
    exact fun ctx text _ _ _ _ => ctx.points_ne_nil_of_mem_emitted text

/-- An array with a point and a string, alone and beside a curve. -/
theorem automation_whole_of_string :
    let point : Literal := .object [("bar", .number .zero), ("value", .number .zero)]
    let elements := [point, .string "0"]
    let args : Arguments :=
      ⟨[("param", .string "pan"), ("curve", .string "sine"), ("points", .array elements)],
        by decide⟩
    (∃ fault before element after reason, automationPoints (.array elements) = .error fault ∧
      elements = before ++ element :: after ∧
      fault.message = "point " ++ toString before.length ++ ": " ++ reason) ∧
    (∃ spec, automation args = .ok (.curve spec) ∧ spec.curve = "sine") := by
  intro point elements args
  obtain ⟨-, -, rejected, -, curves, -⟩ := automation_whole
  obtain ⟨before, element, after, reason, shape, -, -, message⟩ :=
    rejected elements (.notObject 1 "string") (List.cons_ne_nil _ _) rfl
  obtain ⟨isCurve, -⟩ := curves args "sine" rfl
  refine ⟨⟨_, before, element, after, reason, rfl, shape, message⟩, ?_⟩
  have read : automation args = .ok (.curve { curve := "sine" }) := rfl
  rw [read] at isCurve
  cases isCurve with
  | curve named => exact ⟨_, read, named⟩

end Edit

end StudioScript
