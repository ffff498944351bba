import StudioScript.Proofs.Action.Numbers
import StudioScript.Proofs.Members

/-! # Reading actions back

The object that an action is written as says everything about the action.  Its keys are distinct,
the kind under `action` tells which members to look for, and what was left out is what is missing,
so that the action can be read back (`Action.ofJson?`) as long as its numbers are finite
(`Action.wire_lossless`).
-/

namespace StudioScript

namespace Wire

variable {α : Type}

/-! ## Members that may be missing -/

@[simp] theorem get?_optional (key k : String) (write : α → Json) (x : Option α) :
    Members.get? key (optional k write x) = if k = key then x.map write else none := by
  cases x with
  | none => simp [optional]
  | some x => rfl

/-- The keys of the members, in order. -/
def Fields.keys (fields : Fields) : List String := fields.map Prod.fst

theorem keys_optional (key : String) (write : α → Json) (x : Option α) :
    List.Sublist (optional key write x).keys [key] := by
  cases x with
  | none => exact List.nil_sublist _
  | some x => exact List.Sublist.refl _

theorem keys_optional_append {rest : Fields} {keys : List String} (key : String)
    (write : α → Json) (x : Option α) (inside : List.Sublist rest.keys keys) :
    List.Sublist (Fields.keys (optional key write x ++ rest)) (key :: keys) := by
  rw [Fields.keys, List.map_append]
  exact (keys_optional key write x).append inside

/-- How many of the keys have a member. -/
def Fields.present (keys : List String) (fields : Fields) : Nat :=
  keys.countP fun key => (Members.get? key fields).isSome

/-! ## Reading values -/

def string? : Json → Option String
  | .str s => some s
  | _ => none

def boolean? : Json → Option Bool
  | .bool b => some b
  | _ => none

def integer? : Json → Option Int
  | .int i => some i
  | _ => none

def index? : Json → Option Nat
  | .int (.ofNat i) => some i
  | _ => none

def members? : Json → Option (Members Json)
  | .obj ms => some ms
  | _ => none

/-- A number.  One that is not finite is written as `null`, and cannot be read. -/
def number? : Json → Option Number
  | .real x => if x.isFinite then some x else none
  | _ => none

/-- A value that may be missing. -/
def optional? (read : Json → Option α) : Option Json → Option (Option α)
  | none => some none
  | some json => (read json).map some

@[simp] theorem string?_str (s : String) : string? (.str s) = some s := rfl

@[simp] theorem integer?_int (i : Int) : integer? (.int i) = some i := rfl

@[simp] theorem index?_index (i : Nat) : index? (index i) = some i := rfl

theorem number?_real {x : Number} (finite : x.isFinite = true) : number? (.real x) = some x :=
  if_pos finite

/-- What may be missing is read as it was written. -/
theorem optional?_map {read : Json → Option α} {write : α → Json} {x : Option α}
    (reads : ∀ y ∈ x, read (write y) = some y) : optional? read (x.map write) = some x := by
  cases x with
  | none => rfl
  | some y => simp [optional?, reads y rfl]

@[simp] theorem optional?_str (x : Option String) : optional? string? (x.map .str) = some x :=
  optional?_map fun _ _ => rfl

@[simp] theorem optional?_bool (x : Option Bool) : optional? boolean? (x.map .bool) = some x :=
  optional?_map fun _ _ => rfl

@[simp] theorem optional?_int (x : Option Int) : optional? integer? (x.map .int) = some x :=
  optional?_map fun _ _ => rfl

theorem optional?_real {x : Option Number} (finite : Number.AllFinite x.toList) :
    optional? number? (x.map .real) = some x :=
  optional?_map fun y member => number?_real (finite y (Option.mem_toList.mpr member))

end Wire

open Wire

/-! ## Reading properties -/

/-- The properties of a track among the members. -/
def TrackProps.ofMembers? (ms : Members Json) : Option TrackProps := do
  return {
    name := ← optional? string? (ms.get? "name")
    volumeDb := ← optional? number? (ms.get? "volume_db")
    pan := ← optional? number? (ms.get? "pan")
    mute := ← optional? boolean? (ms.get? "mute")
    solo := ← optional? boolean? (ms.get? "solo")
    selected := ← optional? boolean? (ms.get? "selected")
    color := ← optional? string? (ms.get? "color") }

def TrackProps.keys : List String :=
  ["name", "volume_db", "pan", "mute", "solo", "selected", "color"]

theorem TrackProps.ofMembers?_append (before : Members Json) {props : TrackProps}
    (other : ∀ key ∈ keys, before.get? key = none) (finite : Number.AllFinite props.numbers) :
    ofMembers? (before ++ props.fields) = some props := by
  obtain ⟨volumeDb, pan⟩ := List.forall_mem_append.mp finite
  simp only [keys, List.forall_mem_cons] at other
  simp [ofMembers?, fields, other, optional?_real volumeDb, optional?_real pan]

/-- The properties of a clip among the members. -/
def ClipProps.ofMembers? (ms : Members Json) : Option ClipProps := do
  return {
    name := ← optional? string? (ms.get? "name")
    color := ← optional? string? (ms.get? "color")
    selected := ← optional? boolean? (ms.get? "selected")
    length := ← optional? number? (ms.get? "length") }

def ClipProps.keys : List String := ["name", "color", "selected", "length"]

theorem ClipProps.ofMembers?_append (before : Members Json) {props : ClipProps}
    (other : ∀ key ∈ keys, before.get? key = none) (finite : Number.AllFinite props.numbers) :
    ofMembers? (before ++ props.fields) = some props := by
  simp only [keys, List.forall_mem_cons] at other
  simp [ofMembers?, fields, other, optional?_real finite]

/-! ## Reading clips -/

/-- The clip that the members mean. -/
def ClipRef.ofMembers? (ms : Members Json) : Option ClipRef :=
  match ms.get? "clip", ms.get? "position", ms.get? "bar" with
  | some json, none, none => (index? json).map .clip
  | none, some json, none => (number? json).map .position
  | none, none, some json => (integer? json).map .bar
  | _, _, _ => none

def ClipRef.keys : List String := ["clip", "position", "bar"]

theorem ClipRef.ofMembers?_append (before : Members Json) {after : Members Json} {clip : ClipRef}
    (other : ∀ key ∈ keys, before.get? key = none) (other' : ∀ key ∈ keys, after.get? key = none)
    (finite : Number.AllFinite clip.numbers) :
    ofMembers? (before ++ clip.field :: after) = some clip := by
  simp only [keys, List.forall_mem_cons] at other other'
  cases clip with
  | position x =>
    have read := number?_real (finite x List.mem_cons_self)
    simp [ofMembers?, field, other, other', read]
  | clip | bar => simp [ofMembers?, field, other, other']

/-- Where the members say that a clip is moved to. -/
def ClipDestination.ofMembers? (ms : Members Json) : Option ClipDestination :=
  match ms.get? "position", ms.get? "bar" with
  | some json, none => (number? json).map .position
  | none, some json => (integer? json).map .bar
  | _, _ => none

def ClipDestination.keys : List String := ["position", "bar"]

theorem ClipDestination.ofMembers?_append (before : Members Json) {after : Members Json}
    {destination : ClipDestination} (other : ∀ key ∈ keys, before.get? key = none)
    (other' : ∀ key ∈ keys, after.get? key = none)
    (finite : Number.AllFinite destination.numbers) :
    ofMembers? (before ++ destination.field :: after) = some destination := by
  simp only [keys, List.forall_mem_cons] at other other'
  cases destination with
  | position x =>
    have read := number?_real (finite x List.mem_cons_self)
    simp [ofMembers?, field, other, other', read]
  | bar => simp [ofMembers?, field, other, other']

/-- Which clip the members say is moved. -/
def ClipSource.ofMembers? (ms : Members Json) : Option ClipSource :=
  match ms.get? "clip", ms.get? "old_position" with
  | some json, none => (index? json).map .clip
  | none, some json => (number? json).map .oldPosition
  | _, _ => none

def ClipSource.keys : List String := ["clip", "old_position"]

theorem ClipSource.ofMembers?_append (before : Members Json) {source : ClipSource}
    (other : ∀ key ∈ keys, before.get? key = none) (finite : Number.AllFinite source.numbers) :
    ofMembers? (before ++ [source.field]) = some source := by
  simp only [keys, List.forall_mem_cons] at other
  cases source with
  | oldPosition x =>
    have read := number?_real (finite x List.mem_cons_self)
    simp [ofMembers?, field, other, read]
  | clip => simp [ofMembers?, field, other]

/-! ## Reading automations -/

/-- When the members say that a point is reached. -/
def PointTime.ofMembers? (ms : Members Json) : Option PointTime :=
  match ms.get? "time", ms.get? "bar" with
  | some json, none => (number? json).map .time
  | none, some json => (number? json).map .bar
  | _, _ => none

def AutomationPoint.ofMembers? (ms : Members Json) : Option AutomationPoint := do
  return { when := ← PointTime.ofMembers? ms, value := ← (ms.get? "value").bind number? }

def AutomationPoint.ofJson? (json : Json) : Option AutomationPoint := do
  ofMembers? (← members? json)

theorem AutomationPoint.ofJson?_toJson {p : AutomationPoint}
    (finite : Number.AllFinite p.numbers) : ofJson? p.toJson = some p := by
  obtain ⟨when', value⟩ := p
  obtain ⟨finite, finite', -⟩ : when'.number.isFinite = true ∧ value.isFinite = true ∧ True := by
    simpa [numbers, Number.AllFinite] using finite
  cases when' with
  | time x | bar x =>
    have read := number?_real (x := x) finite
    simp [ofJson?, toJson, members?, ofMembers?, PointTime.field, PointTime.ofMembers?, read,
      number?_real finite']

theorem AutomationPoint.mapM_ofJson? {ps : List AutomationPoint}
    (finite : Number.AllFinite (ps.flatMap numbers)) :
    (ps.map toJson).mapM ofJson? = some ps := by
  induction ps with
  | nil => rfl
  | cons p ps inductionHypothesis =>
    rw [List.flatMap_cons] at finite
    obtain ⟨finite, finite'⟩ := List.forall_mem_append.mp finite
    rw [List.map_cons, List.mapM_cons, ofJson?_toJson finite, inductionHypothesis finite']
    rfl

def Curve.ofMembers? (ms : Members Json) : Option Curve := do
  return {
    curve := ← (ms.get? "curve").bind string?
    start := ← optional? number? (ms.get? "start")
    stop := ← optional? number? (ms.get? "end")
    startBar := ← optional? number? (ms.get? "start_bar")
    stopBar := ← optional? number? (ms.get? "end_bar")
    fromValue := ← optional? number? (ms.get? "from")
    toValue := ← optional? number? (ms.get? "to")
    frequency := ← optional? number? (ms.get? "freq")
    amplitude := ← optional? number? (ms.get? "amplitude")
    phase := ← optional? number? (ms.get? "phase") }

def Curve.keys : List String :=
  ["curve", "start", "end", "start_bar", "end_bar", "from", "to", "freq", "amplitude", "phase"]

theorem Curve.ofMembers?_append (before : Members Json) {c : Curve}
    (other : ∀ key ∈ keys, before.get? key = none) (finite : Number.AllFinite c.numbers) :
    ofMembers? (before ++ c.fields) = some c := by
  simp only [keys, List.forall_mem_cons] at other
  simp only [numbers, Number.allFinite_append] at finite
  simp [ofMembers?, fields, other, optional?_real, finite]

def Automation.ofMembers? (ms : Members Json) : Option Automation :=
  match ms.get? "curve", ms.get? "points" with
  | some _, none => (Curve.ofMembers? ms).map .curve
  | none, some (.arr items) => do
      return .points (← items.mapM AutomationPoint.ofJson?)
        (← optional? integer? (ms.get? "shape"))
  | _, _ => none

def Automation.keys : List String := ["points", "shape"] ++ Curve.keys

theorem Automation.ofMembers?_append (before : Members Json) {body : Automation}
    (other : ∀ key ∈ keys, before.get? key = none) (finite : Number.AllFinite body.numbers) :
    ofMembers? (before ++ body.fields) = some body := by
  -- The two kinds of automations are told apart by the member that only the one of them has.
  obtain ⟨others, otherCurve⟩ := List.forall_mem_append.mp other
  simp only [List.forall_mem_cons] at others
  have noCurve := otherCurve "curve" (by decide)
  cases body with
  | curve c =>
    have found : Members.get? "curve" (before ++ c.fields) = some (.str c.curve) := by
      simp [Curve.fields, noCurve]
    have absent : Members.get? "points" (before ++ c.fields) = none := by
      simp [Curve.fields, others]
    have curve := Curve.ofMembers?_append before otherCurve finite
    simp only [ofMembers?, fields, found, absent, curve, Option.map_some]
  | points ps shape =>
    have points := AutomationPoint.mapM_ofJson? finite
    simp [ofMembers?, fields, others, noCurve, points]

/-! ## Reading actions -/

namespace Action

/-- The action that the members say, if they say one. -/
def ofMembers? (ms : Members Json) : Option Action := do
  let kind ← (ms.get? "action").bind string?
  if kind = "create_track" then
    return .createTrack (← optional? string? (ms.get? "instrument"))
      (← optional? string? (ms.get? "name")) (← (ms.get? "index").bind index?)
  let track ← (ms.get? "track").bind index?
  match kind with
  | "create_clip_at_bar" =>
      return .createClipAtBar track (← (ms.get? "bar").bind integer?)
        (← (ms.get? "length_bars").bind integer?)
  | "create_clip" =>
      return .createClip track (← (ms.get? "position").bind number?)
        (← (ms.get? "length").bind number?)
  | "add_track_fx" => return .addTrackFx track (← (ms.get? "fxname").bind string?)
  | "add_instrument" => return .addInstrument track (← (ms.get? "fxname").bind string?)
  | "set_track" => return .setTrack track (← TrackProps.ofMembers? ms)
  | "delete_track" => return .deleteTrack track
  | "delete_clip" => return .deleteClip track (← ClipRef.ofMembers? ms)
  | "set_clip" =>
      return .setClip track (← ClipRef.ofMembers? ms) (← ClipProps.ofMembers? ms)
  | "set_clip_position" =>
      return .setClipPosition track (← ClipDestination.ofMembers? ms)
        (← ClipSource.ofMembers? ms)
  | "add_automation" =>
      return .addAutomation track (← (ms.get? "param").bind string?)
        (← Automation.ofMembers? ms)
  | _ => none

/-- The action that an object says, if it says one. -/
def ofJson? (json : Json) : Option Action := do
  ofMembers? (← members? json)

/-- An action is read back from its object. -/
theorem ofJson?_toJson {a : Action} (finite : Number.AllFinite a.numbers) :
    ofJson? a.toJson = some a := by
  change ofMembers? (("action", .str a.kind) :: a.fields) = some a
  cases a with
  | createTrack | createClipAtBar | addTrackFx | addInstrument | deleteTrack =>
    simp [ofMembers?, kind, fields]
  | createClip track position length =>
    simp only [numbers, Number.AllFinite, List.forall_mem_cons] at finite
    simp [ofMembers?, kind, fields, number?_real, finite]
  | setTrack track props =>
    have read : TrackProps.ofMembers?
        (("action", .str "set_track") :: ("track", index track) :: props.fields) = some props :=
      TrackProps.ofMembers?_append [_, _] (by simp [TrackProps.keys]) finite
    simp [ofMembers?, kind, fields, read]
  | deleteClip track clip =>
    have read : ClipRef.ofMembers?
        [("action", .str "delete_clip"), ("track", index track), clip.field] = some clip :=
      ClipRef.ofMembers?_append [_, _] (by simp [ClipRef.keys]) (by simp) finite
    simp [ofMembers?, kind, fields, read]
  | setClip track clip props =>
    obtain ⟨finite, finite'⟩ := Number.allFinite_append.mp finite
    have read : ClipRef.ofMembers? (("action", .str "set_clip") :: ("track", index track) ::
        clip.field :: props.fields) = some clip :=
      ClipRef.ofMembers?_append [_, _] (by simp [ClipRef.keys])
        (by simp [ClipRef.keys, ClipProps.fields]) finite
    have read' : ClipProps.ofMembers? (("action", .str "set_clip") :: ("track", index track) ::
        clip.field :: props.fields) = some props :=
      ClipProps.ofMembers?_append [_, _, _]
        (by cases clip <;> simp [ClipProps.keys, ClipRef.field]) finite'
    simp [ofMembers?, kind, fields, read, read']
  | setClipPosition track destination source =>
    obtain ⟨finite, finite'⟩ := Number.allFinite_append.mp finite
    have read : ClipDestination.ofMembers? [("action", .str "set_clip_position"),
        ("track", index track), destination.field, source.field] = some destination :=
      ClipDestination.ofMembers?_append [_, _] (by simp [ClipDestination.keys])
        (by cases source <;> simp [ClipDestination.keys, ClipSource.field]) finite
    have read' : ClipSource.ofMembers? [("action", .str "set_clip_position"),
        ("track", index track), destination.field, source.field] = some source :=
      ClipSource.ofMembers?_append [_, _, _]
        (by cases destination <;> simp [ClipSource.keys, ClipDestination.field]) finite'
    simp [ofMembers?, kind, fields, read, read']
  | addAutomation track param body =>
    have read : Automation.ofMembers? (("action", .str "add_automation") ::
        ("track", index track) :: ("param", .str param) :: body.fields) = some body :=
      Automation.ofMembers?_append [_, _, _] (by simp [Automation.keys, Curve.keys]) finite
    simp [ofMembers?, kind, fields, read]

end Action

/-! ## Keys -/

theorem TrackProps.keys_fields (props : TrackProps) : List.Sublist props.fields.keys keys := by
  simp only [fields, keys, List.append_assoc]
  iterate 6 apply keys_optional_append
  apply keys_optional

theorem ClipProps.keys_fields (props : ClipProps) : List.Sublist props.fields.keys keys := by
  simp only [fields, keys, List.append_assoc]
  iterate 3 apply keys_optional_append
  apply keys_optional

theorem Curve.keys_fields (c : Curve) : List.Sublist c.fields.keys keys := by
  simp only [fields, keys, List.append_assoc]
  apply List.Sublist.cons_cons
  iterate 8 apply keys_optional_append
  apply keys_optional

theorem Automation.keys_fields (body : Automation) : List.Sublist body.fields.keys keys := by
  cases body with
  | curve c => exact c.keys_fields.trans (List.sublist_append_right _ _)
  | points ps shape =>
    have inside := (keys_optional "shape" Json.int shape).cons_cons "points"
    exact inside.trans (List.sublist_append_left _ _)

namespace Action

/-- The key of the member that names the target. -/
def targetKey : Action → String
  | .createTrack .. => "index"
  | _ => "track"

/-- No key stands twice in the object of an action. -/
theorem nodup_keys (a : Action) : (Fields.keys (("action", .str a.kind) :: a.fields)).Nodup := by
  cases a with
  | createTrack instrument name i =>
    have inside : List.Sublist (fields (.createTrack instrument name i)).keys
        ["instrument", "name", "index"] := by
      simp only [fields, List.append_assoc]
      exact keys_optional_append _ _ _ (keys_optional_append _ _ _ (List.Sublist.refl _))
    exact (inside.cons_cons "action").nodup (by decide)
  | createClipAtBar | createClip | addTrackFx | addInstrument | deleteTrack =>
    simp [fields, Fields.keys]
  | setTrack track props =>
    exact ((props.keys_fields.cons_cons "track").cons_cons "action").nodup (by decide)
  | deleteClip track clip => cases clip <;> simp [fields, Fields.keys, ClipRef.field]
  | setClip track clip props =>
    have inside (key : String) :=
      ((props.keys_fields.cons_cons key).cons_cons "track").cons_cons "action"
    cases clip with
    | clip => exact (inside "clip").nodup (by decide)
    | position => exact (inside "position").nodup (by decide)
    | bar => exact (inside "bar").nodup (by decide)
  | setClipPosition track destination source =>
    cases destination <;> cases source <;>
      simp [fields, Fields.keys, ClipDestination.field, ClipSource.field]
  | addAutomation track param body =>
    have inside := ((body.keys_fields.cons_cons "param").cons_cons "track").cons_cons "action"
    exact inside.nodup (by decide)

theorem get?_targetKey (a : Action) :
    Members.get? a.targetKey (("action", .str a.kind) :: a.fields) = some (.int a.target) := by
  cases a <;> simp [targetKey, fields, target, index]

/-- The object of an action that is for a clip names the clip in one way. -/
theorem present_clip {a : Action} (names : a.kind = "delete_clip" ∨ a.kind = "set_clip") :
    Fields.present ["clip", "position", "bar"] (("action", .str a.kind) :: a.fields) = 1 := by
  cases a with
  | deleteClip track clip => cases clip <;> simp [Fields.present, fields, ClipRef.field]
  | setClip track clip props =>
    cases clip <;> simp [Fields.present, fields, ClipRef.field, ClipProps.fields]
  | _ => simp [kind] at names

/-- The object of an action that moves a clip names the destination and the clip in one way. -/
theorem present_destination {a : Action} (moves : a.kind = "set_clip_position") :
    Fields.present ["position", "bar"] (("action", .str a.kind) :: a.fields) = 1 ∧
      Fields.present ["clip", "old_position"] (("action", .str a.kind) :: a.fields) = 1 := by
  cases a with
  | setClipPosition track destination source =>
    cases destination <;> cases source <;>
      simp [Fields.present, fields, ClipDestination.field, ClipSource.field]
  | _ => simp [kind] at moves

/-- The object of an action loses nothing: the action can be read back from it if its numbers are
    finite.  Its keys are distinct, it names the kind and the target of the action, and where a clip
    or its destination can be named in several ways, it names it in one of them. -/
theorem wire_lossless (a : Action) :
    (Number.AllFinite a.numbers → ofJson? a.toJson = some a) ∧
      ∃ ms : Members Json, a.toJson = .obj ms ∧ (ms.map Prod.fst).Nodup ∧
        ms.get? "action" = some (.str a.kind) ∧ ms.get? a.targetKey = some (.int a.target) ∧
        (a.kind = "delete_clip" ∨ a.kind = "set_clip" →
          Fields.present ["clip", "position", "bar"] ms = 1) ∧
        (a.kind = "set_clip_position" →
          Fields.present ["position", "bar"] ms = 1 ∧
            Fields.present ["clip", "old_position"] ms = 1) :=
  ⟨ofJson?_toJson, _, rfl, a.nodup_keys, rfl, a.get?_targetKey, present_clip, present_destination⟩

/-- An automation with a point in seconds and a point in bars. -/
theorem wire_lossless_of_points :
    let points : List AutomationPoint := [⟨.time .zero, .zero⟩, ⟨.bar .zero, .finite true .zero⟩]
    let a : Action := .addAutomation 3 "Volume" (.points points none)
    Number.AllFinite a.numbers ∧ ofJson? a.toJson = some a := by
  intro points a
  have finite : Number.AllFinite a.numbers := by
    unfold Number.AllFinite
    decide
  exact ⟨finite, (wire_lossless a).1 finite⟩

end Action

end StudioScript
