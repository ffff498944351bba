import Mathlib.Data.List.Forall2
import StudioScript.Proofs.Execution.Steps
import StudioScript.Proofs.Members
import StudioScript.Proofs.Results

/-! # The arguments that matter

A call looks its arguments up by their names, and knows only some names (`Method.argumentNames`).
Neither the order of the arguments nor an argument under another name matters: a call does the same
with all arguments that agree under the names that it knows (`Run.invoke_congr`, `Run.track_congr`).
-/

namespace StudioScript

/-! ## Names of arguments -/

/-- The arguments that a track call knows. -/
def TrackRequest.argumentNames : List String := ["id", "selected", "instrument", "name", "index"]

/-- The arguments that an edit knows. -/
def Edit.argumentNames : Edit → List String
  | .newClip => ["bar", "length_bars", "start", "position", "length"]
  | .addFx => ["fxname", "instrument"]
  | .setTrack => ["name", "volume_db", "pan", "mute", "solo", "selected", "color"]
  | .delete => []
  | .deleteClip => ["clip", "position", "bar"]
  | .setClip => ["clip", "position", "bar", "name", "color", "selected", "length"]
  | .moveClip => ["position", "bar", "clip", "old_position"]
  | .addAutomation =>
      ["param", "curve", "start", "end", "start_bar", "end_bar", "from", "to", "freq",
        "amplitude", "phase", "points", "shape"]

/-- The arguments that a utility knows. -/
def Utility.argumentNames : Utility → List String
  | .store => ["name", "value"]
  | .getTracks | .getFxChain => []

/-- The arguments that a method knows. -/
def Method.argumentNames : Method → List String
  | .edit e => e.argumentNames
  | .utility u => u.argumentNames

namespace Arguments

variable {args args' : Arguments} {names : List String}

/-! ## Agreement -/

/-- Whether there is the same value, or none, under each of the names. -/
def AgreeOn (names : List String) (args args' : Arguments) : Prop :=
  ∀ key ∈ names, args.get? key = args'.get? key

theorem AgreeOn.refl (names : List String) (args : Arguments) : AgreeOn names args args :=
  fun _ _ => rfl

/-- Arguments in another order agree under all names. -/
theorem agreeOn_of_perm (perm : args.entries.Perm args'.entries) : AgreeOn names args args' :=
  fun _ _ => Members.get?_of_perm args.distinct perm

/-- An argument under a name that is not among the known ones does not matter. -/
theorem agreeOn_of_add? {key : String} {value : Literal} (unknown : key ∉ names)
    (added : args.add? key value = some args') : AgreeOn names args args' := by
  intro other known
  have differ : key ≠ other := by
    rintro rfl
    exact unknown known
  unfold add? at added
  split at added
  · cases added
  · cases added
    simp only [get?, Members.get?_append, Members.get?_cons, Members.get?_nil, if_neg differ,
      Option.or_none]

/-! ## Readers -/

section

variable {key : String} (same : args.get? key = args'.get? key) (call : String)
include same

theorem number?_congr : args.number? call key = args'.number? call key := by
  simp only [number?, same]

theorem whole?_congr : args.whole? call key = args'.whole? call key := by
  simp only [whole?, number?_congr same]

theorem index?_congr : args.index? call key = args'.index? call key := by
  simp only [index?, whole?_congr same]

theorem string?_congr : args.string? call key = args'.string? call key := by
  simp only [string?, same]

theorem string_congr : args.string call key = args'.string call key := by
  simp only [string, string?_congr same]

theorem boolean?_congr : args.boolean? call key = args'.boolean? call key := by
  simp only [boolean?, same]

end

theorem color?_congr (same : args.get? "color" = args'.get? "color") (call : String) :
    args.color? call = args'.color? call := by
  simp only [color?, same]

end Arguments

open Arguments

/-! ## Edits -/

section

variable {args args' : Arguments}

namespace Edit

theorem newClipAction_congr (defaults : ClipDefaults)
    (agree : AgreeOn newClip.argumentNames args args') :
    newClipAction defaults args = newClipAction defaults args' := by
  have bar := whole?_congr (agree "bar" (by decide))
  have lengthBars := whole?_congr (agree "length_bars" (by decide))
  have start := number?_congr (agree "start" (by decide))
  have position := number?_congr (agree "position" (by decide))
  have length := number?_congr (agree "length" (by decide))
  funext track
  simp only [newClipAction, newClipPosition?, bar, lengthBars, start, position, length]

theorem addFxAction_congr (agree : AgreeOn addFx.argumentNames args args') :
    addFxAction args = addFxAction args' := by
  have fxname := string?_congr (agree "fxname" (by decide))
  have instrument := string?_congr (agree "instrument" (by decide))
  funext track
  simp only [addFxAction, fxname, instrument]

theorem trackProps_congr (agree : AgreeOn setTrack.argumentNames args args') :
    trackProps args = trackProps args' := by
  have name := string?_congr (agree "name" (by decide))
  have volume := number?_congr (agree "volume_db" (by decide))
  have pan := number?_congr (agree "pan" (by decide))
  have mute := boolean?_congr (agree "mute" (by decide))
  have solo := boolean?_congr (agree "solo" (by decide))
  have selected := boolean?_congr (agree "selected" (by decide))
  have color := color?_congr (agree "color" (by decide))
  simp only [trackProps, name, volume, pan, mute, solo, selected, color]

theorem clipProps_congr (agree : AgreeOn setClip.argumentNames args args') :
    clipProps args = clipProps args' := by
  have name := string?_congr (agree "name" (by decide))
  have color := color?_congr (agree "color" (by decide))
  have selected := boolean?_congr (agree "selected" (by decide))
  have length := number?_congr (agree "length" (by decide))
  simp only [clipProps, name, color, selected, length]

theorem clipRef_congr (e : Edit) (agree : AgreeOn ["clip", "position", "bar"] args args') :
    clipRef e args = clipRef e args' := by
  have index := index?_congr (agree "clip" (by decide))
  have position := number?_congr (agree "position" (by decide))
  have bar := whole?_congr (agree "bar" (by decide))
  funext item
  simp only [clipRef, index, position, bar]

theorem clipDestination_congr (agree : AgreeOn moveClip.argumentNames args args') :
    clipDestination args = clipDestination args' := by
  have position := number?_congr (agree "position" (by decide))
  have bar := whole?_congr (agree "bar" (by decide))
  simp only [clipDestination, position, bar]

theorem clipSource_congr (agree : AgreeOn moveClip.argumentNames args args') :
    clipSource args = clipSource args' := by
  have index := index?_congr (agree "clip" (by decide))
  have position := number?_congr (agree "old_position" (by decide))
  funext item
  simp only [clipSource, index, position]

theorem automation_congr (agree : AgreeOn addAutomation.argumentNames args args') :
    automation args = automation args' := by
  have curve := string?_congr (agree "curve" (by decide))
  have start := number?_congr (agree "start" (by decide))
  have stop := number?_congr (agree "end" (by decide))
  have startBar := number?_congr (agree "start_bar" (by decide))
  have stopBar := number?_congr (agree "end_bar" (by decide))
  have fromValue := number?_congr (agree "from" (by decide))
  have toValue := number?_congr (agree "to" (by decide))
  have frequency := number?_congr (agree "freq" (by decide))
  have amplitude := number?_congr (agree "amplitude" (by decide))
  have phase := number?_congr (agree "phase" (by decide))
  have points := agree "points" (by decide)
  have shape := whole?_congr (agree "shape" (by decide))
  simp only [automation, curve, start, stop, startBar, stopBar, fromValue, toValue, frequency,
    amplitude, phase, points, shape]

/-- An edit makes the same of all arguments that agree under the names that it knows. -/
theorem builder_congr (defaults : ClipDefaults) {e : Edit}
    (agree : AgreeOn e.argumentNames args args') :
    e.builder defaults args = e.builder defaults args' := by
  cases e with
  | newClip => simp only [builder, newClipAction_congr defaults agree]
  | addFx => simp only [builder, addFxAction_congr agree]
  | setTrack => simp only [builder, trackProps_congr agree]
  | delete => rfl
  | deleteClip => simp only [builder, clipRef_congr deleteClip agree]
  | setClip =>
    have ref : AgreeOn ["clip", "position", "bar"] args args' := fun key known =>
      agree key (List.mem_append_left ["name", "color", "selected", "length"] known)
    simp only [builder, clipProps_congr agree, clipRef_congr setClip ref]
  | moveClip => simp only [builder, clipDestination_congr agree, clipSource_congr agree]
  | addAutomation =>
    have param := string_congr (agree "param" (by decide))
    simp only [builder, automation_congr agree, param]

end Edit

/-! ## Calls -/

theorem TrackRequest.ofArguments_congr (agree : AgreeOn argumentNames args args') :
    ofArguments args = ofArguments args' := by
  have id := whole?_congr (agree "id" (by decide))
  have selected := boolean?_congr (agree "selected" (by decide))
  have instrument := string?_congr (agree "instrument" (by decide))
  have name := string?_congr (agree "name" (by decide))
  have index := index?_congr (agree "index" (by decide))
  simp only [ofArguments, id, selected, instrument, name, index]

namespace Run

/-- A track call does the same with all arguments that agree under the names that it knows. -/
theorem track_congr (session : Session)
    (agree : AgreeOn TrackRequest.argumentNames args args') :
    track session args = track session args' := by
  simp only [track, TrackRequest.ofArguments_congr agree]

theorem utility_congr (session : Session) {u : Utility}
    (agree : AgreeOn u.argumentNames args args') :
    utility session u args = utility session u args' := by
  cases u with
  | store =>
    have name := string_congr (agree "name" (by decide))
    have value := agree "value" (by decide)
    simp only [utility, store, name, value]
  | getTracks | getFxChain => rfl

theorem edit_congr (ctx : Context) {e : Edit} (agree : AgreeOn e.argumentNames args args')
    (pending : Option Collection) : edit ctx e args pending = edit ctx e args' pending := by
  simp only [edit, Edit.builder_congr ctx.defaults agree]

/-- A method does the same with all arguments that agree under the names that it knows. -/
theorem invoke_congr (ctx : Context) {m : Method} (agree : AgreeOn m.argumentNames args args')
    (pending : Option Collection) :
    invoke ctx ⟨m, args⟩ pending = invoke ctx ⟨m, args'⟩ pending := by
  cases m with
  | edit e => exact edit_congr ctx agree pending
  | utility u => exact utility_congr ctx.session agree

end Run

end

/-! ## Scripts -/

/-- Whether two invocations are of one method, with arguments that agree under the names that it
    knows. -/
inductive Invocation.Agrees : Invocation → Invocation → Prop where
  | mk {m args args'} (agree : AgreeOn m.argumentNames args args') :
      Agrees ⟨m, args⟩ ⟨m, args'⟩

/-- Whether two functions apply the same to each item, up to arguments that do not matter. -/
inductive ItemFunction.Agrees : ItemFunction → ItemFunction → Prop where
  | named (name : String) : Agrees (.named name) (.named name)
  | method (binder : String) {i i'} (agree : i.Agrees i') :
      Agrees (.method binder i) (.method binder i')

/-- Whether two calls are the same, up to arguments that do not matter. -/
inductive Call.Agrees : Call → Call → Prop where
  | track {args args'} (agree : AgreeOn TrackRequest.argumentNames args args') :
      Agrees (.track args) (.track args')
  | method {i i'} (agree : i.Agrees i') : Agrees (.method i) (.method i')
  | filter (name : String) (p : Predicate) : Agrees (.filter name p) (.filter name p)
  | map (name : String) {f f'} (agree : f.Agrees f') : Agrees (.map name f) (.map name f')
  | forEach (name : String) {f f'} (agree : f.Agrees f') :
      Agrees (.forEach name f) (.forEach name f')

/-- Whether two statements have the same calls, up to arguments that do not matter, on whatever
    lines they stand. -/
structure Statement.Agrees (st st' : Statement) : Prop where
  head : st.head.Agrees st'.head
  chain : List.Forall₂ Invocation.Agrees st.chain st'.chain

theorem Statement.Agrees.calls {st st' : Statement} (agree : st.Agrees st') :
    List.Forall₂ Call.Agrees st.calls st'.calls := by
  refine .cons agree.head ?_
  rw [List.forall₂_map_left_iff, List.forall₂_map_right_iff]
  exact agree.chain.imp fun _ _ => .method

namespace Run

theorem invokeOnEach_congr (ctx : Context) {i i' : Invocation} (agree : i.Agrees i')
    (saved : Option Nat) (name : String) (items : List Item) :
    invokeOnEach ctx i saved name items = invokeOnEach ctx i' saved name items := by
  obtain ⟨agree⟩ := agree
  induction items with
  | nil => rfl
  | cons item items inductionHypothesis =>
    simp only [invokeOnEach, invoke_congr ctx agree, inductionHypothesis]

/-- A call does the same with all arguments that agree under the names that it knows. -/
theorem call_congr (ctx : Context) (pending : Option Collection) {c c' : Call}
    (agree : c.Agrees c') : call ctx pending c = call ctx pending c' := by
  cases agree with
  | track agree => simp only [call, track_congr ctx.session agree]
  | @method i i' agree =>
    obtain @⟨m, args, args', agree⟩ := agree
    cases m with
    | edit e => simp only [call, edit_congr ctx agree]
    | utility u => simp only [call, utility_congr ctx.session agree]
  | filter => rfl
  | map name agree => cases agree <;> rfl
  | forEach name agree =>
    cases agree with
    | named => rfl
    | method binder agree => simp only [call, forEach, invokeOnEach_congr ctx agree]

theorem calls_congr (ctx : Context) (pending : Option Collection) {cs cs' : List Call}
    (agree : List.Forall₂ Call.Agrees cs cs') : calls ctx pending cs = calls ctx pending cs' := by
  induction agree generalizing pending with
  | nil => rfl
  | cons first _ inductionHypothesis =>
    simp only [calls, call_congr ctx pending first, inductionHypothesis]

theorem statements_congr (ctx : Context) {sts sts' : List Statement}
    (agree : List.Forall₂ Statement.Agrees sts sts') (s : RunState) :
    statements ctx sts s = statements ctx sts' s := by
  induction agree generalizing s with
  | nil => rfl
  | cons first _ inductionHypothesis =>
    simp only [statements, statement, calls_congr ctx none first.calls, inductionHypothesis]

end Run

/-- Scripts with the same calls, up to arguments that do not matter, come to the same. -/
theorem Context.execute_congr (ctx : Context) {script script' : Script}
    (agree : List.Forall₂ Statement.Agrees script.statements script'.statements) :
    ctx.execute script = ctx.execute script' := by
  simp only [execute, Run.statements_congr ctx agree]

end StudioScript
