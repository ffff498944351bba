import StudioScript.Execution.Edit
import StudioScript.Execution.Predicate
import StudioScript.Execution.State

/-! # Running calls

What every call of a script does to the state of a run.  An edit is applied to the track that calls
go to, or, behind a filter and inside `for_each`, to every item of a collection: then the track
comes from the item, and items without one are left out.

A filter hands its result on to the next edit as the *pending* collection.  Utilities in between
let it pass; an edit takes it.
-/

namespace StudioScript

/-! ## Track calls -/

/-- What a track call asks for: a track by its index, the selected track, or a new one. -/
inductive TrackRequest where
  | existing (index : Nat)
  | selected
  | new (instrument name : Option String) (index : Option Nat)
deriving DecidableEq, Repr, Inhabited

namespace TrackRequest

/-- What the arguments of a track call ask for.  The `id` of a track is one more than its index. -/
def ofArguments (args : Arguments) : Except RunError TrackRequest := do
  match ← args.whole? "track" "id" with
  | some id =>
      if id < 1 then Arguments.refuse "track" "id" .belowFirstId
      else return .existing (id - 1).toNat
  | none =>
      if (← args.boolean? "track" "selected") = some true then return .selected
      else
        let instrument ← args.string? "track" "instrument"
        let name ← args.string? "track" "name"
        let index ← args.index? "track" "index"
        return .new instrument name index

end TrackRequest

namespace Run

/-- Indices are counted modulo this. -/
def indexModulus : Nat := Nat.pow 2 64

/-- Creates a track, at the given index or at the next one, and makes it the current track. -/
def createTrack (instrument name : Option String) (index : Option Nat) : Run Unit := do
  let i := index.getD (← get).nextIndex
  modify fun s => { s with nextIndex := (i + 1) % indexModulus, currentTrack := some i }
  emit [.createTrack instrument name i]

/-- `track(...)`. -/
def track (session : Session) (args : Arguments) : Run Unit := do
  match ← lift (TrackRequest.ofArguments args) with
  | .existing index => setTrack (some index)
  | .selected =>
      match session.selectedIndex? with
      | some index => setTrack (some index)
      | none => throw .noSelectedTrack
  | .new instrument name index => createTrack instrument name index

/-! ## Utilities -/

/-- The items that a stored literal is: those of an array, or the literal alone. -/
def literalItems : Literal → List Item
  | .array items => items.map .literal
  | literal => [.literal literal]

/-- `store(...)`. -/
def store (args : Arguments) : Run Unit := do
  let call := Utility.store.name
  let name ← lift (args.string call "name")
  match args.get? "value" with
  | some value => keep ⟨name, literalItems value⟩
  | none => throw (.missingArgument call "value")

def utility (session : Session) (u : Utility) (args : Arguments) : Run Unit :=
  match u with
  | .store => store args
  | .getTracks => keep session.trackCollection
  | .getFxChain => do
      let track ← requireTrack u.name
      keep (session.effectCollection track)

/-! ## Edits -/

/-- The track of an edit without a collection: the current track, and for a new clip else the
    selected one. -/
def editedTrack (session : Session) (e : Edit) : Run Nat := do
  match (← get).currentTrack, e, session.selectedIndex? with
  | some track, _, _ => return track
  | none, .newClip, some track => return track
  | none, _, _ => throw (.noTrackContext e.name)

/-- The actions for the items of a collection, in order. -/
def actionsFor (build : Builder) : List Item → Except RunError (List Action)
  | [] => .ok []
  | item :: items =>
      match item.target? with
      | none => actionsFor build items
      | some track => do
          let action ← build track (some item)
          let actions ← actionsFor build items
          return action.toList ++ actions

/-- Applies an edit to the items of the pending collection, or to a track if there is none. -/
def edit (ctx : Context) (e : Edit) (args : Arguments) (pending : Option Collection) :
    Run Unit := do
  let build ← lift (e.builder ctx.defaults args)
  match pending with
  | some c => emit (← lift (actionsFor build c.items))
  | none =>
      let track ← editedTrack ctx.session e
      emit (← lift (build track none)).toList

/-- Applies a method; utilities have no use for a pending collection. -/
def invoke (ctx : Context) (i : Invocation) (pending : Option Collection) : Run Unit :=
  match i.method with
  | .utility u => utility ctx.session u i.args
  | .edit e => edit ctx e i.args pending

/-! ## Collections -/

/-- The items of a collection that satisfy a predicate, as `<name>_filtered`. -/
def filter (session : Session) (name : String) (p : Predicate) : Run Collection := do
  let source ← resolve session name
  return ⟨name ++ Collection.filteredSuffix, source.items.filter (p.holds source.itemName)⟩

/-- The items of a collection, all of them unchanged, as `<name>_mapped`. -/
def map (session : Session) (name : String) (function : ItemFunction) : Run Collection := do
  let source ← resolve session name
  match function with
  | .named f => throw (.unsupportedFunction "map" f)
  | .method .. => return ⟨name ++ Collection.mappedSuffix, source.items⟩

/-- Applies a method to each of the items alone, with the item's track as the current track, or
    with the saved one for an item without a track. -/
def invokeOnEach (ctx : Context) (i : Invocation) (saved : Option Nat) (name : String) :
    List Item → Run Unit
  | [] => pure ()
  | item :: items => do
      setTrack (item.target?.or saved)
      attempt (invoke ctx i (some ⟨name, [item]⟩))
      invokeOnEach ctx i saved name items

/-- `for_each(...)`.  The current track is afterwards what it was before. -/
def forEach (ctx : Context) (name : String) (function : ItemFunction) : Run Unit := do
  let source ← resolve ctx.session name
  match function with
  | .named f => throw (.unsupportedFunction "for_each" f)
  | .method _ i =>
      let saved := (← get).currentTrack
      invokeOnEach ctx i saved source.name source.items
      setTrack saved

/-! ## All calls -/

/-- Runs a call that follows calls which left the given collection pending, and returns the
    collection that is pending then.  An edit of an empty collection does nothing. -/
def call (ctx : Context) (pending : Option Collection) : Call → Run (Option Collection)
  | .track args => do
      track ctx.session args
      return none
  | .filter name p => do
      let result ← filter ctx.session name p
      keep result
      setTrack none
      return some result
  | .map name function => do
      let result ← map ctx.session name function
      keep result
      return none
  | .forEach name function => do
      forEach ctx name function
      return none
  | .method ⟨.utility u, args⟩ => do
      utility ctx.session u args
      return pending
  | .method ⟨.edit e, args⟩ => do
      if pending.any (·.items.isEmpty) then return none
      else
        edit ctx e args pending
        return none

def calls (ctx : Context) (pending : Option Collection) : List Call → Run Unit
  | [] => pure ()
  | c :: cs => do
      let pending ← call ctx pending c
      calls ctx pending cs

def statement (ctx : Context) (s : Statement) : Run Unit := calls ctx none s.calls

end Run

end StudioScript
