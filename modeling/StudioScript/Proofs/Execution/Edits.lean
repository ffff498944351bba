import StudioScript.Proofs.Execution.Steps
import StudioScript.Proofs.Results

/-! # What edits make

`Edit.Make` lists all that an edit can make for a track and for the item that stands for it.  What
holds of every action of a run is shown by going through this list.
-/

namespace StudioScript

namespace Edit

/-- What an edit makes for a track and the item that stands for it, if a collection is edited. -/
inductive Make (args : Arguments) (track : Nat) (item : Option Item) :
    Edit → Option Action → Prop where
  | clipAtBar {bar lengthBars} (positive : 0 < lengthBars) :
      Make args track item .newClip (some (.createClipAtBar track bar lengthBars))
  | clip {position length} (start : position.isNegative = false)
      (positive : length.isNonPositive = false) :
      Make args track item .newClip (some (.createClip track position length))
  | fx {name} : Make args track item .addFx (some (.addTrackFx track name))
  | instrument {name} : Make args track item .addFx (some (.addInstrument track name))
  | setTrack {props} (read : trackProps args = .ok props) :
      Make args track item .setTrack (some (.setTrack track props))
  | delete : Make args track item .delete (some (.deleteTrack track))
  | deleteClip {named} (ref : clipRef .deleteClip args item = .ok named) :
      Make args track item .deleteClip (named.map (.deleteClip track))
  | setClip {props named} (read : clipProps args = .ok props)
      (ref : clipRef .setClip args item = .ok named) :
      Make args track item .setClip (named.map (.setClip track · props))
  | moveClip {destination named} (read : clipDestination args = .ok destination)
      (source : clipSource args item = .ok named) :
      Make args track item .moveClip (named.map (.setClipPosition track destination))
  | automation {param body} (read : automation args = .ok body) :
      Make args track item .addAutomation (some (.addAutomation track param body))

variable {defaults : ClipDefaults} {args : Arguments} {track : Nat} {item : Option Item}

/-- A new clip starts at a bar and is some bars long, or it starts at a time, where its length may
    be that of the defaults. -/
theorem newClipAction_eq_ok {action : Action}
    (made : newClipAction defaults args track = .ok action) :
    (∃ bar lengthBars, 0 < lengthBars ∧ action = .createClipAtBar track bar lengthBars) ∨
      ∃ position given, newClipPosition? args = .ok (some position) ∧
        position.isNegative = false ∧ args.number? newClip.name "length" = .ok given ∧
        (given.getD defaults.lengthSeconds).isNonPositive = false ∧
        action = .createClip track position (given.getD defaults.lengthSeconds) := by
  obtain ⟨bar, _, rest⟩ := Except.bind_eq_ok.mp made
  split at rest
  · obtain ⟨lengthBars, _, rest⟩ := Except.bind_eq_ok.mp rest
    dsimp only at rest
    split at rest
    · cases rest
    · next positive =>
      cases rest
      exact .inl ⟨_, _, Int.not_le.mp positive, rfl⟩
  · obtain ⟨position, starts, rest⟩ := Except.bind_eq_ok.mp rest
    split at rest
    · cases rest
    · next start =>
      split at rest
      · cases rest
      · next natural =>
        obtain ⟨given, read, rest⟩ := Except.bind_eq_ok.mp rest
        dsimp only at rest
        split at rest
        · cases rest
        · next positive =>
          cases rest
          exact .inr ⟨_, given, starts, eq_false_of_ne_true natural, read,
            eq_false_of_ne_true positive, rfl⟩

theorem make_of_newClipAction {action : Action}
    (made : newClipAction defaults args track = .ok action) :
    Make args track item .newClip (some action) := by
  rcases newClipAction_eq_ok made with ⟨bar, lengthBars, positive, rfl⟩ |
    ⟨position, given, _, start, _, positive, rfl⟩
  · exact .clipAtBar positive
  · exact .clip start positive

theorem make_of_addFxAction {action : Action} (made : addFxAction args track = .ok action) :
    Make args track item .addFx (some action) := by
  obtain ⟨fxname, _, rest⟩ := Except.bind_eq_ok.mp made
  obtain ⟨instrument, _, rest⟩ := Except.bind_eq_ok.mp rest
  split at rest
  · cases rest
    exact .fx
  · cases rest
    exact .instrument
  · cases rest
  · cases rest

theorem make_of_build {e : Edit} {build : Builder} {result : Option Action}
    (built : e.builder defaults args = .ok build) (made : build track item = .ok result) :
    Make args track item e result := by
  cases e with
  | newClip =>
    cases built
    obtain ⟨action, acted, rfl⟩ := Except.map_eq_ok.mp made
    exact make_of_newClipAction acted
  | addFx =>
    cases built
    obtain ⟨action, acted, rfl⟩ := Except.map_eq_ok.mp made
    exact make_of_addFxAction acted
  | setTrack =>
    obtain ⟨props, read, rest⟩ := Except.bind_eq_ok.mp built
    cases rest
    cases made
    exact .setTrack read
  | delete =>
    cases built
    cases made
    exact .delete
  | deleteClip =>
    cases built
    obtain ⟨named, ref, rest⟩ := Except.bind_eq_ok.mp made
    cases rest
    exact .deleteClip ref
  | setClip =>
    obtain ⟨props, read, rest⟩ := Except.bind_eq_ok.mp built
    cases rest
    obtain ⟨named, ref, rest⟩ := Except.bind_eq_ok.mp made
    cases rest
    exact .setClip read ref
  | moveClip =>
    obtain ⟨destination, read, rest⟩ := Except.bind_eq_ok.mp built
    cases rest
    obtain ⟨named, source, rest⟩ := Except.bind_eq_ok.mp made
    cases rest
    exact .moveClip read source
  | addAutomation =>
    obtain ⟨param, _, rest⟩ := Except.bind_eq_ok.mp built
    obtain ⟨body, read, rest⟩ := Except.bind_eq_ok.mp rest
    cases rest
    cases made
    exact .automation read

/-- Whether an edit makes an action for a track and the item that stands for it. -/
def Makes (defaults : ClipDefaults) (args : Arguments) (track : Nat) (item : Option Item)
    (e : Edit) (action : Action) : Prop :=
  ∃ build, e.builder defaults args = .ok build ∧ build track item = .ok (some action)

theorem Makes.make {e : Edit} {action : Action} (makes : e.Makes defaults args track item action) :
    Make args track item e (some action) := by
  obtain ⟨build, built, made⟩ := makes
  exact make_of_build built made

/-- An action is for the track that it is made for. -/
theorem Make.target {e : Edit} {action : Action} (make : Make args track item e (some action)) :
    action.target = track := by
  generalize same : some action = result at make
  cases make with
  | clipAtBar | clip | fx | instrument | setTrack | delete | automation =>
    cases same
    rfl
  | deleteClip | setClip | moveClip =>
    obtain ⟨_, _, rfl⟩ := Option.map_eq_some_iff.mp same.symm
    rfl

end Edit

namespace Run

/-- Each action for the items of a collection is made for one of them and its track. -/
theorem built_of_mem_actionsFor {build : Builder} {items : List Item} {actions : List Action}
    (made : actionsFor build items = .ok actions) :
    ∀ action ∈ actions, ∃ item ∈ items, ∃ track, item.target? = some track ∧
      build track (some item) = .ok (some action) := by
  induction items generalizing actions with
  | nil =>
    cases made
    intro action member
    cases member
  | cons item items inductionHypothesis =>
    unfold actionsFor at made
    split at made
    · intro action member
      obtain ⟨item', later, rest⟩ := inductionHypothesis made action member
      exact ⟨item', List.mem_cons_of_mem _ later, rest⟩
    · next track target =>
      obtain ⟨result, first, rest⟩ := Except.bind_eq_ok.mp made
      obtain ⟨others, later, joined⟩ := Except.bind_eq_ok.mp rest
      cases joined
      intro action member
      rcases List.mem_append.mp member with here | there
      · have same := Option.mem_toList.mp here
        subst same
        exact ⟨item, List.mem_cons_self, track, target, first⟩
      · obtain ⟨item', member', rest⟩ := inductionHypothesis later action there
        exact ⟨item', List.mem_cons_of_mem _ member', rest⟩

/-- Each action of an edit is made for an item of the pending collection and its track, or without
    an item for the track that calls go to. -/
theorem makes_of_mem_actions {ctx : Context} {current : Option Nat} {e : Edit} {args : Arguments}
    {pending : Option Collection} {actions : List Action}
    (made : e.actions ctx current args pending = .ok actions) :
    ∀ action ∈ actions, ∃ track item, e.Makes ctx.defaults args track item action ∧
      match pending with
      | some c => ∃ element ∈ c.items, item = some element ∧ element.target? = some track
      | none => item = none ∧ e.trackFrom ctx.session current = .ok track := by
  obtain ⟨build, built, rest⟩ := Except.bind_eq_ok.mp made
  cases pending with
  | some c =>
    intro action member
    obtain ⟨item, element, track, target, acted⟩ := built_of_mem_actionsFor rest action member
    exact ⟨track, some item, ⟨build, built, acted⟩, item, element, rfl, target⟩
  | none =>
    obtain ⟨track, from', rest⟩ := Except.bind_eq_ok.mp rest
    obtain ⟨result, acted, joined⟩ := Except.bind_eq_ok.mp rest
    cases joined
    intro action member
    have same := Option.mem_toList.mp member
    subst same
    exact ⟨track, none, ⟨build, built, acted⟩, rfl, from'⟩

end Run

end StudioScript
