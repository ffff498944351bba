import StudioScript.Proofs.Execution.Independence
import StudioScript.Proofs.Execution.Itemwise
import StudioScript.Proofs.Number.Whole

/-! # Two ways to a track

A track call counts from one and goes to a single track; a filter on `index` counts from zero,
compares texts, and goes to a collection.  Where one track has the index, the filter finds just that
track (`Session.filter_index`), and an edit makes the same of it as of the current track
(`Edit.actions_of_track`): the two ways agree (`Run.id_agrees_with_index`).
-/

namespace StudioScript

/-! ## By id -/

theorem Arguments.whole?_of_number {args : Arguments} {key : String} {x : Number} {i : Int}
    (given : args.get? key = some (.number x)) (whole : x.whole? = some i)
    (bounded : -wholeBound < i ∧ i < wholeBound) (call : String) :
    args.whole? call key = .ok (some i) := by
  have read : args.number? call key = .ok (some x) := by
    simp only [number?, given, Literal.toNumber?]
  simp only [whole?, read, Except.ok_bind, whole, if_pos bounded]
  rfl

@[simp] theorem Arguments.get?_single (key : String) (value : Literal) :
    (single key value).get? key = some value := if_pos rfl

theorem TrackRequest.ofArguments_id {args : Arguments} {x : Number} {n : Nat}
    (given : args.get? "id" = some (.number x)) (whole : x.whole? = some ((n + 1 : Nat) : Int))
    (small : n + 1 < 10 ^ 15) : ofArguments args = .ok (.existing n) := by
  have bounded : -Arguments.wholeBound < ((n + 1 : Nat) : Int) ∧
      ((n + 1 : Nat) : Int) < Arguments.wholeBound := by
    unfold Arguments.wholeBound
    omega
  have first : ¬((n + 1 : Nat) : Int) < 1 := by omega
  have index : (((n + 1 : Nat) : Int) - 1).toNat = n := by omega
  simp only [ofArguments, Arguments.whole?_of_number given whole bounded, Except.ok_bind,
    if_neg first, index]
  rfl

/-- The arguments of `track(id=id)`. -/
def Arguments.ofId (id : Nat) : Arguments := .single "id" (.number (.ofNat id))

/-- The `id` of a track is one more than its index. -/
theorem TrackRequest.ofArguments_ofId {n : Nat} (small : n + 1 < 10 ^ 15) :
    ofArguments (.ofId (n + 1)) = .ok (.existing n) :=
  ofArguments_id (Arguments.get?_single _ _) (Number.whole?_ofNat (by omega)) small

/-! ## By index -/

/-- The predicate `track.index == n`. -/
def Predicate.ofIndex (n : Nat) : Predicate := ⟨"track", "index", .equal, .number (.ofNat n)⟩

/-- Texts tell a small index apart from all others. -/
theorem Predicate.holds_ofIndex {n : Nat} (small : n < 2 ^ 53) (t : Track) :
    (ofIndex n).holds "track" (.track t) = (t.index == some n) := by
  have texts (i : Nat) : ((Number.ofNat i).text == (Number.ofNat n).text) = (i == n) := by
    rw [Bool.eq_iff_iff, beq_iff_eq, beq_iff_eq, Number.text_ofNat_inj small]
  cases indexed : t.index with
  | none => simp [holds, ofIndex, Item.field?, Item.trackField?, indexed]
  | some i =>
    simpa [holds, ofIndex, Item.field?, Item.trackField?, Item.indexLiteral, indexed,
      Comparison.holds, Comparison.areEqual, Literal.text] using texts i

/-- A filter by an index that one track has finds that track. -/
theorem Session.filter_index {session : Session} {n : Nat} (small : n < 2 ^ 53)
    (only : session.tracks.countP (·.index == some n) = 1) :
    ∃ t, t.index = some n ∧
      session.trackCollection.items.filter ((Predicate.ofIndex n).holds "track") = [.track t] := by
  obtain ⟨t, found⟩ := List.length_eq_one_iff.mp (List.countP_eq_length_filter.symm.trans only)
  have member : t ∈ session.tracks.filter (·.index == some n) := found ▸ List.mem_singleton_self t
  refine ⟨t, eq_of_beq (List.mem_filter.mp member).2, ?_⟩
  have same : (Predicate.ofIndex n).holds "track" ∘ Item.track = fun t => t.index == some n :=
    funext (Predicate.holds_ofIndex small)
  rw [Session.trackCollection, List.filter_map, same, found]
  rfl

/-! ## Edits -/

namespace Edit

/-- A track that an edit is applied to decides on nothing but where the action goes. -/
theorem build_of_track {e : Edit} {defaults : ClipDefaults} {args : Arguments} {build : Builder}
    (built : e.builder defaults args = .ok build) (n : Nat) (t : Track) :
    build n (some (.track t)) = build n none := by
  -- Only a clip gives an edit more than a target: itself, as the clip that is edited.
  cases e with
  | newClip | addFx | delete | deleteClip =>
    cases built
    rfl
  | setTrack | setClip | moveClip =>
    obtain ⟨_, _, built⟩ := Except.bind_eq_ok.mp built
    cases built
    rfl
  | addAutomation =>
    obtain ⟨_, _, built⟩ := Except.bind_eq_ok.mp built
    obtain ⟨_, _, built⟩ := Except.bind_eq_ok.mp built
    cases built
    rfl

/-- An edit of a collection that holds one track agrees with an edit of the current track. -/
theorem actions_of_track (ctx : Context) (current : Option Nat) (e : Edit) (args : Arguments)
    {n : Nat} {t : Track} (indexed : t.index = some n) (name : String) :
    e.actions ctx current args (some ⟨name, [.track t]⟩) = e.actions ctx (some n) args none := by
  unfold actions
  cases built : e.builder ctx.defaults args with
  | error error => rfl
  | ok build =>
    have single : Run.actionsFor build [.track t] =
        (do return (← build n (some (.track t))).toList ++ []) := by
      simp only [Run.actionsFor, Item.target?, indexed, Except.ok_bind]
    have here : e.trackFrom ctx.session (some n) = .ok n := rfl
    simp only [Except.ok_bind, single, here, build_of_track built, List.append_nil]

end Edit

/-! ## Both ways -/

namespace Run

theorem call_track_existing {ctx : Context} {pending : Option Collection} {args : Arguments}
    {index : Nat} (request : TrackRequest.ofArguments args = .ok (.existing index))
    (s : RunState) :
    call ctx pending (.track args) s = .ok none { s with currentTrack := some index } := by
  simp only [call, bind_apply, track_apply, request, pure_apply]

/-- Behind a head that leaves no empty collection, an edit comes to its actions. -/
theorem statement_edit {ctx : Context} {head : Call} {pending : Option Collection}
    {s mid : RunState} (ran : call ctx none head s = .ok pending mid)
    (nonempty : pending.any (·.items.isEmpty) = false) {line : Nat} {e : Edit}
    {args : Arguments} :
    statement ctx ⟨line, head, [⟨.edit e, args⟩]⟩ s =
      match e.actions ctx mid.currentTrack args pending with
      | .ok actions => .ok () (mid.emitting actions)
      | .error error => .error error mid := by
  simp only [statement, Statement.calls, List.map_cons, List.map_nil, calls, bind_apply, ran,
    call_edit_apply, nonempty, Bool.false_eq_true, if_false]
  cases e.actions ctx mid.currentTrack args pending <;> rfl

/-- A track that is alone with its index may be addressed by its `id`, which is one more, or by a
    filter on its index.  With the tracks of the session as `tracks`, every edit with any arguments
    fails with the same error both ways, or succeeds and appends the same actions. -/
theorem id_agrees_with_index {ctx : Context} {s : RunState} {n : Nat} (small : n + 1 < 10 ^ 15)
    (only : ctx.session.tracks.countP (·.index == some n) = 1)
    (found : s.collection? ctx.session "tracks" = some ctx.session.trackCollection) (e : Edit)
    (args : Arguments) (line line' : Nat) :
    let edit : Invocation := ⟨.edit e, args⟩
    Alike s s
      (statement ctx ⟨line, .track (.ofId (n + 1)), [edit]⟩ s)
      (statement ctx ⟨line', .filter "tracks" (.ofIndex n), [edit]⟩ s) := by
  intro edit
  obtain ⟨t, indexed, items⟩ := ctx.session.filter_index (by omega) only
  -- The filter leaves a collection behind it, the track call a current track.
  let result : Collection := ⟨"tracks" ++ Collection.filteredSuffix, [.track t]⟩
  have filtered : call ctx none (.filter "tracks" (.ofIndex n)) s =
      .ok (some result) (s.filtering result) := by
    rw [call_filter_found found, itemName_trackCollection, items]
  have addressed : call ctx none (.track (.ofId (n + 1))) s =
      .ok none { s with currentTrack := some n } :=
    call_track_existing (TrackRequest.ofArguments_ofId small) s
  have made : e.actions ctx (s.filtering result).currentTrack args (some result) =
      e.actions ctx (some n) args none := e.actions_of_track ctx _ args indexed _
  rw [statement_edit addressed rfl, statement_edit filtered rfl, made]
  cases e.actions ctx (some n) args none with
  | error error => exact .error
  | ok actions => exact .ok actions rfl rfl

/-- The second of three tracks has the index 5, so that its `id` is 6.  It is deleted both ways. -/
theorem id_agrees_with_index_of_second :
    let ctx : Context := { session := .ofTracks [{}, { index := some 5 }, {}] }
    let s := RunState.initial ctx.session
    let delete : Invocation := ⟨.edit .delete, .empty⟩
    5 + 1 < 10 ^ 15 ∧ ctx.session.tracks.countP (·.index == some 5) = 1 ∧
      s.collection? ctx.session "tracks" = some ctx.session.trackCollection ∧
      ∃ s' t', statement ctx ⟨1, .track (.ofId 6), [delete]⟩ s = .ok () s' ∧
        statement ctx ⟨2, .filter "tracks" (.ofIndex 5), [delete]⟩ s = .ok () t' ∧
        s'.actions = [.deleteTrack 5] ∧ t'.actions = [.deleteTrack 5] := by
  intro ctx s delete
  have found : s.collection? ctx.session "tracks" = some ctx.session.trackCollection :=
    RunState.initial_tracks ctx.session
  have only : ctx.session.tracks.countP (·.index == some 5) = 1 := rfl
  have small : 5 + 1 < 10 ^ 15 := by decide
  have byId : statement ctx ⟨1, .track (.ofId 6), [delete]⟩ s =
      .ok () ({ s with currentTrack := some 5 }.emitting [.deleteTrack 5]) :=
    statement_edit (call_track_existing (TrackRequest.ofArguments_ofId small) s) rfl
  have alike : Alike s s (statement ctx ⟨1, .track (.ofId 6), [delete]⟩ s)
      (statement ctx ⟨2, .filter "tracks" (.ofIndex 5), [delete]⟩ s) :=
    id_agrees_with_index small only found .delete .empty 1 2
  rw [byId] at alike
  generalize statement ctx ⟨2, .filter "tracks" (.ofIndex 5), [delete]⟩ s = outcome at alike ⊢
  cases alike with
  | ok new left right =>
    have same : new = [.deleteTrack 5] := left.symm
    exact ⟨small, only, found, _, _, byId, rfl, rfl, right.trans (same ▸ rfl)⟩

end Run

end StudioScript
