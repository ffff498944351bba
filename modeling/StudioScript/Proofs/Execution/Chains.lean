import StudioScript.Proofs.Execution.Emissions

/-! # Chains behind a filter

A filter leaves no current track, and the collection that it leaves pending is taken by the first
edit of the chain; utilities let it pass and never change the track.  Each action of the statement
is therefore for an item that the filter has kept, or comes from a new clip further down the chain,
for which only the selected track is left (`Run.filtered_chain_on_target`).  Nothing that a chain
does depends on the store, so that writes to it in between are without consequence.
-/

namespace StudioScript

theorem Edit.Make.kind_newClip {args : Arguments} {track : Nat} {item : Option Item}
    {action : Action} (make : Edit.Make args track item .newClip (some action)) :
    action.kind = "create_clip" ∨ action.kind = "create_clip_at_bar" := by
  cases make with
  | clip => exact .inl rfl
  | clipAtBar => exact .inr rfl

namespace Run

/-! ## The contribution of a statement -/

/-- The actions that a statement adds, or the error that it fails with. -/
def contribution (ctx : Context) (st : Statement) (s : RunState) : Except RunError (List Action) :=
  match statement ctx st s with
  | .ok _ s' => .ok (s'.actions.drop s.actions.length)
  | .error e _ => .error e

theorem contribution_eq_ok {ctx : Context} {st : Statement} {s : RunState} {new : List Action} :
    contribution ctx st s = .ok new ↔
      ∃ s', statement ctx st s = .ok () s' ∧ s'.actions = s.actions ++ new := by
  have appended := calls_appends ctx st.calls none s
  rw [← statement] at appended
  unfold contribution
  cases outcome : statement ctx st s with
  | error e failed => simp
  | ok _ s' =>
    rw [outcome] at appended
    obtain ⟨added, same⟩ : s.actions <+: s'.actions := appended
    have cut : s'.actions.drop s.actions.length = added := by
      rw [← same, List.drop_left]
    constructor
    · intro ends
      cases ends
      exact ⟨s', rfl, cut.symm ▸ same.symm⟩
    · rintro ⟨final, ends, appended'⟩
      cases ends
      show Except.ok (s'.actions.drop s.actions.length) = _
      rw [appended', List.drop_left]

/-! ## One method after another -/

/-- The collection that is pending behind chained methods: an edit takes it. -/
def pendingBehind (pending : Option Collection) (chain : List Invocation) : Option Collection :=
  if chain.all (·.method.isUtility) then pending else none

theorem Effect.of_method {ctx : Context} {s s' : RunState} {pending pending' : Option Collection}
    {i : Invocation} (effect : Effect ctx s pending (.method i) pending' s') :
    pending' = pendingBehind pending [i] ∧ s'.currentTrack = s.currentTrack := by
  cases effect with
  | utility | skip | edit => exact ⟨rfl, rfl⟩

theorem pendingBehind_cons (pending : Option Collection) (i : Invocation)
    (chain : List Invocation) :
    pendingBehind pending (i :: chain) = pendingBehind (pendingBehind pending [i]) chain := by
  cases utility : i.method.isUtility <;> simp [pendingBehind, utility]

theorem calls_methods_append (ctx : Context) (pending : Option Collection)
    (before after : List Invocation) (s : RunState) :
    calls ctx pending ((before ++ after).map .method) s =
      match calls ctx pending (before.map .method) s with
      | .ok _ mid => calls ctx (pendingBehind pending before) (after.map .method) mid
      | .error e failed => .error e failed := by
  induction before generalizing pending s with
  | nil => rfl
  | cons i before inductionHypothesis =>
    simp only [List.cons_append, List.map_cons, calls, bind_apply]
    cases first : call ctx pending (.method i) s with
    | error e failed => rfl
    | ok pending' mid =>
      have taken : pending' = pendingBehind pending [i] := (effect_of_call first).of_method.1
      rw [pendingBehind_cons, ← taken]
      exact inductionHypothesis pending' mid

theorem currentTrack_of_methods {ctx : Context} {pending : Option Collection}
    {chain : List Invocation} {s s' : RunState}
    (ran : calls ctx pending (chain.map .method) s = .ok () s') :
    s'.currentTrack = s.currentTrack := by
  induction chain generalizing pending s with
  | nil =>
    cases ran
    rfl
  | cons i chain inductionHypothesis =>
    obtain ⟨pending', mid, first, rest⟩ := calls_cons_eq_ok.mp ran
    exact (inductionHypothesis rest).trans (effect_of_call first).of_method.2

/-- Each action that chained methods add is added by one of them. -/
theorem added_by_method {ctx : Context} {pending : Option Collection} {chain : List Invocation}
    {s s' : RunState} {new : List Action}
    (ran : calls ctx pending (chain.map .method) s = .ok () s')
    (added : s'.actions = s.actions ++ new) :
    ∀ action ∈ new, ∃ before i after mid pending' mid' own, chain = before ++ i :: after ∧
      calls ctx pending (before.map .method) s = .ok () mid ∧
      call ctx (pendingBehind pending before) (.method i) mid = .ok pending' mid' ∧
      mid'.actions = mid.actions ++ own ∧ action ∈ own := by
  induction chain generalizing pending s new with
  | nil =>
    cases ran
    have none : new = [] := by simpa using added
    subst none
    intro action member
    cases member
  | cons i chain inductionHypothesis =>
    obtain ⟨pending', mid, first, rest⟩ := calls_cons_eq_ok.mp ran
    obtain ⟨rfl, _⟩ := (effect_of_call first).of_method
    obtain ⟨own, here, _⟩ := (effect_of_call first).emits
    have appended := calls_appends ctx (chain.map .method) (pendingBehind pending [i]) mid
    rw [rest] at appended
    obtain ⟨later, there⟩ := appended
    have split : new = own ++ later := by
      have both : s.actions ++ new = s.actions ++ (own ++ later) := by
        rw [← added, ← List.append_assoc, ← here]
        exact there.symm
      exact List.append_cancel_left both
    -- Either this call has added the action, or one of those behind it, to which it has passed on
    -- what is pending.
    intro action member
    rw [split] at member
    rcases List.mem_append.mp member with among | among
    · exact ⟨[], i, chain, s, _, mid, own, rfl, rfl, first, here, among⟩
    · obtain ⟨before, j, after, start, p, final, own', rfl, ran', ran'', added', among'⟩ :=
        inductionHypothesis rest there.symm action among
      rw [← pendingBehind_cons] at ran''
      exact ⟨i :: before, j, after, start, p, final, own', rfl,
        calls_cons_eq_ok.mpr ⟨_, mid, first, ran'⟩, ran'', added', among'⟩

/-! ## The store does not matter -/

/-- Whether two outcomes differ in nothing but the store. -/
inductive SameButStore {α : Type} :
    EStateM.Result RunError RunState α → EStateM.Result RunError RunState α → Prop where
  | ok {x s} (store : Store) : SameButStore (.ok x s) (.ok x { s with store := store })
  | error {e s} (store : Store) : SameButStore (.error e s) (.error e { s with store := store })

theorem SameButStore.bind {α β : Type} {step step' : Run α} {next next' : α → Run β}
    {s s' : RunState} (first : SameButStore (step s) (step' s'))
    (second : ∀ x mid store, SameButStore (next x mid) (next' x { mid with store := store })) :
    SameButStore ((step >>= next) s) ((step' >>= next') s') := by
  rw [bind_apply, bind_apply]
  generalize step s = left at first
  generalize step' s' = right at first
  cases first with
  | ok store => exact second _ _ store
  | error store => exact .error store

theorem call_method_sameButStore (ctx : Context) (pending : Option Collection) (i : Invocation)
    (s : RunState) (store : Store) :
    SameButStore (call ctx pending (.method i) s)
      (call ctx pending (.method i) { s with store := store }) := by
  obtain ⟨method, args⟩ := i
  cases method with
  | utility u =>
    simp only [call, bind_apply, utility_apply, pure_apply]
    cases u.result ctx.session s.currentTrack args with
    | error e => exact .error store
    | ok c => exact .ok (store.keep c)
  | edit e =>
    rw [call_edit_apply, call_edit_apply]
    split
    · exact .ok store
    · cases e.actions ctx s.currentTrack args pending with
      | error error => exact .error store
      | ok actions => exact .ok store

theorem calls_methods_sameButStore (ctx : Context) (pending : Option Collection)
    (chain : List Invocation) (s : RunState) (store : Store) :
    SameButStore (calls ctx pending (chain.map .method) s)
      (calls ctx pending (chain.map .method) { s with store := store }) := by
  induction chain generalizing pending s store with
  | nil => exact .ok store
  | cons i chain inductionHypothesis =>
    exact (call_method_sameButStore ctx pending i s store).bind
      fun pending' mid store' => inductionHypothesis pending' mid store'

/-- Whether the longer chain is the other one with calls of `store` and `get_tracks` that succeed
    put in before its first edit. -/
inductive Padded (session : Session) : List Invocation → List Invocation → Prop where
  | rest (chain) : Padded session chain chain
  | keep {chain longer u args} (padded : Padded session chain longer) :
      Padded session (⟨.utility u, args⟩ :: chain) (⟨.utility u, args⟩ :: longer)
  | insert {chain longer u args} (writes : u = .store ∨ u = .getTracks)
      (succeeds : ∃ s s', utility session u args s = .ok () s')
      (padded : Padded session chain longer) :
      Padded session chain (⟨.utility u, args⟩ :: longer)

/-- A call of `store` or `get_tracks` that succeeds anywhere succeeds everywhere. -/
theorem utility_of_succeeds {session : Session} {u : Utility} {args : Arguments}
    (writes : u = .store ∨ u = .getTracks)
    (succeeds : ∃ s s', utility session u args s = .ok () s') :
    ∃ c, ∀ s, utility session u args s = .ok () (s.keeping c) := by
  obtain ⟨s, s', ran⟩ := succeeds
  have everywhere : ∀ t : RunState,
      u.result session t.currentTrack args = u.result session s.currentTrack args := by
    intro t
    rcases writes with rfl | rfl <;> rfl
  rw [utility_apply] at ran
  cases result : u.result session s.currentTrack args with
  | error e =>
    rw [result] at ran
    cases ran
  | ok c =>
    refine ⟨c, fun t => ?_⟩
    rw [utility_apply, everywhere, result]

theorem Padded.sameButStore {ctx : Context} {chain longer : List Invocation}
    (padded : Padded ctx.session chain longer) (pending : Option Collection) (s : RunState)
    (store : Store) :
    SameButStore (calls ctx pending (chain.map .method) s)
      (calls ctx pending (longer.map .method) { s with store := store }) := by
  induction padded generalizing pending s store with
  | rest chain => exact calls_methods_sameButStore ctx pending chain s store
  | keep _ inductionHypothesis =>
    exact (call_method_sameButStore ctx pending _ s store).bind
      fun pending' mid store' => inductionHypothesis pending' mid store'
  | @insert chain longer u args writes succeeds _ inductionHypothesis =>
    obtain ⟨c, everywhere⟩ := utility_of_succeeds writes succeeds
    -- The inserted call only writes to the store, which is let go of anyway.
    have passes : calls ctx pending ((⟨.utility u, args⟩ :: longer).map .method)
        { s with store := store } =
          calls ctx pending (longer.map .method) { s with store := store.keep c } := by
      simp only [List.map_cons, calls, call, bind_apply, everywhere]
      rfl
    rw [passes]
    exact inductionHypothesis pending s (store.keep c)

/-! ## Behind a filter -/

theorem statement_filter_apply {ctx : Context} {s : RunState} {name : String}
    {source : Collection} (found : s.collection? ctx.session name = some source) (p : Predicate)
    (line : Nat) (chain : List Invocation) :
    let result : Collection :=
      ⟨name ++ Collection.filteredSuffix, source.items.filter (p.holds source.itemName)⟩
    statement ctx ⟨line, .filter name p, chain⟩ s =
      calls ctx (some result) (chain.map .method) (s.filtering result) := by
  intro result
  simp only [statement, Statement.calls, calls, bind_apply, call_filter_found found p]
  rfl

theorem statement_filter_missing {ctx : Context} {s : RunState} {name : String}
    (missing : s.collection? ctx.session name = none) (p : Predicate) (line : Nat)
    (chain : List Invocation) :
    statement ctx ⟨line, .filter name p, chain⟩ s = .error (.noCollection name) s := by
  simp only [statement, Statement.calls, calls, bind_apply, call_filter_apply, missing]

/-- More methods at the end of a chain go on with what the filter and the others have left. -/
theorem statement_filter_append {ctx : Context} {s : RunState} {name : String}
    {source : Collection} (found : s.collection? ctx.session name = some source) (p : Predicate)
    (line : Nat) (before after : List Invocation) :
    let result : Collection :=
      ⟨name ++ Collection.filteredSuffix, source.items.filter (p.holds source.itemName)⟩
    statement ctx ⟨line, .filter name p, before ++ after⟩ s =
      match statement ctx ⟨line, .filter name p, before⟩ s with
      | .ok _ mid => calls ctx (pendingBehind (some result) before) (after.map .method) mid
      | .error e failed => .error e failed := by
  intro result
  rw [statement_filter_apply found, statement_filter_apply found, calls_methods_append]

/-- Whether an action is a new clip on the selected track, which a call of `new_clip` has added
    behind the edit that took the result of the filter. -/
def IsClipBehind (ctx : Context) (s : RunState) (st : Statement) (action : Action) : Prop :=
  (action.kind = "create_clip" ∨ action.kind = "create_clip_at_bar") ∧
    ctx.session.selectedIndex? = some action.target ∧
    ∃ before args after mid, st.chain = before ++ ⟨.edit .newClip, args⟩ :: after ∧
      (∃ i ∈ before, i.method.isUtility = false) ∧
      statement ctx { st with chain := before } s = .ok () mid ∧
      statement ctx { st with chain := before ++ [⟨.edit .newClip, args⟩] } s =
        .ok () (mid.emitting [action])

theorem added_by_single {ctx : Context} {mid mid' : RunState} {pending' : Option Collection}
    {e : Edit} {args : Arguments} {own : List Action} {action : Action}
    (ran : call ctx none (.method ⟨.edit e, args⟩) mid = .ok pending' mid')
    (added : mid'.actions = mid.actions ++ own) (among : action ∈ own) :
    mid' = mid.emitting [action] ∧ ∃ track, e.trackFrom ctx.session mid.currentTrack = .ok track ∧
      Edit.Make args track none e (some action) := by
  cases effect_of_call ran with
  | @edit _ _ _ actions _ made =>
    cases List.append_cancel_left added
    obtain ⟨build, built, rest⟩ := Except.bind_eq_ok.mp made
    obtain ⟨track, chosen, rest⟩ := Except.bind_eq_ok.mp rest
    obtain ⟨result, acted, joined⟩ := Except.bind_eq_ok.mp rest
    cases joined
    have same := Option.mem_toList.mp among
    subst same
    exact ⟨rfl, track, chosen, Edit.make_of_build built acted⟩

/-- An edit that finds neither a collection nor a track fails, unless it is a new clip. -/
theorem call_edit_fails (ctx : Context) {mid : RunState} (untracked : mid.currentTrack = none)
    {e : Edit} (other : e ≠ .newClip) (args : Arguments) :
    ∃ error, call ctx none (.method ⟨.edit e, args⟩) mid = .error error mid := by
  rcases call_cases ctx none (.method ⟨.edit e, args⟩) mid with
    ⟨_, _, _, effect⟩ | ⟨error, failed, _⟩
  · cases effect with
    | edit _ made =>
      obtain ⟨_, _, rest⟩ := Except.bind_eq_ok.mp made
      obtain ⟨track, chosen, _⟩ := Except.bind_eq_ok.mp rest
      rw [untracked] at chosen
      exact absurd (Edit.newClip_of_trackFrom_none chosen).1 other
  · exact ⟨error, failed⟩

theorem pendingBehind_of_utilities {pending : Option Collection} {before : List Invocation}
    (utilities : ∀ i ∈ before, i.method.isUtility = true) :
    pendingBehind pending before = pending := by
  rw [pendingBehind, if_pos (List.all_eq_true.mpr utilities)]

theorem pendingBehind_of_edit {pending : Option Collection} {before : List Invocation}
    (taken : ∃ i ∈ before, i.method.isUtility = false) : pendingBehind pending before = none := by
  obtain ⟨i, member, edits⟩ := taken
  have some : before.all (·.method.isUtility) = false := by
    rw [List.all_eq_false]
    exact ⟨i, member, by simp [edits]⟩
  simp only [pendingBehind, some, Bool.false_eq_true, if_false]

theorem first_of_unmatched {ctx : Context} {s mid : RunState} {name : String}
    {source : Collection} (found : s.collection? ctx.session name = some source) {p : Predicate}
    (unmatched : ∀ item ∈ source.items, p.holds source.itemName item = false) {line : Nat}
    {utilities : List Invocation} (all : ∀ i ∈ utilities, i.method.isUtility = true)
    {first : Invocation} (edits : first.method.isUtility = false)
    (ran : statement ctx ⟨line, .filter name p, utilities⟩ s = .ok () mid) :
    statement ctx ⟨line, .filter name p, utilities ++ [first]⟩ s = .ok () mid := by
  obtain ⟨method, args⟩ := first
  have empty : source.items.filter (p.holds source.itemName) = [] := by
    rw [List.filter_eq_nil_iff]
    intro item member
    simp [unmatched item member]
  rw [statement_filter_append found, ran, pendingBehind_of_utilities all, empty]
  cases method with
  | utility u => cases edits
  | edit e =>
    refine calls_cons_eq_ok.mpr ⟨none, mid, ?_, rfl⟩
    rw [call_edit_apply]
    rfl

/-- Behind the first edit of a chain, any other edit than a new clip makes the statement fail. -/
theorem fails_behind_edit {ctx : Context} {s : RunState} {name : String} {p : Predicate}
    {line : Nat} {before after : List Invocation} {e : Edit} {args : Arguments}
    (taken : ∃ i ∈ before, i.method.isUtility = false) (other : e ≠ .newClip) :
    ∃ error failed,
      statement ctx ⟨line, .filter name p, before ++ ⟨.edit e, args⟩ :: after⟩ s =
        .error error failed := by
  cases found : s.collection? ctx.session name with
  | none => exact ⟨_, _, statement_filter_missing found p line _⟩
  | some source =>
    rw [statement_filter_append found, pendingBehind_of_edit taken]
    cases ran : statement ctx ⟨line, .filter name p, before⟩ s with
    | error error failed => exact ⟨error, failed, rfl⟩
    | ok _ mid =>
      rw [statement_filter_apply found] at ran
      have untracked : mid.currentTrack = none := currentTrack_of_methods ran
      obtain ⟨error, fails⟩ := call_edit_fails ctx untracked other args
      refine ⟨error, mid, ?_⟩
      simp only [List.map_cons, calls, bind_apply, fails]

theorem contribution_of_padded {ctx : Context} {s : RunState} {name : String} {p : Predicate}
    {line : Nat} {chain longer : List Invocation} (padded : Padded ctx.session chain longer) :
    contribution ctx ⟨line, .filter name p, longer⟩ s =
      contribution ctx ⟨line, .filter name p, chain⟩ s := by
  unfold contribution
  cases found : s.collection? ctx.session name with
  | none => rw [statement_filter_missing found, statement_filter_missing found]
  | some source =>
    let result : Collection :=
      ⟨name ++ Collection.filteredSuffix, source.items.filter (p.holds source.itemName)⟩
    have same := padded.sameButStore (some result) (s.filtering result) (s.filtering result).store
    rw [statement_filter_apply found, statement_filter_apply found]
    generalize calls ctx (some result) (chain.map .method) (s.filtering result) = short at same
    generalize calls ctx (some result) (longer.map .method) (s.filtering result) = long at same
    cases same with
    | ok | error => rfl

/-- Each action behind a filter is for an item that the filter has kept, or a new clip further down
    the chain on the selected track. -/
theorem target_of_filtered {ctx : Context} {s : RunState} {name : String} {p : Predicate}
    {line : Nat} {chain : List Invocation} {new : List Action}
    (added : contribution ctx ⟨line, .filter name p, chain⟩ s = .ok new) :
    ∃ source, s.collection? ctx.session name = some source ∧ ∀ action ∈ new,
      (∃ item ∈ source.items, p.holds source.itemName item = true ∧
        item.target? = some action.target) ∨
      IsClipBehind ctx s ⟨line, .filter name p, chain⟩ action := by
  obtain ⟨s', ran, appended⟩ := contribution_eq_ok.mp added
  cases found : s.collection? ctx.session name with
  | none =>
    rw [statement_filter_missing found] at ran
    cases ran
  | some source =>
    refine ⟨source, rfl, fun action member => ?_⟩
    rw [statement_filter_apply found] at ran
    obtain ⟨before, i, after, mid, pending', mid', own, shape, ranBefore, step, here, among⟩ :=
      added_by_method ran appended action member
    obtain ⟨own', here', emits⟩ := (effect_of_call step).emits
    have same : own = own' := List.append_cancel_left (here.symm.trans here')
    have emitted := emits action (same ▸ among)
    by_cases taken : ∃ j ∈ before, j.method.isUtility = false
    · -- The collection is gone, and there is no current track behind a filter either.
      rw [pendingBehind_of_edit taken] at step emitted
      cases emitted with
      | @single e args _ _ _ _ =>
        obtain ⟨rfl, track, chosen, make⟩ := added_by_single step here among
        have untracked : mid.currentTrack = none := currentTrack_of_methods ranBefore
        rw [untracked] at chosen
        obtain ⟨rfl, selected⟩ := Edit.newClip_of_trackFrom_none chosen
        have reached := (statement_filter_apply found p line before).trans ranBefore
        refine .inr ⟨make.kind_newClip, make.target.symm ▸ selected, before, args, after, mid,
          shape, taken, reached, ?_⟩
        rw [statement_filter_append found, reached, pendingBehind_of_edit taken]
        exact calls_cons_eq_ok.mpr ⟨_, _, step, rfl⟩
    · have utilities : ∀ j ∈ before, j.method.isUtility = true := by
        intro j member
        by_contra edits
        exact taken ⟨j, member, eq_false_of_ne_true edits⟩
      rw [pendingBehind_of_utilities utilities] at emitted
      cases emitted with
      | broadcast member target makes =>
        obtain ⟨kept, holds⟩ := List.mem_filter.mp member
        exact .inl ⟨_, kept, holds, makes.make.target.symm ▸ target⟩

/-- No action goes astray behind a filter.  Whatever the current track was, each action of the
    statement is for an item of the collection that satisfies the predicate, or is a clip on the
    selected track which a call of `new_clip` adds behind the first edit of the chain.  If no item
    satisfies the predicate, the first edit adds nothing.  Behind the first edit, any other edit
    than `new_clip` makes the statement fail, and with it all that it has added is gone.  Calls of
    `store` and `get_tracks` that succeed may be put in before the first edit at will. -/
theorem filtered_chain_on_target (ctx : Context) (s : RunState) (name : String) (p : Predicate)
    (line : Nat) (chain : List Invocation) :
    let st : Statement := ⟨line, .filter name p, chain⟩
    (∀ new, contribution ctx st s = .ok new →
      ∃ source, s.collection? ctx.session name = some source ∧ ∀ action ∈ new,
        (∃ item ∈ source.items, p.holds source.itemName item = true ∧
          item.target? = some action.target) ∨
        IsClipBehind ctx s st action) ∧
    (∀ source, s.collection? ctx.session name = some source →
      (∀ item ∈ source.items, p.holds source.itemName item = false) →
      ∀ utilities first rest mid, chain = utilities ++ first :: rest →
        (∀ i ∈ utilities, i.method.isUtility = true) → first.method.isUtility = false →
        statement ctx { st with chain := utilities } s = .ok () mid →
          statement ctx { st with chain := utilities ++ [first] } s = .ok () mid) ∧
    (∀ before e args after, chain = before ++ ⟨.edit e, args⟩ :: after →
      (∃ i ∈ before, i.method.isUtility = false) → e ≠ .newClip →
        ∃ error, ∀ later, statements ctx (st :: later) s = .error ⟨error, s.actions⟩) ∧
    (∀ longer, Padded ctx.session chain longer →
      contribution ctx { st with chain := longer } s = contribution ctx st s) := by
  intro st
  refine ⟨fun new added => target_of_filtered added, ?_, ?_, ?_⟩
  · intro source found none utilities first rest mid _ all edits ran
    exact first_of_unmatched found none all edits ran
  · rintro before e args after rfl taken other
    obtain ⟨error, failed, fails⟩ := fails_behind_edit taken other
    exact ⟨error, statements_of_failure fails⟩
  · intro longer padded
    exact contribution_of_padded padded

/-- The second of two tracks is muted.  Deleting the muted tracks deletes it, also with `get_tracks`
    in between, and cannot be chained twice. -/
theorem filtered_chain_on_muted :
    let ctx : Context := { session := .ofTracks [{}, { muted := true }] }
    let s := RunState.initial ctx.session
    let muted : Predicate := ⟨"track", "muted", .equal, .boolean true⟩
    let delete : Invocation := ⟨.edit .delete, .empty⟩
    let st (chain : List Invocation) : Statement := ⟨1, .filter "tracks" muted, chain⟩
    contribution ctx (st [delete]) s = .ok [.deleteTrack 1] ∧
      contribution ctx (st [⟨.utility .getTracks, .empty⟩, delete]) s = .ok [.deleteTrack 1] ∧
      ∃ error, ∀ later, statements ctx (st [delete, delete] :: later) s =
        .error ⟨error, s.actions⟩ := by
  intro ctx s muted delete st
  have found : s.collection? ctx.session "tracks" = some ctx.session.trackCollection :=
    RunState.initial_tracks ctx.session
  have deleted : contribution ctx (st [delete]) s = .ok [.deleteTrack 1] := by
    unfold contribution
    rw [statement_filter_apply found, itemName_trackCollection]
    rfl
  have getTracks : Padded ctx.session [delete] [⟨.utility .getTracks, .empty⟩, delete] :=
    .insert (.inr rfl) ⟨s, _, rfl⟩ (.rest [delete])
  have padded := (filtered_chain_on_target ctx s "tracks" muted 1 [delete]).2.2.2 _ getTracks
  have twice := (filtered_chain_on_target ctx s "tracks" muted 1 [delete, delete]).2.2.1
    [delete] .delete .empty [] rfl ⟨delete, List.mem_singleton_self _, rfl⟩ (by decide)
  exact ⟨deleted, padded.trans deleted, twice⟩

end Run

end StudioScript
