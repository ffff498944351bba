import StudioScript.Proofs.Execution.Itemwise

/-! # Derived collections

A filter and a map keep their result under the name of the collection with an ending.  However many
endings there are, an item goes by the same name (`Collection.itemNameOf_of_isDerivedName`), so that
a predicate on a collection is a predicate on all that is derived from it.  Derivations one after
another therefore leave what all of them keep (`Run.statements_derivations`), which is how filters
compose (`Run.filters_compose`).
-/

namespace StudioScript

namespace Collection

/-! ## Derived names -/

theorem withoutSuffix?_append (suffix cs : List Char) :
    withoutSuffix? suffix (cs ++ suffix) = some cs := by
  have ends : suffix.isSuffixOf (cs ++ suffix) = true :=
    List.isSuffixOf_iff_suffix.mpr (List.suffix_append cs suffix)
  rw [withoutSuffix?, if_pos ends, List.length_append, Nat.add_sub_cancel, List.take_left]

/-- Behind an ending there is no longer one that does not end in it. -/
theorem withoutSuffix?_append_of_not_suffix {suffix other : List Char}
    (short : other.length ≤ suffix.length) (apart : ¬other <:+ suffix) (cs : List Char) :
    withoutSuffix? suffix (cs ++ other) = none := by
  refine if_neg fun ends => apart ?_
  exact List.suffix_of_suffix_length_le (List.suffix_append cs other)
    (List.isSuffixOf_iff_suffix.mp ends) short

theorem baseName_of_derivedFrom? {cs rest : List Char} (derived : derivedFrom? cs = some rest) :
    baseName cs = baseName rest := by
  rw [baseName]
  split
  · next same => rw [Option.some.inj (derived.symm.trans same)]
  · next none =>
    rw [derived] at none
    cases none

/-- An ending does not change what an item goes by, whatever it is put on. -/
theorem itemNameOf_filtered (name : String) :
    itemNameOf (name ++ filteredSuffix) = itemNameOf name := by
  have derived : derivedFrom? (name.toList ++ filteredSuffix.toList) = some name.toList := by
    rw [derivedFrom?, withoutSuffix?_append]
    rfl
  rw [itemNameOf, String.toList_append, baseName_of_derivedFrom? derived, itemNameOf]

theorem itemNameOf_mapped (name : String) :
    itemNameOf (name ++ mappedSuffix) = itemNameOf name := by
  have derived : derivedFrom? (name.toList ++ mappedSuffix.toList) = some name.toList := by
    rw [derivedFrom?, withoutSuffix?_append_of_not_suffix (by decide) (by decide),
      withoutSuffix?_append]
    rfl
  rw [itemNameOf, String.toList_append, baseName_of_derivedFrom? derived, itemNameOf]

/-- The names that any number of filters and maps derive from a name. -/
inductive IsDerivedName (name : String) : String → Prop where
  | self : IsDerivedName name name
  | filtered {derived} (inner : IsDerivedName name derived) :
      IsDerivedName name (derived ++ filteredSuffix)
  | mapped {derived} (inner : IsDerivedName name derived) :
      IsDerivedName name (derived ++ mappedSuffix)

theorem itemNameOf_of_isDerivedName {name derived : String}
    (isDerived : IsDerivedName name derived) : itemNameOf derived = itemNameOf name := by
  induction isDerived with
  | self => rfl
  | filtered _ inductionHypothesis => rw [itemNameOf_filtered, inductionHypothesis]
  | mapped _ inductionHypothesis => rw [itemNameOf_mapped, inductionHypothesis]

end Collection

/-! ## Derivations -/

/-- A call that derives a collection from another. -/
inductive Derivation where
  | filter (p : Predicate)
  | map (binder : String) (i : Invocation)

namespace Derivation

/-- What the name of the result ends in. -/
def suffix : Derivation → String
  | .filter _ => Collection.filteredSuffix
  | .map .. => Collection.mappedSuffix

/-- Whether the result holds an item that goes by the given name. -/
def keeps (itemName : String) (item : Item) : Derivation → Bool
  | .filter p => p.holds itemName item
  | .map .. => true

/-- The call for the collection with a name. -/
def call (name : String) : Derivation → Call
  | .filter p => .filter name p
  | .map binder i => .map name (.method binder i)

/-- What is derived from a collection. -/
def result (c : Collection) (d : Derivation) : Collection :=
  ⟨c.name ++ d.suffix, c.items.filter fun item => d.keeps c.itemName item⟩

/-- Statements that derive from the collection with a name, each from what the one before it has
    left. -/
def statements (line : Nat) (name : String) : List Derivation → List Statement
  | [] => []
  | d :: ds => ⟨line, d.call name, []⟩ :: statements (line + 1) (name ++ d.suffix) ds

theorem itemName_result (c : Collection) (d : Derivation) :
    (d.result c).itemName = c.itemName := by
  cases d with
  | filter p => exact Collection.itemNameOf_filtered c.name
  | map binder i => exact Collection.itemNameOf_mapped c.name

/-- The name that derivations one after another come to. -/
def nameFrom (name : String) (ds : List Derivation) : String :=
  ds.foldl (fun derived d => derived ++ d.suffix) name

theorem isDerivedName_nameFrom {name derived : String}
    (start : Collection.IsDerivedName name derived) (ds : List Derivation) :
    Collection.IsDerivedName name (nameFrom derived ds) := by
  induction ds generalizing derived with
  | nil => exact start
  | cons d ds inductionHypothesis =>
    cases d with
    | filter p => exact inductionHypothesis start.filtered
    | map binder i => exact inductionHypothesis start.mapped

/-- What is derived step by step is what all the steps keep. -/
theorem foldl_result (c : Collection) (ds : List Derivation) :
    ds.foldl result c =
      ⟨nameFrom c.name ds, c.items.filter fun item => ds.all (·.keeps c.itemName item)⟩ := by
  induction ds generalizing c with
  | nil => exact congrArg (Collection.mk _) (List.filter_eq_self.mpr fun _ _ => rfl).symm
  | cons d ds inductionHypothesis =>
    rw [List.foldl_cons, inductionHypothesis, itemName_result, result, List.filter_filter]
    simp only [List.all_cons, Bool.and_comm]
    rfl

end Derivation

theorem RunState.name_of_collection? {session : Session} {s : RunState} {name : String}
    {c : Collection} (found : s.collection? session name = some c) : c.name = name := by
  simp only [collection?, Store.collection?] at found
  cases stored : Members.get? name s.store with
  | some items =>
    rw [stored] at found
    cases found
    rfl
  | none =>
    rw [stored] at found
    dsimp only [Option.map_none] at found
    -- What is not stored is found only as the chain of the current track, under one name.
    split at found
    · next chain =>
      obtain ⟨track, _, rfl⟩ := Option.map_eq_some_iff.mp found
      exact chain.symm
    · cases found

namespace Run

/-- A derivation succeeds and keeps its result. -/
theorem call_derivation {ctx : Context} {s : RunState} {name : String} {source : Collection}
    (found : s.collection? ctx.session name = some source) (d : Derivation) :
    ∃ pending s', call ctx none (d.call name) s = .ok pending s' ∧ s'.actions = s.actions ∧
      s'.store = s.store.keep (d.result source) := by
  have named : source.name = name := RunState.name_of_collection? found
  subst named
  cases d with
  | filter p => exact ⟨_, _, call_filter_found found p, rfl, rfl⟩
  | map binder i =>
    have all : (Derivation.map binder i).result source =
        ⟨source.name ++ Collection.mappedSuffix, source.items⟩ :=
      congrArg (Collection.mk _) (List.filter_eq_self.mpr fun _ _ => rfl)
    refine ⟨none, s.keeping ((Derivation.map binder i).result source), ?_, rfl, rfl⟩
    simp only [Derivation.call, call, bind_apply, map_apply, found, all]
    rfl

/-- The state behind a derivation finds its result under the name of the collection with the ending,
    and finds what was stored under any other name. -/
theorem statement_derivation {ctx : Context} {s : RunState} {name : String} {source : Collection}
    (found : s.collection? ctx.session name = some source) (d : Derivation) (line : Nat) :
    ∃ s', statement ctx ⟨line, d.call name, []⟩ s = .ok () s' ∧ s'.actions = s.actions ∧
      s'.store.collection? (name ++ d.suffix) = some (d.result source) ∧
      ∀ other, other ≠ name ++ d.suffix →
        s'.store.collection? other = s.store.collection? other := by
  have named : (d.result source).name = name ++ d.suffix :=
    congrArg (· ++ d.suffix) (RunState.name_of_collection? found)
  obtain ⟨pending, s', ran, actions, store⟩ := call_derivation found d
  refine ⟨s', calls_cons_eq_ok.mpr ⟨pending, s', ran, rfl⟩, actions, ?_, ?_⟩
  · rw [store, ← named, Store.collection?_keep_self]
  · intro other differs
    rw [store, Store.collection?_keep_of_ne (named ▸ differs)]

/-- Derivations one after another leave what all of them keep, and add no action. -/
theorem statements_derivations {ctx : Context} (ds : List Derivation) {s : RunState}
    {name : String} {source : Collection}
    (found : s.collection? ctx.session name = some source) (line : Nat) :
    ∃ s', statements ctx (Derivation.statements line name ds) s = .ok s' ∧
      s'.actions = s.actions ∧
      s'.collection? ctx.session (Derivation.nameFrom name ds) =
        some ⟨Derivation.nameFrom name ds,
          source.items.filter fun item => ds.all (·.keeps source.itemName item)⟩ := by
  have named : source.name = name := RunState.name_of_collection? found
  rw [← named, ← Derivation.foldl_result, named]
  clear named
  -- Along the derivations: the next one asks for the name that the last one has kept its result
  -- under.
  induction ds generalizing s name source line with
  | nil => exact ⟨s, rfl, rfl, found⟩
  | cons d ds inductionHypothesis =>
    obtain ⟨mid, first, actions, left, _⟩ := statement_derivation found d line
    obtain ⟨s', rest, actions', left'⟩ :=
      inductionHypothesis (RunState.collection?_of_stored left) (line + 1)
    exact ⟨s', statements_cons_eq_ok.mpr ⟨mid, first, rest⟩, actions'.trans actions, left'⟩

/-- The same filter again keeps all that it has left, and both results stay. -/
theorem statements_filter_again {ctx : Context} {s : RunState} {name : String}
    {source : Collection} (found : s.collection? ctx.session name = some source) (p : Predicate)
    (line : Nat) :
    let once := name ++ Collection.filteredSuffix
    let twice := once ++ Collection.filteredSuffix
    let matching := source.items.filter (p.holds source.itemName)
    ∃ s', statements ctx (Derivation.statements line name [.filter p, .filter p]) s = .ok s' ∧
      s'.collection? ctx.session once = some ⟨once, matching⟩ ∧
      s'.collection? ctx.session twice = some ⟨twice, matching⟩ := by
  intro once twice matching
  have named : source.name = name := RunState.name_of_collection? found
  obtain ⟨mid, first, _, left, _⟩ := statement_derivation found (.filter p) line
  obtain ⟨s', second, _, left', others⟩ :=
    statement_derivation (RunState.collection?_of_stored left) (.filter p) (line + 1)
  -- The second result is kept under a longer name, so that the first one is still found.
  have other : once ≠ twice := by
    intro same
    have lengths := congrArg String.length same
    simp [twice, Collection.filteredSuffix] at lengths
  have result : (Derivation.filter p).result source = ⟨once, matching⟩ := by
    rw [Derivation.result, named]
    rfl
  have again : (Derivation.filter p).result ⟨once, matching⟩ = ⟨twice, matching⟩ := by
    have name : Collection.itemName ⟨once, matching⟩ = source.itemName :=
      result ▸ Derivation.itemName_result source (.filter p)
    rw [Derivation.result, name]
    refine congrArg (Collection.mk twice) (List.filter_eq_self.mpr fun item member => ?_)
    exact (List.mem_filter.mp member).2
  refine ⟨s', statements_cons_eq_ok.mpr ⟨mid, first, statements_cons_eq_ok.mpr ⟨s', second, rfl⟩⟩,
    RunState.collection?_of_stored ?_, RunState.collection?_of_stored ?_⟩
  · rw [others once other]
    exact left.trans (congrArg some result)
  · rw [result, again] at left'
    exact left'

/-- Filters compose through the names that they keep their results under.  From a collection that a
    state finds, two filters leave the items that satisfy both predicates, in their order and each
    as often as it was there; so the filters may change places, and the same filter again changes
    nothing.  Any number of filters and maps leaves what satisfies the predicates of all the
    filters.  In all of this a predicate calls an item by the name that it has in the first
    collection: whatever a name is, an item goes by the same name under all that are derived from
    it. -/
theorem filters_compose {ctx : Context} {s : RunState} {name : String} {source : Collection}
    (found : s.collection? ctx.session name = some source) :
    let once := name ++ Collection.filteredSuffix
    let twice := once ++ Collection.filteredSuffix
    (∀ p q line, ∃ s' t',
      statements ctx (Derivation.statements line name [.filter p, .filter q]) s = .ok s' ∧
      statements ctx (Derivation.statements line name [.filter q, .filter p]) s = .ok t' ∧
      s'.collection? ctx.session twice = t'.collection? ctx.session twice ∧
      s'.collection? ctx.session twice =
        some ⟨twice, source.items.filter fun item =>
          p.holds source.itemName item && q.holds source.itemName item⟩) ∧
    (∀ p line, ∃ s' items,
      statements ctx (Derivation.statements line name [.filter p, .filter p]) s = .ok s' ∧
      s'.collection? ctx.session once = some ⟨once, items⟩ ∧
      s'.collection? ctx.session twice = some ⟨twice, items⟩) ∧
    (∀ ds line, let derived := Derivation.nameFrom name ds
      ∃ s', Collection.IsDerivedName name derived ∧
        statements ctx (Derivation.statements line name ds) s = .ok s' ∧ s'.actions = s.actions ∧
        s'.collection? ctx.session derived =
          some ⟨derived, source.items.filter fun item => ds.all (·.keeps source.itemName item)⟩) ∧
    ∀ base derived, Collection.IsDerivedName base derived →
      Collection.itemNameOf derived = Collection.itemNameOf base := by
  intro once twice
  refine ⟨?_, ?_, ?_, fun _ _ => Collection.itemNameOf_of_isDerivedName⟩
  · intro p q line
    let both (p q : Predicate) : List Item := source.items.filter fun item =>
      p.holds source.itemName item && q.holds source.itemName item
    have all (p q : Predicate) : (source.items.filter fun item =>
        [Derivation.filter p, .filter q].all (·.keeps source.itemName item)) = both p q := by
      simp only [List.all_cons, List.all_nil, Bool.and_true, Derivation.keeps, both]
    obtain ⟨s', ran, _, left⟩ := statements_derivations [.filter p, .filter q] found line
    obtain ⟨t', ran', _, left'⟩ := statements_derivations [.filter q, .filter p] found line
    rw [all] at left left'
    have commute : both q p = both p q :=
      List.filter_congr fun item _ => Bool.and_comm _ _
    exact ⟨s', t', ran, ran', left.trans (commute ▸ left').symm, left⟩
  · intro p line
    obtain ⟨s', ran, left, left'⟩ := statements_filter_again found p line
    exact ⟨s', _, ran, left, left'⟩
  · intro ds line derived
    obtain ⟨s', ran, actions, left⟩ := statements_derivations ds found line
    exact ⟨s', Derivation.isDerivedName_nameFrom .self ds, ran, actions, left⟩

/-- Of three tracks the first two are muted and the last two are soloed.  The second one is left by
    filters for the muted and the soloed tracks, in either order. -/
theorem filters_compose_of_muted_and_soloed :
    let ctx : Context :=
      { session := .ofTracks
          [{ muted := true }, { muted := true, soloed := true }, { soloed := true }] }
    let s := RunState.initial ctx.session
    let p : Predicate := ⟨"track", "muted", .equal, .boolean true⟩
    let q : Predicate := ⟨"track", "soloed", .equal, .boolean true⟩
    let twice := "tracks" ++ Collection.filteredSuffix ++ Collection.filteredSuffix
    let second : Item := .track { index := some 1, muted := true, soloed := true }
    s.collection? ctx.session "tracks" = some ctx.session.trackCollection ∧
      ∃ s' t', statements ctx (Derivation.statements 1 "tracks" [.filter p, .filter q]) s = .ok s' ∧
        statements ctx (Derivation.statements 1 "tracks" [.filter q, .filter p]) s = .ok t' ∧
        s'.collection? ctx.session twice = some ⟨twice, [second]⟩ ∧
        t'.collection? ctx.session twice = some ⟨twice, [second]⟩ := by
  intro ctx s p q twice second
  have found : s.collection? ctx.session "tracks" = some ctx.session.trackCollection :=
    RunState.initial_tracks ctx.session
  obtain ⟨s', t', ran, ran', same, left⟩ := (filters_compose found).1 p q 1
  rw [itemName_trackCollection] at left
  have both : ctx.session.trackCollection.items.filter
      (fun item => p.holds "track" item && q.holds "track" item) = [second] := rfl
  rw [both] at left
  exact ⟨found, s', t', ran, ran', left, same.symm.trans left⟩

end Run

end StudioScript
