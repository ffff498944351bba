import StudioScript.Proofs.Execution.Itemwise
import StudioScript.Proofs.Number.Order

/-! # Comparing numbers

A predicate compares numbers in three ways: by their texts for `==` and `!=`, by the numerical order
for the four orderings, and by their values for `in`.  On finite numbers the three ways agree
(`Comparison.agree_on_numbers`), and filters by `<`, `==` and `>` split a collection, except that
the two zeros have different texts: neither is less than the other, and they are not `==`
(`Comparison.disagree_on_zeros`).
-/

namespace StudioScript

namespace Comparison

variable {x y : Number}

/-! ## Single comparisons -/

theorem less_numbers : less.holds (.number x) (.number y) = x.isLess y := rfl

theorem greater_numbers : greater.holds (.number x) (.number y) = x.isGreater y := rfl

theorem member_numbers (ys : List Number) :
    member.holds (.number x) (.array (ys.map .number)) = ys.any x.isEqual := by
  simp only [holds, List.any_map]
  rfl

theorem equal_numbers : equal.holds (.number x) (.number y) = true ↔ x = y := by
  simp only [holds, areEqual, Literal.text, beq_iff_eq, Number.text_inj]

theorem notEqual_numbers : notEqual.holds (.number x) (.number y) = true ↔ x ≠ y := by
  simp only [holds, areDifferent, areEqual, Literal.text, Bool.not_eq_true', beq_eq_false_iff_ne,
    ne_eq, Number.text_inj]

section

variable (finite : x.isFinite = true) (finite' : y.isFinite = true)
include finite finite'

/-- Texts tell more numbers apart than values do. -/
theorem isEqual_numbers : x.isEqual y = true ↔
    equal.holds (.number x) (.number y) = true ∨ x.areOppositeZeros y = true := by
  rw [equal_numbers, Number.isEqual_iff finite finite']

theorem atMost_numbers : atMost.holds (.number x) (.number y) = true ↔
    less.holds (.number x) (.number y) = true ∨ equal.holds (.number x) (.number y) = true ∨
      x.areOppositeZeros y = true := by
  rw [← isEqual_numbers finite finite', ← Bool.or_eq_true]
  rfl

theorem atLeast_numbers : atLeast.holds (.number x) (.number y) = true ↔
    greater.holds (.number x) (.number y) = true ∨ equal.holds (.number x) (.number y) = true ∨
      x.areOppositeZeros y = true := by
  rw [← isEqual_numbers finite finite', ← Bool.or_eq_true]
  rfl

end

/-! ## Exactly one of three -/

/-- The comparisons of which exactly one should hold. -/
def exclusive : List Comparison := [.less, .equal, .greater]

/-- Of two finite numbers exactly one of the three comparisons holds, unless they are the two
    zeros. -/
theorem countP_exclusive (finite : x.isFinite = true) (finite' : y.isFinite = true) :
    exclusive.countP (·.holds (.number x) (.number y)) =
      if x.areOppositeZeros y then 0 else 1 := by
  have sameValue : x.isEqual y =
      (equal.holds (.number x) (.number y) || x.areOppositeZeros y) := by
    rw [Bool.eq_iff_iff, Bool.or_eq_true]
    exact isEqual_numbers finite finite'
  -- A number is not the zero of the other sign.
  have apart : x.areOppositeZeros y = true → ¬equal.holds (.number x) (.number y) = true := by
    rw [equal_numbers]
    rintro opposite rfl
    cases x <;> simp [Number.areOppositeZeros] at opposite
  simp only [exclusive, List.countP_cons, List.countP_nil, less_numbers, greater_numbers]
  rcases Number.order_cases finite finite' with ⟨less, value, greater⟩ | ⟨less, value, greater⟩ |
    ⟨less, value, greater⟩ <;>
  cases opposite : x.areOppositeZeros y <;>
  simp_all

end Comparison

/-- When every element satisfies exactly one of three conditions, the three filters split the
    list. -/
theorem filters_perm {α : Type} {p q r : α → Bool} {xs : List α}
    (one : ∀ x ∈ xs, [p x, q x, r x].countP id = 1) :
    (xs.filter p ++ xs.filter q ++ xs.filter r).Perm xs := by
  -- What does not satisfy the first condition is split by the second.
  let others := xs.filter fun x => !p x
  have exclude : ∀ a b c : Bool, [a, b, c].countP id = 1 → b = (b && !a) ∧ c = (!b && !a) := by
    decide
  have second : xs.filter q = others.filter q := by
    rw [List.filter_filter]
    exact List.filter_congr fun x member => (exclude _ _ _ (one x member)).1
  have third : xs.filter r = others.filter fun x => !q x := by
    rw [List.filter_filter]
    exact List.filter_congr fun x member => (exclude _ _ _ (one x member)).2
  rw [second, third, List.append_assoc]
  exact ((List.filter_append_perm q others).append_left _).trans (List.filter_append_perm p xs)

namespace Comparison

/-! ## All comparisons -/

/-- The comparisons of a finite number with a finite number agree with one another, but for the two
    zeros.  Exactly one of `<`, `==` and `>` holds, and none of them between the two zeros; `<=` and
    `>=` hold if the strict order or `==` does, and between the two zeros; `!=` holds if `==` does
    not; `in` holds if `==` does for one of the items, or if one of them is the zero of the other
    sign.  So three filters by `<`, `==` and `>` split a collection in which a field is a finite
    number throughout, and never the zero of the other sign. -/
theorem agree_on_numbers {x y : Number} (finite : x.isFinite = true) (finite' : y.isFinite = true) :
    let holds (c : Comparison) : Prop := c.holds (.number x) (.number y) = true
    let zeros : Prop := x.areOppositeZeros y = true
    exclusive.countP (·.holds (.number x) (.number y)) = (if x.areOppositeZeros y then 0 else 1) ∧
    (holds .atMost ↔ holds .less ∨ holds .equal ∨ zeros) ∧
    (holds .atLeast ↔ holds .greater ∨ holds .equal ∨ zeros) ∧
    (holds .notEqual ↔ ¬holds .equal) ∧
    (∀ ys : List Number, (∀ z ∈ ys, z.isFinite = true) →
      (member.holds (.number x) (.array (ys.map .number)) = true ↔
        ∃ z ∈ ys, equal.holds (.number x) (.number z) = true ∨ x.areOppositeZeros z = true)) ∧
    ∀ (ctx : Context) (s : RunState) (name field : String) (source : Collection),
      s.collection? ctx.session name = some source →
      (∀ item ∈ source.items, ∃ z, item.field? field = some (.number z) ∧ z.isFinite = true ∧
        z.areOppositeZeros y = false) →
      ∃ part : Comparison → List Item,
        (∀ c, ∃ s', Run.call ctx none (.filter name ⟨source.itemName, field, c, .number y⟩) s =
          .ok (some ⟨name ++ Collection.filteredSuffix, part c⟩) s') ∧
        (part .less ++ part .equal ++ part .greater).Perm source.items := by
  intro holds zeros
  refine ⟨countP_exclusive finite finite', atMost_numbers finite finite',
    atLeast_numbers finite finite', ?_, ?_, ?_⟩
  · exact notEqual_numbers.trans (not_congr equal_numbers.symm)
  · intro ys finites
    rw [member_numbers, List.any_eq_true]
    refine exists_congr fun z => and_congr_right fun member => ?_
    exact isEqual_numbers finite (finites z member)
  · intro ctx s name field source found numeric
    let by' (c : Comparison) : Predicate := ⟨source.itemName, field, c, .number y⟩
    refine ⟨fun c => source.items.filter ((by' c).holds source.itemName),
      fun c => ⟨_, Run.call_filter_found found (by' c)⟩, filters_perm fun item member => ?_⟩
    obtain ⟨z, fieldOf, finiteField, notOpposite⟩ := numeric item member
    have each (c : Comparison) :
        (by' c).holds source.itemName item = c.holds (.number z) (.number y) := by
      simp only [by', Predicate.holds, beq_self_eq_true, fieldOf, Bool.true_and]
    have one := countP_exclusive finiteField finite'
    rw [notOpposite] at one
    rw [each, each, each]
    exact one

/-- Three tracks are panned by the least numbers on both sides of zero and by zero itself.  Exactly
    one of the comparisons with zero holds for the one to the right, and filters by all three split
    the tracks. -/
theorem agree_on_numbers_around_zero :
    let least : Magnitude := ⟨1, 0, by decide, by decide, .inl rfl⟩
    let right : Number := .finite false least
    let ctx : Context :=
      { session := .ofTracks
          [{ pan := some (.finite true least) }, { pan := some .zero }, { pan := some right }] }
    let tracks := ctx.session.trackCollection
    let s := RunState.initial ctx.session
    right.isFinite = true ∧ Number.zero.isFinite = true ∧
      exclusive.countP (·.holds (.number right) (.number .zero)) = 1 ∧
      (∀ item ∈ tracks.items, ∃ z, item.field? "pan" = some (.number z) ∧ z.isFinite = true ∧
        z.areOppositeZeros .zero = false) ∧
      ∃ part : Comparison → List Item,
        (∀ c, ∃ s', Run.call ctx none (.filter "tracks" ⟨tracks.itemName, "pan", c, .number .zero⟩)
          s = .ok (some ⟨"tracks" ++ Collection.filteredSuffix, part c⟩) s') ∧
        (part .less ++ part .equal ++ part .greater).Perm tracks.items := by
  intro least right ctx tracks s
  have panned : ∀ item ∈ tracks.items, ∃ z, item.field? "pan" = some (.number z) ∧
      z.isFinite = true ∧ z.areOppositeZeros .zero = false := by
    refine List.forall_mem_cons.mpr ⟨⟨.finite true least, rfl, rfl, rfl⟩, ?_⟩
    refine List.forall_mem_cons.mpr ⟨⟨.zero, rfl, rfl, rfl⟩, ?_⟩
    exact List.forall_mem_singleton.mpr ⟨right, rfl, rfl, rfl⟩
  obtain ⟨one, -, -, -, -, split⟩ := agree_on_numbers (x := right) (y := .zero) rfl rfl
  exact ⟨rfl, rfl, one, panned,
    split ctx s "tracks" "pan" tracks (RunState.initial_tracks ctx.session) panned⟩

/-- Between zero and minus zero, whose texts differ, neither `<` nor `==` nor `>` holds, although
    `<=` and `>=` do and either zero is `in` a list with the other. -/
theorem disagree_on_zeros :
    let field : Literal := .number .zero
    let operand : Literal := .number (.finite true .zero)
    exclusive.countP (·.holds field operand) ≠ 1 ∧
      atMost.holds field operand = true ∧ atLeast.holds field operand = true ∧
      member.holds field (.array [operand]) = true := by
  decide

end Comparison

end StudioScript
