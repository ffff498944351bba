import StudioScript.Proofs.Number.Order

/-! # Whole numbers

The whole numbers below `2 ^ 53` are numbers exactly (`Number.exists_ofNat`), and rounding takes
none of the larger ones below that bound.  So a small whole number shares its text with no other one
(`Number.text_ofNat_inj`).  What a number is read as is the integer that it denotes, with nothing
rounded off (`Number.whole?_eq_some`).
-/

namespace StudioScript

namespace Magnitude

theorem unitsPerOne_eq : unitsPerOne = 2 ^ places := by
  unfold unitsPerOne places
  -- The power must not be computed.
  generalize 1074 = k
  rfl

theorem unitsPerOne_pos : 0 < unitsPerOne := by
  rw [unitsPerOne_eq]
  exact Nat.two_pow_pos _

/-- A whole number of 53 bits fills the significand when it is moved to the left. -/
theorem exists_units {n : Nat} (small : n < 2 ^ 53) :
    ∃ size : Magnitude, size.units = n * unitsPerOne := by
  by_cases zero : n = 0
  · exact ⟨.zero, by rw [zero, Nat.zero_mul]; rfl⟩
  · have bits : n.log2 < 53 := (Nat.log2_lt zero).mpr small
    have moved : 2 ^ n.log2 * 2 ^ (52 - n.log2) = 2 ^ 52 := by
      rw [← Nat.pow_add]
      exact congrArg (2 ^ ·) (by omega)
    have fits : n * 2 ^ (52 - n.log2) < Nat.pow 2 53 := by
      calc n * 2 ^ (52 - n.log2)
          < 2 ^ (n.log2 + 1) * 2 ^ (52 - n.log2) :=
            Nat.mul_lt_mul_of_pos_right Nat.lt_log2_self (Nat.two_pow_pos _)
        _ = 2 ^ 52 * 2 := by rw [Nat.pow_succ, Nat.mul_right_comm, moved]
    have full : Nat.pow 2 52 ≤ n * 2 ^ (52 - n.log2) :=
      Nat.le_trans (Nat.le_of_eq moved.symm) (Nat.mul_le_mul_right _ (Nat.log2_self_le zero))
    refine ⟨⟨n * 2 ^ (52 - n.log2), 1022 + n.log2, fits, by omega, .inr full⟩, ?_⟩
    have exponents : 52 - n.log2 + (1022 + n.log2) = places := by
      unfold places
      omega
    change n * 2 ^ (52 - n.log2) * 2 ^ (1022 + n.log2) = n * unitsPerOne
    rw [Nat.mul_assoc, ← Nat.pow_add, exponents, unitsPerOne_eq]

/-- Rounding does not take a quotient below a power of two. -/
theorem pow_le_units {k n d : Nat} {size : Magnitude} (large : 2 ^ k ≤ n / d)
    (near : nearest? n d = some size) : 2 ^ k ≤ size.units := by
  have some : n / d ≠ 0 := Nat.ne_of_gt (Nat.lt_of_lt_of_le (Nat.two_pow_pos k) large)
  have bits : k ≤ (n / d).log2 := (Nat.le_log2 some).mpr large
  refine Nat.le_trans (Nat.pow_le_pow_right (by decide) bits) ?_
  have exponent : exponentNear (n / d) = (n / d).log2 - 52 := rfl
  rw [units, Nat.pow_eq]
  rcases nearest?_eq_some.mp near with ⟨significand, same⟩ | ⟨_, significand, same⟩
  · -- What is left of the quotient at this exponent still has its leading bit.
    have kept : 2 ^ ((n / d).log2 - exponentNear (n / d)) ≤
        n / d / 2 ^ exponentNear (n / d) := by
      rw [Nat.le_div_iff_mul_le (Nat.two_pow_pos _), ← Nat.pow_add]
      exact Nat.le_trans (Nat.pow_le_pow_right (by decide) (by omega)) (Nat.log2_self_le some)
    have rounded : 2 ^ ((n / d).log2 - exponentNear (n / d)) ≤ size.significand := by
      rw [significand]
      refine Nat.le_trans ?_ (div_le_roundHalfEven _ _)
      rwa [← Nat.div_div_eq_div_mul]
    rw [same]
    refine Nat.le_trans (Nat.le_of_eq ?_) (Nat.mul_le_mul_right _ rounded)
    rw [← Nat.pow_add]
    exact congrArg (2 ^ ·) (by omega)
  · rw [significand, same, ← Nat.pow_add]
    exact Nat.pow_le_pow_right (by decide) (by omega)

end Magnitude

namespace Number

/-- Nothing is lost of a whole number that is small enough. -/
theorem exists_ofNat {n : Nat} (small : n < 2 ^ 53) :
    ∃ size, ofNat n = .finite false size ∧ size.units = n * Magnitude.unitsPerOne := by
  obtain ⟨size, units⟩ := Magnitude.exists_units small
  have near := Magnitude.nearest?_units size Nat.one_pos
  rw [units, Nat.mul_one] at near
  exact ⟨size, by rw [ofNat, near]; rfl, units⟩

theorem whole?_ofNat {n : Nat} (small : n < 2 ^ 53) : (ofNat n).whole? = some (n : Int) := by
  obtain ⟨size, same, units⟩ := exists_ofNat small
  have whole : size.whole? = some n := by
    rw [Magnitude.whole?, units, Nat.mul_mod_left, if_pos rfl,
      Nat.mul_div_cancel _ Magnitude.unitsPerOne_pos]
  rw [same, whole?, whole]
  rfl

/-- A small whole number is the rounding of no other one. -/
theorem ofNat_inj {i n : Nat} (small : n < 2 ^ 53) : ofNat i = ofNat n ↔ i = n := by
  refine ⟨fun same => ?_, congrArg ofNat⟩
  obtain ⟨size, ofSmall, units⟩ := exists_ofNat small
  rw [ofSmall] at same
  by_cases small' : i < 2 ^ 53
  · obtain ⟨size', ofSmall', units'⟩ := exists_ofNat small'
    rw [ofSmall'] at same
    cases same
    exact Nat.eq_of_mul_eq_mul_right Magnitude.unitsPerOne_pos (units'.symm.trans units)
  · -- From `2 ^ 53` on all roundings are at least as large, or infinite.
    unfold ofNat at same
    cases near : Magnitude.nearest? (i * Magnitude.unitsPerOne) 1 with
    | none =>
      rw [near] at same
      cases same
    | some size' =>
      rw [near] at same
      cases same
      obtain ⟨k, power⟩ : ∃ k, Magnitude.unitsPerOne = 2 ^ k := ⟨_, Magnitude.unitsPerOne_eq⟩
      have large : 2 ^ (53 + k) ≤ i * Magnitude.unitsPerOne / 1 := by
        rw [Nat.div_one, Nat.pow_add, power]
        exact Nat.mul_le_mul_right _ (Nat.le_of_not_lt small')
      have least := Magnitude.pow_le_units large near
      rw [units, power, Nat.pow_add] at least
      have bound : 2 ^ 53 ≤ n := Nat.le_of_mul_le_mul_right least (Nat.two_pow_pos k)
      exact absurd small (Nat.not_lt_of_le bound)

/-- A small whole number shares its text with no other one. -/
theorem text_ofNat_inj {i n : Nat} (small : n < 2 ^ 53) :
    (ofNat i).text = (ofNat n).text ↔ i = n :=
  text_inj.trans (ofNat_inj small)

end Number

/-! ## The integer that is denoted -/

namespace Magnitude

theorem whole?_eq_some {size : Magnitude} {n : Nat} :
    size.whole? = some n ↔ size.units = n * unitsPerOne := by
  unfold whole?
  constructor
  · intro whole
    split at whole
    · next divides =>
      cases whole
      exact (Nat.div_mul_cancel (Nat.dvd_of_mod_eq_zero divides)).symm
    · cases whole
  · intro units
    rw [units, Nat.mul_mod_left, if_pos rfl, Nat.mul_div_cancel _ unitsPerOne_pos]

theorem units_eq_mul_iff {size : Magnitude} {i : Int} :
    (size.units : Int) = i * (unitsPerOne : Int) ↔
      ∃ n : Nat, size.units = n * unitsPerOne ∧ (n : Int) = i := by
  constructor
  · intro units
    have natural : 0 ≤ i := by
      by_contra negative
      have below := Int.mul_neg_of_neg_of_pos (Int.lt_of_not_ge negative)
        (Int.natCast_pos.mpr unitsPerOne_pos)
      omega
    obtain ⟨n, rfl⟩ := Int.eq_ofNat_of_zero_le natural
    exact ⟨n, Int.ofNat.inj (units.trans (Int.natCast_mul n _).symm), rfl⟩
  · rintro ⟨n, units, rfl⟩
    rw [units, Int.natCast_mul]

end Magnitude

namespace Number

/-- Whether the number is the integer: a finite number is, if it counts the units that the integer
    has. -/
inductive Denotes : Number → Int → Prop where
  | finite {negative size} {i : Int}
      (units : signedUnits negative size = i * (Magnitude.unitsPerOne : Int)) :
      Denotes (.finite negative size) i

theorem denotes_finite_iff {negative : Bool} {size : Magnitude} {i : Int} :
    Denotes (.finite negative size) i ↔
      signedUnits negative size = i * (Magnitude.unitsPerOne : Int) :=
  ⟨fun ⟨units⟩ => units, .finite⟩

theorem whole?_eq_some {x : Number} {i : Int} : x.whole? = some i ↔ x.Denotes i := by
  cases x with
  | finite negative size =>
    have whole : (finite negative size).whole? = some i ↔
        ∃ n : Nat, size.units = n * Magnitude.unitsPerOne ∧
          (if negative then -(n : Int) else n) = i := by
      simp only [whole?, ← Magnitude.whole?_eq_some]
      cases size.whole? <;> simp
    rw [whole, denotes_finite_iff]
    cases negative with
    | false => exact Magnitude.units_eq_mul_iff.symm
    | true =>
      have turned : signedUnits true size = i * (Magnitude.unitsPerOne : Int) ↔
          (size.units : Int) = -i * (Magnitude.unitsPerOne : Int) := by
        rw [Int.neg_mul, signedUnits, if_pos rfl]
        omega
      rw [turned, Magnitude.units_eq_mul_iff]
      refine exists_congr fun n => and_congr_right fun _ => ?_
      rw [if_pos rfl]
      omega
  | infinite | nan => exact ⟨by rintro ⟨⟩, by rintro ⟨⟩⟩

end Number

end StudioScript
