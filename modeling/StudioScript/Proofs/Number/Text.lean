import StudioScript.Number.Reading
import StudioScript.Number.Text
import StudioScript.Proofs.Number.Rounding

/-! # Reading the text of a number

The text of a finite number is a sign, digits, and behind a point more digits if there are any
(`Number.exists_plain`).  It reads as the number that it was written for
(`Number.ofChars?_textChars`), so that no two finite numbers have the same text.
-/

namespace StudioScript

/-! ## The shortest decimal reads back -/

namespace Magnitude

/-- On the finest grid every size lies itself. -/
theorem ofDecimal?_exactDecimal (m : Magnitude) :
    ofDecimal? m.exactDecimal (-(places : Int)) = some m := by
  have none : (-(places : Int)).toNat = 0 := by decide
  have some : (-(-(places : Int))).toNat = places := by decide
  have grid : Nat.pow 5 places * unitsPerOne = 10 ^ places := by decide +kernel
  rw [ofDecimal?_eq, none, some, Nat.pow_zero, Nat.mul_one, exactDecimal, Nat.mul_assoc, grid]
  exact nearest?_units m (Nat.pow_pos (by decide))

theorem readsBack_of_onGrid? {tie : TieRule} {m : Magnitude} {dropped d : Nat}
    (found : onGrid? tie m dropped = some d) : m.readsBack d dropped = true := by
  unfold onGrid? at found
  simp only at found
  split at found
  · next lower upper =>
    rw [← Option.some.inj found]
    split
    · exact upper
    · exact lower
  · next lower _ =>
    rw [← Option.some.inj found]
    exact lower
  · next _ upper =>
    rw [← Option.some.inj found]
    exact upper
  · cases found

theorem ofDecimal?_shortestFrom (tie : TieRule) (m : Magnitude) (dropped : Nat) :
    ofDecimal? (shortestFrom tie m dropped).coefficient (shortestFrom tie m dropped).exponent =
      some m := by
  induction dropped with
  | zero => exact ofDecimal?_exactDecimal m
  | succ dropped inductionHypothesis =>
    unfold shortestFrom
    cases found : onGrid? tie m (dropped + 1) with
    | none => exact inductionHypothesis
    | some d => exact of_decide_eq_true (readsBack_of_onGrid? found)

theorem ofDecimal?_shortest (tie : TieRule) (m : Magnitude) :
    ofDecimal? (m.shortest tie).coefficient (m.shortest tie).exponent = some m :=
  ofDecimal?_shortestFrom tie m _

end Magnitude

/-! ## Digits -/

/-- The characters of a class are taken up to the first one outside of it. -/
theorem span_append {p : Char → Bool} {cs : List Char} (inside : ∀ c ∈ cs, p c = true)
    (rest : List Char) (stops : ∀ c ∈ rest.head?, p c = false) :
    (cs ++ rest).takeWhile p = cs ∧ (cs ++ rest).dropWhile p = rest := by
  rw [List.takeWhile_append_of_pos inside, List.dropWhile_append_of_pos inside]
  cases rest with
  | nil => simp
  | cons c rest =>
    have outside : ¬p c = true := by simp [stops c rfl]
    rw [List.takeWhile_cons_of_neg outside, List.dropWhile_cons_of_neg outside, List.append_nil]
    exact ⟨rfl, rfl⟩

/-- The number that digits write. -/
def digitsValue (digits : List Char) : Nat := Nat.ofDigitChars 10 digits 0

theorem digitsValue_append_zeros (digits : List Char) (n : Nat) :
    digitsValue (digits ++ List.replicate n '0') = digitsValue digits * 10 ^ n := by
  rw [digitsValue, Nat.ofDigitChars_append, Nat.ofDigitChars_replicate_zero, Nat.mul_comm]
  rfl

theorem digitsValue_zeros_append (digits : List Char) (n : Nat) :
    digitsValue (List.replicate n '0' ++ digits) = digitsValue digits := by
  rw [digitsValue, Nat.ofDigitChars_append, Nat.ofDigitChars_replicate_zero, Nat.mul_zero]
  rfl

/-- Whether the characters are digits. -/
def AreDigits (cs : List Char) : Prop := ∀ c ∈ cs, c.isDigit = true

theorem AreDigits.append {cs ds : List Char} (left : AreDigits cs) (right : AreDigits ds) :
    AreDigits (cs ++ ds) := List.forall_mem_append.mpr ⟨left, right⟩

theorem areDigits_zeros (n : Nat) : AreDigits (List.replicate n '0') := by
  intro c member
  rw [(List.mem_replicate.mp member).2]
  rfl

/-- The characters of a numeral without an exponent.  A point stands in it only if digits follow. -/
def plainChars (whole : List Char) : List Char → List Char
  | [] => whole
  | d :: ds => whole ++ '.' :: d :: ds

namespace Decimal

/-- Zeros that are taken off the end of the coefficient count in the exponent. -/
theorem exists_significantDigits (d : Decimal) (some : d.coefficient ≠ 0) :
    ∃ digits, ∃ n : Nat, d.significantDigits = (digits, (digits.length : Int) + n + d.exponent) ∧
      digits ≠ [] ∧ AreDigits digits ∧ d.coefficient = digitsValue digits * 10 ^ n := by
  -- The zeros at the end of the digits are those at the head of the reversed digits.
  let all := Nat.toDigits 10 d.coefficient
  let digits := (all.reverse.dropWhile (· == '0')).reverse
  let zeros := all.reverse.takeWhile (· == '0')
  have onlyZeros : zeros = List.replicate zeros.length '0' := by
    refine List.eq_replicate_of_mem fun c member => ?_
    exact eq_of_beq (List.all_eq_true.mp List.all_takeWhile c member)
  have shape : all = digits ++ List.replicate zeros.length '0' := by
    rw [← List.reverse_replicate, ← onlyZeros, ← List.reverse_append,
      List.takeWhile_append_dropWhile, List.reverse_reverse]
  have value : d.coefficient = digitsValue digits * 10 ^ zeros.length := by
    rw [← digitsValue_append_zeros, ← shape]
    exact Nat.ofDigitChars_ten_toDigits.symm
  refine ⟨digits, zeros.length, ?_, ?_, ?_, value⟩
  · have length := congrArg List.length shape
    rw [List.length_append, List.length_replicate] at length
    simp only [significantDigits, Prod.mk.injEq]
    refine ⟨rfl, ?_⟩
    change (all.length : Int) + d.exponent = _
    rw [length, Int.natCast_add]
  · intro empty
    rw [empty, digitsValue, Nat.ofDigitChars_nil, Nat.zero_mul] at value
    exact some value
  · intro c member
    have among : c ∈ all := shape ▸ List.mem_append_left _ member
    exact Nat.isDigit_of_mem_toDigits (by decide) (by decide) among

/-- Positional notation puts a point among digits, or zeros at one of their ends. -/
theorem exists_positional {digits : List Char} (some : digits ≠ []) (are : AreDigits digits)
    (point : Int) :
    ∃ whole fraction, ∃ n : Nat, positional digits point = plainChars whole fraction ∧ whole ≠ [] ∧
      AreDigits whole ∧ AreDigits fraction ∧
      digitsValue (whole ++ fraction) = digitsValue digits * 10 ^ n ∧
      -(fraction.length : Int) + n = point - digits.length := by
  unfold positional
  -- The point stands before all of the digits, behind all of them, or among them.
  split
  · next below =>
    let fraction := List.replicate (-point).toNat '0' ++ digits
    refine ⟨['0'], fraction, 0, ?_, by simp, areDigits_zeros 1, (areDigits_zeros _).append are,
      ?_, ?_⟩
    · obtain ⟨d, ds, shape⟩ := List.exists_cons_of_ne_nil
        (List.append_ne_nil_of_right_ne_nil (List.replicate (-point).toNat '0') some)
      change '0' :: '.' :: fraction = plainChars ['0'] fraction
      rw [show fraction = d :: ds from shape]
      rfl
    · rw [Nat.pow_zero, Nat.mul_one, ← digitsValue_zeros_append digits (1 + (-point).toNat),
        ← List.replicate_append_replicate, List.append_assoc]
      rfl
    · simp only [fraction, List.length_append, List.length_replicate]
      omega
  · next above =>
    split
    · next long =>
      refine ⟨digits ++ List.replicate (point.toNat - digits.length) '0', [],
        point.toNat - digits.length, rfl, List.append_ne_nil_of_left_ne_nil some _,
        are.append (areDigits_zeros _), List.forall_mem_nil _, ?_, ?_⟩
      · rw [List.append_nil, digitsValue_append_zeros]
      · simp only [List.length_nil]
        omega
    · next short =>
      have split := List.take_append_drop point.toNat digits
      have inside : AreDigits (digits.take point.toNat ++ digits.drop point.toNat) :=
        split.symm ▸ are
      obtain ⟨front, back⟩ := List.forall_mem_append.mp inside
      refine ⟨digits.take point.toNat, digits.drop point.toNat, 0, ?_, ?_, front, back, ?_, ?_⟩
      · obtain ⟨d, ds, shape⟩ := List.exists_cons_of_ne_nil
          (fun empty => short (List.drop_eq_nil_iff.mp empty) : digits.drop point.toNat ≠ [])
        rw [shape]
        rfl
      · intro empty
        rcases List.take_eq_nil_iff.mp empty with zero | none
        · omega
        · exact some none
      · rw [split, Nat.pow_zero, Nat.mul_one]
      · simp only [List.length_drop]
        omega

end Decimal

namespace Number

/-- The text of a size is a numeral without an exponent, and as a decimal it rounds to the size. -/
theorem exists_plain (size : Magnitude) :
    ∃ whole fraction, sizeText size = plainChars whole fraction ∧ whole ≠ [] ∧ AreDigits whole ∧
      AreDigits fraction ∧
      Magnitude.ofDecimal? (digitsValue (whole ++ fraction)) (-(fraction.length : Int)) =
        some size := by
  by_cases zero : size = .zero
  · subst zero
    exact ⟨['0'], [], rfl, by simp, areDigits_zeros 1, List.forall_mem_nil _,
      Magnitude.ofDecimal?_zero _⟩
  · have near := Magnitude.ofDecimal?_shortest .upward size
    have some : (size.shortest .upward).coefficient ≠ 0 := by
      intro none
      rw [none, Magnitude.ofDecimal?_zero] at near
      exact zero (Option.some.inj near).symm
    obtain ⟨digits, n, shape, nonempty, are, value⟩ := Decimal.exists_significantDigits _ some
    obtain ⟨whole, fraction, k, shape', whole', areWhole, areFraction, value', point⟩ :=
      Decimal.exists_positional nonempty are (digits.length + n + (size.shortest .upward).exponent)
    -- What is taken off the coefficient and what is filled up are powers of ten, and the exponent
    -- makes up for both.
    refine ⟨whole, fraction, ?_, whole', areWhole, areFraction, ?_⟩
    · rw [sizeText, if_neg zero, shape]
      exact shape'
    · have exponent : -(fraction.length : Int) + k = (size.shortest .upward).exponent + n := by
        omega
      rw [value', Magnitude.ofDecimal?_mul_pow, exponent, ← Magnitude.ofDecimal?_mul_pow, ← value,
        near]

/-! ## Reading -/

theorem exists_cons_plainChars {whole : List Char} (some : whole ≠ []) (are : AreDigits whole)
    (fraction : List Char) : ∃ d cs, plainChars whole fraction = d :: cs ∧ d.isDigit = true := by
  obtain ⟨d, ds, rfl⟩ := List.exists_cons_of_ne_nil some
  have digit := are d List.mem_cons_self
  cases fraction with
  | nil => exact ⟨d, ds, rfl, digit⟩
  | cons f fs => exact ⟨d, ds ++ '.' :: f :: fs, rfl, digit⟩

theorem val_le_of_isDigit {c : Char} (digit : c.isDigit = true) : c.val ≤ '9'.val :=
  of_decide_eq_true (Bool.and_eq_true_iff.mp digit).2

theorem ne_of_isDigit {c : Char} (digit : c.isDigit = true) :
    c ≠ '-' ∧ c ≠ '+' ∧ c.toLower ≠ 'i' ∧ c.toLower ≠ 'n' := by
  have small : c.toLower = c := dif_neg fun upper =>
    absurd (UInt32.le_trans upper.1 (val_le_of_isDigit digit)) (by decide)
  rw [small]
  refine ⟨?_, ?_, ?_, ?_⟩ <;> rintro rfl <;> exact absurd digit (by decide)

end Number

/-- A numeral without an exponent is taken apart at its point. -/
theorem Numeral.ofChars?_plainChars {whole fraction : List Char} (some : whole ≠ [])
    (areWhole : AreDigits whole) (areFraction : AreDigits fraction) :
    ofChars? (plainChars whole fraction) = .some ⟨whole, fraction, 0⟩ := by
  have nonempty : whole.isEmpty = false := List.isEmpty_eq_false_iff.mpr some
  cases fraction with
  | nil =>
    obtain ⟨taken, left⟩ := span_append areWhole [] (by simp)
    rw [List.append_nil] at taken left
    simp [ofChars?, plainChars, taken, left, nonempty]
  | cons d ds =>
    obtain ⟨taken, left⟩ := span_append areWhole ('.' :: d :: ds) (by simp)
    obtain ⟨taken', left'⟩ := span_append areFraction [] (by simp)
    rw [List.append_nil] at taken' left'
    simp only [ofChars?, plainChars, taken, left, taken', left', nonempty, Bool.false_and]
    rfl

namespace Number

theorem ofDecimal_of_ofDecimal? {coefficient : Nat} {exponent : Int} {size : Magnitude}
    (negative : Bool) (small : exponent ≤ 400)
    (near : Magnitude.ofDecimal? coefficient exponent = some size) :
    ofDecimal negative coefficient exponent = .finite negative size := by
  have vanishes (none : Magnitude.ofDecimal? coefficient exponent = some .zero) : size = .zero :=
    Option.some.inj (near.symm.trans none)
  unfold ofDecimal
  split
  · next zero => rw [vanishes (zero ▸ Magnitude.ofDecimal?_zero exponent)]
  · rw [if_neg (by omega)]
    split
    · next below => rw [vanishes (Magnitude.ofDecimal?_eq_zero below)]
    · rw [near]
      rfl

theorem exists_cons_sizeText (size : Magnitude) :
    ∃ d cs, sizeText size = d :: cs ∧ d.isDigit = true := by
  obtain ⟨whole, fraction, shape, nonempty, areWhole, -⟩ := exists_plain size
  rw [shape]
  exact exists_cons_plainChars nonempty areWhole _

/-- A size is read from its text, with the sign that was found before it. -/
theorem ofUnsignedChars?_sizeText (negative : Bool) (size : Magnitude) :
    ofUnsignedChars? negative (sizeText size) = some (.finite negative size) := by
  obtain ⟨whole, fraction, shape, nonempty, areWhole, areFraction, near⟩ := exists_plain size
  have numeral : Numeral.ofChars? (sizeText size) = some ⟨whole, fraction, 0⟩ :=
    shape ▸ Numeral.ofChars?_plainChars nonempty areWhole areFraction
  have value : Numeral.value negative ⟨whole, fraction, 0⟩ = .finite negative size := by
    rw [Numeral.value, Int.zero_sub]
    exact ofDecimal_of_ofDecimal? negative (by omega) near
  -- What starts with a digit is neither of the words for numbers that are not finite.
  obtain ⟨d, ds, front, digit⟩ := exists_cons_sizeText size
  obtain ⟨-, -, notI, notN⟩ := ne_of_isDigit digit
  rw [front] at numeral ⊢
  simp [ofUnsignedChars?, numeral, value, notI, notN]

/-- A finite number is read from its text. -/
theorem ofChars?_textChars : ∀ {x : Number}, x.isFinite = true → ofChars? x.textChars = some x
  | .finite true size, _ => ofUnsignedChars?_sizeText true size
  | .finite false size, _ => by
    obtain ⟨d, ds, front, digit⟩ := exists_cons_sizeText size
    obtain ⟨notMinus, notPlus, -⟩ := ne_of_isDigit digit
    have unsigned : ofChars? (sizeText size) = ofUnsignedChars? false (sizeText size) := by
      rw [front, ofChars?]
      · exact fun cs same => notMinus (List.cons.inj same).1
      · exact fun cs same => notPlus (List.cons.inj same).1
    exact unsigned.trans (ofUnsignedChars?_sizeText false size)

end Number

end StudioScript
