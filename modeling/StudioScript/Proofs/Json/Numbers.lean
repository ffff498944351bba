import Mathlib
import StudioScript.Json.Reader
import StudioScript.Proofs.Action.Numbers
import StudioScript.Proofs.Members

/-! # The numbers of a JSON text

A JSON text writes no infinities and no `nan`, and a number beyond the range of binary64 is refused,
so that all numbers of a value that is read are finite (`Json.allFinite_of_ofText?`).
-/

namespace StudioScript

open Number

/-! ## Whole numbers -/

theorem Magnitude.isSome_nearest? {n k : Nat} (small : n < 2 ^ k) (bounded : k ≤ 2096) :
    (nearest? n 1).isSome = true := by
  have exponent : exponentNear n + 1 ≤ 2045 := by
    unfold exponentNear
    by_cases zero : n = 0
    · simp [zero]
    · have bits : n.log2 < k := (Nat.log2_lt zero).mpr small
      omega
  unfold nearest?
  simp only [Nat.div_one]
  split
  · rw [dif_pos (Nat.le_of_succ_le exponent)]
    rfl
  · rfl

/-- An integer of 64 bits is in the range of binary64. -/
theorem Number.isFinite_ofInt {i : Int} (small : i.natAbs < Nat.pow 2 64) :
    (ofInt i).isFinite = true := by
  unfold ofInt Magnitude.unitsPerOne
  -- The power must not be computed, and nothing but a bound for its exponent is needed.
  generalize bounded : 1074 = k
  have scaled : i.natAbs * Nat.pow 2 k < 2 ^ (64 + k) := by
    rw [Nat.pow_add]
    exact Nat.mul_lt_mul_of_pos_right small (Nat.two_pow_pos k)
  obtain ⟨size, near⟩ :=
    Option.isSome_iff_exists.mp (Magnitude.isSome_nearest? scaled (by omega))
  rw [near]
  rfl

namespace Json

/-! ## The numbers of a value -/

mutual

/-- The numbers in a value, at any depth, as they are rounded. -/
def numbers : Json → List Number
  | .int i => [Number.ofInt i]
  | .real x => [x]
  | .arr items => itemNumbers items
  | .obj members => membersNumbers members
  | .null | .bool _ | .str _ => []

def itemNumbers : List Json → List Number
  | [] => []
  | item :: items => numbers item ++ itemNumbers items

def memberNumbers : String × Json → List Number
  | (_, value) => numbers value

def membersNumbers : List (String × Json) → List Number
  | [] => []
  | member :: members => memberNumbers member ++ membersNumbers members

end

theorem numbers_arr (items : List Json) : (arr items).numbers = items.flatMap numbers := by
  rw [numbers]
  induction items with
  | nil => rfl
  | cons item items inductionHypothesis =>
    rw [itemNumbers, List.flatMap_cons, inductionHypothesis]

theorem numbers_obj (members : List (String × Json)) :
    (obj members).numbers = members.flatMap (numbers ·.2) := by
  rw [numbers]
  induction members with
  | nil => rfl
  | cons member members inductionHypothesis =>
    obtain ⟨key, value⟩ := member
    rw [membersNumbers, memberNumbers, List.flatMap_cons, inductionHypothesis]

/-! ## Reading numbers -/

theorem takeSignificand_lt {significand : Nat} (small : significand < Nat.pow 2 64)
    (cs : List Char) : (takeSignificand significand cs).1 < Nat.pow 2 64 := by
  induction cs generalizing significand with
  | nil => exact small
  | cons c cs inductionHypothesis =>
    simp only [takeSignificand]
    split
    · next next => exact inductionHypothesis next
    · exact small

theorem allFinite_of_scaledNumber {negative : Bool} {significand : Nat} {places : Int}
    {cs rest : List Char} {json : Json}
    (read : scaledNumber negative significand places cs = some (json, rest)) :
    AllFinite json.numbers := by
  -- With and without an exponent, it is scaling that refuses what is too large.
  have finish {places : Int} {rest' : List Char}
      (read : (scaled significand places).map
        (fun size => (Json.real (.finite negative size), rest')) = some (json, rest)) :
      AllFinite json.numbers := by
    obtain ⟨size, _, same⟩ := Option.map_eq_some_iff.mp read
    cases same
    exact allFinite_singleton.mpr rfl
  dsimp only [scaledNumber] at read
  split at read
  · obtain ⟨⟨e, rest'⟩, _, read⟩ := Option.bind_eq_some_iff.mp read
    exact finish read
  · obtain ⟨⟨e, rest'⟩, _, read⟩ := Option.bind_eq_some_iff.mp read
    exact finish read
  · exact finish read

theorem allFinite_of_wholeNumber {negative : Bool} {significand : Nat} {json : Json}
    (small : significand < Nat.pow 2 64) (read : wholeNumber negative significand = some json) :
    AllFinite json.numbers := by
  unfold wholeNumber at read
  split at read
  · cases read
    exact allFinite_singleton.mpr (isFinite_ofInt (by simpa using small))
  · split at read
    · cases read
      exact allFinite_singleton.mpr (isFinite_ofInt (by simpa using small))
    · obtain ⟨size, _, same⟩ := Option.map_eq_some_iff.mp read
      cases same
      exact allFinite_singleton.mpr rfl

theorem allFinite_of_unsignedNumber {negative : Bool} {cs rest : List Char} {json : Json}
    (read : unsignedNumber negative cs = some (json, rest)) : AllFinite json.numbers := by
  dsimp only [unsignedNumber] at read
  split at read
  · cases read
  · cases read
  · next whole _ _ _ _ =>
    have small := takeSignificand_lt (Nat.two_pow_pos 64) whole
    -- Behind a point or an exponent, or with digits left over, the number is scaled.
    split at read
    · split at read
      · cases read
      · exact allFinite_of_scaledNumber read
    · exact allFinite_of_scaledNumber read
    · exact allFinite_of_scaledNumber read
    · split at read
      · obtain ⟨json', integer, same⟩ := Option.map_eq_some_iff.mp read
        cases same
        exact allFinite_of_wholeNumber small integer
      · exact allFinite_of_scaledNumber read

theorem allFinite_of_number {cs rest : List Char} {json : Json}
    (read : number cs = some (json, rest)) : AllFinite json.numbers := by
  unfold number at read
  split at read
  · exact allFinite_of_unsignedNumber read
  · exact allFinite_of_unsignedNumber read

/-! ## Reading values -/

/-- Whatever is read in so many steps has finite numbers only.  Values, items and entries are read
    by way of each other, so that the three go together. -/
structure ReadsFinite (fuel : Nat) : Prop where
  value : ∀ {depth cs json rest}, value fuel depth cs = some (json, rest) → AllFinite json.numbers
  items : ∀ {depth cs xs rest}, items fuel depth cs = some (xs, rest) →
    ∀ x ∈ xs, AllFinite x.numbers
  entries : ∀ {depth cs ms rest}, entries fuel depth cs = some (ms, rest) →
    ∀ m ∈ ms, AllFinite m.2.numbers

variable {fuel depth : Nat} {cs rest : List Char}

theorem ReadsFinite.value_succ (finite : ReadsFinite fuel) {json : Json}
    (read : Json.value (fuel + 1) depth cs = some (json, rest)) : AllFinite json.numbers := by
  rw [Json.value.eq_def] at read
  dsimp only at read
  split at read
  · cases read
    exact List.forall_mem_nil _
  · cases read
    exact List.forall_mem_nil _
  · cases read
    exact List.forall_mem_nil _
  · obtain ⟨body, _, same⟩ := Option.map_eq_some_iff.mp read
    cases same
    exact List.forall_mem_nil _
  · split at read
    · cases read
      exact List.forall_mem_nil _
    · obtain ⟨⟨xs, rest'⟩, inner, same⟩ := Option.map_eq_some_iff.mp read
      cases same
      intro x member
      rw [numbers_arr] at member
      obtain ⟨item, among, member⟩ := List.mem_flatMap.mp member
      exact finite.items inner item among x member
  · split at read
    · cases read
      exact List.forall_mem_nil _
    · obtain ⟨⟨ms, rest'⟩, inner, same⟩ := Option.map_eq_some_iff.mp read
      cases same
      intro x member
      rw [numbers_obj] at member
      obtain ⟨entry, among, member⟩ := List.mem_flatMap.mp member
      exact finite.entries inner entry (Members.mem_of_mem_ofEntries among) x member
  · exact allFinite_of_number read

theorem ReadsFinite.items_succ (finite : ReadsFinite fuel) {xs : List Json}
    (read : Json.items (fuel + 1) depth cs = some (xs, rest)) : ∀ x ∈ xs, AllFinite x.numbers := by
  rw [Json.items] at read
  obtain ⟨⟨first, rest'⟩, head, read⟩ := Option.bind_eq_some_iff.mp read
  dsimp only at read
  split at read
  · cases read
    exact List.forall_mem_singleton.mpr (finite.value head)
  · obtain ⟨⟨others, rest''⟩, tail, same⟩ := Option.map_eq_some_iff.mp read
    cases same
    exact List.forall_mem_cons.mpr ⟨finite.value head, finite.items tail⟩
  · cases read

theorem ReadsFinite.entries_succ (finite : ReadsFinite fuel) {ms : List (String × Json)}
    (read : Json.entries (fuel + 1) depth cs = some (ms, rest)) :
    ∀ m ∈ ms, AllFinite m.2.numbers := by
  rw [Json.entries.eq_def] at read
  dsimp only at read
  split at read
  · obtain ⟨⟨key, rest'⟩, _, read⟩ := Option.bind_eq_some_iff.mp read
    dsimp only at read
    split at read
    · obtain ⟨⟨first, rest''⟩, head, read⟩ := Option.bind_eq_some_iff.mp read
      dsimp only at read
      split at read
      · cases read
        exact List.forall_mem_singleton.mpr (finite.value head)
      · obtain ⟨⟨others, rest'''⟩, tail, same⟩ := Option.map_eq_some_iff.mp read
        cases same
        exact List.forall_mem_cons.mpr ⟨finite.value head, finite.entries tail⟩
      · cases read
    · cases read
  · cases read

theorem readsFinite (fuel : Nat) : ReadsFinite fuel := by
  induction fuel with
  | zero =>
    constructor
    · intro _ _ _ _ read
      rw [Json.value] at read
      cases read
    · intro _ _ _ _ read
      rw [Json.items] at read
      cases read
    · intro _ _ _ _ read
      rw [Json.entries] at read
      cases read
  | succ fuel inductionHypothesis =>
    exact ⟨inductionHypothesis.value_succ, inductionHypothesis.items_succ,
      inductionHypothesis.entries_succ⟩

/-- The numbers that a JSON text writes are finite. -/
theorem allFinite_of_ofText? {text : String} {json : Json} (read : ofText? text = some json) :
    AllFinite json.numbers := by
  dsimp only [ofText?] at read
  split at read
  · next json' rest done =>
    split at read
    · cases read
      exact (readsFinite _).value done
    · cases read
  · cases read

end Json

end StudioScript
