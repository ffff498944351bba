import Mathlib.Data.List.Nodup
import StudioScript.Members

/-! # Members that are there

What is found under a key is one of the members, the first one with that key, and no operation
makes members up.  Entries with distinct keys make the same members in every order
(`Members.ofEntries_of_perm`).
-/

namespace StudioScript

namespace Members

variable {α : Type}

@[simp] theorem get?_nil (key : String) : get? key ([] : Members α) = none := rfl

@[simp] theorem get?_cons (key k : String) (value : α) (rest : Members α) :
    get? key ((k, value) :: rest) = if k = key then some value else get? key rest := rfl

/-- The first member under a key is the one that is found. -/
@[simp] theorem get?_append (key : String) (members members' : Members α) :
    get? key (members ++ members') = (get? key members).or (get? key members') := by
  induction members with
  | nil => rfl
  | cons member members inductionHypothesis =>
    obtain ⟨k, value⟩ := member
    simp only [List.cons_append, get?_cons, inductionHypothesis]
    split <;> rfl

theorem mem_of_get? {key : String} {value : α} {members : Members α}
    (found : get? key members = some value) : (key, value) ∈ members := by
  induction members with
  | nil => cases found
  | cons member rest inductionHypothesis =>
    obtain ⟨k, old⟩ := member
    rw [get?_cons] at found
    split at found
    · next same =>
      cases found
      exact same ▸ List.mem_cons_self
    · exact List.mem_cons_of_mem _ (inductionHypothesis found)

theorem mem_of_mem_insert {key : String} {value : α} {members : Members α} {member : String × α}
    (inside : member ∈ insert key value members) : member = (key, value) ∨ member ∈ members := by
  induction members with
  | nil => exact .inl (List.mem_singleton.mp inside)
  | cons first rest inductionHypothesis =>
    obtain ⟨k, old⟩ := first
    simp only [insert] at inside
    split at inside
    · exact List.mem_cons.mp inside
    · split at inside
      · exact (List.mem_cons.mp inside).imp_right (List.mem_cons_of_mem _)
      · rcases List.mem_cons.mp inside with rfl | later
        · exact .inr List.mem_cons_self
        · exact (inductionHypothesis later).imp_right (List.mem_cons_of_mem _)

theorem mem_of_mem_ofEntries {entries : List (String × α)} {member : String × α}
    (inside : member ∈ ofEntries entries) : member ∈ entries := by
  have gathered (entries : List (String × α)) (members : Members α)
      (inside : member ∈ entries.foldl (fun members entry => insert entry.1 entry.2 members)
        members) : member ∈ members ∨ member ∈ entries := by
    induction entries generalizing members with
    | nil => exact .inl inside
    | cons entry entries inductionHypothesis =>
      rcases inductionHypothesis _ inside with early | late
      · rcases mem_of_mem_insert early with rfl | before
        · exact .inr List.mem_cons_self
        · exact .inl before
      · exact .inr (List.mem_cons_of_mem _ late)
  exact (gathered entries [] inside).resolve_left (List.not_mem_nil)

/-! ## Other orders -/

/-- Where no key stands twice, the order does not matter to what is found. -/
theorem get?_of_perm {key : String} {members members' : Members α}
    (distinct : (members.map Prod.fst).Nodup) (perm : members.Perm members') :
    get? key members = get? key members' := by
  induction perm with
  | nil => rfl
  | cons member _ inductionHypothesis =>
    obtain ⟨k, value⟩ := member
    rw [get?_cons, get?_cons, inductionHypothesis (List.nodup_cons.mp distinct).2]
  | swap first second rest =>
    obtain ⟨k, value⟩ := first
    obtain ⟨k', value'⟩ := second
    simp only [List.map_cons, List.nodup_cons, List.mem_cons, not_or] at distinct
    simp only [get?_cons]
    split
    · next same =>
      subst same
      rw [if_neg (Ne.symm distinct.1.1)]
    · rfl
  | trans perm _ inductionHypothesis inductionHypothesis' =>
    rw [inductionHypothesis distinct,
      inductionHypothesis' ((perm.map Prod.fst).nodup_iff.mp distinct)]

theorem lt_of_not_lt {key key' : String} (notLess : ¬ key < key') (differ : key ≠ key') :
    key' < key :=
  String.not_le.mp fun le => differ (String.le_antisymm le (String.not_lt.mp notLess))

theorem insert_comm_of_lt {key key' : String} (less : key < key') (value value' : α)
    (members : Members α) :
    insert key value (insert key' value' members) =
      insert key' value' (insert key value members) := by
  have notLess : ¬ key' < key := String.lt_asymm less
  have differ : key ≠ key' := by
    rintro rfl
    exact String.lt_irrefl key less
  induction members with
  | nil => simp [insert, less, notLess, differ.symm]
  | cons member rest inductionHypothesis =>
    obtain ⟨k, old⟩ := member
    -- The lesser key is put in front of `k`, in its place, or behind it.
    by_cases before : key < k
    · by_cases before' : key' < k
      · simp [insert, before, before', less, notLess, differ.symm]
      · by_cases same' : key' = k
        · subst same'
          simp [insert, less, notLess, differ.symm]
        · simp [insert, before, before', same', notLess, differ.symm]
    · by_cases same : key = k
      · subst same
        simp [insert, notLess, differ.symm]
      · have behind : k < key := lt_of_not_lt before same
        have behind' : k < key' := String.lt_trans behind less
        have before' : ¬ key' < k := String.lt_asymm behind'
        have same' : key' ≠ k := by
          rintro rfl
          exact String.lt_irrefl _ behind'
        simp [insert, before, before', same, same', inductionHypothesis]

/-- Under distinct keys it does not matter what is put first. -/
theorem insert_comm {key key' : String} (differ : key ≠ key') (value value' : α)
    (members : Members α) :
    insert key value (insert key' value' members) =
      insert key' value' (insert key value members) := by
  by_cases less : key < key'
  · exact insert_comm_of_lt less value value' members
  · exact (insert_comm_of_lt (lt_of_not_lt less differ) value' value members).symm

/-- Entries with distinct keys make the same members in every order. -/
theorem ofEntries_of_perm {entries entries' : List (String × α)}
    (distinct : (entries.map Prod.fst).Nodup) (perm : entries.Perm entries') :
    ofEntries entries = ofEntries entries' := by
  unfold ofEntries
  refine perm.foldl_eq' (fun x member y member' members => ?_) []
  by_cases same : x = y
  · rw [same]
  · have differ : y.1 ≠ x.1 :=
      fun keys => same (List.inj_on_of_nodup_map distinct member member' keys.symm)
    exact insert_comm differ y.2 x.2 members

end Members

end StudioScript
