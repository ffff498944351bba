/-! # Members in the order of their keys

Objects, records and stores are lists of members whose keys are distinct and ascend by code point.
`Members.insert` keeps a list in this form; the value that is inserted last under a key is the one
that `Members.get?` finds.
-/

namespace StudioScript

abbrev Members (α : Type) := List (String × α)

namespace Members

variable {α : Type}

def get? (key : String) : Members α → Option α
  | [] => none
  | (k, value) :: rest => if k = key then some value else get? key rest

/-- Puts a value under a key, in place of the value that was there. -/
def insert (key : String) (value : α) : Members α → Members α
  | [] => [(key, value)]
  | (k, old) :: rest =>
      if key < k then (key, value) :: (k, old) :: rest
      else if key = k then (key, value) :: rest
      else (k, old) :: insert key value rest

/-- The value that was put under a key is found there. -/
@[simp] theorem get?_insert_self (key : String) (value : α) (members : Members α) :
    get? key (insert key value members) = some value := by
  induction members with
  | nil => simp [insert, get?]
  | cons member rest inductionHypothesis =>
    obtain ⟨k, old⟩ := member
    by_cases before : key < k
    · simp [insert, get?, before]
    · by_cases same : key = k
      · subst same
        simp [insert, get?]
      · simp [insert, get?, before, same, Ne.symm same, inductionHypothesis]

/-- What is found under other keys stays the same. -/
theorem get?_insert_of_ne {key other : String} (value : α) (members : Members α)
    (differ : other ≠ key) : get? other (insert key value members) = get? other members := by
  induction members with
  | nil => simp [insert, get?, differ.symm]
  | cons member rest inductionHypothesis =>
    obtain ⟨k, old⟩ := member
    by_cases before : key < k
    · simp [insert, get?, before, differ.symm]
    · by_cases same : key = k
      · subst same
        simp [insert, get?, differ.symm]
      · simp [insert, get?, before, same, inductionHypothesis]

/-- The members of a list of entries; of entries with one key the last one stays. -/
def ofEntries (entries : List (String × α)) : Members α :=
  entries.foldl (fun members (key, value) => insert key value members) []

end Members

end StudioScript
