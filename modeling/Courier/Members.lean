/-!
# Members

A list of names with values, such as the members of an object or the entries of a directory.  A name
keeps the place at which it was first put.  `Members.lookup_put` says that putting a value changes
what is found under that name and nothing else.
-/

namespace Courier.Members

variable {α : Type}

/-- Sets the value of a name, in place when the name is there and at the end when it is not. -/
def put (name : String) (value : α) : List (String × α) → List (String × α)
  | [] => [(name, value)]
  | (k, v) :: rest => if k = name then (name, value) :: rest else (k, v) :: put name value rest

/-- The members that come of putting values in order. -/
def ofList (values : List (String × α)) : List (String × α) :=
  values.foldl (fun members (name, value) => put name value members) []

theorem lookup_put (name k : String) (value : α) (members : List (String × α)) :
    (put name value members).lookup k = if k = name then some value else members.lookup k := by
  have hne {a b : String} (h : ¬a = b) : (a == b) = false := by simp [h]
  induction members with
  | nil => by_cases h : k = name <;> simp [put, List.lookup_cons, h, hne]
  | cons m rest ih =>
    obtain ⟨k', v⟩ := m
    by_cases hk : k' = name
    · subst hk
      by_cases h : k = k' <;> simp [put, List.lookup_cons, h, hne]
    · by_cases h : k = k'
      · subst h
        simp [put, hk]
      · simp [put, hk, List.lookup_cons, h, hne, ih]

end Courier.Members
