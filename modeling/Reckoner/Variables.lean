import Reckoner.Double.Basic

/-!
# Variables

The names that have a value, in the order in which they first got one. Setting a name again keeps
its place.
-/

namespace Reckoner

structure Variables where
  entries : List (String × Double) := []

namespace Variables

def get? (vs : Variables) (name : String) : Option Double := vs.entries.lookup name

/-- The entries with one of them set. -/
def put (name : String) (value : Double) : List (String × Double) → List (String × Double)
  | [] => [(name, value)]
  | (key, old) :: rest =>
    if key = name then (name, value) :: rest else (key, old) :: put name value rest

def set (vs : Variables) (name : String) (value : Double) : Variables :=
  ⟨put name value vs.entries⟩

def ofList (entries : List (String × Double)) : Variables :=
  entries.foldl (fun vs (name, value) => vs.set name value) {}

/-- The entries by name, in the order of the code points of the names. -/
def sorted (vs : Variables) : List (String × Double) :=
  vs.entries.mergeSort fun a b => decide (a.1 ≤ b.1)

theorem lookup_put_self (name : String) (value : Double) :
    ∀ entries, (put name value entries).lookup name = some value
  | [] => by simp [put]
  | (key, old) :: rest => by
    by_cases h : key = name
    · simp [put, h]
    · have hb : (name == key) = false := beq_false_of_ne (Ne.symm h)
      simp [put, h, List.lookup_cons, hb, lookup_put_self name value rest]

theorem lookup_put_of_ne {name other : String} (value : Double) (h : other ≠ name) :
    ∀ entries, (put name value entries).lookup other = entries.lookup other
  | [] => by simp [put, List.lookup_cons, beq_false_of_ne h]
  | (key, old) :: rest => by
    by_cases hk : key = name
    · subst hk
      simp [put, List.lookup_cons, beq_false_of_ne h]
    · simp [put, hk, List.lookup_cons, lookup_put_of_ne value h rest]

@[simp] theorem get?_set_self (vs : Variables) (name : String) (value : Double) :
    (vs.set name value).get? name = some value :=
  lookup_put_self name value vs.entries

@[simp] theorem get?_set_of_ne (vs : Variables) {name other : String} (value : Double)
    (h : other ≠ name) : (vs.set name value).get? other = vs.get? other :=
  lookup_put_of_ne value h vs.entries

end Variables

end Reckoner
