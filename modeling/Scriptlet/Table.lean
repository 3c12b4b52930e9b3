/-!
# Tables of named entries

An association list from names to entries in which a name occurs once: writing to a name that is
there replaces its entry in place, writing to a new name adds it at the end. What is shown of a
table is sorted by name.
-/

namespace Scriptlet

/-- Entries by name, in the order in which the names arrived. -/
abbrev Table (α : Type) := List (String × α)

namespace Table

variable {α : Type}

/-- The entry under a name. -/
def get? (t : Table α) (name : String) : Option α := t.lookup name

/-- There is an entry under the name. -/
def has (t : Table α) (name : String) : Bool := (t.get? name).isSome

/-- The table with the entry under a name set. -/
def put : Table α → String → α → Table α
  | [], name, a => [(name, a)]
  | (n, b) :: t, name, a => if name == n then (n, a) :: t else (n, b) :: put t name a

theorem get?_cons (n x : String) (a : α) (t : Table α) :
    Table.get? ((n, a) :: t) x = if x = n then some a else t.get? x := by
  by_cases h : x = n
  · simp [get?, h]
  · simp [get?, List.lookup_cons, beq_eq_false_iff_ne.mpr h, h]

/-- What is found under a name is what was last put there. -/
theorem get?_put (t : Table α) (x y : String) (a : α) :
    (t.put x a).get? y = if y = x then some a else t.get? y := by
  induction t with
  | nil => rw [put, get?_cons]
  | cons p t ih =>
    obtain ⟨n, b⟩ := p
    rw [put]
    by_cases hn : x = n
    · subst hn
      by_cases hy : y = x <;> simp [get?_cons, hy]
    · simp only [beq_eq_false_iff_ne.mpr hn, Bool.false_eq_true, if_false, get?_cons, ih]
      by_cases hy : y = n
      · simp [hy, Ne.symm hn]
      · simp [hy]

/-- An entry put before the first one with a greater name. -/
def insertSorted (entry : String × α) : Table α → Table α
  | [] => [entry]
  | e :: t => if entry.1 < e.1 then entry :: e :: t else e :: insertSorted entry t

/-- The entries sorted by name, in the order of code points. -/
def sorted (t : Table α) : Table α := t.foldr insertSorted []

end Table

end Scriptlet
