import Scriptlet.Table

/-!
# The entries of lists and tables

What is found at a place of a list is found there in every list that goes on behind it. What is
found in a table is one of its entries, and a write brings one entry in.
-/

namespace Scriptlet

theorem getElem?_of_prefix {α : Type} {xs ys : List α} {i : Nat} {a : α} (h : xs <+: ys)
    (hi : xs[i]? = some a) : ys[i]? = some a := by
  obtain ⟨more, rfl⟩ := h
  obtain ⟨hlt, -⟩ := List.getElem?_eq_some_iff.mp hi
  rw [List.getElem?_append_left hlt, hi]

namespace Table

variable {α : Type}

/-- What is found is in the table. -/
theorem mem_of_get? {t : Table α} {x : String} {a : α} (h : t.get? x = some a) : (x, a) ∈ t := by
  induction t with
  | nil => cases h
  | cons p t ih =>
    obtain ⟨n, b⟩ := p
    rw [get?_cons] at h
    by_cases hx : x = n
    · rw [if_pos hx] at h
      rw [hx, Option.some.inj h]
      exact List.mem_cons_self
    · rw [if_neg hx] at h
      exact List.mem_cons_of_mem _ (ih h)

/-- An entry of a table after a write is the written one or was there before. -/
theorem of_mem_put {t : Table α} {x : String} {a : α} {q : String × α} (h : q ∈ t.put x a) :
    q.2 = a ∨ q ∈ t := by
  induction t with
  | nil =>
    rw [put, List.mem_singleton] at h
    exact .inl (by rw [h])
  | cons p t ih =>
    obtain ⟨n, b⟩ := p
    rw [put] at h
    split at h
    · rcases List.mem_cons.mp h with rfl | h
      · exact .inl rfl
      · exact .inr (List.mem_cons_of_mem _ h)
    · rcases List.mem_cons.mp h with rfl | h
      · exact .inr List.mem_cons_self
      · exact (ih h).imp_right (List.mem_cons_of_mem _)

end Table

end Scriptlet
