import Scriptlet.Proofs.Environment.Operation

/-!
# Writing a variable where it is

A visible variable is written in the frame that it is read from: the innermost one that has it, if
no frame of a function comes before it, and the global one otherwise. All else stays as it is, the
order of the entries included. This is said here frame by frame, and shown of an assignment.
-/

namespace Scriptlet

namespace Table

variable {α : Type} {x : String} {a : α}

theorem has_eq_false {t : Table α} : t.has x = false ↔ t.get? x = none := by
  rw [has, Option.isSome_eq_false_iff, Option.isNone_iff_eq_none]

/-- Writing to a name that is there keeps the names in their order. -/
theorem map_fst_put {t : Table α} (h : t.has x) : (t.put x a).map Prod.fst = t.map Prod.fst := by
  induction t with
  | nil => cases h
  | cons p t ih =>
    obtain ⟨n, b⟩ := p
    rw [put]
    by_cases hn : x = n
    · simp [hn]
    · have ht : Table.has t x := by
        rwa [has, get?_cons, if_neg hn] at h
      simp [hn, ih ht]

end Table

/-- The second frame is the first with another value for a variable that it has. -/
structure Frame.Rewrites (x : String) (v : Value) (f g : Frame) : Prop where
  held : f.vars.has x
  rest : g = { f with vars := g.vars }
  names : g.vars.map Prod.fst = f.vars.map Prod.fst
  vars : ∀ y, g.vars.get? y = if y = x then some v else f.vars.get? y

namespace Environment

/-- The second environment is the first with another value for a visible variable, in the frame that
holds it: no frame further in has the variable, and no frame of a function is further in unless the
variable is a global one. -/
inductive Rewrites (x : String) (v : Value) : Environment → Environment → Prop where
  | inner {before after : List Frame} {f g global : Frame} {output : List String}
      (hbefore : ∀ b ∈ before, b.kind ≠ .function ∧ b.vars.get? x = none)
      (hf : f.Rewrites x v g) :
      Rewrites x v ⟨before ++ f :: after, global, output⟩ ⟨before ++ g :: after, global, output⟩
  | global {inner : List Frame} {f g : Frame} {output : List String}
      (hinner : ∀ b ∈ upToFunction inner, b.vars.get? x = none) (hf : f.Rewrites x v g) :
      Rewrites x v ⟨inner, f, output⟩ ⟨inner, g, output⟩

variable {x : String} {v : Value} {env : Environment}

theorem rewrites_setVariable {f : Frame} (h : f.vars.has x) :
    f.Rewrites x v (setVariable x v f) where
  held := h
  rest := rfl
  names := Table.map_fst_put h
  vars y := Table.get?_put f.vars x y v

/-- The first frame with a property is changed that no frame of a function comes before. -/
theorem of_changeUpToFunction {p : Frame → Bool} {change : Frame → Frame} {fs fs' : List Frame}
    (h : changeUpToFunction p change fs = some fs') :
    ∃ before f after, fs = before ++ f :: after ∧ fs' = before ++ change f :: after ∧ p f = true ∧
      ∀ b ∈ before, b.kind ≠ .function ∧ p b = false := by
  induction fs generalizing fs' with
  | nil => cases h
  | cons f fs ih =>
    rw [changeUpToFunction] at h
    by_cases hp : p f
    · rw [if_pos hp] at h
      obtain rfl := Option.some.inj h
      exact ⟨[], f, fs, rfl, rfl, hp, fun _ hb ↦ absurd hb List.not_mem_nil⟩
    · rw [if_neg hp] at h
      by_cases hkind : f.kind = .function
      · rw [if_pos hkind] at h
        cases h
      · rw [if_neg hkind] at h
        obtain ⟨gs, hgs, rfl⟩ := Option.map_eq_some_iff.mp h
        obtain ⟨before, g, after, rfl, rfl, hg, hbefore⟩ := ih hgs
        have hf : f.kind ≠ .function ∧ p f = false := ⟨hkind, Bool.eq_false_iff.mpr hp⟩
        exact ⟨f :: before, g, after, rfl, rfl, hg, List.forall_mem_cons.mpr ⟨hf, hbefore⟩⟩

/-- An assignment to a visible variable writes it where it is, and does nothing else. -/
theorem rewrites_assign (h : (env.valueOf? x).isSome) (v : Value) :
    env.Rewrites x v (env.assign x v) := by
  obtain ⟨inner, global, output⟩ := env
  rw [assign, changeVisible?]
  cases hc : changeUpToFunction (fun f ↦ f.vars.has x) (setVariable x v) inner with
  | some inner' =>
    obtain ⟨before, f, after, rfl, rfl, hf, hbefore⟩ := of_changeUpToFunction hc
    refine .inner (fun b hb ↦ ?_) (rewrites_setVariable hf)
    exact ⟨(hbefore b hb).1, Table.has_eq_false.mp (hbefore b hb).2⟩
  | none =>
    have hinner : ∀ b ∈ upToFunction inner, b.vars.get? x = none := by
      intro b hb
      have hfind := List.find?_eq_none.mp (find?_of_changeUpToFunction hc) b hb
      exact Table.has_eq_false.mp (Bool.eq_false_iff.mpr hfind)
    have hglobal : global.vars.has x := by
      obtain ⟨w, hw⟩ := Option.isSome_iff_exists.mp h
      obtain ⟨f, hf, hfw⟩ := List.exists_of_findSome?_eq_some hw
      rcases List.mem_append.mp hf with hf | hf
      · rw [hinner f hf] at hfw
        cases hfw
      · obtain rfl : f = global := List.mem_singleton.mp hf
        rw [Table.has, hfw, Option.isSome_some]
    rw [if_pos hglobal]
    exact .global hinner (rewrites_setVariable hglobal)

end Environment

end Scriptlet
