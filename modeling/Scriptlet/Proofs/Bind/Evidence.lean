import Scriptlet.Bind.Target

/-!
# Evidence for conversions and calls

What binding writes beside an argument is evidence that the argument goes where it goes: nothing if
it fits as it is, and otherwise a conversion between exactly the two types, whose method is there.
This module says when such evidence is valid, without reference to how it is found, and then that
every choice of a method or a conversion comes with valid evidence.
-/

namespace Scriptlet

/-! ## What counts as evidence -/

/-- A value of the first type can stand where the second is wanted, as it is. -/
def Ty.FitsAsIs (arg param : Ty) : Prop :=
  arg = param ∨ arg = .null ∧ param.isReference

namespace Registry

/-- The handle denotes a method of a type that answers to a name. -/
structure HasMethod (r : Registry) (owner : Ty) (name : String) (m : MethodRef)
    (d : MethodDef) : Prop where
  owner_eq : m.owner = owner
  isMethod : m.constructor = false
  live : r.method? m = some d
  answers : d.name.answersTo name

/-- The handle denotes a constructor of a type. -/
structure HasConstructor (r : Registry) (owner : Ty) (m : MethodRef) (d : MethodDef) : Prop where
  owner_eq : m.owner = owner
  isConstructor : m.constructor = true
  live : r.method? m = some d

/-- The conversion is made by a method of one of its two types that takes the one and returns the
other. -/
def Converts (r : Registry) (c : Conversion) : Prop :=
  ∃ d, (r.HasMethod c.source implicitName c.method d ∨
      r.HasMethod c.target implicitName c.method d) ∧
    d.params = [c.source] ∧ d.ret = c.target ∧ d.intrinsic = c.intrinsic

/-- What is recorded beside an argument is right: nothing exactly if it fits as it is, and else a
conversion from its type to that of the parameter. -/
def Fits (r : Registry) (arg param : Ty) : Option Conversion → Prop
  | none => arg.FitsAsIs param
  | some c => ¬arg.FitsAsIs param ∧ c.source = arg ∧ c.target = param ∧ r.Converts c

/-- There is one entry per argument and one argument per parameter, and each entry is right. -/
inductive FitAll (r : Registry) : List Ty → List Ty → Conversions → Prop where
  | nil : FitAll r [] [] []
  | cons {arg param : Ty} {args params : List Ty} {c : Option Conversion} {cs : Conversions}
      (head : r.Fits arg param c) (tail : FitAll r args params cs) :
      FitAll r (arg :: args) (param :: params) (c :: cs)

theorem FitAll.length_eq {r : Registry} {args params : List Ty} {cs : Conversions}
    (h : r.FitAll args params cs) : cs.length = args.length ∧ params.length = args.length := by
  induction h with
  | nil => exact ⟨rfl, rfl⟩
  | cons _ _ ih => simp [ih.1, ih.2]

theorem FitAll.of_pair {r : Registry} {left right : Ty} {params : List Ty} {cs : Conversions}
    (h : r.FitAll [left, right] params cs) :
    ∃ p q c d, params = [p, q] ∧ cs = [c, d] ∧ r.Fits left p c ∧ r.Fits right q d := by
  cases h with
  | cons head tail =>
    cases tail with
    | cons head' tail =>
      cases tail
      exact ⟨_, _, _, _, rfl, rfl, head, head'⟩

/-- The binding is a field or a property of a type that answers to a name. -/
def HasMember (r : Registry) (owner : Ty) (name : String) : Binding → Prop
  | .field f ty isStatic => f.owner = owner ∧
      ∃ d, r.field? f = some d ∧ d.name.answersTo name ∧ d.ty = ty ∧ d.isStatic = isStatic
  | .property p ty isStatic writable => p.owner = owner ∧
      ∃ d, r.property? p = some d ∧ d.name.answersTo name ∧ d.ty = ty ∧ d.isStatic = isStatic ∧
        d.canWrite = writable
  | _ => False

/-! ## Handles are live -/

variable {r : Registry} {owner : Ty} {name : String}

theorem mem_of_mem_dropRepeats {α : Type} [DecidableEq α] {a : α} {as : List α}
    (h : a ∈ dropRepeats as) : a ∈ as := by
  fun_induction dropRepeats as with
  | case1 => exact h
  | case2 => exact h
  | case3 b bs ih => exact List.mem_cons_of_mem _ (ih h)
  | case4 b c bs _ ih =>
    rcases List.mem_cons.mp h with rfl | h
    · exact List.mem_cons_self
    · exact List.mem_cons_of_mem _ (ih h)

/-- Whatever a query finds is a member that is there and answers to the name. -/
theorem of_mem_members {kinds : MemberKinds} {m : MemberRef}
    (h : m ∈ r.members owner name kinds) :
    ∃ d slot names, r.def? owner = some d ∧ m = slot.of owner ∧ kinds.admits slot ∧
      d.nameOf? slot = some names ∧ names.answersTo name := by
  rw [members] at h
  rcases hd : r.def? owner with _ | d
  · simp [hd] at h
  · simp only [hd] at h
    obtain ⟨slot, hslot, rfl⟩ := List.mem_map.mp h
    obtain ⟨-, hfound⟩ := List.mem_filter.mp (mem_of_mem_dropRepeats hslot)
    rw [Bool.and_eq_true] at hfound
    obtain ⟨names, hnames, hanswers⟩ := (Option.any_eq_true _ _).mp hfound.2
    exact ⟨d, slot, names, rfl, rfl, hfound.1, hnames, hanswers⟩

theorem hasMethod_of_mem_methods {m : MethodRef} (h : m ∈ r.methods owner name) :
    ∃ d, r.HasMethod owner name m d := by
  rw [methods, List.mem_filterMap] at h
  obtain ⟨ref, href, hm⟩ := h
  obtain ⟨d, slot, names, hd, rfl, hadmits, hnames, hanswers⟩ := of_mem_members href
  cases slot with
  | field i => cases hadmits
  | property i => cases hadmits
  | method i =>
    obtain rfl := Option.some.inj hm
    obtain ⟨def', hdef, rfl⟩ := Option.map_eq_some_iff.mp hnames
    exact ⟨def', rfl, rfl, by simp [method?, hd, hdef], hanswers⟩

/-- A member that is there has one definition. -/
theorem hasMethod_of_live {m : MethodRef} {d : MethodDef} (h : m ∈ r.methods owner name)
    (hlive : r.method? m = some d) : r.HasMethod owner name m d := by
  obtain ⟨d', hd'⟩ := hasMethod_of_mem_methods h
  obtain rfl : d' = d := Option.some.inj (hd'.live.symm.trans hlive)
  exact hd'

theorem hasConstructor_of_mem_constructors {m : MethodRef} (h : m ∈ r.constructors owner) :
    ∃ d, r.HasConstructor owner m d := by
  rw [constructors] at h
  rcases hd : r.def? owner with _ | d
  · simp [hd] at h
  · simp only [hd] at h
    obtain ⟨i, hi, rfl⟩ := List.mem_map.mp h
    rw [List.mem_range] at hi
    exact ⟨d.constructors[i], rfl, rfl, by simp [method?, hd, hi]⟩

theorem hasMember_of_member? {staticOnly : Bool} {b : Binding}
    (h : r.member? owner name staticOnly = some b) :
    r.HasMember owner name b ∧ (staticOnly → b.needsInstance = false) := by
  rw [member?] at h
  obtain ⟨ref, href, hb⟩ := List.exists_of_findSome?_eq_some h
  obtain ⟨d, slot, names, hd, rfl, hadmits, hnames, hanswers⟩ := of_mem_members href
  cases slot with
  | field i =>
    obtain ⟨f, hf, rfl⟩ := Option.map_eq_some_iff.mp hnames
    have hlive : r.field? ⟨owner, i⟩ = some f := by simp [field?, hd, hf]
    simp only [MemberSlot.of, hlive, Option.bind_eq_bind, Option.bind_some] at hb
    split at hb
    · cases hb
    · rename_i hstatic
      obtain rfl := Option.some.inj hb
      refine ⟨⟨rfl, f, hlive, hanswers, rfl, rfl⟩, fun hs ↦ ?_⟩
      simpa [hs, Binding.needsInstance] using hstatic
  | property i =>
    obtain ⟨p, hp, rfl⟩ := Option.map_eq_some_iff.mp hnames
    have hlive : r.property? ⟨owner, i⟩ = some p := by simp [property?, hd, hp]
    simp only [MemberSlot.of, hlive, Option.bind_eq_bind, Option.bind_some] at hb
    split at hb
    · cases hb
    · rename_i hstatic
      obtain rfl := Option.some.inj hb
      refine ⟨⟨rfl, p, hlive, hanswers, rfl, rfl, rfl⟩, fun hs ↦ ?_⟩
      simpa [hs, Binding.needsInstance] using hstatic
  | method i => cases hadmits

/-! ## Conversions and overloads come with evidence -/

variable {arg param : Ty} {args params : List Ty} {l : Location}

theorem converts_of_implicit? {m : MethodRef} (h : r.implicit? arg param = some m) :
    r.Converts ⟨m, arg, param, (r.method? m).any MethodDef.intrinsic⟩ := by
  have hof : ∀ owner : Ty, r.conversionOf? owner arg param = some m →
      ∃ d, r.HasMethod owner implicitName m d ∧ d.params = [arg] ∧ d.ret = param := by
    intro owner ho
    rw [conversionOf?] at ho
    obtain ⟨d, hd⟩ := hasMethod_of_mem_methods (List.mem_of_find?_eq_some ho)
    have hfound := List.find?_some ho
    rw [hd.live, Option.any_some, Bool.and_eq_true, decide_eq_true_eq, decide_eq_true_eq] at hfound
    exact ⟨d, hd, hfound.1, hfound.2⟩
  rw [implicit?] at h
  rcases hs : r.conversionOf? arg arg param with _ | m'
  · rw [hs] at h
    obtain ⟨d, hd, hp, hr⟩ := hof param h
    exact ⟨d, .inr hd, hp, hr, by simp [hd.live]⟩
  · rw [hs] at h
    obtain rfl := Option.some.inj h
    obtain ⟨d, hd, hp, hr⟩ := hof arg hs
    exact ⟨d, .inl hd, hp, hr, by simp [hd.live]⟩

theorem fits_of_fit {c : Option Conversion} (h : r.fit arg param = some c) :
    r.Fits arg param c := by
  rw [fit] at h
  split at h
  · rename_i heq
    obtain rfl := Option.some.inj h
    exact .inl heq
  · rename_i hne
    split at h
    · rename_i hnull
      obtain rfl := Option.some.inj h
      exact .inr (by simpa using hnull)
    · rename_i hnull
      obtain ⟨m, hm, rfl⟩ := Option.map_eq_some_iff.mp h
      refine ⟨?_, rfl, rfl, converts_of_implicit? hm⟩
      rintro (heq | ⟨rfl, href⟩)
      · exact hne heq
      · simp [href] at hnull

theorem fits_of_convert {c : Option Conversion} (h : r.convert arg param l = .ok c) :
    r.Fits arg param c := by
  rw [convert] at h
  split at h
  · rename_i c' hc
    obtain rfl := Except.ok.inj h
    exact fits_of_fit hc
  · cases h

theorem fitAll_of_fitAll {cs : Conversions} (hlen : params.length = args.length)
    (h : r.fitAll args params = some cs) : r.FitAll args params cs := by
  induction args generalizing params cs with
  | nil =>
    obtain rfl := List.length_eq_zero_iff.mp hlen
    obtain rfl : [] = cs := by simpa [fitAll] using h
    exact .nil
  | cons a as ih =>
    rcases params with _ | ⟨p, ps⟩
    · cases hlen
    · simp only [fitAll, Option.bind_eq_bind, Option.bind_eq_some_iff] at h
      obtain ⟨c, hc, cs', hcs, hret⟩ := h
      obtain rfl := Option.some.inj hret
      exact .cons (fits_of_fit hc) (ih (by simpa using hlen) hcs)

/-- The best candidate is the best so far or one of the others, and its arguments fit. -/
theorem of_best {κ : Type} {cands : List (Candidate κ)} {sofar : Option (κ × Conversions)}
    {key : κ} {cs : Conversions} (h : Candidate.best r args sofar cands = some (key, cs)) :
    sofar = some (key, cs) ∨
      ∃ cand ∈ cands, cand.key = key ∧ r.fitAll args cand.params = some cs := by
  induction cands generalizing sofar with
  | nil => exact .inl h
  | cons cand cands ih =>
    rw [Candidate.best] at h
    rcases hfit : r.fitAll args cand.params with _ | fits
    · simp only [hfit] at h
      rcases ih h with hs | ⟨other, hmem, hother⟩
      · exact .inl hs
      · exact .inr ⟨other, List.mem_cons_of_mem _ hmem, hother⟩
    · simp only [hfit] at h
      have hnext : ∃ sofar', Candidate.best r args sofar' cands = some (key, cs) ∧
          (sofar' = sofar ∨ sofar' = some (cand.key, fits)) := by
        rcases sofar with _ | ⟨key', old⟩
        · exact ⟨_, h, .inr rfl⟩
        · refine ⟨_, h, ?_⟩
          split
          · exact .inr rfl
          · exact .inl rfl
      obtain ⟨sofar', h, hsofar⟩ := hnext
      rcases ih h with hs | ⟨other, hmem, hother⟩
      · rcases hsofar with rfl | rfl
        · exact .inl hs
        · obtain ⟨rfl, rfl⟩ := Prod.mk.inj (Option.some.inj hs)
          exact .inr ⟨cand, List.mem_cons_self, rfl, hfit⟩
      · exact .inr ⟨other, List.mem_cons_of_mem _ hmem, hother⟩

theorem of_select {κ : Type} {cands : List (Candidate κ)} {key : κ} {cs : Conversions}
    (h : Candidate.select r name cands args l = .ok (key, cs)) :
    ∃ cand ∈ cands, cand.key = key ∧ r.FitAll args cand.params cs := by
  simp only [Candidate.select] at h
  split at h
  · cases h
  · split at h
    · rename_i chosen hbest
      obtain rfl := Except.ok.inj h
      rcases of_best hbest with hnone | ⟨cand, hmem, hkey, hfit⟩
      · cases hnone
      · obtain ⟨hmem, harity⟩ := List.mem_filter.mp hmem
        exact ⟨cand, hmem, hkey, fitAll_of_fitAll (by simpa using harity) hfit⟩
    · cases h

theorem of_select_ofMethods {ms : List MethodRef} {m : MethodRef} {ret : Ty} {cs : Conversions}
    (h : Candidate.select r name (Candidate.ofMethods r ms) args l = .ok ((m, ret), cs)) :
    ∃ d, m ∈ ms ∧ r.method? m = some d ∧ d.ret = ret ∧ r.FitAll args d.params cs := by
  obtain ⟨cand, hmem, hkey, hfit⟩ := of_select h
  rw [Candidate.ofMethods, List.mem_filterMap] at hmem
  obtain ⟨m', hm', hcand⟩ := hmem
  obtain ⟨d, hd, rfl⟩ := Option.map_eq_some_iff.mp hcand
  obtain ⟨rfl, rfl⟩ := Prod.mk.inj hkey
  exact ⟨d, hm', hd, rfl, hfit⟩

end Registry

end Scriptlet
