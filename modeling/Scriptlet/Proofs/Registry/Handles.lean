import Scriptlet.Registry.Primitive
import Scriptlet.Proofs.Registry.Index
import Mathlib.Data.List.Find

/-!
# Types and handles stay what they are

A bound tree refers to types and members, and what it refers to is looked up again whenever code is
made of it. A type is known by the number that it got when it was declared, a member by its owner
and its place in one of the owner's lists, and both are written into trees while names are declared
again and members are added. They stay right because a registry only grows: no number is given
twice, no definition is replaced, and a list of members only gets longer at its end. A name is the
one thing that can come to denote something else.

What a definition becomes is said exactly: it is the definition there was, with the additions made
to its own type, in their order. Everything else about handles follows from that.
-/

namespace Scriptlet

/-! ## Definitions grow -/

namespace TypeDef

/-- The definition with some additions, one after another. -/
def addAll (d : TypeDef) (as : List Addition) : TypeDef := as.foldl add d

/-- The members of one definition stand at the same places in another one, which may have more of
them behind. -/
structure Within (d e : TypeDef) : Prop where
  fields : d.fields <+: e.fields
  properties : d.properties <+: e.properties
  methods : d.methods <+: e.methods
  constructors : d.constructors <+: e.constructors

variable {d e : TypeDef}

@[simp] theorem ty_add (d : TypeDef) (a : Addition) : (d.add a).ty = d.ty := by
  cases a <;> rfl

theorem Within.refl (d : TypeDef) : d.Within d :=
  ⟨List.prefix_rfl, List.prefix_rfl, List.prefix_rfl, List.prefix_rfl⟩

theorem Within.trans {f : TypeDef} (h : d.Within e) (h' : e.Within f) : d.Within f :=
  ⟨h.fields.trans h'.fields, h.properties.trans h'.properties, h.methods.trans h'.methods,
    h.constructors.trans h'.constructors⟩

theorem within_add (d : TypeDef) (a : Addition) : d.Within (d.add a) := by
  have hrefl := Within.refl d
  cases a with
  | field f => exact { hrefl with fields := List.prefix_append _ _ }
  | property p => exact { hrefl with properties := List.prefix_append _ _ }
  | method m => exact { hrefl with methods := List.prefix_append _ _ }
  | operator name params ret => exact { hrefl with methods := List.prefix_append _ _ }
  | implicit source target => exact { hrefl with methods := List.prefix_append _ _ }
  | constructor params => exact { hrefl with constructors := List.prefix_append _ _ }

theorem within_addAll (d : TypeDef) (as : List Addition) : d.Within (d.addAll as) := by
  induction as generalizing d with
  | nil => exact .refl d
  | cons a as ih => exact (within_add d a).trans (ih (d.add a))

end TypeDef

/-! ## What handles denote -/

/-- The owner of a member. -/
def MemberRef.owner : MemberRef → Ty
  | .field f => f.owner
  | .property p => p.owner
  | .method m => m.owner

/-- The definition of a member of any kind. -/
inductive MemberDef where
  | field (f : FieldDef)
  | property (p : PropertyDef)
  | method (m : MethodDef)
deriving DecidableEq

/-- The member of a definition that a handle with its owner denotes. -/
def TypeDef.denoted? (d : TypeDef) : MemberRef → Option MemberDef
  | .field f => (d.fields[f.index]?).map .field
  | .property p => (d.properties[p.index]?).map .property
  | .method m =>
    (if m.constructor then d.constructors[m.index]? else d.methods[m.index]?).map .method

/-- A handle denotes the same member after the definition has grown. -/
theorem TypeDef.Within.denoted? {d e : TypeDef} (h : d.Within e) {m : MemberRef} {x : MemberDef}
    (hx : d.denoted? m = some x) : e.denoted? m = some x := by
  cases m with
  | field f =>
    obtain ⟨y, hy, rfl⟩ := Option.map_eq_some_iff.mp hx
    exact Option.map_eq_some_iff.mpr ⟨y, getElem?_of_prefix h.fields hy, rfl⟩
  | property p =>
    obtain ⟨y, hy, rfl⟩ := Option.map_eq_some_iff.mp hx
    exact Option.map_eq_some_iff.mpr ⟨y, getElem?_of_prefix h.properties hy, rfl⟩
  | method m =>
    obtain ⟨y, hy, rfl⟩ := Option.map_eq_some_iff.mp hx
    refine Option.map_eq_some_iff.mpr ⟨y, ?_, rfl⟩
    cases hm : m.constructor with
    | true =>
      rw [hm, if_pos rfl] at hy
      exact getElem?_of_prefix h.constructors hy
    | false =>
      rw [hm, if_neg Bool.false_ne_true] at hy
      exact getElem?_of_prefix h.methods hy

/-! ## One step of a registry -/

/-- What a step adds to a type. -/
def RegistryStep.addition? (ty : Ty) : RegistryStep → Option Addition
  | .add t a => if t = ty then some a else none
  | _ => none

/-- What some steps add to a type, in order. -/
def additions (ty : Ty) (steps : List RegistryStep) : List Addition :=
  steps.filterMap (RegistryStep.addition? ty)

namespace Registry

variable {r r' : Registry} {ty other : Ty} {d : TypeDef} {name : String}

/-- What a handle denotes. -/
def denoted? (r : Registry) : MemberRef → Option MemberDef
  | .field f => (r.field? f).map .field
  | .property p => (r.property? p).map .property
  | .method m => (r.method? m).map .method

/-- The type has a definition, or a name denotes it. -/
def Knows (r : Registry) (ty : Ty) : Prop :=
  (r.def? ty).isSome ∨ ∃ name, r.resolve? name = some ty

theorem denoted?_eq (r : Registry) (m : MemberRef) :
    r.denoted? m = (r.def? m.owner).bind (·.denoted? m) := by
  cases m with
  | field f =>
    rw [denoted?, field?, MemberRef.owner]
    cases r.def? f.owner <;> rfl
  | property p =>
    rw [denoted?, property?, MemberRef.owner]
    cases r.def? p.owner <;> rfl
  | method m =>
    rw [denoted?, method?, MemberRef.owner]
    cases r.def? m.owner <;> rfl

theorem run_append (r : Registry) (before after : List RegistryStep) :
    r.run (before ++ after) = (r.run before).run after :=
  List.foldl_append

theorem def?_change (r : Registry) (ty other : Ty) {f : TypeDef → TypeDef}
    (hf : ∀ d, (f d).ty = d.ty) :
    (r.change ty f).def? other = (r.def? other).map fun d ↦ if other = ty then f d else d := by
  have hkey : ((fun d : TypeDef ↦ decide (d.ty = other)) ∘ fun d ↦ if d.ty = ty then f d else d) =
      fun d ↦ decide (d.ty = other) := by
    funext d
    simp only [Function.comp]
    split
    · rw [hf]
    · rfl
  rw [change, def?, def?, List.find?_map, hkey]
  -- a definition that is found is that of the type that was looked up
  refine Option.map_congr fun d hd ↦ ?_
  have hty : d.ty = other := by simpa using List.find?_some hd
  rw [hty]

theorem def?_declare (r : Registry) (name : String) (ty : Ty) :
    (r.declare name).def? ty =
      (r.def? ty).or (if r.fresh name = ty then some (.ofTy ty) else none) := by
  rw [declare, def?, def?, List.find?_append]
  congr 1
  by_cases h : r.fresh name = ty
  · rw [if_pos h, ← h]
    exact List.find?_cons_of_pos (decide_eq_true rfl)
  · rw [if_neg h]
    exact List.find?_cons_of_neg (fun hty ↦ h (of_decide_eq_true hty))

/-- A step keeps a definition, but for what it adds to its type. -/
theorem def?_step (h : r.def? ty = some d) (s : RegistryStep) :
    (r.step s).def? ty = some (d.addAll (additions ty [s])) := by
  cases s with
  | declare name =>
    rw [step, def?_declare, h]
    rfl
  | add t a =>
    rw [step, def?_change _ _ _ (TypeDef.ty_add · a), h, additions, List.filterMap_cons,
      RegistryStep.addition?]
    by_cases ht : t = ty
    · rw [if_pos ht, Option.map_some, if_pos ht.symm]
      rfl
    · rw [if_neg ht, Option.map_some, if_neg (Ne.symm ht)]
      rfl
  | query t name kinds => exact h

theorem def?_run (h : r.def? ty = some d) (steps : List RegistryStep) :
    (r.run steps).def? ty = some (d.addAll (additions ty steps)) := by
  induction steps generalizing r d with
  | nil => exact h
  | cons s steps ih =>
    have hsteps : additions ty (s :: steps) = additions ty [s] ++ additions ty steps :=
      List.filterMap_append (l := [s])
    rw [hsteps, TypeDef.addAll, List.foldl_append]
    exact ih (def?_step h s)

theorem isSome_def?_run (h : (r.def? ty).isSome) (steps : List RegistryStep) :
    ((r.run steps).def? ty).isSome := by
  obtain ⟨d, hd⟩ := Option.isSome_iff_exists.mp h
  rw [def?_run hd]
  rfl

/-! ## Numbers are given once -/

/-- Declared types have numbers below the next one, and no name denotes a type without a
definition. -/
structure Numbered (r : Registry) : Prop where
  below : ∀ d ∈ r.defs, ∀ i name, d.ty = .named i name → i < r.nextId
  named : ∀ name ty, r.resolve? name = some ty → (r.def? ty).isSome

theorem numbered_primitive : primitive.Numbered where
  below d hd i name hty := by
    have hnone : (primitive.defs.all fun d ↦ match d.ty with
        | .named .. => false
        | _ => true) = true := by decide
    have hnamed := List.all_eq_true.mp hnone d hd
    rw [hty] at hnamed
    cases hnamed
  named name ty h := by
    obtain ⟨d, hd, hname⟩ := List.mem_map.mp (Table.mem_of_get? h)
    obtain ⟨-, rfl⟩ := Prod.mk.inj hname
    exact List.find?_isSome.mpr ⟨d, hd, decide_eq_true rfl⟩

theorem resolve?_declare (r : Registry) (name other : String) :
    (r.declare name).resolve? other =
      if other = name then some (r.fresh name) else r.resolve? other :=
  Table.get?_put _ _ _ _

theorem Numbered.declare (h : r.Numbered) (name : String) : (r.declare name).Numbered where
  below d hd i n hty := by
    rcases List.mem_append.mp hd with hd | hd
    · exact Nat.lt_succ_of_lt (h.below d hd i n hty)
    · rw [List.mem_singleton.mp hd] at hty
      obtain ⟨rfl, -⟩ := Ty.named.inj hty
      exact Nat.lt_succ_self _
  named n ty hn := by
    rw [resolve?_declare] at hn
    rw [def?_declare, Option.isSome_or]
    split at hn
    · rw [if_pos (Option.some.inj hn), Option.isSome_some, Bool.or_true]
    · rw [h.named n ty hn, Bool.true_or]

theorem Numbered.change (h : r.Numbered) (ty : Ty) {f : TypeDef → TypeDef}
    (hf : ∀ d, (f d).ty = d.ty) : (r.change ty f).Numbered where
  below d hd i n hty := by
    obtain ⟨d', hd', rfl⟩ := List.mem_map.mp hd
    have hsame : (if d'.ty = ty then f d' else d').ty = d'.ty := by
      split
      · exact hf d'
      · rfl
    exact h.below d' hd' i n (hsame.symm.trans hty)
  named n t hn := by
    rw [def?_change _ _ _ hf, Option.isSome_map]
    exact h.named n t hn

theorem Numbered.step (h : r.Numbered) (s : RegistryStep) : (r.step s).Numbered := by
  cases s with
  | declare name => exact h.declare name
  | add ty a => exact h.change ty (TypeDef.ty_add · a)
  | query ty name kinds => exact h

theorem Numbered.run (h : r.Numbered) (steps : List RegistryStep) : (r.run steps).Numbered := by
  induction steps generalizing r with
  | nil => exact h
  | cons s steps ih => exact ih (h.step s)

theorem Numbered.isSome_def? (h : r.Numbered) (hty : r.Knows ty) : (r.def? ty).isSome := by
  rcases hty with hdef | ⟨name, hname⟩
  · exact hdef
  · exact h.named name ty hname

theorem Numbered.def?_fresh (h : r.Numbered) (name : String) : r.def? (r.fresh name) = none := by
  refine List.find?_eq_none.mpr fun d hd hty ↦ ?_
  exact Nat.lt_irrefl _ (h.below d hd _ _ (of_decide_eq_true hty))

/-- The type that a declaration makes was not known. -/
theorem Numbered.not_knows_fresh (h : r.Numbered) (name : String) : ¬r.Knows (r.fresh name) := by
  intro hknown
  have hdef := h.isSome_def? hknown
  rw [h.def?_fresh] at hdef
  cases hdef

theorem Numbered.knows_run (h : r.Numbered) (hty : r.Knows ty) (steps : List RegistryStep) :
    (r.run steps).Knows ty :=
  .inl (isSome_def?_run (h.isSome_def? hty) steps)

theorem Numbered.def?_declare_fresh (h : r.Numbered) (name : String) :
    (r.declare name).def? (r.fresh name) = some (.ofTy (r.fresh name)) := by
  rw [def?_declare, h.def?_fresh, if_pos rfl]
  rfl

/-! ## Names -/

theorem resolve?_step {s : RegistryStep} (h : s ≠ .declare name) :
    (r.step s).resolve? name = r.resolve? name := by
  cases s with
  | declare n =>
    rw [step, resolve?_declare, if_neg]
    rintro rfl
    exact h rfl
  | add ty a => rfl
  | query ty n kinds => rfl

/-- A name denotes the same type until it is declared again. -/
theorem resolve?_run {steps : List RegistryStep} (h : .declare name ∉ steps) :
    (r.run steps).resolve? name = r.resolve? name := by
  induction steps generalizing r with
  | nil => rfl
  | cons s steps ih =>
    have hs : s ≠ .declare name := (List.ne_of_not_mem_cons h).symm
    exact (ih (List.not_mem_of_not_mem_cons h)).trans (resolve?_step hs)

/-! ## Additions stay with their type -/

/-- Two registries in which only the members of one type may differ. -/
structure AlikeBut (ty : Ty) (r r' : Registry) : Prop where
  nextId : r.nextId = r'.nextId
  def? : ∀ other, other ≠ ty → r.def? other = r'.def? other

theorem alikeBut_add (r : Registry) (ty : Ty) (a : Addition) :
    AlikeBut ty r (r.step (.add ty a)) where
  nextId := rfl
  def? other h := by
    rw [step, def?_change _ _ _ (TypeDef.ty_add · a)]
    simp [h]

theorem AlikeBut.step (h : AlikeBut ty r r') (s : RegistryStep) :
    AlikeBut ty (r.step s) (r'.step s) := by
  cases s with
  | declare name =>
    refine ⟨congrArg (· + 1) h.nextId, fun other hother ↦ ?_⟩
    rw [Registry.step, Registry.step, def?_declare, def?_declare, h.def? other hother, fresh, fresh,
      h.nextId]
  | add t a =>
    refine ⟨h.nextId, fun other hother ↦ ?_⟩
    rw [Registry.step, Registry.step, def?_change _ _ _ (TypeDef.ty_add · a),
      def?_change _ _ _ (TypeDef.ty_add · a), h.def? other hother]
  | query t name kinds => exact h

theorem AlikeBut.run (h : AlikeBut ty r r') (steps : List RegistryStep) :
    AlikeBut ty (r.run steps) (r'.run steps) := by
  induction steps generalizing r r' with
  | nil => exact h
  | cons s steps ih => exact ih (h.step s)

/-! ## What queries find -/

/-- What a query finds on a type belongs to it and is there. -/
theorem denoted_of_mem_members {kinds : MemberKinds} {m : MemberRef}
    (h : m ∈ r.members ty name kinds) : m.owner = ty ∧ (r.denoted? m).isSome := by
  obtain ⟨d, slot, names, hd, rfl, -, hnames, -⟩ := of_mem_members h
  cases slot with
  | field i =>
    obtain ⟨f, hf, -⟩ := Option.map_eq_some_iff.mp hnames
    exact ⟨rfl, by simp [denoted?, field?, MemberSlot.of, hd, hf]⟩
  | property i =>
    obtain ⟨p, hp, -⟩ := Option.map_eq_some_iff.mp hnames
    exact ⟨rfl, by simp [denoted?, property?, MemberSlot.of, hd, hp]⟩
  | method i =>
    obtain ⟨m, hm, -⟩ := Option.map_eq_some_iff.mp hnames
    exact ⟨rfl, by simp [denoted?, method?, MemberSlot.of, hd, hm]⟩

theorem denoted_of_live {m : MethodRef} {d : MethodDef} (h : r.method? m = some d) :
    (r.denoted? (.method m)).isSome := by
  rw [denoted?, h]
  rfl

theorem members_congr (h : r.def? ty = r'.def? ty) (name : String) (kinds : MemberKinds) :
    r.members ty name kinds = r'.members ty name kinds := by
  rw [members, members, h]

theorem methods_congr (h : r.def? ty = r'.def? ty) (name : String) :
    r.methods ty name = r'.methods ty name := by
  rw [methods, methods, members_congr h]

theorem constructors_congr (h : r.def? ty = r'.def? ty) :
    r.constructors ty = r'.constructors ty := by
  rw [constructors, constructors, h]

theorem conversionOf?_congr (h : r.def? ty = r'.def? ty) (source target : Ty) :
    r.conversionOf? ty source target = r'.conversionOf? ty source target := by
  rw [conversionOf?, conversionOf?, ← methods_congr h]
  refine List.find?_congr fun m hm ↦ ?_
  obtain ⟨d, hd⟩ := hasMethod_of_mem_methods hm
  rw [method?, method?, hd.owner_eq, h]

end Registry

namespace IndexedRegistry

/-- A registry after some steps, with the indices that queries have left behind. -/
def after (steps : List RegistryStep) : IndexedRegistry := (ofRegistry .primitive).run steps

theorem members_after (steps : List RegistryStep) (ty : Ty) (name : String) (kinds : MemberKinds) :
    ((after steps).members ty name kinds).1 =
      (Registry.primitive.run steps).members ty name kinds := by
  rw [after, ((upToDate_ofRegistry _).run steps).members_eq, plain_run, plain_ofRegistry,
    Registry.members_eq_scan]

end IndexedRegistry

/-! ## Histories -/

namespace Registry

/-- The handle was found on a type after some steps: by a query, among the constructors, or as an
implicit conversion. -/
inductive Found (steps : List RegistryStep) (ty : Ty) : MemberRef → Prop
  | member {name : String} {kinds : MemberKinds} {m : MemberRef}
      (h : m ∈ ((IndexedRegistry.after steps).members ty name kinds).1) : Found steps ty m
  | method {name : String} {m : MethodRef} (h : m ∈ (primitive.run steps).methods ty name) :
      Found steps ty (.method m)
  | constructor {m : MethodRef} (h : m ∈ (primitive.run steps).constructors ty) :
      Found steps ty (.method m)
  | conversion {source target : Ty} {m : MethodRef}
      (h : (primitive.run steps).conversionOf? ty source target = some m) :
      Found steps ty (.method m)

theorem Found.denoted {steps : List RegistryStep} {ty : Ty} {m : MemberRef} (h : Found steps ty m) :
    m.owner = ty ∧ ((primitive.run steps).denoted? m).isSome := by
  cases h with
  | member h =>
    rw [IndexedRegistry.members_after] at h
    exact denoted_of_mem_members h
  | method h =>
    obtain ⟨d, hd⟩ := hasMethod_of_mem_methods h
    exact ⟨hd.owner_eq, denoted_of_live hd.live⟩
  | constructor h =>
    obtain ⟨d, hd⟩ := hasConstructor_of_mem_constructors h
    exact ⟨hd.owner_eq, denoted_of_live hd.live⟩
  | conversion h =>
    obtain ⟨d, hd⟩ := hasMethod_of_mem_methods (List.mem_of_find?_eq_some h)
    exact ⟨hd.owner_eq, denoted_of_live hd.live⟩

/-- What is found on a type depends on its definition only. -/
theorem Found.congr {steps steps' : List RegistryStep} {ty : Ty} {m : MemberRef}
    (h : (primitive.run steps).def? ty = (primitive.run steps').def? ty) (hm : Found steps ty m) :
    Found steps' ty m := by
  cases hm with
  | member hm =>
    rw [IndexedRegistry.members_after, members_congr h, ← IndexedRegistry.members_after] at hm
    exact .member hm
  | method hm => exact .method (methods_congr h _ ▸ hm)
  | constructor hm => exact .constructor (constructors_congr h ▸ hm)
  | conversion hm => exact .conversion ((conversionOf?_congr h _ _).symm.trans hm)

theorem found_of_implicit? {steps : List RegistryStep} {source target : Ty} {m : MethodRef}
    (h : (primitive.run steps).implicit? source target = some m) :
    Found steps source (.method m) ∨ Found steps target (.method m) := by
  rw [implicit?] at h
  cases hs : (primitive.run steps).conversionOf? source source target with
  | some m' =>
    rw [hs] at h
    obtain rfl := Option.some.inj h
    exact .inl (.conversion hs)
  | none =>
    rw [hs] at h
    exact .inr (.conversion h)

/-- What a registry has and finds after some steps, and what becomes of it when others follow. -/
structure Stable (before after : List RegistryStep) : Prop where
  /-- A declaration makes a type that was not known, and that has no members. -/
  fresh : ∀ name,
    let ty := (primitive.run before).fresh name
    ¬(primitive.run before).Knows ty ∧
      (primitive.run (before ++ [.declare name])).def? ty = some (.ofTy ty)
  /-- A type that is known stays known, also when its name denotes another one. -/
  known : ∀ ty, (primitive.run before).Knows ty → (primitive.run (before ++ after)).Knows ty
  /-- A name denotes the type that its latest declaration has made. -/
  latest : ∀ name, .declare name ∉ after →
    (primitive.run (before ++ .declare name :: after)).resolve? name =
      some ((primitive.run before).fresh name)
  /-- A name that was never declared denotes what it denotes in every registry. -/
  undeclared : ∀ name, .declare name ∉ before →
    (primitive.run before).resolve? name = primitive.resolve? name
  /-- A definition becomes that with the additions to its type, in their order. -/
  grown : ∀ ty d, (primitive.run before).def? ty = some d →
    (primitive.run (before ++ after)).def? ty = some (d.addAll (additions ty after))
  /-- An addition to one type makes no difference to what is found on another one, then or later. -/
  apart : ∀ ty a other, other ≠ ty →
    (primitive.run (before ++ .add ty a :: after)).def? other =
        (primitive.run (before ++ after)).def? other ∧
      ∀ m, Found (before ++ .add ty a :: after) other m ↔ Found (before ++ after) other m
  /-- What is found on a type belongs to it, and is there. -/
  found : ∀ ty m, Found before ty m →
    m.owner = ty ∧ ((primitive.run before).denoted? m).isSome
  /-- An implicit conversion is found on one of its two types. -/
  conversion : ∀ source target m, (primitive.run before).implicit? source target = some m →
    Found before source (.method m) ∨ Found before target (.method m)
  /-- What a handle denotes it denotes for ever. -/
  denoted : ∀ m x, (primitive.run before).denoted? m = some x →
    (primitive.run (before ++ after)).denoted? m = some x

/-- Whatever is declared, added and asked, types and handles stay what they are, and names denote
what they were last declared to. -/
theorem identities_and_handles_stable (before after : List RegistryStep) : Stable before after := by
  have hnumbered : (primitive.run before).Numbered := numbered_primitive.run before
  refine ⟨fun name ↦ ⟨hnumbered.not_knows_fresh name, ?_⟩, fun ty hty ↦ ?_, fun name hname ↦ ?_,
    fun name hname ↦ resolve?_run hname, fun ty d hd ↦ ?_, fun ty a other hother ↦ ?_,
    fun ty m ↦ Found.denoted, fun _ _ _ ↦ found_of_implicit?, fun m x hx ↦ ?_⟩
  · rw [run_append]
    exact hnumbered.def?_declare_fresh name
  · rw [run_append]
    exact hnumbered.knows_run hty after
  · rw [run_append]
    exact (resolve?_run hname).trans (by rw [step, resolve?_declare, if_pos rfl])
  · rw [run_append]
    exact def?_run hd after
  · have halike := ((alikeBut_add (primitive.run before) ty a).run after).def? other hother
    have hdef : (primitive.run (before ++ .add ty a :: after)).def? other =
        (primitive.run (before ++ after)).def? other := by
      rw [run_append, run_append]
      exact halike.symm
    exact ⟨hdef, fun m ↦ ⟨Found.congr hdef, Found.congr hdef.symm⟩⟩
  · rw [denoted?_eq] at hx ⊢
    obtain ⟨d, hd, hx⟩ := Option.bind_eq_some_iff.mp hx
    rw [run_append, def?_run hd after]
    exact (TypeDef.within_addAll d _).denoted? hx

/-- A name is declared twice, and one is that of a primitive type. The field of the first type is
still there afterwards, though its name denotes another type, on which it is not found. -/
theorem identities_and_handles_stable_of_twice :
    let first : Ty := .named 0 "Point"
    let x : FieldDef := ⟨.ofName "x", .int, false⟩
    let before : List RegistryStep := [.declare "Point"]
    let after : List RegistryStep := [.query first "x" .all, .declare "int", .declare "Point",
      .add first (.constructor [.int])]
    let r := primitive.run (before ++ .add first (.field x) :: after)
    Found (before ++ [.add first (.field x)]) first (.field ⟨first, 0⟩) ∧
      r.denoted? (.field ⟨first, 0⟩) = some (.field x) ∧
      r.resolve? "Point" = some (.named 2 "Point") ∧ r.resolve? "int" = some (.named 1 "int") ∧
      ¬(primitive.run [.declare "Point"]).Knows (.named 1 "int") ∧
      ¬Found (before ++ .add first (.field x) :: after) (.named 2 "Point") (.field ⟨first, 0⟩) := by
  intro first x before after r
  have hmember : .field ⟨first, 0⟩ ∈
      ((IndexedRegistry.after (before ++ [.add first (.field x)])).members first "x" .all).1 := by
    decide +kernel
  have hlater := identities_and_handles_stable (before ++ [.add first (.field x)]) after
  have hdenoted := hlater.denoted (.field ⟨first, 0⟩) (.field x) (by decide +kernel)
  have htwice := (identities_and_handles_stable
    (before ++ [.add first (.field x), .query first "x" .all, .declare "int"])
    [.add first (.constructor [.int])]).latest "Point" (by decide)
  have hint := (identities_and_handles_stable
    (before ++ [.add first (.field x), .query first "x" .all])
    [.declare "Point", .add first (.constructor [.int])]).latest "int" (by decide)
  refine ⟨.member hmember, hdenoted, htwice, hint,
    ((identities_and_handles_stable before []).fresh "int").1, fun hother ↦ ?_⟩
  have howner := ((identities_and_handles_stable
    (before ++ .add first (.field x) :: after) []).found _ _ hother).1
  exact absurd howner (by decide)

end Registry

end Scriptlet
