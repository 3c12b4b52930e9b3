import Scriptlet.Registry.Indexed
import Scriptlet.Proofs.Bind.Evidence
import Scriptlet.Proofs.Table
import Mathlib.Data.List.Nodup

/-!
# Queries are scans

A query goes through an index that may have been built long ago, under keys in which capitals are
gone, and it drops repeats only where they stand side by side. What it ought to find is simple: go
through the members of the definition as it is now, fields before properties before methods, and
take those of the right kind that answer to the name.

The two agree for two reasons. A member stands in the index once for each of its keys, so the
entries of one key are the members in order, each in a run of its own; the entries that fail the
exact rule for names go in whole runs, and dropping repeats leaves one entry of each run that stays.
And an index that is there is the one that would be built now, since whatever changes the members
takes it away.
-/

namespace Scriptlet

/-! ## The scan -/

/-- The members of one list, each with its names, numbered in order. -/
def numbered (slot : ℕ → MemberSlot) (ms : List MemberName) : List (MemberSlot × MemberName) :=
  ms.zipIdx.map fun p ↦ (slot p.2, p.1)

namespace TypeDef

/-- The members with their names: fields, then properties, then methods. -/
def named (d : TypeDef) : List (MemberSlot × MemberName) :=
  numbered .field (d.fields.map FieldDef.name)
    ++ numbered .property (d.properties.map PropertyDef.name)
    ++ numbered .method (d.methods.map MethodDef.name)

/-- The members of some kinds that answer to a name, found by going through all of them. -/
def scan (d : TypeDef) (name : String) (kinds : MemberKinds) : List MemberSlot :=
  (d.named.filter fun p ↦ kinds.admits p.1 && p.2.answersTo name).map Prod.fst

end TypeDef

/-- The members of a type, found by going through the current definition. -/
def Registry.scan (r : Registry) (ty : Ty) (name : String) (kinds : MemberKinds) : List MemberRef :=
  match r.def? ty with
  | none => []
  | some d => (d.scan name kinds).map (·.of ty)

theorem MemberSlot.of_injective (ty : Ty) : Function.Injective (MemberSlot.of ty) := by
  intro a b h
  cases a <;> cases b <;> simp_all [MemberSlot.of]

theorem mem_numbered {slot : ℕ → MemberSlot} {ms : List MemberName} {p : MemberSlot × MemberName} :
    p ∈ numbered slot ms ↔ ∃ i, slot i = p.1 ∧ ms[i]? = some p.2 := by
  rw [numbered, List.mem_map]
  constructor
  · rintro ⟨⟨m, i⟩, hmem, rfl⟩
    exact ⟨i, rfl, List.mk_mem_zipIdx_iff_getElem?.mp hmem⟩
  · rintro ⟨i, hslot, hm⟩
    exact ⟨(p.2, i), List.mk_mem_zipIdx_iff_getElem?.mpr hm, by rw [hslot]⟩

theorem map_fst_numbered (slot : ℕ → MemberSlot) (ms : List MemberName) :
    (numbered slot ms).map Prod.fst = (List.range ms.length).map slot := by
  have hsnd : ms.zipIdx.map Prod.snd = List.range ms.length := by
    rw [List.zipIdx_map_snd, List.range_eq_range']
  rw [numbered, List.map_map, ← hsnd, List.map_map]
  rfl

namespace TypeDef

variable {d : TypeDef} {name : String} {kinds : MemberKinds}

/-- A member stands in the scan's list with the names that its number has. -/
theorem mem_named {p : MemberSlot × MemberName} : p ∈ d.named ↔ d.nameOf? p.1 = some p.2 := by
  obtain ⟨slot, names⟩ := p
  simp only [named, List.mem_append, mem_numbered, List.getElem?_map]
  cases slot <;> simp [nameOf?]

theorem nodup_named (d : TypeDef) : (d.named.map Prod.fst).Nodup := by
  simp only [named, List.map_append, map_fst_numbered]
  refine List.Nodup.append (List.Nodup.append ?_ ?_ ?_) ?_ ?_
  · exact List.nodup_range.map fun _ _ ↦ MemberSlot.field.inj
  · exact List.nodup_range.map fun _ _ ↦ MemberSlot.property.inj
  · simp [List.disjoint_left]
  · exact List.nodup_range.map fun _ _ ↦ MemberSlot.method.inj
  · rw [List.disjoint_append_left]
    exact ⟨by simp [List.disjoint_left], by simp [List.disjoint_left]⟩

/-- What the scan finds, member by member. -/
theorem mem_scan {slot : MemberSlot} : slot ∈ d.scan name kinds ↔
    ∃ names, kinds.admits slot ∧ d.nameOf? slot = some names ∧ names.answersTo name := by
  simp only [scan, List.mem_map, List.mem_filter, mem_named, Bool.and_eq_true]
  constructor
  · rintro ⟨⟨slot', names⟩, ⟨hname, hadmits, hanswers⟩, rfl⟩
    exact ⟨names, hadmits, hname, hanswers⟩
  · rintro ⟨names, hadmits, hname, hanswers⟩
    exact ⟨(slot, names), ⟨hname, hadmits, hanswers⟩, rfl⟩

theorem nodup_scan : (d.scan name kinds).Nodup :=
  (d.nodup_named.sublist (List.filter_sublist.map Prod.fst))

end TypeDef

/-! ## Entries under one key -/

/-- A name that a member answers to is one of its keys, once capitals are gone. -/
theorem MemberName.mem_keys {m : MemberName} {name : String} (h : m.answersTo name) :
    asciiLower name ∈ m.keys := by
  rw [answersTo, Bool.or_eq_true, beq_iff_eq, List.any_eq_true] at h
  rw [keys, List.mem_map]
  rcases h with rfl | ⟨a, ha, hlower⟩
  · exact ⟨m.name, List.mem_cons_self, rfl⟩
  · exact ⟨a, List.mem_cons_of_mem _ ha, beq_iff_eq.mp hlower⟩

theorem indexEntries_eq (slot : ℕ → MemberSlot) (start : ℕ) (ms : List MemberName) :
    indexEntries slot start ms =
      (ms.zipIdx start).flatMap fun p ↦ p.1.keys.map (·, slot p.2) := by
  induction ms generalizing start with
  | nil => rfl
  | cons m ms ih => rw [indexEntries, ih, List.zipIdx_cons, List.flatMap_cons]

/-- The index enters member after member, each under all of its keys. -/
theorem TypeDef.index_eq (d : TypeDef) :
    d.index = d.named.flatMap fun p ↦ p.2.keys.map (·, p.1) := by
  simp only [index, named, numbered, indexEntries_eq, List.flatMap_append, List.flatMap_map]

/-- Under one key a member stands as often as the key is one of its keys. -/
theorem entries_eq (ps : List (MemberSlot × MemberName)) (key : String) :
    ((ps.flatMap fun p ↦ p.2.keys.map (·, p.1)).filter fun e ↦ e.1 == key).map Prod.snd =
      ps.flatMap fun p ↦ List.replicate (p.2.keys.count key) p.1 := by
  rw [List.filter_flatMap, List.map_flatMap]
  refine List.flatMap_congr fun p _ ↦ ?_
  rw [List.filter_map, List.map_map, List.count_eq_length_filter, ← List.map_const']
  rfl

/-- A run of one element becomes that element, if the next one is another. -/
theorem dropRepeats_replicate_append {α : Type} [DecidableEq α] {a : α} {as : List α} (h : a ∉ as)
    (n : ℕ) : dropRepeats (List.replicate (n + 1) a ++ as) = a :: dropRepeats as := by
  induction n with
  | zero =>
    obtain _ | ⟨b, bs⟩ := as
    · rfl
    · have hne : a ≠ b := fun hab ↦ h (hab ▸ List.mem_cons_self)
      simp [dropRepeats, hne]
  | succ n ih =>
    rw [List.replicate_succ, List.cons_append] at ih ⊢
    rw [List.replicate_succ, List.cons_append, dropRepeats, if_pos rfl]
    exact ih

/-- Different elements, each in a run of its own: without repeats, those whose run is not empty. -/
theorem dropRepeats_flatMap_replicate {α β : Type} [DecidableEq β] (f : α → β) (n : α → ℕ)
    {as : List α} (h : (as.map f).Nodup) :
    dropRepeats (as.flatMap fun a ↦ List.replicate (n a) (f a)) =
      (as.filter fun a ↦ 0 < n a).map f := by
  induction as with
  | nil => rfl
  | cons a as ih =>
    obtain ⟨ha, has⟩ := List.nodup_cons.mp (List.map_cons ▸ h)
    rw [List.flatMap_cons]
    rcases hn : n a with _ | k
    · rw [List.filter_cons_of_neg (by simp [hn])]
      exact ih has
    · have hfresh : f a ∉ as.flatMap fun b ↦ List.replicate (n b) (f b) := by
        intro hmem
        obtain ⟨b, hb, hrep⟩ := List.mem_flatMap.mp hmem
        exact ha (List.mem_map.mpr ⟨b, hb, (List.eq_of_mem_replicate hrep).symm⟩)
      rw [dropRepeats_replicate_append hfresh, ih has, List.filter_cons_of_pos (by simp [hn]),
        List.map_cons]

/-- The exact rule for names, applied to the entries of one key, keeps a whole run or nothing of it,
and what it keeps is what the scan finds. -/
theorem TypeDef.dropRepeats_entries (d : TypeDef) (name : String) (kinds : MemberKinds) :
    dropRepeats (((d.index.filter fun e ↦ e.1 == asciiLower name).map Prod.snd).filter fun s ↦
        kinds.admits s && (d.nameOf? s).any fun m ↦ m.answersTo name) = d.scan name kinds := by
  have hruns : ((d.index.filter fun e ↦ e.1 == asciiLower name).map Prod.snd).filter (fun s ↦
        kinds.admits s && (d.nameOf? s).any fun m ↦ m.answersTo name) =
      d.named.flatMap fun p ↦ List.replicate
        (if kinds.admits p.1 && p.2.answersTo name then p.2.keys.count (asciiLower name) else 0)
        p.1 := by
    rw [index_eq, entries_eq, List.filter_flatMap]
    refine List.flatMap_congr fun p hp ↦ ?_
    rw [List.filter_replicate, mem_named.mp hp, Option.any_some]
    split <;> simp
  rw [hruns, dropRepeats_flatMap_replicate Prod.fst _ d.nodup_named, scan]
  congr 1
  refine List.filter_congr fun p _ ↦ ?_
  by_cases hfound : (kinds.admits p.1 && p.2.answersTo name) = true
  · have hkey := MemberName.mem_keys (Bool.and_eq_true_iff.mp hfound).2
    rw [if_pos hfound, hfound, decide_eq_true (List.count_pos_iff.mpr hkey)]
  · rw [if_neg hfound, Bool.not_eq_true _ |>.mp hfound]
    rfl

/-! ## A query of a plain registry -/

theorem Registry.members_eq_scan (r : Registry) (ty : Ty) (name : String) (kinds : MemberKinds) :
    r.members ty name kinds = r.scan ty name kinds := by
  rw [members, scan]
  rcases r.def? ty with _ | d
  · rfl
  · exact congrArg (List.map _) (d.dropRepeats_entries name kinds)

/-! ## Indices that are up to date -/

theorem MemberIndex.get?_foldl_enter (es : List (String × MemberSlot)) (t : MemberIndex)
    (key : String) : ((es.foldl enter t).get? key).getD [] =
      (t.get? key).getD [] ++ (es.filter fun e ↦ e.1 == key).map Prod.snd := by
  induction es generalizing t with
  | nil => simp
  | cons e es ih =>
    rw [List.foldl_cons, ih, enter, Table.get?_put]
    by_cases hkey : key = e.1
    · subst hkey
      simp
    · simp [hkey, Ne.symm hkey]

/-- The index has the entries of each key in the order in which they were entered. -/
theorem TypeDef.get?_memberIndex (d : TypeDef) (key : String) :
    (d.memberIndex.get? key).getD [] = (d.index.filter fun e ↦ e.1 == key).map Prod.snd := by
  rw [memberIndex, MemberIndex.get?_foldl_enter]
  rfl

theorem dropRepeats_map {α β : Type} [DecidableEq α] [DecidableEq β] {f : α → β}
    (hf : Function.Injective f) (as : List α) :
    dropRepeats (as.map f) = (dropRepeats as).map f := by
  fun_induction dropRepeats as with
  | case1 => rfl
  | case2 => rfl
  | case3 a as ih => rw [List.map_cons, List.map_cons, dropRepeats, if_pos rfl, ← ih, List.map_cons]
  | case4 a b as hne ih =>
    rw [List.map_cons, List.map_cons, dropRepeats, if_neg (hf.ne hne), List.map_cons, ← ih,
      List.map_cons]

namespace IndexedDef

/-- The index, if there is one, is the one that would be built now. -/
def UpToDate (d : IndexedDef) : Prop := ∀ t ∈ d.index?, t = d.plain.memberIndex

theorem UpToDate.index_eq {d : IndexedDef} (h : d.UpToDate) : d.index = d.plain.memberIndex := by
  rw [index]
  rcases ht : d.index? with _ | t
  · rfl
  · exact h t ht

theorem upToDate_ofDef (d : TypeDef) : (ofDef d).UpToDate := by
  intro t ht
  cases ht

theorem UpToDate.queried {d : IndexedDef} (h : d.UpToDate) : d.queried.UpToDate := by
  intro t ht
  rw [← Option.some.inj ht]
  exact h.index_eq

/-- An addition takes the index away, or it is one that the index does not know of. -/
theorem UpToDate.add {d : IndexedDef} (h : d.UpToDate) (a : Addition) : (d.add a).UpToDate := by
  cases a with
  | constructor params => exact h
  | _ =>
    intro t ht
    cases ht

@[simp] theorem plain_add (d : IndexedDef) (a : Addition) : (d.add a).plain = d.plain.add a := by
  cases a <;> rfl

@[simp] theorem plain_queried (d : IndexedDef) : d.queried.plain = d.plain := rfl

@[simp] theorem plain_ofDef (d : TypeDef) : (ofDef d).plain = d := rfl

theorem UpToDate.members_eq {d : IndexedDef} (h : d.UpToDate) (ty : Ty) (name : String)
    (kinds : MemberKinds) : d.members ty name kinds = (d.plain.scan name kinds).map (·.of ty) := by
  rw [members, h.index_eq, TypeDef.get?_memberIndex, dropRepeats_map (MemberSlot.of_injective ty),
    TypeDef.dropRepeats_entries]

end IndexedDef

namespace IndexedRegistry

/-- Every definition has an index that is up to date, or none. -/
def UpToDate (r : IndexedRegistry) : Prop := ∀ d ∈ r.defs, d.UpToDate

variable {r : IndexedRegistry}

theorem upToDate_ofRegistry (r : Registry) : (ofRegistry r).UpToDate := by
  intro d hd
  obtain ⟨d', -, rfl⟩ := List.mem_map.mp hd
  exact IndexedDef.upToDate_ofDef d'

theorem plain_ofRegistry (r : Registry) : (ofRegistry r).plain = r := by
  simp [ofRegistry, plain, Function.comp_def]

theorem UpToDate.change (h : r.UpToDate) (ty : Ty) {f : IndexedDef → IndexedDef}
    (hf : ∀ d : IndexedDef, d.UpToDate → (f d).UpToDate) : (r.change ty f).UpToDate := by
  intro d hd
  obtain ⟨d', hd', rfl⟩ := List.mem_map.mp hd
  split
  · exact hf d' (h d' hd')
  · exact h d' hd'

theorem UpToDate.declare (h : r.UpToDate) (name : String) : (r.declare name).UpToDate := by
  intro d hd
  rcases List.mem_append.mp hd with hd | hd
  · exact h d hd
  · rw [List.mem_singleton.mp hd]
    exact IndexedDef.upToDate_ofDef _

theorem plain_change (ty : Ty) {f : IndexedDef → IndexedDef} {g : TypeDef → TypeDef}
    (hf : ∀ d, (f d).plain = g d.plain) : (r.change ty f).plain = r.plain.change ty g := by
  simp only [plain, change, Registry.change, List.map_map, Registry.mk.injEq, and_true]
  refine List.map_congr_left fun d _ ↦ ?_
  simp only [Function.comp]
  split
  · exact hf d
  · rfl

theorem plain_declare (name : String) : (r.declare name).plain = r.plain.declare name := by
  simp [plain, declare, Registry.declare, Registry.fresh]

theorem def?_plain (ty : Ty) : r.plain.def? ty = (r.def? ty).map IndexedDef.plain := by
  rw [plain, Registry.def?, def?, List.find?_map]
  rfl

/-- In an up to date registry a query finds what the scan finds. -/
theorem UpToDate.members_eq (h : r.UpToDate) (ty : Ty) (name : String) (kinds : MemberKinds) :
    (r.members ty name kinds).1 = r.plain.scan ty name kinds := by
  rw [members, Registry.scan, def?_plain]
  rcases hd : r.def? ty with _ | d
  · rfl
  · exact (h d (List.mem_of_find?_eq_some hd)).members_eq ty name kinds

/-! ## Step by step -/

theorem UpToDate.step (h : r.UpToDate) (s : RegistryStep) : (r.step s).UpToDate := by
  cases s with
  | declare name => exact h.declare name
  | add ty a => exact h.change ty fun d hd ↦ hd.add a
  | query ty name kinds =>
    rw [IndexedRegistry.step, members]
    split
    · exact h
    · exact h.change ty fun d hd ↦ hd.queried

theorem plain_step (s : RegistryStep) : (r.step s).plain = r.plain.step s := by
  cases s with
  | declare name => exact plain_declare name
  | add ty a => exact plain_change ty fun d ↦ d.plain_add a
  | query ty name kinds =>
    rw [step, members]
    split
    · rfl
    · have hsame : ∀ d : IndexedDef, d.queried.plain = id d.plain := IndexedDef.plain_queried
      rw [plain_change ty hsame]
      simp [Registry.change, Registry.step]

theorem UpToDate.run (h : r.UpToDate) (steps : List RegistryStep) : (r.run steps).UpToDate := by
  induction steps generalizing r with
  | nil => exact h
  | cons s steps ih => exact ih (h.step s)

theorem plain_run (steps : List RegistryStep) : (r.run steps).plain = r.plain.run steps := by
  induction steps generalizing r with
  | nil => rfl
  | cons s steps ih =>
    rw [run, List.foldl_cons, Registry.run, List.foldl_cons, ← plain_step]
    exact ih

/-- Whatever has been declared, added and asked before, in whatever order, a query finds what going
through the current definition finds: the members of the right kinds that answer to the name, each
once, in their order. -/
theorem members_run_eq_scan (r : Registry) (steps : List RegistryStep) (ty : Ty) (name : String)
    (kinds : MemberKinds) :
    let found := (((ofRegistry r).run steps).members ty name kinds).1
    found = (r.run steps).scan ty name kinds ∧ found = (r.run steps).members ty name kinds ∧
      found.Nodup ∧
      ∀ m, m ∈ found ↔ ∃ d slot names, (r.run steps).def? ty = some d ∧ m = slot.of ty ∧
        kinds.admits slot ∧ d.nameOf? slot = some names ∧ names.answersTo name := by
  intro found
  have hscan : found = (r.run steps).scan ty name kinds := by
    have hfound := ((upToDate_ofRegistry r).run steps).members_eq ty name kinds
    rwa [plain_run, plain_ofRegistry] at hfound
  refine ⟨hscan, hscan.trans (Registry.members_eq_scan _ _ _ _).symm, ?_, fun m ↦ ?_⟩
  · rw [hscan, Registry.scan]
    split
    · exact List.nodup_nil
    · exact TypeDef.nodup_scan.map (MemberSlot.of_injective ty)
  · rw [hscan, Registry.scan]
    rcases (r.run steps).def? ty with _ | d
    · simp
    · simp only [List.mem_map, TypeDef.mem_scan]
      constructor
      · rintro ⟨slot, ⟨names, hslot⟩, rfl⟩
        exact ⟨d, slot, names, rfl, rfl, hslot⟩
      · rintro ⟨_, slot, names, heq, rfl, hslot⟩
        obtain rfl := Option.some.inj heq
        exact ⟨slot, ⟨names, hslot⟩, rfl⟩

/-- A field that is added after a query is found by the next one, and once, though its name and its
other name give the same key. -/
example :
    let point : Ty := .named 0 "Point"
    let r := (ofRegistry ⟨[], [], 0⟩).run [.declare "Point", .query point "Y" .all,
      .add point (.field ⟨⟨"Y", ["y"]⟩, .int, false⟩)]
    (r.members point "Y" .all).1 = [.field ⟨point, 0⟩] := by decide +kernel

end IndexedRegistry

end Scriptlet
