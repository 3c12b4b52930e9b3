import Scriptlet.Proofs.Environment.Operation

/-!
# Functions by their names

A property of parts that may depend on the name under which a part stands. Writes of variables and
constants and printed lines leave all functions as they are, and a definition adds one part under
one name, so whatever holds of all parts goes on to hold if it holds of the parts that are defined.
-/

namespace Scriptlet

/-- The property holds of all parts of the frame, with the names that they stand under. -/
def Frame.Holds (P : String → Part → Prop) (f : Frame) : Prop :=
  ∀ x parts, f.functions.get? x = some parts → ∀ part ∈ parts, P x part

namespace Environment

variable {P : String → Part → Prop} {env env' : Environment}

/-- The property holds of all parts, with the names that they stand under. -/
def Holds (P : String → Part → Prop) (env : Environment) : Prop := ∀ f ∈ env.frames, f.Holds P

theorem Holds.mono {Q : String → Part → Prop} (h : env.Holds P)
    (hQ : ∀ x part, P x part → Q x part) :
    env.Holds Q :=
  fun f hf x parts hx part hpart ↦ hQ x part (h f hf x parts hx part hpart)

theorem Holds.and {Q : String → Part → Prop} (h : env.Holds P) (hQ : env.Holds Q) :
    env.Holds fun x part ↦ P x part ∧ Q x part :=
  fun f hf x parts hx part hpart ↦ ⟨h f hf x parts hx part hpart, hQ f hf x parts hx part hpart⟩

theorem Holds.define (h : env.Holds P) (x : String) (v : Value) : (env.define x v).Holds P :=
  (pointwise_changeInnermost (fun _ h ↦ h) (fun _ h ↦ h) env).forall_frames h

theorem Holds.assign (h : env.Holds P) (x : String) (v : Value) : (env.assign x v).Holds P := by
  rw [Environment.assign]
  cases hc : env.changeVisible? (fun f ↦ f.vars.has x) (setVariable x v) with
  | some env₁ => exact (pointwise_changeVisible? (fun _ h ↦ h) hc fun _ _ h ↦ h).forall_frames h
  | none => exact h.define x v

theorem Holds.setConstant (h : env.Holds P) {x : String} {v : Value} {l : Location}
    (hset : env.setConstant x v l = .ok env') : env'.Holds P := by
  rcases of_setConstant hset with ⟨-, rfl⟩ | ⟨-, hc⟩
  · exact (pointwise_changeInnermost (fun _ h ↦ h) (fun _ h ↦ h) env).forall_frames h
  · exact (pointwise_changeVisible? (fun _ h ↦ h) hc fun _ _ h ↦ h).forall_frames h

theorem Holds.print (h : env.Holds P) (line : String) : (env.print line).Holds P := h

theorem Holds.defineFunction (h : env.Holds P) {name : String} {part : Part}
    (hpart : P name part) : (env.defineFunction name part).Holds P := by
  refine (pointwise_changeInnermost (fun _ h ↦ h)
    (fun f hf x parts hx q hq ↦ ?_) env).forall_frames h
  rw [addPart, Table.get?_put] at hx
  split at hx
  · rename_i hxn
    subst hxn
    obtain rfl := Option.some.inj hx
    rcases List.mem_append.mp hq with hq | hq
    · cases hold : f.functions.get? x with
      | none =>
        rw [hold] at hq
        cases hq
      | some parts =>
        rw [hold] at hq
        exact hf x parts hold q hq
    · rw [List.mem_singleton.mp hq]
      exact hpart
  · exact hf x parts hx q hq

theorem Holds.push (h : env.Holds P) (kind : FrameKind) : (env.push kind).Holds P :=
  forall_frames_push h fun _ _ hx ↦ nomatch hx

theorem Holds.pop (h : env.Holds P) : env.pop.Holds P := forall_frames_pop h

theorem arity_of_select? {parts : List Part} {arity : Nat} {scope : Scope} {part : Part}
    (h : Part.select? parts arity scope = some part) :
    part.arity = .fixed arity ∨ part.arity = .variadic := by
  have hnewest : ∀ a s, Part.newest? parts a s = some part → part.arity = a := by
    intro a s hfind
    have hfound := List.find?_some hfind
    rw [Bool.and_eq_true] at hfound
    exact beq_iff_eq.mp hfound.1
  simp only [Part.select?, Option.orElse_eq_or, Option.or_eq_some_iff] at h
  rcases h with h | ⟨-, h | ⟨-, h | ⟨-, h⟩⟩⟩
  · exact .inl (hnewest _ _ h)
  · exact .inl (hnewest _ _ h)
  · exact .inr (hnewest _ _ h)
  · exact .inr (hnewest _ _ h)

/-- The part that a call reaches stands under the name that is called, and takes as many
arguments. -/
theorem Holds.of_part (h : env.Holds P) {name : String} {arity : Nat} {scope : Scope} {l : Location}
    {part : Part} (hpart : env.part name arity scope l = .ok part) :
    P name part ∧ (part.arity = .fixed arity ∨ part.arity = .variadic) := by
  rw [Environment.part] at hpart
  split at hpart
  · rename_i found hfound
    obtain rfl := Except.ok.inj hpart
    obtain ⟨f, hf, hselect⟩ := List.exists_of_findSome?_eq_some hfound
    obtain ⟨parts, hparts, hselect⟩ := Option.bind_eq_some_iff.mp hselect
    exact ⟨h f (mem_frames_of_mem_visible hf) name parts hparts _ (mem_of_select? hselect),
      arity_of_select? hselect⟩
  · split at hpart <;> cases hpart

end Environment

end Scriptlet
