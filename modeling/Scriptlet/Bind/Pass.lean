import Scriptlet.Bind.Error
import Scriptlet.Bind.State
import Scriptlet.Tree.Basic

/-!
# Steps of binding

A step fills places of a tree and may fail. The places that it filled before a failure stay filled,
so a step always has a tree to give back, and the answer beside it. No place is ever written twice.
-/

namespace Scriptlet

/-- What a step leaves behind: the tree, the binder's state, and the answer or the error. -/
structure Bound (T α : Type) where
  tree : T
  state : Binder
  answer : Except BindError α

/-- A step of binding on a tree, with an answer. -/
def Pass (T α : Type) := Binder → Bound T α

namespace Pass

variable {T U α β σ : Type}

/-- The step that leaves a tree and an answer. -/
def done (tree : T) (a : α) : Pass T α := fun s ↦ ⟨tree, s, .ok a⟩

/-- The step that leaves a tree and an error. -/
def stop (tree : T) (e : BindError) : Pass T α := fun s ↦ ⟨tree, s, .error e⟩

/-- A step on a part of a tree and then one on the whole. If the first fails, the part as it was
left is put back into the whole. -/
def within (m : Pass T α) (whole : T → U) (next : T → α → Pass U β) : Pass U β := fun s ↦
  let b := m s
  match b.answer with
  | .ok a => next b.tree a b.state
  | .error e => ⟨whole b.tree, b.state, .error e⟩

/-- Goes on with what a test finds in the state; if the test fails, the tree stays as it is. -/
def look (tree : U) (test : Binder → Except BindError α) (next : α → Pass U β) : Pass U β :=
  fun s ↦
    match test s with
    | .ok a => next a s
    | .error e => ⟨tree, s, .error e⟩

/-- Goes on with a result; if it is an error, the tree stays as it is. -/
def check (tree : U) (result : Except BindError α) (next : α → Pass U β) : Pass U β :=
  look tree (fun _ ↦ result) next

/-- Changes the state and goes on. -/
def change (f : Binder → Binder) (next : Pass U β) : Pass U β := fun s ↦ next (f s)

/-- Fills a place of a node and goes on with the node; a place that is filled is an error. -/
def fill (place : Option σ) (value : σ) (l : Location) (node : Option σ → U)
    (next : U → Pass U β) : Pass U β :=
  match place with
  | none => next (node (some value))
  | some _ => stop (node place) (.alreadyResolved l)

/-- Fills the type of an expression, and its storage if it has one. -/
def resolve (e : Expr) (ty : Ty) (binding : Option Binding) : Pass Expr Ty :=
  fill e.node.ty ty e.location (fun t ↦ e.setNode { e.node with ty := t }) fun e ↦
    match binding with
    | none => done e ty
    | some b =>
      fill e.node.binding b e.location (fun b ↦ e.setNode { e.node with binding := b }) fun e ↦
        done e ty

/-- A step inside a scope of its own. -/
def inScope (m : Pass T α) : Pass T α := fun s ↦
  let b := m (s.change Body.pushScope)
  { b with state := b.state.change Body.popScope }

/-- A step inside a body of its own; the answer has the body as the step left it. -/
def inBody (body : Body) (m : Pass T α) : Pass T (α × Body) := fun s ↦
  let b := m (s.enter body)
  ⟨b.tree, b.state.leave, b.answer.map fun a ↦ (a, b.state.body)⟩

end Pass

end Scriptlet
