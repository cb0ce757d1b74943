import Reclaim.Core.Program
import Reclaim.Eval.Env
import Reclaim.Eval.Fault
import Reclaim.Heap.Release

/-!
# Evaluation

A body is evaluated step by step against a heap.  Passing arguments changes no reference count; only
`inc`, `dec`, `reset` and `reuse` do, and the application of a closure: the closure's cell keeps its
references, so what it has captured is counted once more before it is handed on.

Bodies are evaluated by recursion on the body, given a way to carry out calls.  Calls are carried out
by `callFn` down to a depth of nesting, beyond which the evaluation halts as `Halt.exhausted`; for
every evaluation that comes to an end there is a depth that is enough.
-/

namespace Reclaim

open Reclaim.Core

/-- A computation on a heap that may halt without a result. -/
abbrev Eval (α : Type) : Type := ExceptT Halt (StateM Heap) α

namespace Eval

/-- Halts with a fault. -/
def fail {α : Type} (f : Fault) : Eval α := throw (.fault f)

/-- Carries out a heap operation on behalf of the name at `span`. -/
def onHeap {α : Type} (span : Span) (op : Heap → HeapResult α) : Eval α := fun h =>
  match op h with
  | (.ok a, h) => (.ok a, h)
  | (.error e, h) => (.error (.fault (.missing e span)), h)

/-- Puts a value into a new cell. -/
def alloc (v : Value) : Eval Location := modifyGet fun h => h.alloc v

end Eval

/-- A way to carry out calls. -/
abbrev Caller : Type := FnName → List Location → Eval Location

/-! ## Reading -/

/-- The location of a variable. -/
def Env.read (env : Env) (x : Var) : Eval Location :=
  match env.find? x with
  | some l => return l
  | none => Eval.fail (.unbound x)

/-- The locations of variables. -/
def Env.readAll (env : Env) (xs : List Var) : Eval (List Location) := xs.mapM env.read

/-- The value of a variable. -/
def readValue (env : Env) (x : Var) : Eval Value := do
  let l ← env.read x
  Eval.onHeap x.span fun h => (h.get l, h)

/-- The record of a variable. -/
def readRecord (env : Env) (x : Var) : Eval (Tag × OrderedMap Field Location) := do
  match ← readValue env x with
  | .record tag fields => return (tag, fields)
  | .closure .. => Eval.fail (.notRecord x)

/-- The closure of a variable. -/
def readClosure (env : Env) (x : Var) : Eval (FnName × List Location) := do
  match ← readValue env x with
  | .closure target args => return (target, args)
  | .record .. => Eval.fail (.notClosure x)

/-! ## Building -/

/-- The record of a construction. -/
def buildRecord (p : Program) (env : Env) (c : Construction) : Eval Value :=
  match p.type? c.tag with
  | none => Eval.fail (.unknownTag c.tag)
  | some d =>
    if d.fields.length = c.fields.length then do
      let locations ← env.readAll c.fields
      return .record c.tag (.ofList (d.fields.zip locations))
    else Eval.fail (.fieldCount c.tag d.fields.length c.fields.length)

/-- A closure in a new cell. -/
def allocClosure (p : Program) (target : FnName) (args : List Location) : Eval Location :=
  match p.fn? target with
  | none => Eval.fail (.unknownFn target)
  | some d =>
    if args.length < d.params.length then Eval.alloc (.closure target args)
    else Eval.fail (.saturated target d.params.length)

/-- The function of a closure, named where the closure is, with what the closure has captured and
further arguments.  What it has captured is counted once more. -/
def forward (env : Env) (x : Var) (xs : List Var) : Eval (FnName × List Location) := do
  let (target, captured) ← readClosure env x
  let args ← env.readAll xs
  Eval.onHeap x.span fun h => h.inc captured
  return (target.movedTo x.span, captured ++ args)

/-! ## Expressions and bodies -/

/-- The location of the value of an expression. -/
def evalExpr (p : Program) (call : Caller) (env : Env) : Expr → Eval Location
  | .call target xs => do call target (← env.readAll xs)
  | .close target xs => do allocClosure p target (← env.readAll xs)
  | .apply x xs => do
    let (target, args) ← forward env x xs
    call target args
  | .extend x xs => do
    let (target, args) ← forward env x xs
    allocClosure p target args
  | .new c => do Eval.alloc (← buildRecord p env c)
  | .proj field record => do
    let (tag, fields) ← readRecord env record
    match fields.get? field with
    | some l => return l
    | none => Eval.fail (.unknownField tag field)
  | .reset x => do
    let l ← env.read x
    Eval.onHeap x.span fun h => h.reset l
  | .reuse token c => do
    let l ← env.read token
    let v ← buildRecord p env c
    Eval.onHeap token.span fun h => h.reuse l v

mutual

/-- The location that a body returns. -/
def evalBody (p : Program) (call : Caller) (env : Env) : Body → Eval Location
  | .ret x => env.read x
  | .bind x e b => do
    let l ← evalExpr p call env e
    evalBody p call (env.bind x l) b
  | .case x arms => do
    let (tag, _) ← readRecord env x
    evalArm p call env x tag arms
  | .inc x b => do
    let l ← env.read x
    Eval.onHeap x.span fun h => h.inc [l]
    evalBody p call env b
  | .dec x b => do
    let l ← env.read x
    Eval.onHeap x.span fun h => h.dec [l]
    evalBody p call env b
termination_by structural b => b

/-- The location that the arm for a tag returns. -/
def evalArm (p : Program) (call : Caller) (env : Env) (scrutinee : Var) (tag : Tag) :
    List Arm → Eval Location
  | [] => Eval.fail (.noArm scrutinee tag)
  | (armTag, b) :: rest =>
    if armTag == tag then evalBody p call env b
    else evalArm p call env scrutinee tag rest
termination_by structural arms => arms

end

/-! ## Calls -/

/-- Calls a function, with calls nested at most `depth` deep. -/
def callFn (p : Program) : Nat → Caller
  | 0, _, _ => throw .exhausted
  | depth + 1, target, args =>
    match p.fn? target with
    | none => Eval.fail (.unknownFn target)
    | some d =>
      if d.params.length = args.length then
        evalBody p (callFn p depth) (.ofArgs d.params args) d.body
      else Eval.fail (.arity target d.params.length args.length)

/-- Calls the function of an entry's name, which must have no parameters. -/
def run (p : Program) (depth : Nat) (entry : String) : Eval Location :=
  match p.fn? ⟨entry, .none⟩ with
  | none => Eval.fail (.noEntry entry)
  | some d =>
    if d.params.isEmpty then callFn p depth d.name []
    else Eval.fail (.entryTakesParams d.name)

end Reclaim
