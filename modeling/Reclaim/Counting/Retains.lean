import Reclaim.Counting.Holdings

/-!
# Explicit reference counts

A walk over a body that inserts every change of a reference count: owners that are dead are dropped
before each step, and references are taken before a step hands on more than there are.
-/

namespace Reclaim.Counting

open Reclaim.Core

/-- A body with adjustments in front, the first one outermost. -/
def adjusting (ops : List Adjustment) (b : Body) : Body :=
  ops.foldr (fun op rest => match op with
    | .inc x => .inc x rest
    | .dec x => .dec x rest) b

mutual

/-- Makes the reference counts of a body explicit, given what the variables in scope hold. -/
def withCounts (h : Holdings) : Body → Body
  | .ret x =>
    let (ops, h) := h.dropDead (Body.ret x).freeVars
    adjusting ops (adjusting (if h.borrowed.contains x then [.inc x] else []) (.ret x))
  | .bind x e b =>
    let (ops, h) := h.dropDead (Body.bind x e b).freeVars
    let (uses, h) := h.handOver e.consumed b.freeVars
    adjusting ops (adjusting uses (.bind x e (withCounts (h.bind x e) b)))
  | .case x arms =>
    let (ops, h) := h.dropDead (Body.case x arms).freeVars
    adjusting ops (.case x (withCountsIn h arms))
  | .inc x b =>
    let (ops, h) := h.dropDead (Body.inc x b).freeVars
    adjusting ops (.inc x (withCounts h b))
  | .dec x b =>
    let (ops, h) := h.dropDead (Body.dec x b).freeVars
    let (uses, h) := h.handOver [x] b.freeVars
    adjusting ops (adjusting uses (.dec x (withCounts h b)))
termination_by structural b => b

/-- Makes the reference counts of arms explicit. -/
def withCountsIn (h : Holdings) : List Arm → List Arm
  | [] => []
  | (tag, b) :: rest => (tag, withCounts h b) :: withCountsIn h rest
termination_by structural arms => arms

end

end Reclaim.Counting
