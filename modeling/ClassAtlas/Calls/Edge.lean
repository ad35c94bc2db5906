import ClassAtlas.Calls.MethodRef
import ClassAtlas.Code.Opcode

/-!
Edges of the call graph, and call sites whose target is only known when they run.
-/

namespace ClassAtlas

/-- How a call reaches its target. -/
inductive Dispatch where
  /-- By name. -/
  | direct
  /-- Through an override in a subtype of the type that the call names. -/
  | override
  deriving DecidableEq, Repr, Hashable, Inhabited

namespace Dispatch

def name : Dispatch → String
  | direct => "direct"
  | override => "override"

def ofName? : String → Option Dispatch
  | "direct" => some direct
  | "override" => some override
  | _ => none

end Dispatch

structure CallEdge where
  caller : MethodRef
  callee : MethodRef
  kind : InvokeKind
  dispatch : Dispatch
  /-- The offset of the call in the code of the caller. -/
  offset : Nat
  /-- Whether a declaration of the callee was found. -/
  resolved : Bool
  deriving DecidableEq, Repr

namespace CallEdge

/-- Whether no declaration of the callee was found. -/
def isDangling (e : CallEdge) : Bool := !e.resolved

/-- What tells calls apart: their ends, their place and their dispatch. -/
def key (e : CallEdge) : MethodRef × MethodRef × Dispatch × Nat :=
  (e.caller, e.callee, e.dispatch, e.offset)

def sameCall (a b : CallEdge) : Bool := a.key == b.key

end CallEdge

/-- A call site whose target is only known when it runs. -/
structure DynamicSite where
  caller : MethodRef
  name : String
  descriptor : String
  offset : Nat
  deriving DecidableEq, Repr

end ClassAtlas
