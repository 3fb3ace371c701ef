import Deduction.Context

set_option autoImplicit false

/-! # Bindings of a pattern

A pattern is a formula whose names all stand for something: a name alone for a formula, a name with
arguments for a context that is filled with their instances. Bindings say what the names stand for,
and `instantiate` builds the instance. -/

namespace Deduction

/-- What a name of a pattern stands for. -/
inductive Binding where
  | formula (f : Formula)
  | context (c : Context)
deriving DecidableEq

abbrev Bindings := Assoc Binding

/-- The number of arguments that a bound name goes with. A formula counts the arguments at its
    root. -/
def Binding.arity : Binding → Int
  | .formula f => f.argumentCount
  | .context c => c.arity

/-- Why a pattern has no instance. -/
inductive InstanceError where
  /-- The name has no binding. -/
  | unbound (name : String)
  /-- The name is bound to something with another number of arguments. -/
  | arity (conflict : ArityConflict)
  /-- The context bound to the name cannot be filled. -/
  | fill (e : FillError)
deriving DecidableEq

def InstanceError.message : InstanceError → String
  | .unbound name => "metavariable " ++ Text.quote name ++ " is unbound"
  | .arity conflict => conflict.message
  | .fill e => e.message

namespace Formula

mutual

/-- The instance of a pattern. -/
def instantiate (bindings : Bindings) : Formula → Except InstanceError Formula
  | .app name args =>
    match bindings.get? name with
    | none => .error (.unbound name)
    | some (.formula f) =>
      if args.isEmpty then .ok f
      else .error (.arity ⟨name, f.argumentCount, args.length⟩)
    | some (.context c) =>
      if !args.isEmpty && c.arity == args.length then do
        let args ← instantiateList bindings args
        (c.fill args).mapError .fill
      else .error (.arity ⟨name, c.arity, args.length⟩)
  | .neg f => do
    let f ← instantiate bindings f
    return .neg f
  | .binary op l r => do
    let l ← instantiate bindings l
    let r ← instantiate bindings r
    return .binary op l r
  | .quant q name body => do
    let body ← instantiate bindings body
    return .quant q name body
  | .top => .ok .top
  | .bottom => .ok .bottom
  | .hole i => .ok (.hole i)

def instantiateList (bindings : Bindings) : List Formula → Except InstanceError (List Formula)
  | [] => .ok []
  | a :: as => do
    let a ← instantiate bindings a
    let as ← instantiateList bindings as
    return a :: as

end

end Formula

end Deduction
