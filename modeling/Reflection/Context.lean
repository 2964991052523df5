/-!
# Contexts

A context is where slots run. Each object lives in one, and each thread is in one at any time: in
one of its own at first, later in those it enters.
-/

namespace Reflection

/-- Where slots run. -/
inductive Context where
  | named (label : String)
  /-- The one that a thread starts in. -/
  | own (thread : Nat)
deriving DecidableEq, Repr

namespace Context

instance : Inhabited Context :=
  ⟨.own 0⟩

/-- The name of the context. -/
def label : Context → String
  | .named label => label
  | .own _ => "?"

end Context
end Reflection
