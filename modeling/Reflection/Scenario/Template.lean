import Reflection.Variant
/-!
# Templates

Values in a script, with places for the arguments of the slot that runs it.
-/

namespace Reflection

/-- A value with places for arguments. -/
inductive Template where
  | value (v : Variant)
  /-- The argument with a number, no value if there is none. -/
  | argument (n : Nat)
  | list (items : List Template)
  | map (entries : List (String × Template))
deriving Repr, Inhabited

namespace Template

mutual

/-- The value with the arguments in their places. -/
def fill (args : List Variant) : Template → Variant
  | .value v => v
  | .argument n => args[n]?.getD .invalid
  | .list items => .list (fillAll args items)
  | .map entries => .ofEntries (fillEntries args entries)

/-- The values of a list of templates. -/
def fillAll (args : List Variant) : List Template → List Variant
  | [] => []
  | t :: ts => fill args t :: fillAll args ts

/-- The values of templates under names. -/
def fillEntries (args : List Variant) : List (String × Template) → List (String × Variant)
  | [] => []
  | (name, t) :: ts => (name, fill args t) :: fillEntries args ts

end

end Template

/-- The arguments of a call in a script. -/
inductive Arguments where
  /-- Those of the slot that runs the script. -/
  | own
  | each (templates : List Template)
deriving Repr, Inhabited

/-- The arguments, given those of the slot that runs the script. -/
def Arguments.fill (args : List Variant) : Arguments → List Variant
  | .own => args
  | .each templates => Template.fillAll args templates

end Reflection
