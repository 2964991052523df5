/-!
# Kinds of members

What both a declared method and a method in a table say about themselves.
-/

namespace Reflection

/-- What a method is for: to be emitted, to receive, or only to be called. -/
inductive MethodKind where
  | signal
  | slot
  | method
deriving DecidableEq, Repr, Inhabited

/-- Who may call a method. -/
inductive Access where
  | isPrivate
  | isProtected
  | isPublic
deriving DecidableEq, Repr, Inhabited

end Reflection
