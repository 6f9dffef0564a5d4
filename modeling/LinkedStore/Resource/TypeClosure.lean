import LinkedStore.Session.Reader

/-!
# Closing a list of types upwards

A node that bears a type bears all types above it as well.  The closure lists the declared types
and then what lies above them, nearest first, each type once.  A type that is not registered has
nothing above it.

## Main definitions

* `TypeClosure.close` : the declared types and all types above them.
-/

namespace LinkedStore.TypeClosure

/-- The names that are not among those seen, each once, in order. -/
def fresh : List String → List String → List String
  | _, [] => []
  | seen, name :: rest =>
      if seen.contains name then fresh seen rest else name :: fresh (name :: seen) rest

/-- The types directly above a type. -/
def above (r : Reader) (name : String) : Except Error (List String) := do
  match ← r.nodeType name with
  | some t => pure t.supertypes
  | none => pure []

/-- The closure of the types in a queue, given all types seen so far.  `steps` bounds the number
of types still to come. -/
def closeQueue (r : Reader) : Nat → List String → List String → Except Error (List String)
  | _, [], _ => pure []
  | 0, _ :: _, _ => pure []
  | steps + 1, name :: queue, seen => do
      let new := fresh seen (← above r name)
      let rest ← closeQueue r steps (queue ++ new) (seen ++ new)
      pure (name :: rest)

/-- The declared types and all types above them, nearest first. -/
def close (r : Reader) (declared : List String) : Except Error (List String) :=
  let start := fresh [] declared
  closeQueue r (start.length + r.typeLinks) start start

end LinkedStore.TypeClosure
