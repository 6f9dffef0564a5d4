import LinkedStore.Description.Properties
import LinkedStore.Description.Typing

/-!
# Embedded nodes

Hash-fragment resources and blank nodes have no description of their own.  They are embedded in
that of the resource that holds them or points at them: their types, their properties, and the
blank nodes that they point at in turn.  The walk keeps the paths that it has come by, so that a
blank node is embedded once and a cycle of pointers comes to an end.

What has been visited is decided while the stream is pulled, and handed on from one node to the
next.  What a property leads to ends with the first failure, however deep; then it is the turn of
the next property of the resource, or of the next hash-fragment resource.

## Main definitions

* `Description.Opening` : an embedded node that the walk has reached.
* `Description.walk` : the blank nodes that a list of properties leads to, up to a failure.
* `Description.walkEach`, `Description.walkFragments` : such walks, one after the other.
* `Description.blankNodes`, `Description.hashFragments` : what is embedded in a resource.
-/

namespace LinkedStore.Description

/-- An embedded node that the walk has reached: its own triples, and the properties to follow. -/
structure Opening where
  own : Flow View Triple
  listing : List (Except Error Property)

/-- Reaches a node. -/
def Opening.of (v : View) (x : Resource) : Except Error Opening := do
  let types ← types v x
  let properties ← properties v x
  pure ⟨types.flow ++ properties.flow, ← x.properties v.reader⟩

/-- The blank node that a value points at, if it points at one. -/
def blankTarget? (v : View) (value : Value) : Except Error (Option Resource) := do
  match ← v.target? value with
  | some x => pure (if ← x.isBlankNode v.reader then some x else none)
  | none => pure none

/-- The blank nodes that a list of values points at and that have not been visited, reached in
order, or the failure that has come in between, and the paths visited since. -/
def openings (v : View) : List Value → List String → Except Error (List Opening) × List String
  | [], visited => (.ok [], visited)
  | value :: rest, visited =>
      match blankTarget? v value with
      | .error e => (.error e, visited)
      | .ok none => openings v rest visited
      | .ok (some x) =>
          if visited.contains x.path then openings v rest visited
          else
            match Opening.of v x with
            | .error e => (.error e, x.path :: visited)
            | .ok opening =>
                let (more, visited) := openings v rest (x.path :: visited)
                (more.map (opening :: ·), visited)

/-- The rest of a walk, given the paths visited so far. -/
abbrev Onward := List String → Flow View Triple

/-- The blank nodes that a list of properties leads to, and what comes after them: `next`, or
`fallback` after a failure.  `depth` bounds how far nodes may be embedded in one another. -/
def walk : Nat → List (Except Error Property) → Onward → Onward → Onward
  | 0, _, next, _ => next
  | depth + 1, listing, next, fallback =>
      listing.foldr
        (fun item next visited =>
          match item with
          | .error e => .emit (.error e) (fallback visited)
          | .ok p =>
              .ask fun v =>
                match openings v p.values visited with
                | (.error e, visited) => .emit (.error e) (fallback visited)
                | (.ok reached, visited) =>
                    reached.foldr
                      (fun opening next visited =>
                        opening.own.followedBy (walk depth opening.listing next fallback visited)
                          (fallback visited))
                      next visited)
        next

/-- How far nodes may be embedded in one another: no further than there are nodes, those counted
that may come in while a stream is pulled. -/
def depthBound (v : View) : Nat := v.reader.extent + Word.limit

/-- The blank nodes that each of a list of properties leads to.  A property that fails is left for
the next one. -/
def walkEach (depth : Nat) (listing : List (Except Error Property)) : Onward :=
  listing.foldr (fun item next => walk depth [item] next next) fun _ => .done

/-- The blank nodes that a resource leads to. -/
def blankNodes (v : View) (x : Resource) : Except Error (Stream View) := do
  let topic ← v.subject x
  let listing ← x.properties v.reader
  pure (.ofFlow topic (walkEach (depthBound v) listing [x.path]))

/-- The hash-fragment resources of a list of nodes, each with the blank nodes that it leads to.  One
that fails is left for the next one. -/
def walkFragments (depth : Nat) (nodes : List (Except Error Node)) : Onward :=
  nodes.foldr
    (fun item next visited =>
      match item with
      | .error e => .emit (.error e) (next visited)
      | .ok node =>
          .ask fun v =>
            match Resource.ofNode v.reader node with
            | .error e => .emit (.error e) (next visited)
            | .ok x =>
                let visited := x.path :: visited
                match Opening.of v x with
                | .error e => .emit (.error e) (next visited)
                | .ok opening =>
                    opening.own.followedBy (walk depth opening.listing next next visited)
                      (next visited))
    fun _ => .done

/-- The hash-fragment resources of a resource. -/
def hashFragments (v : View) (x : Resource) : Except Error (Stream View) := do
  let topic ← v.subject x
  let owner ← x.description v.reader
  let nodes ← owner.hashNodes v.reader
  pure (.ofFlow topic (walkFragments (depthBound v) nodes [owner.path]))

end LinkedStore.Description
