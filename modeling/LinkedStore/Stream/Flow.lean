import LinkedStore.Error

/-!
# Flows

A flow is a sequence of items that is worked out as far as it is pulled and no further.  It is a
tree of what may happen: it is over, it yields an item, it leaves a mark that shows that something
has been worked out, or it asks its surroundings, as they are at that moment, how to go on.  The
operations on flows are recursions on that tree, so that an operation works nothing out itself.

## Main definitions

* `Flow` : a sequence of items, each a value or a failure.
* `Flow.pull` : the marks up to the next item, and the item with the rest.
* `Flow.append`, `Flow.filter`, `Flow.untilFailure`, `Flow.followedBy`, `Flow.each`,
  `Flow.within` : the operations.
* `Flow.run` : all marks and items in surroundings that do not change.

## Main statements

* `Flow.append_assoc`, `Flow.append_done`, `Flow.done_append` : appending is associative, and the
  flow that is over is its unit.
* `Flow.run_append` : what an appended flow does is what its parts do, one after the other.
* `Flow.run_within` : other surroundings matter only through those that they determine.
-/

namespace LinkedStore

/-- A sequence of items, each a value or a failure, worked out when it is pulled. -/
inductive Flow (ρ α : Type) where
  /-- There are no more items. -/
  | done
  | emit (item : Except Error α) (rest : Flow ρ α)
  /-- Something has been worked out. -/
  | note (mark : String) (rest : Flow ρ α)
  /-- What follows depends on the surroundings. -/
  | ask (next : ρ → Flow ρ α)

namespace Flow

variable {ρ α β : Type}

/-! ### Building flows -/

/-- The flow of one item. -/
def single (item : Except Error α) : Flow ρ α := emit item done

/-- The flow that fails. -/
def fail (e : Error) : Flow ρ α := single (.error e)

/-- The flow of a list of items. -/
def ofList (items : List (Except Error α)) : Flow ρ α := items.foldr emit done

/-- A flow that is worked out when it is first pulled; it fails if that fails. -/
def defer (build : ρ → Except Error (Flow ρ α)) : Flow ρ α :=
  ask fun r =>
    match build r with
    | .ok flow => flow
    | .error e => fail e

/-- The flow of one item per member of a list, each worked out when it is pulled. -/
def deferEach (members : List β) (f : β → ρ → Except Error α) : Flow ρ α :=
  members.foldr (fun b rest => ask fun r => emit (f b r) rest) done

/-! ### Operations -/

/-- All of one flow, and then all of another. -/
def append : Flow ρ α → Flow ρ α → Flow ρ α
  | done, b => b
  | emit item rest, b => emit item (append rest b)
  | note mark rest, b => note mark (append rest b)
  | ask next, b => ask fun r => append (next r) b

instance : Append (Flow ρ α) := ⟨append⟩

/-- The items that satisfy a test, with every failure.  Testing a value leaves marks. -/
def filter (keep : α → Bool) (marks : α → List String) : Flow ρ α → Flow ρ α
  | done => done
  | emit (.error e) rest => emit (.error e) (filter keep marks rest)
  | emit (.ok a) rest =>
      let kept := if keep a then emit (.ok a) (filter keep marks rest) else filter keep marks rest
      (marks a).foldr note kept
  | note mark rest => note mark (filter keep marks rest)
  | ask next => ask fun r => filter keep marks (next r)

/-- The flow up to its first failure. -/
def untilFailure : Flow ρ α → Flow ρ α
  | done => done
  | emit (.error e) _ => emit (.error e) done
  | emit (.ok a) rest => emit (.ok a) (untilFailure rest)
  | note mark rest => note mark (untilFailure rest)
  | ask next => ask fun r => untilFailure (next r)

/-- The flow up to its first failure, and then another one: `next` if it has come to its end, and
`fallback` if it has failed. -/
def followedBy : Flow ρ α → Flow ρ α → Flow ρ α → Flow ρ α
  | done, next, _ => next
  | emit (.error e) _, _, fallback => emit (.error e) fallback
  | emit (.ok a) rest, next, fallback => emit (.ok a) (followedBy rest next fallback)
  | note mark rest, next, fallback => note mark (followedBy rest next fallback)
  | ask f, next, fallback => ask fun r => followedBy (f r) next fallback

/-- The flows of a list of items, one after the other.  A flow is worked out when the one before
is over, and goes up to its first failure; a failing item is yielded in its place. -/
def each (items : List (Except Error β)) (f : β → Flow ρ α) : Flow ρ α :=
  items.foldr
    (fun item rest =>
      match item with
      | .ok b => untilFailure (f b) ++ rest
      | .error e => emit (.error e) rest)
    done

/-- The flow in other surroundings, which determine its own. -/
def within {σ : Type} (view : σ → ρ) : Flow ρ α → Flow σ α
  | done => done
  | emit item rest => emit item (within view rest)
  | note mark rest => note mark (within view rest)
  | ask next => ask fun s => within view (next (view s))

/-! ### Pulling -/

/-- The marks up to the next item, and the item with the rest, if there is one. -/
def pull (r : ρ) : Flow ρ α → List String × Option (Except Error α × Flow ρ α)
  | done => ([], none)
  | emit item rest => ([], some (item, rest))
  | note mark rest =>
      let (marks, next) := pull r rest
      (mark :: marks, next)
  | ask next => pull r (next r)

/-- A mark or an item. -/
inductive Event (α : Type) where
  | mark (mark : String)
  | item (item : Except Error α)

/-- All marks and items, in surroundings that do not change. -/
def run (r : ρ) : Flow ρ α → List (Event α)
  | done => []
  | emit item rest => .item item :: run r rest
  | note mark rest => .mark mark :: run r rest
  | ask next => run r (next r)

/-- All items, in surroundings that do not change. -/
def items (r : ρ) : Flow ρ α → List (Except Error α)
  | done => []
  | emit item rest => item :: items r rest
  | note _ rest => items r rest
  | ask next => items r (next r)

/-! ### Laws -/

@[simp] theorem done_append (b : Flow ρ α) : done ++ b = b := rfl

@[simp] theorem append_done (a : Flow ρ α) : a ++ done = a := by
  induction a with
  | done => rfl
  | emit item rest ih => exact congrArg (emit item) ih
  | note mark rest ih => exact congrArg (note mark) ih
  | ask next ih => exact congrArg ask (funext ih)

/-- Appending is associative. -/
theorem append_assoc (a b c : Flow ρ α) : a ++ b ++ c = a ++ (b ++ c) := by
  induction a with
  | done => rfl
  | emit item rest ih => exact congrArg (emit item) ih
  | note mark rest ih => exact congrArg (note mark) ih
  | ask next ih => exact congrArg ask (funext ih)

/-- What an appended flow does is what its parts do, one after the other. -/
theorem run_append (r : ρ) (a b : Flow ρ α) : (a ++ b).run r = a.run r ++ b.run r := by
  induction a with
  | done => rfl
  | emit item rest ih => exact congrArg (Event.item item :: ·) ih
  | note mark rest ih => exact congrArg (Event.mark mark :: ·) ih
  | ask next ih => exact ih r

theorem items_append (r : ρ) (a b : Flow ρ α) : (a ++ b).items r = a.items r ++ b.items r := by
  induction a with
  | done => rfl
  | emit item rest ih => exact congrArg (item :: ·) ih
  | note mark rest ih => exact ih
  | ask next ih => exact ih r

/-- Marks are no items. -/
@[simp] theorem items_foldr_note (r : ρ) (marks : List String) (a : Flow ρ α) :
    (marks.foldr note a).items r = a.items r := by
  induction marks with
  | nil => rfl
  | cons mark marks ih => exact ih

/-- What a flow does in other surroundings is what it does in those that they determine. -/
theorem run_within {σ : Type} (view : σ → ρ) (s : σ) (a : Flow ρ α) :
    (a.within view).run s = a.run (view s) := by
  induction a with
  | done => rfl
  | emit item rest ih => exact congrArg (Event.item item :: ·) ih
  | note mark rest ih => exact congrArg (Event.mark mark :: ·) ih
  | ask next ih => exact ih (view s)

end Flow

end LinkedStore
