import LinkedStore.Rdf.Triple

/-!
# Hash sets of triples

A hash set keeps triples apart that do not agree.  It finds a triple by what a hasher makes of the
calls that the triple feeds it with, and then by agreement: values agree if they compare as equal,
and terms and triples if their parts agree.

## Main definitions

* `HasherCall` : a call that feeds a hasher.
* `LiteralValue.agrees`, `Term.agrees`, `Triple.agrees` : agreement.
* `LiteralValue.fed`, `Term.fed`, `Triple.fed` : the calls that a value feeds a hasher with.
* `HashSet.holds`, `HashSet.collect`, `HashSet.same` : finding a triple, collecting a list of
  triples, and comparing two sets.
-/

namespace LinkedStore

/-- A call that feeds a hasher. -/
inductive HasherCall where
  /-- The kind of a value. -/
  | byte (n : Nat)
  /-- The constructor of a value. -/
  | discriminant (n : Nat)
  | text (s : String)
  | flag (b : Bool)
  | integer (n : Int)
  | word (bits : UInt64)
  deriving DecidableEq, Repr

namespace LiteralValue

/-- Values agree if they compare as equal. -/
def agrees (a b : LiteralValue) : Bool := compare a b == .eq

/-- A value feeds its kind, and then what it holds; a double feeds its word. -/
def fed (v : LiteralValue) : List HasherCall :=
  .byte v.rank ::
    match v with
    | string s => [.text s]
    | boolean b => [.flag b]
    | integer n => [.integer n]
    | double x => [.word x.bits]

end LiteralValue

namespace Term

/-- Terms of one kind agree if their parts do. -/
def agrees : Term → Term → Bool
  | .blank a, .blank b => a == b
  | .iri a, .iri b => a == b
  | .literal d l v, .literal d' l' v' => d == d' && l == l' && v.agrees v'
  | _, _ => false

/-- A language tag, which may be missing, feeds whether it is there. -/
def fedLanguage : Option String → List HasherCall
  | none => [.discriminant 0]
  | some tag => [.discriminant 1, .text tag]

/-- A term feeds its kind, and then its parts. -/
def fed (t : Term) : List HasherCall :=
  .discriminant t.rank ::
    match t with
    | .blank label => [.text label]
    | .iri i => [.text i]
    | .literal datatype language value => .text datatype :: (fedLanguage language ++ value.fed)

end Term

namespace Triple

/-- Triples agree if their terms do. -/
def agrees (s t : Triple) : Bool :=
  s.subject.agrees t.subject && s.predicate.agrees t.predicate && s.object.agrees t.object

/-- A triple feeds its terms. -/
def fed (t : Triple) : List HasherCall := t.subject.fed ++ t.predicate.fed ++ t.object.fed

end Triple

/-! ### Sets -/

namespace HashSet

/-- Whether a set holds a triple, as far as a hasher tells: a member has the same hash and
agrees. -/
def holds (hash : List HasherCall → UInt64) (set : List Triple) (t : Triple) : Bool :=
  set.any fun member => hash member.fed == hash t.fed && member.agrees t

/-- The set of a list of triples, the first of those that agree. -/
def collect (hash : List HasherCall → UInt64) (triples : List Triple) : List Triple :=
  triples.foldl (fun set t => if holds hash set t then set else set ++ [t]) []

/-- Whether two sets are of one size, and one holds the members of the other. -/
def same (hash : List HasherCall → UInt64) (left right : List Triple) : Bool :=
  left.length == right.length && left.all (holds hash right)

end HashSet

end LinkedStore
