import LinkedStore.Number.Layout
import LinkedStore.Text.Quoted
import LinkedStore.Vocab

/-!
# RDF terms

A term is a blank node, an IRI or a literal.  A literal has a datatype, perhaps a language tag, and
a native value from which its lexical form is written.

Terms are ordered: blank nodes before IRIs before literals, and literals by datatype, language and
value.  Text is ordered by code point and doubles by the total order on their words.

## Main definitions

* `LiteralValue`, `Term` : the terms.
* `Term.withLanguage` : a plain literal with a language tag.
* `Term.text` : the text shown for a term.

## Main statements

* `Term.language_withLanguage` : a literal that takes a language has the tag it was given.
-/

namespace LinkedStore

/-- The native value of a literal. -/
inductive LiteralValue where
  | string (s : String)
  | boolean (b : Bool)
  | integer (n : Int)
  | double (x : Double)
  deriving DecidableEq, Repr

namespace LiteralValue

/-- The lexical form of a value. -/
def lexical : LiteralValue → String
  | string s => s
  | boolean b => if b then "true" else "false"
  | integer n => toString n
  | double x => x.lexical

/-- The text of a value, if it is text. -/
def string? : LiteralValue → Option String
  | string s => some s
  | _ => none

/-- The integer of a value, if it is one. -/
def integer? : LiteralValue → Option Int
  | integer n => some n
  | _ => none

/-- Values of different kinds are ordered by kind. -/
def rank : LiteralValue → Nat
  | string _ => 0
  | boolean _ => 1
  | integer _ => 2
  | double _ => 3

/-- The order of values. -/
def order : LiteralValue → LiteralValue → Ordering
  | string a, string b => compare a b
  | boolean a, boolean b => compare a b
  | integer a, integer b => compare a b
  | double a, double b => compare a.orderKey b.orderKey
  | a, b => compare a.rank b.rank

instance : Ord LiteralValue := ⟨order⟩

end LiteralValue

/-- An RDF term. -/
inductive Term where
  | blank (label : String)
  | iri (iri : String)
  | literal (datatype : String) (language : Option String) (value : LiteralValue)
  deriving DecidableEq, Repr

/-- Whether literals of a datatype take a language tag: plain and tagged text alone. -/
def acceptsLanguage (datatype : String) : Bool :=
  datatype == Vocab.Xsd.string || datatype == Vocab.Rdf.langString

namespace Term

/-! ### Literals -/

def string (s : String) : Term := .literal Vocab.Xsd.string none (.string s)

def boolean (b : Bool) : Term := .literal Vocab.Xsd.boolean none (.boolean b)

def integer (n : Int) : Term := .literal Vocab.Xsd.integer none (.integer n)

def long (n : Int) : Term := .literal Vocab.Xsd.long none (.integer n)

def double (x : Double) : Term := .literal Vocab.Xsd.double none (.double x)

/-- Text in a language. -/
def langString (s language : String) : Term :=
  .literal Vocab.Rdf.langString (some language) (.string s)

/-- A literal of any datatype, kept in its lexical form. -/
def typed (lexical datatype : String) : Term := .literal datatype none (.string lexical)

/-- Plain or tagged text with a new language tag; any other term as it is. -/
def withLanguage (t : Term) (language : String) : Term :=
  match t with
  | .literal datatype _ (.string s) =>
      if acceptsLanguage datatype then langString s language else t
  | _ => t

/-- The language tag of a literal. -/
def language? : Term → Option String
  | .literal _ language _ => language
  | _ => none

/-- A literal that takes a language has the tag it was given. -/
theorem language_withLanguage {datatype s : String} {old : Option String} (language : String)
    (h : acceptsLanguage datatype = true) :
    ((Term.literal datatype old (.string s)).withLanguage language).language? = some language := by
  simp [withLanguage, h, langString, language?]

/-! ### Views -/

/-- The text of an IRI. -/
def iri? : Term → Option String
  | .iri i => some i
  | _ => none

def isIri : Term → Bool
  | .iri _ => true
  | _ => false

def isBlank : Term → Bool
  | .blank _ => true
  | _ => false

def isLiteral : Term → Bool
  | .literal .. => true
  | _ => false

/-- The text shown for a term: a literal shows its lexical form between quotes, and then its
language or its datatype, plain text excepted. -/
def text : Term → String
  | .blank label => "_:" ++ label
  | .iri i => "<" ++ i ++ ">"
  | .literal datatype language value =>
      Text.quoted value.lexical ++
        match language with
        | some tag => "@" ++ tag
        | none => if datatype = Vocab.Xsd.string then "" else "^^<" ++ datatype ++ ">"

/-! ### Order -/

/-- Blank nodes come before IRIs and IRIs before literals. -/
def rank : Term → Nat
  | .blank _ => 0
  | .iri _ => 1
  | .literal .. => 2

/-- The order of terms. -/
def order : Term → Term → Ordering
  | .blank a, .blank b => compare a b
  | .iri a, .iri b => compare a b
  | .literal d l v, .literal d' l' v' =>
      (compare d d').then ((compare l l').then (compare v v'))
  | a, b => compare a.rank b.rank

instance : Ord Term := ⟨order⟩

/-- Terms in order; equal terms keep their places. -/
def sort (terms : List Term) : List Term := terms.mergeSort fun a b => (compare a b).isLE

end Term

end LinkedStore
