import LinkedStore.Description.Values
import LinkedStore.Proofs.Host.Reading
import LinkedStore.Proofs.Number.Lexical
import LinkedStore.Proofs.Rdf.Canonical
import Std.Data.String.ToInt

/-!
# Statements of a canonical graph

RDF tells literals apart by their datatype, their language and their lexical form, and a canonical
graph by their native values.  Literals that are made by the constructors, or from values of the
store, have native values of one kind for each datatype, beside text, which is kept in its lexical
form under any datatype.  A canonical graph therefore states nothing twice, except that it keeps
text and the native value with that lexical form apart, and words of doubles that stand for no
number.

## Main definitions

* `Term.Made` : the terms that the constructors and the values of the store give.
* `Term.SameLiteral` : two terms are one literal of RDF.
* `Term.TextOf` : a term is kept as text, and another has the native value with that lexical form.
* `Term.BothNaN` : two terms are doubles that stand for no number.

## Main statements

* `Term.Made.sameLiteral_iff` : which terms that are made are one literal.
* `Graph.pairwise_canonical` : which triples of a canonical graph state the same.
-/

namespace LinkedStore

/-! ### Values and their lexical forms -/

namespace LiteralValue

variable {v v' : LiteralValue} {datatype : String} {language : Option String}

/-- The value is of the kind that its datatype is made with.  Text has any datatype and language. -/
def Fits (datatype : String) (language : Option String) : LiteralValue → Prop
  | string _ => True
  | boolean _ => datatype = Vocab.Xsd.boolean ∧ language = none
  | integer _ => (datatype = Vocab.Xsd.integer ∨ datatype = Vocab.Xsd.long) ∧ language = none
  | double _ => datatype = Vocab.Xsd.double ∧ language = none

/-- The value is not text. -/
def IsNative (v : LiteralValue) : Prop := v.string? = none

theorem string?_eq_some_iff {text : String} : v.string? = some text ↔ v = .string text := by
  cases v <;> simp [string?]

theorem Fits.language_eq_none (hv : v.Fits datatype language) (hnative : v.IsNative) :
    language = none := by
  cases v with
  | string s => cases hnative
  | boolean b => exact hv.2
  | integer n => exact hv.2
  | double x => exact hv.2

/-- Native values of one datatype have different lexical forms, but for doubles that stand for no
number. -/
theorem Fits.lexical_eq_iff (hv : v.Fits datatype language) (hv' : v'.Fits datatype language)
    (hnative : v.IsNative) (hnative' : v'.IsNative) :
    v.lexical = v'.lexical ↔
      v = v' ∨ ∃ x y, v = .double x ∧ v' = .double y ∧ x.isNaN = true ∧ y.isNaN = true := by
  have hboolean_integer (h : datatype = Vocab.Xsd.boolean) :
      ¬(datatype = Vocab.Xsd.integer ∨ datatype = Vocab.Xsd.long) := by
    rw [h]
    decide
  have hboolean_double (h : datatype = Vocab.Xsd.boolean) : ¬datatype = Vocab.Xsd.double := by
    rw [h]
    decide
  have hinteger_double (h : datatype = Vocab.Xsd.double) :
      ¬(datatype = Vocab.Xsd.integer ∨ datatype = Vocab.Xsd.long) := by
    rw [h]
    decide
  cases v <;> cases v'
  case string.string | string.boolean | string.integer | string.double => cases hnative
  case boolean.string | integer.string | double.string => cases hnative'
  case boolean.boolean b b' => cases b <;> cases b' <;> simp [lexical]
  case integer.integer n n' => simp [lexical, Int.toString_eq_repr, Int.repr_inj]
  case double.double x y => simp [lexical, Double.lexical_inj]
  case boolean.integer => exact absurd hv'.1 (hboolean_integer hv.1)
  case integer.boolean => exact absurd hv.1 (hboolean_integer hv'.1)
  case boolean.double => exact absurd hv'.1 (hboolean_double hv.1)
  case double.boolean => exact absurd hv.1 (hboolean_double hv'.1)
  case integer.double => exact absurd hv.1 (hinteger_double hv'.1)
  case double.integer => exact absurd hv'.1 (hinteger_double hv.1)

end LiteralValue

/-! ### Terms that are made -/

namespace Term

variable {s t : Term}

/-- The terms that the constructors give, and the values of the store under names that are made. -/
inductive Made : Term → Prop
  | blank (label : String) : Made (.blank label)
  | iri (iri : String) : Made (.iri iri)
  | string (s : String) : Made (.string s)
  | boolean (b : Bool) : Made (.boolean b)
  | integer (n : Int) : Made (.integer n)
  | long (n : Int) : Made (.long n)
  | double (x : Double) : Made (.double x)
  | langString (s language : String) : Made (.langString s language)
  | typed (lexical datatype : String) : Made (.typed lexical datatype)
  | withLanguage {t : Term} (language : String) (ht : Made t) : Made (t.withLanguage language)
  | converted {t : Term} {v : View} {value : Value}
      (hnames : ∀ path u, v.termForPath path = .ok u → Made u)
      (ht : v.termOf? value = .ok (some t)) : Made t

/-- The native value of a literal is of the kind that its datatype is made with. -/
def Fits : Term → Prop
  | .literal datatype language v => v.Fits datatype language
  | _ => True

theorem Fits.withLanguage (ht : t.Fits) (language : String) : (t.withLanguage language).Fits := by
  fun_cases Term.withLanguage t language
  case case1 => trivial
  case case2 => exact ht
  case case3 => exact ht

/-- The term of a value that points at no node fits. -/
theorem fits_of_term? {value : Value} (ht : value.term? = some t) : t.Fits := by
  cases value <;> cases ht
  case string s =>
    rw [Value.textLiteral]
    split <;> trivial
  case boolean | double => exact ⟨rfl, rfl⟩
  case long => exact ⟨.inr rfl, rfl⟩
  case decimal | date | uri | name | binary => trivial

/-- The term of a value is that of a path, if the value points at a node. -/
theorem termForPath_of_termOf? {view : View} {value : Value} (hpoints : value.term? = none)
    (ht : view.termOf? value = .ok (some t)) : ∃ path, view.termForPath path = .ok t := by
  simp only [View.termOf?, hpoints, bind_eq_ok_iff] at ht
  obtain ⟨target, -, ht⟩ := ht
  cases target with
  | some x =>
      obtain ⟨u, hu, huv⟩ := map_eq_ok_iff.1 ht
      obtain rfl := Option.some.inj huv
      obtain ⟨described, -, hu⟩ := bind_eq_ok_iff.1 hu
      exact ⟨described.path, hu⟩
  | none =>
      cases value with
      | path path =>
          obtain ⟨u, hu, huv⟩ := map_eq_ok_iff.1 ht
          exact ⟨path, Option.some.inj huv ▸ hu⟩
      | _ => cases ht

theorem Made.fits (ht : t.Made) : t.Fits := by
  induction ht with
  | blank | iri | string | langString | typed => trivial
  | boolean | double => exact ⟨rfl, rfl⟩
  | integer => exact ⟨.inl rfl, rfl⟩
  | long => exact ⟨.inr rfl, rfl⟩
  | withLanguage language _ ih => exact ih.withLanguage language
  | @converted t view value _ ht ih =>
      cases hvalue : value.term? with
      | some u =>
          rw [View.termOf?, hvalue] at ht
          exact fits_of_term? (hvalue.trans (Except.ok.inj ht))
      | none =>
          obtain ⟨path, hpath⟩ := termForPath_of_termOf? hvalue ht
          exact ih path t hpath

/-! ### One literal as two terms -/

/-- The terms are one literal of RDF: they have the same datatype, the same language and the same
lexical form. -/
def SameLiteral (s t : Term) : Prop :=
  ∃ datatype language v v', s = .literal datatype language v ∧ t = .literal datatype language v' ∧
    v.lexical = v'.lexical

/-- The first term is kept as text, and the second has the native value with that lexical form. -/
def TextOf (s t : Term) : Prop :=
  ∃ datatype v, s = .typed v.lexical datatype ∧ t = .literal datatype none v ∧ v.IsNative

/-- The terms are doubles that stand for no number. -/
def BothNaN (s t : Term) : Prop :=
  ∃ x y, s = .double x ∧ t = .double y ∧ x.isNaN = true ∧ y.isNaN = true

theorem TextOf.sameLiteral (h : s.TextOf t) : s.SameLiteral t := by
  obtain ⟨datatype, v, rfl, rfl, -⟩ := h
  exact ⟨_, _, _, _, rfl, rfl, rfl⟩

theorem SameLiteral.symm (h : s.SameLiteral t) : t.SameLiteral s := by
  obtain ⟨_, _, _, _, hs, ht, hlexical⟩ := h
  exact ⟨_, _, _, _, ht, hs, hlexical.symm⟩

theorem BothNaN.sameLiteral (h : s.BothNaN t) : s.SameLiteral t := by
  obtain ⟨x, y, rfl, rfl, hnan⟩ := h
  exact ⟨_, _, _, _, rfl, rfl, Double.lexical_inj.2 (.inr hnan)⟩

/-- Two different terms that are made are one literal just if one of them is kept as text and the
other natively, or both are doubles that stand for no number. -/
theorem Made.sameLiteral_iff (hs : s.Made) (ht : t.Made) (hne : s ≠ t) :
    s.SameLiteral t ↔ s.TextOf t ∨ t.TextOf s ∨ s.BothNaN t := by
  constructor
  · rintro ⟨datatype, language, v, v', rfl, rfl, hlexical⟩
    have hv : v.Fits datatype language := hs.fits
    have hv' : v'.Fits datatype language := ht.fits
    cases htext : v.string? <;> cases htext' : v'.string?
    case none.none =>
      rcases (hv.lexical_eq_iff hv' htext htext').1 hlexical with rfl | ⟨x, y, rfl, rfl, hnan⟩
      · exact absurd rfl hne
      · obtain ⟨rfl, rfl⟩ := hv
        exact .inr (.inr ⟨x, y, rfl, rfl, hnan⟩)
    case some.none text =>
      obtain rfl := hv'.language_eq_none htext'
      obtain rfl := LiteralValue.string?_eq_some_iff.1 htext
      exact .inl ⟨datatype, v', hlexical ▸ rfl, rfl, htext'⟩
    case none.some text =>
      obtain rfl := hv.language_eq_none htext
      obtain rfl := LiteralValue.string?_eq_some_iff.1 htext'
      exact .inr (.inl ⟨datatype, v, hlexical ▸ rfl, rfl, htext⟩)
    case some.some text text' =>
      obtain rfl := LiteralValue.string?_eq_some_iff.1 htext
      obtain rfl := LiteralValue.string?_eq_some_iff.1 htext'
      exact absurd (congrArg (fun text => literal datatype language (.string text)) hlexical) hne
  · rintro (h | h | h)
    · exact h.sameLiteral
    · exact h.sameLiteral.symm
    · exact h.sameLiteral

end Term

/-! ### Canonical graphs -/

namespace Graph

variable {g : Graph}

/-- **A canonical graph of terms that are made states nothing twice, but for what is kept as text
beside its native value, and for doubles that stand for no number.** -/
theorem pairwise_canonical (hg : ∀ t ∈ g.triples, t.object.Made) :
    g.canonical.triples.Pairwise fun s t => s.subject = t.subject → s.predicate = t.predicate →
      (s.object.SameLiteral t.object ↔
        s.object.TextOf t.object ∨ t.object.TextOf s.object ∨ s.object.BothNaN t.object) := by
  have hmem (t : Triple) (ht : t ∈ g.canonical.triples) : t.object.Made :=
    hg t (((keepsSets g g).mem_iff t).1 ht)
  refine (keepsSets g g).ascends.nodup.imp_of_mem ?_
  intro s t hs ht hne hsubject hpredicate
  refine (hmem s hs).sameLiteral_iff (hmem t ht) fun hobject => hne ?_
  obtain ⟨subject, predicate, object⟩ := s
  obtain rfl : subject = t.subject := hsubject
  obtain rfl : predicate = t.predicate := hpredicate
  obtain rfl : object = t.object := hobject
  rfl

/-- A triple with some object. -/
def stating (object : Term) : Triple :=
  ⟨.iri "http://example.org/s", .iri "http://example.org/p", object⟩

/-- A graph that states a number as text and natively, and two words that stand for no number. -/
def stutter : Graph := .ofList
  [stating (.long 7), stating (.typed "7" Vocab.Xsd.long),
    stating (.double ⟨0x7ff8000000000000⟩), stating (.double ⟨0x7ff8000000000001⟩)]

theorem made_stutter :
    ∀ t ∈ stutter.triples, t.subject.Made ∧ t.predicate.Made ∧ t.object.Made := by
  have hstating {object : Term} (hobject : object.Made) : (stating object).subject.Made ∧
      (stating object).predicate.Made ∧ (stating object).object.Made :=
    ⟨.iri _, .iri _, hobject⟩
  simp only [stutter, ofList, List.forall_mem_cons, List.not_mem_nil, false_implies,
    implies_true, and_true]
  exact ⟨hstating (.long _), hstating (.typed _ _), hstating (.double _), hstating (.double _)⟩

theorem pairwise_canonical_stutter :
    (∀ t ∈ stutter.triples, t.object.Made) ∧
      stutter.canonical.triples.Pairwise fun s t =>
        s.subject = t.subject → s.predicate = t.predicate →
          (s.object.SameLiteral t.object ↔
            s.object.TextOf t.object ∨ t.object.TextOf s.object ∨ s.object.BothNaN t.object) :=
  have hmade := fun t ht => (made_stutter t ht).2.2
  ⟨hmade, pairwise_canonical hmade⟩

/-- Some canonical graphs state the same twice: as text and natively, and with two words that stand
for no number. -/
theorem exists_sameLiteral_stutter :
    (∀ t ∈ stutter.triples, t.subject.Made ∧ t.predicate.Made ∧ t.object.Made) ∧
      (∃ s ∈ stutter.canonical.triples, ∃ t ∈ stutter.canonical.triples, s ≠ t ∧
        s.subject = t.subject ∧ s.predicate = t.predicate ∧ s.object.SameLiteral t.object ∧
        s.object.TextOf t.object) ∧
      ∃ s ∈ stutter.canonical.triples, ∃ t ∈ stutter.canonical.triples, s ≠ t ∧
        s.subject = t.subject ∧ s.predicate = t.predicate ∧ s.object.SameLiteral t.object ∧
        s.object.BothNaN t.object := by
  have hmem (t : Triple) (ht : t ∈ stutter.triples) : t ∈ stutter.canonical.triples :=
    ((keepsSets stutter stutter).mem_iff t).2 ht
  have htext : (Term.typed "7" Vocab.Xsd.long).TextOf (.long 7) :=
    ⟨Vocab.Xsd.long, .integer 7, rfl, rfl, rfl⟩
  have hnan : (Term.double ⟨0x7ff8000000000000⟩).BothNaN (.double ⟨0x7ff8000000000001⟩) :=
    ⟨_, _, rfl, rfl, by decide, by decide⟩
  exact ⟨made_stutter,
    ⟨_, hmem (stating (.typed "7" Vocab.Xsd.long)) (by decide), _,
      hmem (stating (.long 7)) (by decide), by decide, rfl, rfl, htext.sameLiteral, htext⟩,
    ⟨_, hmem (stating (.double ⟨0x7ff8000000000000⟩)) (by decide), _,
      hmem (stating (.double ⟨0x7ff8000000000001⟩)) (by decide), by decide, rfl, rfl,
      hnan.sameLiteral, hnan⟩⟩

end Graph

end LinkedStore
