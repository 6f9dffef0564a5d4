import LinkedStore.Proofs.Address.RoundTrip

/-!
# IRIs stay in their scope

What follows the base in the IRI of a path is a request.  It is read in the scope that the IRI was
written in, and what is left of it behind the segment of the scope is the path part of the IRI, so
that whoever follows a link gets to the mapping that wrote it.

Behind the text before all IRIs there is always a slash, and the segment behind that slash is the
first segment of the path, cut short or drawn out at a mark of a fragment.  In the standard scope it
is therefore taken for the segment of another scope only if the first segment of the path is.

## Main definitions

* `Scope.IsNameable` : the scopes that a request can name.
* `Scope.Admits` : whether no first segment of a path is taken for the segment of a scope.
* `IriMap.StaysInScope` : an IRI is read in the scope that it was written in.

## Main statements

* `ScopedPath.parse_request` : a scope and a path are read from the request that names them.
* `IriMap.staysInScope_toExternal` : IRIs of paths stay in their scope.
-/

namespace LinkedStore

/-! ### Requests -/

namespace Scope

/-- The scopes that a request can name: a transaction or a workspace has a name, without slashes. -/
def IsNameable : Scope → Prop
  | standard => True
  | transaction name | workspace name => name ≠ "" ∧ '/' ∉ name.toList

/-- In the standard scope, the first segment of a path is not taken for the segment of another. -/
def Admits (scope : Scope) (path : String) : Prop :=
  scope = standard → ∀ first, (Path.segments path)[1]? = some first →
    Path.beginsWith transactionMark first = false ∧ Path.beginsWith workspaceMark first = false

/-- What a path without its slash begins with, its first segment begins with. -/
theorem Admits.startsWith_eq_false {rest : List Char}
    (h : Admits .standard (String.ofList ('/' :: rest))) :
    Text.startsWith transactionMark.toList rest = false ∧
      Text.startsWith workspaceMark.toList rest = false := by
  have hsegment : (Path.segments (String.ofList ('/' :: rest)))[1]? =
      some (String.ofList (Text.firstPiece '/' rest)) := by
    rw [Path.segments, String.toList_ofList, Text.pieces, if_pos rfl, List.map_cons,
      List.getElem?_cons_succ, List.getElem?_map, ← List.head?_eq_getElem?, Text.head?_pieces,
      Option.map_some]
  obtain ⟨htransaction, hworkspace⟩ := h rfl _ hsegment
  rw [Path.beginsWith, String.toList_ofList, Text.startsWith_firstPiece (by decide)]
    at htransaction hworkspace
  exact ⟨htransaction, hworkspace⟩

/-- The segment of a scope behind a slash, if there is one. -/
def segmentText (scope : Scope) : List Char := (scope.segment?.map ('/' :: ·.toList)).getD []

end Scope

namespace ScopedPath

variable {rest : List Char} {name : String}

theorem splitRequest_slash (rest : List Char) :
    (splitRequest ('/' :: rest)).1 = Text.firstPiece '/' rest := by
  have hslash : Text.after? ['/'] ('/' :: rest) = some rest := Text.after?_append ['/'] rest
  rw [splitRequest, hslash, Option.getD_some]
  rcases Text.cutFirst_firstPiece '/' rest with ⟨hcut, hpiece⟩ | ⟨behind, hcut⟩
  · simp only [hcut, hpiece]
  · simp only [hcut]

theorem splitRequest_segment {segment : List Char} (hsegment : '/' ∉ segment) (rest : List Char) :
    splitRequest ('/' :: segment ++ '/' :: rest) = (segment, '/' :: rest) := by
  have hslash : Text.after? ['/'] ('/' :: segment ++ '/' :: rest) = some (segment ++ '/' :: rest) :=
    Text.after?_append ['/'] _
  have hcut : Text.cutFirst '/' (segment ++ '/' :: rest) = some (segment, rest) :=
    Text.cutFirst_eq_some_iff.2 ⟨rfl, hsegment⟩
  rw [splitRequest, hslash, Option.getD_some]
  simp only [hcut]

/-- A request whose first segment is not that of a scope is a path of the standard scope. -/
theorem parse_standard (htransaction : Text.startsWith Scope.transactionMark.toList rest = false)
    (hworkspace : Text.startsWith Scope.workspaceMark.toList rest = false) :
    parse (String.ofList ('/' :: rest)) = .ok ⟨.standard, String.ofList ('/' :: rest)⟩ := by
  rw [← Text.startsWith_firstPiece (by decide : '/' ∉ _), Text.startsWith_eq_false_iff,
    ← splitRequest_slash] at htransaction hworkspace
  have hslash : Path.beginsWith "/" (String.ofList ('/' :: rest)) = true :=
    Text.startsWith_iff.2 ⟨rest, String.toList_ofList⟩
  simp only [parse, String.toList_ofList, htransaction, hworkspace, hslash, if_true]

/-- **A scope and a path are read from the request that names them**, if no first segment of the
path is taken for that of a scope. -/
theorem parse_request {scope : Scope} (hscope : scope.IsNameable)
    (hrest : scope = .standard → Text.startsWith Scope.transactionMark.toList rest = false ∧
      Text.startsWith Scope.workspaceMark.toList rest = false) :
    parse (String.ofList (scope.segmentText ++ '/' :: rest)) =
      .ok ⟨scope, String.ofList ('/' :: rest)⟩ := by
  have hsplit {mark name : String} (hmark : '/' ∉ mark.toList) (hname : '/' ∉ name.toList) :
      splitRequest ('/' :: (mark ++ name).toList ++ '/' :: rest) =
        (mark.toList ++ name.toList, '/' :: rest) := by
    rw [String.toList_append]
    exact splitRequest_segment (by simp [hmark, hname]) rest
  have hchars {name : String} (hname : name ≠ "") :
      ∃ c cs, name.toList = c :: cs ∧ String.ofList (c :: cs) = name := by
    obtain ⟨c, cs, hcs⟩ := List.exists_cons_of_ne_nil (mt String.toList_eq_nil_iff.1 hname)
    exact ⟨c, cs, hcs, by rw [← hcs, String.ofList_toList]⟩
  cases scope with
  | standard =>
      obtain ⟨htransaction, hworkspace⟩ := hrest rfl
      exact parse_standard htransaction hworkspace
  | transaction name =>
      obtain ⟨c, cs, hcs, hname⟩ := hchars hscope.1
      have htext : Scope.segmentText (.transaction name) =
          '/' :: (Scope.transactionMark ++ name).toList := rfl
      rw [parse, String.toList_ofList, htext, hsplit (by decide) hscope.2, hcs]
      simp only [Text.after?_append, hname]
  | workspace name =>
      obtain ⟨c, cs, hcs, hname⟩ := hchars hscope.1
      have htext : Scope.segmentText (.workspace name) =
          '/' :: (Scope.workspaceMark ++ name).toList := rfl
      have hother : Text.after? Scope.transactionMark.toList
          (Scope.workspaceMark.toList ++ c :: cs) = none := rfl
      rw [parse, String.toList_ofList, htext, hsplit (by decide) hscope.2, hcs]
      simp only [Text.after?_append, hother, hname]

end ScopedPath

/-! ### IRIs of paths -/

namespace IriMap

variable {base iri path : String} {scope : Scope} {r : Reader} {m : IriMap} {rest : List Char}

theorem toList_lead_ofBase (base : String) (scope : Scope) :
    (ofBase base scope).lead.toList = Text.trimEnd '/' base.toList ++ scope.segmentText := by
  cases scope <;>
    simp [ofBase, Scope.segment?, Scope.segmentText]

/-- The IRI of a path without a holder of fragments has a slash behind the text before all IRIs, and
then begins as the path does behind its own slash. -/
theorem exists_addressOf (m : IriMap) (hr : r.AnswersNodes) (rest : List Char) :
    ∃ part, m.addressOf r (String.ofList ('/' :: rest)) =
        .ok (m.lead ++ String.ofList ('/' :: part)) ∧
      ∀ mark, '/' ∉ mark → Text.startsWith mark part = Text.startsWith mark rest := by
  rw [addressOf, String.toList_ofList]
  split
  case h_1 c described hcontent =>
    obtain ⟨rfl, hrest⟩ := List.cons.inj (Text.before?_eq_some_iff.1 hcontent)
    have hrest : rest = described ++ contentTail := hrest
    refine ⟨described, rfl, fun mark hmark => ?_⟩
    rw [hrest, contentTail, Text.startsWith_append_cons hmark]
  case h_2 =>
    obtain ⟨b, hnode⟩ := exists_isDescription hr (String.ofList ('/' :: rest))
    rw [hnode]
    cases b with
    | false => exact ⟨rest, rfl, fun _ _ => rfl⟩
    | true =>
        refine ⟨rest ++ metadataTail, congrArg Except.ok (String.toList_injective ?_),
          fun mark hmark => Text.startsWith_append_cons hmark⟩
        simp [metadataTail]

/-- So does the IRI of any path, up to a mark of a fragment. -/
theorem exists_toExternal (m : IriMap) (hr : r.AnswersNodes) (rest : List Char) :
    ∃ part, m.toExternal r (String.ofList ('/' :: rest)) =
        .ok (m.lead ++ String.ofList ('/' :: part)) ∧
      ∀ mark, '/' ∉ mark → '#' ∉ mark → Text.startsWith mark part = Text.startsWith mark rest := by
  rw [toExternal, String.toList_ofList]
  split
  case h_1 owner fragment hcut =>
    have hpath := Text.eq_append_of_cutAt hcut
    obtain ⟨behind, howner, hbehind⟩ : ∃ behind,
        (if owner.isEmpty then "/" else String.ofList owner) = String.ofList ('/' :: behind) ∧
        ∀ mark, '/' ∉ mark → '#' ∉ mark →
          Text.startsWith mark behind = Text.startsWith mark rest := by
      cases owner with
      | nil =>
          have hrest : rest = [] ++ '#' :: ('/' :: fragment) := (List.cons.inj hpath).2
          refine ⟨[], rfl, fun mark _ hmark => ?_⟩
          rw [hrest, Text.startsWith_append_cons hmark]
      | cons c behind =>
          obtain ⟨rfl, hrest⟩ := List.cons.inj hpath
          have hrest : rest = behind ++ '/' :: ('#' :: '/' :: fragment) := by
            rw [hrest]
            simp [holderMark, Vocab.Name.hashHolder]
          refine ⟨behind, rfl, fun mark hmark _ => ?_⟩
          rw [hrest, Text.startsWith_append_cons hmark]
    obtain ⟨part, haddress, hpart⟩ := m.exists_addressOf hr behind
    refine ⟨part ++ '#' :: fragment, ?_, fun mark hslash hmark => ?_⟩
    · simp only [howner, haddress]
      refine congrArg Except.ok (String.toList_injective ?_)
      simp
    · rw [Text.startsWith_append_cons hmark, hpart mark hslash, hbehind mark hslash hmark]
  case h_2 =>
    obtain ⟨part, haddress, hpart⟩ := m.exists_addressOf hr rest
    exact ⟨part, haddress, fun mark hmark _ => hpart mark hmark⟩

/-- An IRI stays in the scope that it was written in: what follows the base, slashes at its end
aside, is a request of that scope, and the base, the segment of the scope and the path of the
request are the IRI again, so that the mapping of the scope of the request is the one that wrote
it, and finds that path behind the text before all IRIs. -/
def StaysInScope (base : String) (scope : Scope) (iri : String) : Prop :=
  ∃ request parsed,
    Text.after? (Text.trimEnd '/' base.toList) iri.toList = some request.toList ∧
      ScopedPath.parse request = .ok parsed ∧ parsed.scope = scope ∧
      iri.toList =
        Text.trimEnd '/' base.toList ++ parsed.scope.segmentText ++ parsed.path.toList ∧
      ofBase base parsed.scope = ofBase base scope ∧
      (ofBase base parsed.scope).rest? iri = some parsed.path.toList

/-- **IRIs stay in their scope.**  In every state in which nodes can be looked up, each path that
begins with a slash has an IRI, and that IRI is read in the scope that it was written in. -/
theorem staysInScope_toExternal (base : String) (hscope : scope.IsNameable) (hr : r.AnswersNodes)
    (hpath : Path.beginsWith "/" path = true) (hadmits : scope.Admits path) :
    ∃ iri, (ofBase base scope).toExternal r path = .ok iri ∧ StaysInScope base scope iri := by
  obtain ⟨rest, hrest⟩ := Text.startsWith_iff.1 hpath
  obtain rfl : path = String.ofList ('/' :: rest) := String.toList_injective (by simpa using hrest)
  obtain ⟨part, hiri, hpart⟩ := (ofBase base scope).exists_toExternal hr rest
  have hparse : ScopedPath.parse (String.ofList (scope.segmentText ++ '/' :: part)) =
      .ok ⟨scope, String.ofList ('/' :: part)⟩ := by
    refine ScopedPath.parse_request hscope ?_
    rintro rfl
    rw [hpart _ (by decide) (by decide), hpart _ (by decide) (by decide)]
    exact hadmits.startsWith_eq_false
  have htext : ((ofBase base scope).lead ++ String.ofList ('/' :: part)).toList =
      Text.trimEnd '/' base.toList ++ (scope.segmentText ++ '/' :: part) := by
    rw [String.toList_append, toList_lead_ofBase, String.toList_ofList, List.append_assoc]
  refine ⟨_, hiri, _, _, ?_, hparse, rfl, ?_, rfl, ?_⟩
  · rw [htext, Text.after?_append, String.toList_ofList]
  · rw [htext, String.toList_ofList, List.append_assoc]
  · exact rest?_eq_some_iff.2 ⟨by rw [String.toList_append], part, String.toList_ofList⟩

/-- A fragment, with a slash in it, of the content of a binary. -/
theorem staysInScope_toExternal_content :
    Scope.IsNameable .standard ∧ binaryReader.AnswersNodes ∧
      Path.beginsWith "/" "/bin/jcr:content/#/a/b" = true ∧
      Scope.Admits .standard "/bin/jcr:content/#/a/b" ∧
      ∃ iri, (ofBase "http://localhost/rest//" .standard).toExternal binaryReader
          "/bin/jcr:content/#/a/b" = .ok iri ∧
        StaysInScope "http://localhost/rest//" .standard iri := by
  have hr : binaryReader.AnswersNodes := Session.answersNodes_reader _ rfl
  have hadmits : Scope.Admits .standard "/bin/jcr:content/#/a/b" := by
    intro _ first hfirst
    have hbin : (Path.segments "/bin/jcr:content/#/a/b")[1]? = some "bin" := by decide
    obtain rfl := Option.some.inj (hbin.symm.trans hfirst)
    decide
  exact ⟨trivial, hr, by decide, hadmits, staysInScope_toExternal _ trivial hr (by decide) hadmits⟩

end IriMap

end LinkedStore
