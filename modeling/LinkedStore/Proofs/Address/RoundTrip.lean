import LinkedStore.Address.IriMap
import LinkedStore.Proofs.Text.Cut
import LinkedStore.Session.Basic

/-!
# IRIs and paths name each other

Reading an IRI as a path and writing a path as an IRI are two functions with rules of their own.
Both follow one relation between the path part of an IRI and a path without a fragment: a part
names the path it spells, the content of the binary described there, or, with the segment for
metadata, the description itself.  A fragment is carried along on both sides.

Reading an IRI and writing the path found gives the IRI back, whatever the IRI; writing a path and
reading the IRI gives the path back on the paths that clients address.  Both need a root that is
not the description of a binary, since the content of such a root would have no path part.

## Main definitions

* `IriMap.Addresses` : which path a path part names.
* `IriMap.IsPart` : the path parts that are read at all.
* `IriMap.IsOrdinary`, `IriMap.IsOwner`, `IriMap.IsAddressable` : the paths that clients address.

## Main statements

* `IriMap.toInternal_eq_some_iff` : which IRIs name which paths.
* `IriMap.toExternal_of_addresses` : the IRI of an addressed path.
* `IriMap.toExternal_of_toInternal` : from an IRI to a path and back.
* `IriMap.toInternal_of_toExternal` : from a path to an IRI and back.
-/

namespace LinkedStore

/-! ### Readers -/

namespace Reader

/-- Every node can be looked up, as in an open session. -/
def AnswersNodes (r : Reader) : Prop := ∀ path, ∃ found, r.node path = .ok found

/-- The root, if there is one, is not typed as the description of a binary. -/
def PlainRoot (r : Reader) : Prop :=
  ∀ n, r.node "/" = .ok (some n) →
    n.declares Vocab.Name.fedoraDescription = false ∧ n.primaryType ≠ Vocab.Name.ntFile

end Reader

/-- An open session answers every look-up of a node. -/
theorem Session.answersNodes_reader (r : Repository) {s : Session} (hs : s.live = true) :
    (s.reader r).AnswersNodes := fun path =>
  ⟨(s.current (r.committed s.workspace)).node? path, by simp [reader, answer, hs]⟩

namespace IriMap

variable {m : IriMap} {r : Reader} {iri path : String} {part : List Char}

theorem isDescription_eq (r : Reader) (path : String) :
    isDescription r path = (r.node path).map fun found => found.any fun n =>
      n.declares Vocab.Name.fedoraDescription || n.primaryType == Vocab.Name.ntFile := by
  rw [isDescription]
  cases r.node path <;> rfl

theorem isDescription_root (hroot : r.PlainRoot) : isDescription r "/" ≠ .ok true := by
  intro h
  rw [isDescription_eq] at h
  cases hnode : r.node "/" with
  | error e => simp [hnode, Except.map] at h
  | ok found =>
      cases found with
      | none => simp [hnode, Except.map] at h
      | some n =>
          obtain ⟨hdeclared, hprimary⟩ := hroot n hnode
          simp [hnode, Except.map, hdeclared, hprimary] at h

theorem exists_isDescription (hr : r.AnswersNodes) (path : String) :
    ∃ b, isDescription r path = .ok b := by
  obtain ⟨found, hfound⟩ := hr path
  exact ⟨_, by rw [isDescription_eq, hfound]; rfl⟩

/-! ### Parts and the paths they name -/

/-- What follows the path of a description in its IRI. -/
def metadataTail : List Char := '/' :: metadataSegment.toList

/-- What follows the path of a description in the path of its content. -/
def contentTail : List Char := '/' :: Vocab.Name.content.toList

/-- A path part of an IRI that is read: it is led by a slash, holds no mark of a fragment, and has
no segment that is not to be addressed. -/
structure IsPart (part : List Char) : Prop where
  slash : ∃ rest, part = '/' :: rest
  unmarked : '#' ∉ part
  addressable : hasInternalSegment part = false

/-- The path that a path part names in a store. -/
inductive Addresses (r : Reader) : List Char → String → Prop
  | plain {part : List Char} (htail : Text.before? metadataTail part = none)
      (hnode : isDescription r (String.ofList part) = .ok false) :
      Addresses r part (String.ofList part)
  | content {part : List Char} (htail : Text.before? metadataTail part = none)
      (hnode : isDescription r (String.ofList part) = .ok true) :
      Addresses r part (Path.child (String.ofList part) Vocab.Name.content)
  | description {described : List Char} (hne : described ≠ [])
      (hnode : isDescription r (String.ofList described) = .ok true) :
      Addresses r (described ++ metadataTail) (String.ofList described)

/-- A part resolves to the path it names. -/
theorem resolve_eq_some_iff : resolve r part = .ok (some path) ↔ Addresses r part path := by
  constructor
  · intro h
    rw [resolve] at h
    cases htail : Text.before? metadataTail part with
    | none =>
        simp only [metadataTail] at htail
        rw [htail] at h
        cases hnode : isDescription r (String.ofList part) with
        | error e => simp [hnode, bind, Except.bind] at h
        | ok b =>
            cases b with
            | false =>
                obtain rfl : String.ofList part = path := by
                  simpa [hnode, bind, Except.bind, pure, Except.pure] using h
                exact .plain htail hnode
            | true =>
                obtain rfl : Path.child (String.ofList part) Vocab.Name.content = path := by
                  simpa [hnode, bind, Except.bind, pure, Except.pure] using h
                exact .content htail hnode
    | some described =>
        obtain rfl := Text.before?_eq_some_iff.1 htail
        simp only [metadataTail] at htail
        rw [metadataTail, htail] at h
        by_cases hne : described = []
        · simp [hne, pure, Except.pure] at h
        · cases hnode : isDescription r (String.ofList described) with
          | error e => simp [hne, hnode, bind, Except.bind] at h
          | ok b =>
              cases b with
              | false => simp [hne, hnode, bind, Except.bind, pure, Except.pure] at h
              | true =>
                  obtain rfl : String.ofList described = path := by
                    simpa [hne, hnode, bind, Except.bind, pure, Except.pure] using h
                  exact .description hne hnode
  · rintro (⟨htail, hnode⟩ | ⟨htail, hnode⟩ | ⟨hne, hnode⟩)
    · simp only [metadataTail] at htail
      simp [resolve, htail, hnode, bind, Except.bind, pure, Except.pure]
    · simp only [metadataTail] at htail
      simp [resolve, htail, hnode, bind, Except.bind, pure, Except.pure]
    · simp [resolve, metadataTail, hne, hnode, bind, Except.bind, pure, Except.pure]

/-! ### Reserved segments -/

theorem hasInternalSegment_append (before behind : List Char) :
    hasInternalSegment (before ++ '/' :: behind) =
      (hasInternalSegment before || hasInternalSegment behind) := by
  rw [hasInternalSegment, Text.pieces_append, List.any_append]
  rfl

/-- Content is not addressed under its own path. -/
theorem before?_contentTail (h : hasInternalSegment part = false) :
    Text.before? contentTail part = none := by
  rw [Text.before?_eq_none_iff]
  rintro rest rfl
  have hcontent : hasInternalSegment Vocab.Name.content.toList = true := by decide
  rw [contentTail, hasInternalSegment_append, hcontent, Bool.or_true] at h
  exact absurd h (by decide)

theorem isPart_of_append_metadataTail {described : List Char} (hne : described ≠ [])
    (h : IsPart (described ++ metadataTail)) : IsPart described := by
  obtain ⟨rest, hslash⟩ := h.slash
  have haddressable := h.addressable
  rw [metadataTail, hasInternalSegment_append, Bool.or_eq_false_iff] at haddressable
  refine ⟨?_, fun hmem => h.unmarked (List.mem_append_left _ hmem), haddressable.1⟩
  obtain ⟨c, behind, rfl⟩ := List.exists_cons_of_ne_nil hne
  exact ⟨behind, by rw [(List.cons.inj hslash).1]⟩

/-! ### Writing -/

theorem toList_child_content {part : List Char} (hne : part ≠ ['/']) :
    (Path.child (String.ofList part) Vocab.Name.content).toList = part ++ contentTail := by
  rw [Path.child, String.toList_ofList, String.toList_ofList, Path.childChars, if_neg hne]
  rfl

theorem ofList_ne_root {part : List Char} (hroot : r.PlainRoot)
    (hnode : isDescription r (String.ofList part) = .ok true) : part ≠ ['/'] := by
  rintro rfl
  exact isDescription_root hroot hnode

/-- The IRI of a path without a fragment has the part that names the path. -/
theorem addressOf_of_addresses (m : IriMap) (hroot : r.PlainRoot) (hpart : IsPart part)
    (h : Addresses r part path) : m.addressOf r path = .ok (m.lead ++ String.ofList part) := by
  rw [addressOf]
  cases h with
  | plain htail hnode =>
      have hcontent := before?_contentTail hpart.addressable
      rw [contentTail] at hcontent
      simp [hcontent, hnode, bind, Except.bind, pure, Except.pure]
  | content htail hnode =>
      rw [toList_child_content (ofList_ne_root hroot hnode), contentTail, Text.before?_append]
      obtain ⟨rest, rfl⟩ := hpart.slash
      rfl
  | description hne hnode =>
      have hdescribed := isPart_of_append_metadataTail hne hpart
      have hcontent := before?_contentTail hdescribed.addressable
      rw [contentTail] at hcontent
      simp only [String.toList_ofList, hcontent, hnode, bind, Except.bind, pure, Except.pure]
      refine congrArg Except.ok (String.toList_injective ?_)
      simp [metadataTail]

/-- A path without a fragment holds no mark of one. -/
theorem unmarked_of_addresses (hroot : r.PlainRoot) (hpart : IsPart part)
    (h : Addresses r part path) : '#' ∉ path.toList := by
  cases h with
  | plain htail hnode => simpa using hpart.unmarked
  | content htail hnode =>
      rw [toList_child_content (ofList_ne_root hroot hnode), List.mem_append]
      exact not_or.2 ⟨hpart.unmarked, by decide⟩
  | description hne hnode =>
      simpa using (isPart_of_append_metadataTail hne hpart).unmarked

theorem ne_empty_of_addresses (hroot : r.PlainRoot) (hpart : IsPart part)
    (h : Addresses r part path) : path.toList ≠ [] := by
  cases h with
  | plain htail hnode =>
      obtain ⟨rest, rfl⟩ := hpart.slash
      simp
  | content htail hnode =>
      rw [toList_child_content (ofList_ne_root hroot hnode)]
      simp [contentTail]
  | description hne hnode => simpa using hne

/-! ### Fragments -/

/-- An IRI with a fragment, if there is one. -/
def withFragment (iri : String) : Option String → String
  | none => iri
  | some fragment => iri ++ "#" ++ fragment

/-- The path of a fragment of a resource; without a fragment, that of the resource. -/
def fragmentPath (owner : String) : Option String → String
  | none => owner
  | some fragment => Path.child (Path.child owner Vocab.Name.hashHolder) fragment

theorem toList_fragmentPath (owner fragment : String) :
    (fragmentPath owner (some fragment)).toList =
      (if owner = "/" then [] else owner.toList) ++ holderMark ++ fragment.toList := by
  by_cases howner : owner = "/"
  · subst howner
    simp [fragmentPath, Path.child, Path.childChars, holderMark, Vocab.Name.hashHolder]
  · have hchars : owner.toList ≠ ['/'] := fun h => howner (String.toList_injective h)
    have hholder : (owner.toList ++ '/' :: Vocab.Name.hashHolder.toList) ≠ ['/'] := by
      intro h
      have hlen := congrArg List.length h
      simp [Vocab.Name.hashHolder] at hlen
    simp [fragmentPath, Path.child, Path.childChars, hchars, hholder, howner, holderMark]

/-- **The IRI of an addressed path** is the text before all IRIs, the part that names the path,
and the fragment. -/
theorem toExternal_of_addresses (m : IriMap) (hroot : r.PlainRoot) (hpart : IsPart part)
    (h : Addresses r part path) (fragment : Option String) :
    m.toExternal r (fragmentPath path fragment) =
      .ok (withFragment (m.lead ++ String.ofList part) fragment) := by
  have hunmarked := unmarked_of_addresses hroot hpart h
  have haddress := addressOf_of_addresses m hroot hpart h
  rw [toExternal]
  cases fragment with
  | none =>
      have hcut : Text.cutAt holderMark path.toList = none :=
        Text.cutAt_of_notMem (by decide : '#' ∈ holderMark) hunmarked
      simp only [fragmentPath, hcut, haddress, withFragment]
  | some fragment =>
      have howner : '#' ∉ (if path = "/" then [] else path.toList) := by
        split
        · simp
        · exact hunmarked
      have hcut : Text.cutAt (['/'] ++ '#' :: ['/'])
          ((if path = "/" then [] else path.toList) ++ (['/'] ++ '#' :: ['/']) ++
            fragment.toList) =
          some (if path = "/" then [] else path.toList, fragment.toList) :=
        Text.cutAt_append (by decide) howner
      have hback : (if (if path = "/" then [] else path.toList).isEmpty then "/"
          else String.ofList (if path = "/" then [] else path.toList)) = path := by
        by_cases hpath : path = "/"
        · simp [hpath]
        · simp [hpath, ne_empty_of_addresses hroot hpart h]
      rw [toList_fragmentPath, show holderMark = ['/'] ++ '#' :: ['/'] from rfl, hcut]
      simp only [hback, haddress, bind, Except.bind, pure, Except.pure, withFragment,
        String.ofList_toList]

/-! ### Reading -/

theorem rest?_eq_some_iff {rest : List Char} :
    m.rest? iri = some rest ↔
      iri.toList = m.lead.toList ++ rest ∧ ∃ behind, rest = '/' :: behind := by
  rw [rest?]
  cases hafter : Text.after? m.lead.toList iri.toList with
  | none =>
      simp only [reduceCtorEq, false_iff, not_and]
      intro hiri
      rw [hiri, Text.after?_append] at hafter
      exact absurd hafter (by simp)
  | some found =>
      rw [Text.after?_eq_some_iff.1 hafter, List.append_cancel_left_eq]
      split
      · rename_i behind heq
        obtain rfl := Option.some.inj heq
        constructor
        · rintro h
          obtain rfl := Option.some.inj h
          exact ⟨rfl, behind, rfl⟩
        · rintro ⟨rfl, -⟩
          rfl
      · rename_i hslash
        simp only [reduceCtorEq, false_iff, not_and]
        rintro rfl ⟨behind, rfl⟩
        exact hslash behind rfl

/-- What a fragment adds to the path part of an IRI. -/
def fragmentTail : Option String → List Char
  | none => []
  | some fragment => '#' :: fragment.toList

theorem toList_withFragment (iri : String) (fragment : Option String) :
    (withFragment iri fragment).toList = iri.toList ++ fragmentTail fragment := by
  cases fragment <;> simp [withFragment, fragmentTail]

/-- What follows the text before all IRIs is a part without a mark and a fragment. -/
theorem exists_fragmentTail (rest : List Char) :
    ∃ part fragment, '#' ∉ part ∧ rest = part ++ fragmentTail fragment := by
  cases hcut : Text.cutFirst '#' rest with
  | none => exact ⟨rest, none, Text.cutFirst_eq_none_iff.1 hcut, by simp [fragmentTail]⟩
  | some cut =>
      obtain ⟨hrest, hunmarked⟩ := Text.cutFirst_eq_some_iff.1 hcut
      exact ⟨cut.1, some (String.ofList cut.2), hunmarked, by simpa [fragmentTail] using hrest⟩

/-- An IRI is read by resolving the part before its fragment. -/
theorem toInternal_of_rest? {fragment : Option String} (hunmarked : '#' ∉ part)
    (hrest : m.rest? iri = some (part ++ fragmentTail fragment)) :
    m.toInternal r iri =
      if hasInternalSegment part then .ok none
      else (resolve r part).map fun found => found.map (fragmentPath · fragment) := by
  rw [toInternal, hrest]
  cases fragment with
  | none =>
      have hcut : Text.cutFirst '#' part = none := Text.cutFirst_eq_none_iff.2 hunmarked
      simp only [fragmentTail, List.append_nil, hcut]
      split
      · rfl
      · cases resolve r part with
        | error e => rfl
        | ok found => cases found <;> rfl
  | some fragment =>
      have hcut : Text.cutFirst '#' (part ++ fragmentTail (some fragment)) =
          some (part, fragment.toList) :=
        Text.cutFirst_eq_some_iff.2 ⟨rfl, hunmarked⟩
      simp only [hcut, String.ofList_toList]
      split
      · rfl
      · cases resolve r part with
        | error e => rfl
        | ok found => cases found <;> rfl

theorem rest?_withFragment (m : IriMap) (hpart : IsPart part) (fragment : Option String) :
    m.rest? (withFragment (m.lead ++ String.ofList part) fragment) =
      some (part ++ fragmentTail fragment) := by
  obtain ⟨behind, hslash⟩ := hpart.slash
  exact rest?_eq_some_iff.2 ⟨by simp [toList_withFragment], behind ++ fragmentTail fragment,
    by simp [hslash]⟩

/-- **Which IRIs name which paths.** An IRI names a path if it is the text before all IRIs, a part
that names the owner, and the fragment. -/
theorem toInternal_eq_some_iff :
    m.toInternal r iri = .ok (some path) ↔
      ∃ part owner fragment, IsPart part ∧ Addresses r part owner ∧
        iri = withFragment (m.lead ++ String.ofList part) fragment ∧
        path = fragmentPath owner fragment := by
  constructor
  · intro h
    cases hrest : m.rest? iri with
    | none => simp [toInternal, hrest, pure, Except.pure] at h
    | some rest =>
        obtain ⟨part, fragment, hunmarked, rfl⟩ := exists_fragmentTail rest
        obtain ⟨hiri, behind, hslash⟩ := rest?_eq_some_iff.1 hrest
        rw [toInternal_of_rest? hunmarked hrest] at h
        split at h
        · simp at h
        · rename_i haddressable
          cases hresolve : resolve r part with
          | error e => simp [hresolve, Except.map] at h
          | ok found =>
              simp only [hresolve, Except.map, Except.ok.injEq, Option.map_eq_some_iff] at h
              obtain ⟨owner, rfl, rfl⟩ := h
              -- The slash is the part's own, since a fragment is led by another mark.
              have hpart : ∃ rest, part = '/' :: rest := by
                cases part with
                | nil => cases fragment <;> simp [fragmentTail] at hslash
                | cons c rest => exact ⟨rest, by rw [(List.cons.inj hslash).1]⟩
              refine ⟨part, owner, fragment, ⟨hpart, hunmarked, by simpa using haddressable⟩,
                resolve_eq_some_iff.1 hresolve, String.toList_injective ?_, rfl⟩
              rw [toList_withFragment, hiri]
              simp
  · rintro ⟨part, owner, fragment, hpart, haddresses, rfl, rfl⟩
    rw [toInternal_of_rest? hpart.unmarked (rest?_withFragment m hpart fragment),
      resolve_eq_some_iff.2 haddresses, hpart.addressable]
    rfl

theorem inDomain_withFragment (m : IriMap) (hpart : IsPart part) (fragment : Option String) :
    m.inDomain (withFragment (m.lead ++ String.ofList part) fragment) = true := by
  rw [inDomain, rest?_withFragment m hpart fragment]
  rfl

/-! ### From an IRI to a path and back -/

/-- **Reading and writing an IRI.** An IRI that names a path is the IRI of that path, whatever
the base, the scope and the store: slashes at the end or side by side, fragments that hold marks
themselves, descriptions, contents and paths of no node are all given back as they were. -/
theorem toExternal_of_toInternal (m : IriMap) {r : Reader} (hroot : r.PlainRoot)
    {iri path : String} (h : m.toInternal r iri = .ok (some path)) :
    m.toExternal r path = .ok iri := by
  obtain ⟨part, owner, fragment, hpart, haddresses, rfl, rfl⟩ := toInternal_eq_some_iff.1 h
  exact toExternal_of_addresses m hroot hpart haddresses fragment

/-- What an open session answers on a store with one binary, which is at `/bin`. -/
def binaryReader : Reader :=
  Session.reader (.start "root")
    ⟨Repository.defaultWorkspace,
      some ((Workspace.withRoot "root").insertNode
        ⟨"/bin", "bin", Vocab.Name.ntFile, [Vocab.Name.fedoraDescription]⟩), true⟩

theorem plainRoot_binaryReader : binaryReader.PlainRoot := by
  intro n hn
  have hfound : binaryReader.node "/" =
      .ok (some ⟨"/", "root", Vocab.Name.modeRoot, [Vocab.Name.fedoraContainer]⟩) := rfl
  obtain rfl := Option.some.inj (Except.ok.inj (hfound.symm.trans hn))
  decide

/-- A fragment, with a mark in it, of the description of a binary within a transaction. -/
theorem toExternal_of_toInternal_metadata :
    (ofBase "http://localhost/rest/" (.transaction "t")).toInternal binaryReader
        "http://localhost/rest/tx:t/bin/fcr:metadata#a#/b" = .ok (some "/bin/#/a#/b") ∧
      (ofBase "http://localhost/rest/" (.transaction "t")).toExternal binaryReader
        "/bin/#/a#/b" = .ok "http://localhost/rest/tx:t/bin/fcr:metadata#a#/b" :=
  ⟨rfl, toExternal_of_toInternal _ plainRoot_binaryReader rfl⟩

/-! ### From a path to an IRI and back -/

/-- An ordinary path: absolute, without a mark of a fragment, and with no segment that is reserved
for contents or for metadata. -/
structure IsOrdinary (path : String) : Prop where
  absolute : Path.beginsWith "/" path = true
  unmarked : '#' ∉ path.toList
  segments : ∀ s ∈ Path.segments path, Path.beginsWith "jcr:" s = false ∧ s ≠ metadataSegment

/-- A path without a fragment that clients address: an ordinary one, or the content of a binary
that is described at one. -/
inductive IsOwner (r : Reader) : String → Prop
  | ordinary {path : String} (hpath : IsOrdinary path) : IsOwner r path
  | content {path : String} (hpath : IsOrdinary path) (hne : path ≠ "/")
      (hnode : isDescription r path = .ok true) :
      IsOwner r (Path.child path Vocab.Name.content)

/-- A path that clients address: an owner, or a fragment of one. -/
inductive IsAddressable (r : Reader) : String → Prop
  | owner {path : String} (hpath : IsOwner r path) : IsAddressable r path
  | fragment {path : String} (hpath : IsOwner r path) (fragment : String) :
      IsAddressable r (Path.child (Path.child path Vocab.Name.hashHolder) fragment)

theorem IsAddressable.exists_fragmentPath (h : IsAddressable r path) :
    ∃ owner fragment, IsOwner r owner ∧ path = fragmentPath owner fragment := by
  cases h with
  | owner hpath => exact ⟨path, none, hpath, rfl⟩
  | fragment hpath fragment => exact ⟨_, some fragment, hpath, rfl⟩

namespace IsOrdinary

theorem isPart (h : IsOrdinary path) : IsPart path.toList := by
  obtain ⟨rest, hrest⟩ := Text.startsWith_iff.1 h.absolute
  refine ⟨⟨rest, by simpa using hrest⟩, h.unmarked, ?_⟩
  rw [hasInternalSegment, List.any_eq_false]
  intro piece hpiece
  have hsegment := (h.segments (String.ofList piece) (List.mem_map_of_mem hpiece)).1
  simpa [Path.beginsWith] using hsegment

theorem isPart_metadata (h : IsOrdinary path) : IsPart (path.toList ++ metadataTail) := by
  obtain ⟨rest, hrest⟩ := h.isPart.slash
  refine ⟨⟨rest ++ metadataTail, by rw [hrest]; rfl⟩, ?_, ?_⟩
  · rw [List.mem_append]
    exact not_or.2 ⟨h.unmarked, by decide⟩
  · rw [metadataTail, hasInternalSegment_append, h.isPart.addressable]
    decide

theorem before?_metadataTail (h : IsOrdinary path) :
    Text.before? metadataTail path.toList = none := by
  rw [Text.before?_eq_none_iff]
  intro rest hrest
  have hmem : metadataSegment ∈ Path.segments path := by
    have hlast : Text.pieces '/' metadataSegment.toList = [metadataSegment.toList] :=
      Text.pieces_of_notMem (by decide)
    rw [Path.segments, hrest, metadataTail, Text.pieces_append, hlast]
    simp
  exact (h.segments metadataSegment hmem).2 rfl

end IsOrdinary

/-- Every owner is named by a part. -/
theorem IsOwner.exists_addresses (hr : r.AnswersNodes) (h : IsOwner r path) :
    ∃ part, IsPart part ∧ Addresses r part path := by
  cases h with
  | ordinary hpath =>
      obtain ⟨b, hnode⟩ := exists_isDescription hr path
      rw [← String.ofList_toList (s := path)] at hnode ⊢
      cases b with
      | false => exact ⟨path.toList, hpath.isPart, .plain hpath.before?_metadataTail hnode⟩
      | true =>
          obtain ⟨rest, hrest⟩ := hpath.isPart.slash
          exact ⟨path.toList ++ metadataTail, hpath.isPart_metadata,
            .description (by simp [hrest]) hnode⟩
  | @content described hpath hne hnode =>
      rw [← String.ofList_toList (s := described)] at hnode ⊢
      exact ⟨described.toList, hpath.isPart, .content hpath.before?_metadataTail hnode⟩

/-- **Writing and reading a path.** The IRI of a path that clients address is one of the mapping's
and names that path, so different paths have different IRIs. -/
theorem toInternal_of_toExternal (m : IriMap) {r : Reader} (hr : r.AnswersNodes)
    (hroot : r.PlainRoot) :
    (∀ path, IsAddressable r path →
      ∃ iri, m.toExternal r path = .ok iri ∧ m.inDomain iri = true ∧
        m.toInternal r iri = .ok (some path)) ∧
    ∀ path other, IsAddressable r path → IsAddressable r other →
      m.toExternal r path = m.toExternal r other → path = other := by
  have hround : ∀ path, IsAddressable r path →
      ∃ iri, m.toExternal r path = .ok iri ∧ m.inDomain iri = true ∧
        m.toInternal r iri = .ok (some path) := by
    intro path hpath
    obtain ⟨owner, fragment, howner, rfl⟩ := hpath.exists_fragmentPath
    obtain ⟨part, hpart, haddresses⟩ := howner.exists_addresses hr
    exact ⟨_, toExternal_of_addresses m hroot hpart haddresses fragment,
      inDomain_withFragment m hpart fragment,
      toInternal_eq_some_iff.2 ⟨part, owner, fragment, hpart, haddresses, rfl, rfl⟩⟩
  refine ⟨hround, fun path other hpath hother hsame => ?_⟩
  obtain ⟨iri, hiri, -, hread⟩ := hround path hpath
  obtain ⟨iri', hiri', -, hread'⟩ := hround other hother
  obtain rfl : iri = iri' := Except.ok.inj (hiri.symm.trans (hsame.trans hiri'))
  exact Option.some.inj (Except.ok.inj (hread.symm.trans hread'))

/-- A fragment of the content of a binary, read through a workspace. -/
theorem toInternal_of_toExternal_content :
    binaryReader.AnswersNodes ∧ binaryReader.PlainRoot ∧
      IsAddressable binaryReader "/bin/jcr:content/#/a#/b" ∧
      ∃ iri, (ofBase "http://localhost/rest" (.workspace "w")).toExternal binaryReader
          "/bin/jcr:content/#/a#/b" = .ok iri ∧
        (ofBase "http://localhost/rest" (.workspace "w")).inDomain iri = true ∧
        (ofBase "http://localhost/rest" (.workspace "w")).toInternal binaryReader iri =
          .ok (some "/bin/jcr:content/#/a#/b") := by
  have hr : binaryReader.AnswersNodes := Session.answersNodes_reader _ rfl
  have hordinary : IsOrdinary "/bin" := ⟨by decide, by decide, by decide⟩
  have hpath : IsAddressable binaryReader "/bin/jcr:content/#/a#/b" :=
    .fragment (.content hordinary (by decide) rfl) "a#/b"
  exact ⟨hr, plainRoot_binaryReader, hpath,
    (toInternal_of_toExternal _ hr plainRoot_binaryReader).1 _ hpath⟩

end IriMap

end LinkedStore
