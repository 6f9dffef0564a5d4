import LinkedStore.Proofs.Description.Exploration

/-!
# The blank nodes of a description

The blank nodes embedded in a resource are those that can be come by along its pointers, each
embedded once, whatever cycles there are among the pointers.

## Main definitions

* `Description.PointsAt`, `Description.Embedded` : which blank nodes belong into a description.
* `Description.ownTriples` : what is stated about one of them.
* `Description.EmbedsBlankNodes` : the walk comes to an end and embeds just those, unless it fails.

## Main statements

* `Description.embeds_blankNodes` : it does, in every state of a host.
-/

namespace LinkedStore.Description

variable {v : View} {w : Workspace} {x y b : Resource}

/-! ### What belongs into a description -/

/-- A value of a property of one resource points at another, which is a blank node. -/
def PointsAt (v : View) (y b : Resource) : Prop :=
  ∃ listing p value, y.properties v.reader = .ok listing ∧ .ok p ∈ listing ∧ value ∈ p.values ∧
    v.target? value = .ok (some b) ∧ b.isBlankNode v.reader = .ok true

/-- The blank nodes that a resource points at, directly or through other blank nodes, without the
resource itself. -/
inductive Embedded (v : View) (x : Resource) : Resource → Prop
  | direct {b : Resource} (hpoints : PointsAt v x b) (hne : b.path ≠ x.path) : Embedded v x b
  | further {y b : Resource} (hy : Embedded v x y) (hpoints : PointsAt v y b)
      (hne : b.path ≠ x.path) : Embedded v x b

/-- The types of a resource, and then its properties. -/
def ownTriples (v : View) (b : Resource) : Except Error (List Triple) := do
  let ofTypes ← (← types v b).collect v
  let ofProperties ← (← properties v b).collect v
  pure (ofTypes ++ ofProperties)

/-- The walk over the blank nodes of a resource comes to an end, also without a bound, and behind a
failure too; unless it fails, it states what is to be stated about each embedded node, and no
more. -/
structure EmbedsBlankNodes (v : View) (x : Resource) : Prop where
  ends : ∀ {s : Stream View}, blankNodes v x = .ok s → ∃ listing embedded,
    x.properties v.reader = .ok listing ∧ Surveys v listing [x.path] embedded (s.flow.items v)
  exact : ∀ {s : Stream View} {triples : List Triple}, blankNodes v x = .ok s →
    s.collect v = .ok triples → ∃ nodes : List Resource, nodes.Nodup ∧
      (∀ b, b ∈ nodes ↔ Embedded v x b) ∧ ∃ parts,
        List.Forall₂ (fun b part => ownTriples v b = .ok part) nodes parts ∧
        triples = parts.flatten

theorem blankTarget?_eq_some_iff {value : Value} :
    blankTarget? v value = .ok (some b) ↔
      v.target? value = .ok (some b) ∧ b.isBlankNode v.reader = .ok true := by
  rw [blankTarget?, bind_eq_ok_iff]
  constructor
  · rintro ⟨target, htarget, h⟩
    cases target with
    | none => cases h
    | some x =>
        obtain ⟨blank, hblank, h⟩ := bind_eq_ok_iff.1 h
        cases blank with
        | false => cases h
        | true =>
            obtain rfl := Option.some.inj (Except.ok.inj h)
            exact ⟨htarget, hblank⟩
  · rintro ⟨htarget, hblank⟩
    exact ⟨some b, htarget, bind_eq_ok_iff.2 ⟨true, hblank, rfl⟩⟩

theorem pointsAt_iff :
    PointsAt v y b ↔ ∃ listing p value, y.properties v.reader = .ok listing ∧ .ok p ∈ listing ∧
      value ∈ p.values ∧ blankTarget? v value = .ok (some b) := by
  simp only [PointsAt, blankTarget?_eq_some_iff]

theorem PointsAt.foundIn (ha : v.reader.ReadsFrom w) (hw : w.Filed) (h : PointsAt v y b) :
    b.FoundIn w v.reader := by
  obtain ⟨_, _, _, _, _, _, htarget, _⟩ := h
  exact View.foundIn_of_target? ha hw htarget

theorem Embedded.foundIn (ha : v.reader.ReadsFrom w) (hw : w.Filed) (h : Embedded v x b) :
    b.FoundIn w v.reader := by
  cases h with
  | direct hpoints _ => exact hpoints.foundIn ha hw
  | further _ hpoints _ => exact hpoints.foundIn ha hw

/-! ### What is stated about an embedded node -/

theorem opening_eq_ok_iff {opening : Opening} :
    Opening.of v b = .ok opening ↔ ∃ ofTypes ofProperties listing, types v b = .ok ofTypes ∧
      properties v b = .ok ofProperties ∧ b.properties v.reader = .ok listing ∧
      ⟨ofTypes.flow ++ ofProperties.flow, listing⟩ = opening := by
  simp only [Opening.of, bind_eq_ok_iff, pure_eq_ok_iff]
  constructor
  · rintro ⟨ofTypes, htypes, ofProperties, hproperties, listing, hlisting, heq⟩
    exact ⟨ofTypes, ofProperties, listing, htypes, hproperties, hlisting, heq⟩
  · rintro ⟨ofTypes, ofProperties, listing, htypes, hproperties, hlisting, heq⟩
    exact ⟨ofTypes, htypes, ofProperties, hproperties, listing, hlisting, heq⟩

theorem Reached.properties_eq (b : Reached v) :
    b.node.properties v.reader = .ok b.opening.listing := by
  obtain ⟨_, _, listing, _, _, hlisting, heq⟩ := opening_eq_ok_iff.1 b.opened
  rw [← heq, hlisting]

theorem collect_types {s : Stream View} (hs : types v b = .ok s) {triples : List Triple} :
    s.collect v = .ok triples ↔ s.flow.Yields v triples := by
  obtain ⟨topic, -, hs⟩ := bind_eq_ok_iff.1 hs
  obtain ⟨iris, -, hs⟩ := bind_eq_ok_iff.1 hs
  obtain rfl := Except.ok.inj hs
  exact Stream.collect_ofFlow_eq_ok_iff

theorem collect_properties {s : Stream View} (hs : properties v b = .ok s)
    {triples : List Triple} : s.collect v = .ok triples ↔ s.flow.Yields v triples := by
  obtain ⟨topic, -, hs⟩ := bind_eq_ok_iff.1 hs
  obtain ⟨owners, -, hs⟩ := bind_eq_ok_iff.1 hs
  obtain rfl := Except.ok.inj hs
  exact Stream.collect_ofFlow_eq_ok_iff

theorem Reached.ownTriples_eq (b : Reached v) {part : List Triple}
    (hpart : b.opening.own.Yields v part) : ownTriples v b.node = .ok part := by
  obtain ⟨ofTypes, ofProperties, _, htypes, hproperties, _, heq⟩ := opening_eq_ok_iff.1 b.opened
  rw [← heq, Flow.yields_append] at hpart
  obtain ⟨first, second, hfirst, hsecond, rfl⟩ := hpart
  rw [ownTriples, htypes, hproperties]
  simp only [bind, Except.bind, (collect_types htypes).2 hfirst,
    (collect_properties hproperties).2 hsecond]
  rfl

/-! ### The nodes that are embedded -/

/-- A task that the resource, or a node embedded in it, has led to. -/
def Task.From (x : Resource) : Task v → Prop
  | .property (.ok p) => ∃ y listing, (y = x ∨ Embedded v x y) ∧
      y.properties v.reader = .ok listing ∧ .ok p ∈ listing
  | .property (.error _) => True
  | .node b => Embedded v x b.node

theorem Task.From.of_listing {listing : List (Except Error Property)}
    (hy : y = x ∨ Embedded v x y) (hlisting : y.properties v.reader = .ok listing) :
    ∀ task ∈ listing.map (Task.property (v := v)), task.From x := by
  intro task htask
  obtain ⟨item, hitem, rfl⟩ := List.mem_map.1 htask
  cases item with
  | error e => trivial
  | ok p => exact ⟨y, listing, hy, hlisting, hitem⟩

namespace Explores

variable {agenda : List (Task v)} {visited visited' : List String} {embedded : List (Reached v)}
  {triples : List Triple} {ending : Ending}

/-- Only blank nodes that the resource leads to are embedded. -/
theorem sound (h : Explores v agenda visited embedded triples ending) (hx : x.path ∈ visited)
    (hagenda : ∀ task ∈ agenda, task.From x) : ∀ b ∈ embedded, Embedded v x b.node := by
  have hpointed {y : Resource} {listing : List (Except Error Property)} {p : Property}
      {value : Value} {b : Reached v} (hy : y = x ∨ Embedded v x y)
      (hlisting : y.properties v.reader = .ok listing) (hp : .ok p ∈ listing)
      (hvalue : value ∈ p.values) (htarget : blankTarget? v value = .ok (some b.node))
      (hb : b.path ∉ [x.path]) : Embedded v x b.node := by
    have hpoints : PointsAt v y b.node :=
      pointsAt_iff.2 ⟨listing, p, value, hlisting, hp, hvalue, htarget⟩
    have hne : b.path ≠ x.path := fun hpath => hb (List.mem_singleton.2 hpath)
    rcases hy with rfl | hy
    · exact .direct hpoints hne
    · exact .further hy hpoints hne
  refine h.forall_embedded (List.cons_subset.2 ⟨hx, List.nil_subset _⟩) (fun b hb => hagenda _ hb)
    (fun p hp value hvalue b htarget hb => ?_) fun c hc p hp value hvalue b htarget hb => ?_
  · obtain ⟨y, listing, hy, hlisting, hmem⟩ := hagenda _ hp
    exact hpointed hy hlisting hmem hvalue htarget hb
  · exact hpointed (.inr hc) c.properties_eq hp hvalue htarget hb

/-- Just the blank nodes that the resource leads to are embedded, unless the walk fails. -/
theorem mem_iff (ha : v.reader.ReadsFrom w) (hw : w.Filed)
    {listing : List (Except Error Property)} (hlisting : x.properties v.reader = .ok listing)
    (h : Explores v (listing.map .property) [x.path] embedded triples (.finished visited')) :
    b ∈ embedded.map Reached.node ↔ Embedded v x b := by
  have hsound := h.sound List.mem_cons_self (Task.From.of_listing (.inl rfl) hlisting)
  obtain ⟨hagenda, hclosed⟩ := h.closed
  rw [List.mem_map]
  constructor
  · rintro ⟨c, hc, rfl⟩
    exact hsound c hc
  · -- a blank node that a covered property points at is embedded
    have hcovered {p : Property} (hp : Covers v [x.path] embedded p) {value : Value}
        {b : Resource} (hvalue : value ∈ p.values)
        (htarget : blankTarget? v value = .ok (some b)) (hne : b.path ≠ x.path) :
        ∃ c ∈ embedded, c.node = b := by
      rcases hp value hvalue b htarget with hvisited | ⟨c, hc, hpath⟩
      · exact absurd (List.mem_singleton.1 hvisited) hne
      · have hb := View.foundIn_of_target? ha hw (blankTarget?_eq_some_iff.1 htarget).1
        exact ⟨c, hc, ((hsound c hc).foundIn ha hw).eq_of_path hb hpath⟩
    intro hb
    induction hb with
    | direct hpoints hne =>
        obtain ⟨listing', p, value, hlisting', hp, hvalue, htarget⟩ := pointsAt_iff.1 hpoints
        obtain rfl := Except.ok.inj (hlisting.symm.trans hlisting')
        exact hcovered (hagenda p (List.mem_map_of_mem hp)) hvalue htarget hne
    | further _ hpoints hne ih =>
        obtain ⟨c, hc, rfl⟩ := ih
        obtain ⟨listing', p, value, hlisting', hp, hvalue, htarget⟩ := pointsAt_iff.1 hpoints
        obtain rfl := Except.ok.inj (c.properties_eq.symm.trans hlisting')
        exact hcovered (hclosed c hc p hp) hvalue htarget hne

end Explores

/-! ### The stream -/

/-- A blank node that is pointed at lies at a stored path. -/
theorem path_mem_stored (ha : v.reader.ReadsFrom w) (hw : w.Filed) {value : Value}
    (htarget : blankTarget? v value = .ok (some b)) : b.path ∈ w.nodes.keys.toFinset := by
  have hb := View.foundIn_of_target? ha hw (blankTarget?_eq_some_iff.1 htarget).1
  exact List.mem_toFinset.2 (Table.mem_keys_iff.2 ⟨b.node, hb.stored⟩)

/-- There are fewer stored paths than nodes may be embedded in one another. -/
theorem card_stored_lt (ha : v.reader.ReadsFrom w) :
    w.nodes.keys.toFinset.card < depthBound v := by
  refine (List.toFinset_card_le _).trans_lt ?_
  rw [Std.ExtTreeMap.length_keys]
  exact Nat.lt_of_le_of_lt ha.extent (Nat.lt_add_of_pos_right (by decide))

/-- The stream of the blank nodes of a resource walks over its properties, without a bound. -/
theorem surveys_of_blankNodes (ha : v.reader.ReadsFrom w) (hw : w.Filed) {s : Stream View}
    (hs : blankNodes v x = .ok s) :
    s.finished = false ∧ ∃ listing embedded, x.properties v.reader = .ok listing ∧
      Surveys v listing [x.path] embedded (s.flow.items v) := by
  obtain ⟨topic, -, hs⟩ := bind_eq_ok_iff.1 hs
  obtain ⟨listing, hlisting, hs⟩ := bind_eq_ok_iff.1 hs
  obtain rfl := Except.ok.inj hs
  obtain ⟨embedded, h⟩ := exists_surveys (fun _ _ => path_mem_stored ha hw)
    (card_stored_lt ha) listing [x.path]
  exact ⟨rfl, listing, embedded, hlisting, h⟩

theorem embedsBlankNodes (ha : v.reader.ReadsFrom w) (hw : w.Filed) (x : Resource) :
    EmbedsBlankNodes v x where
  ends hs := (surveys_of_blankNodes ha hw hs).2
  exact := by
    intro s triples hs htriples
    obtain ⟨hfinished, listing, embedded, hlisting, hsurveys⟩ := surveys_of_blankNodes ha hw hs
    have hitems : s.flow.items v = triples.map .ok := by
      rw [Stream.collect_eq_ok_iff, Stream.remaining, hfinished] at htriples
      exact Flow.yields_untilFailure.1 htriples
    obtain ⟨visited', h⟩ := hsurveys.explores hitems
    have hpending := pending_properties listing ([] : List (Task v))
    rw [List.append_nil, pending_nil] at hpending
    have hpaths := h.nodup (by simp [hpending]) (by simp [hpending])
    obtain ⟨parts, hparts, rfl⟩ := h.yields
    refine ⟨embedded.map Reached.node, ?_, fun b => h.mem_iff ha hw hlisting, parts, ?_, rfl⟩
    · exact List.Nodup.of_map Resource.path (by rw [List.map_map]; exact hpaths)
    · exact List.forall₂_map_left_iff.2 (hparts.imp fun b part => b.ownTriples_eq)

/-- **A description embeds each blank node once**, in every state of a host, through whatever the
state is read, and however the nodes are named. -/
theorem embeds_blankNodes {r : Repository} (hr : r.IsNew) (calls : List Host.Call) (a : Access)
    (hv : v.reader = a.reader ((Host.mk r []).run calls)) (x : Resource) :
    EmbedsBlankNodes v x :=
  embedsBlankNodes (hv ▸ a.readsFrom _) (Host.filed_current hr calls a.number) x

/-- A run that lets two blank nodes point at each other, at themselves, and at the node that points
at them. -/
def circling : List Host.Call :=
  let d (number : Nat) : Draws := ⟨fun j => toString number ++ ":" ++ toString j, .epoch⟩
  let point (number : Nat) (path : String) (targets : List String) : Host.Call :=
    .mutate 0 (d number) (.putProperty (.many path "ldp:member" (targets.map .path)))
  [.opening "default", .mutate 0 (d 1) (.addNode "/a" "nt:unstructured"),
    .mutate 0 (d 2) (.addNode "/b" "nt:unstructured"),
    .mutate 0 (d 3) (.addMixin "/b" Vocab.Name.fedoraBlanknode),
    .mutate 0 (d 4) (.addNode "/c" "nt:unstructured"),
    .mutate 0 (d 5) (.addMixin "/c" Vocab.Name.fedoraBlanknode),
    point 6 "/a" ["/b", "/a"], point 7 "/b" ["/c", "/b"], point 8 "/c" ["/b", "/a"]]

/-- The nodes of the run, named by IRIs. -/
def circlingView : View :=
  .ofMap ⟨"http://localhost"⟩ ((Access.direct 0).reader ((Host.start "root").run circling))

/-- The walk ends although the pointers circle, and comes by each of them once. -/
theorem embeds_blankNodes_circling :
    (∀ x, EmbedsBlankNodes circlingView x) ∧
      (do
        let x ← Resource.require circlingView.reader "/a"
        let triples ← (← blankNodes circlingView x).collect circlingView
        let pointers := triples.filter fun t => t.predicate = .iri "http://www.w3.org/ns/ldp#member"
        pure (pointers.map fun t => (t.subject, t.object))) =
      Except.ok (ε := Error)
        [(.iri "http://localhost/b", .iri "http://localhost/c"),
          (.iri "http://localhost/b", .iri "http://localhost/b"),
          (.iri "http://localhost/c", .iri "http://localhost/b"),
          (.iri "http://localhost/c", .iri "http://localhost/a")] :=
  ⟨embeds_blankNodes (Repository.isNew_start "root") circling (.direct 0) rfl, by decide +kernel⟩

end LinkedStore.Description
