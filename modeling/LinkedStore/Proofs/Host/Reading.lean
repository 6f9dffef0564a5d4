import LinkedStore.Description.Values
import LinkedStore.Proofs.Fallible
import LinkedStore.Proofs.Host.Filing

/-!
# What a reader finds

A reader of a session finds nothing that the state of the session does not store, through whatever
wrappers it is reached.  Since a stored node is found under its own path, the resources that a
reader finds are told apart by their paths.

## Main definitions

* `Reader.ReadsFrom` : a reader finds nothing but what a state stores.
* `Resource.FoundIn` : a resource is a stored node, in the role that a reader gives it.

## Main statements

* `Access.readsFrom` : every reader reads from the state of its session.
* `Access.mem_references`, `Access.mem_properties_iff` : what a reader lists.
* `Access.byIdentifier?_eq`, `Access.property?_eq`, `Access.HidesNothing.node?_eq` : what a reader
  answers.
* `Resource.FoundIn.eq_of_path` : two resources that are found at one path are the same.
-/

namespace LinkedStore

variable {α β : Type}

/-! ### Readers -/

namespace Reader

variable {a : Reader} {w : Workspace}

/-- The reader finds nothing but what the state stores, and its listing of references leaves nothing
out.  It counts no fewer nodes than the state stores. -/
structure ReadsFrom (a : Reader) (w : Workspace) : Prop where
  node : ∀ {path : String} {n : Node}, a.node path = .ok (some n) → w.node? path = some n
  nodeByIdentifier : ∀ {identifier : String} {n : Node},
    a.nodeByIdentifier identifier = .ok (some n) → w.byIdentifier? identifier = some n
  property : ∀ {path name : String} {p : Property}, a.property path name = .ok (some p) →
    w.property? path name = some p
  children : ∀ {path : String} {listing : List (Except Error Node)} {n : Node},
    a.children path = .ok listing → .ok n ∈ listing → n ∈ w.children path
  references : ∀ {path : String} {kind : ReferenceKind} {listing : List (Except Error Property)}
    {p : Property}, a.references path kind = .ok listing → p ∈ w.references path kind →
      .ok p ∈ listing
  extent : w.nodes.size ≤ a.extent

end Reader

namespace FaultPlan

variable {plan : FaultPlan} {call : SessionCall}

theorem eq_of_guarding_eq_ok {answer : Except Error α} {value : α}
    (h : plan.guarding call answer = .ok value) : answer = .ok value := by
  rw [guarding] at h
  split at h
  · cases h
  · exact h

/-- A broken listing holds a failure more, and no value less. -/
theorem mem_iff_of_listing_eq_ok {answer : Listing α} {items : List (Except Error α)}
    (h : plan.listing call answer = .ok items) :
    ∃ all, answer = .ok all ∧ ∀ value, .ok value ∈ items ↔ .ok value ∈ all := by
  obtain ⟨all, hall, rfl⟩ := map_eq_ok_iff.1 (eq_of_guarding_eq_ok h)
  refine ⟨all, hall, fun value => ?_⟩
  split
  · have hfailure (e : Error) : Except.ok value ≠ Except.error e := by simp
    rw [List.mem_append, List.mem_cons, or_iff_right (hfailure _), ← List.mem_append,
      List.take_append_drop]
  · rfl

/-- A listing without failures is not a broken one. -/
theorem eq_of_listing_eq_ok {answer : Listing α} {values : List α}
    (h : plan.listing call answer = .ok (values.map .ok)) : answer = .ok (values.map .ok) := by
  obtain ⟨all, hall, heq⟩ := map_eq_ok_iff.1 (eq_of_guarding_eq_ok h)
  split at heq
  · have hfailure : .error (.refused (call.word ++ " item failed")) ∈
        values.map (Except.ok (ε := Error)) :=
      heq ▸ List.mem_append_right _ List.mem_cons_self
    simp at hfailure
  · rw [hall, heq]

end FaultPlan

namespace Session

variable {r : Repository} {s : Session}

theorem answer_eq_ok_iff {value found : α} :
    s.answer value = .ok found ↔ s.live = true ∧ value = found := by
  rw [answer]
  cases s.live <;> simp

theorem eq_of_listing_eq_ok {items : List α} {listed : List (Except Error α)}
    (h : s.listing items = .ok listed) : items.map .ok = listed := (answer_eq_ok_iff.1 h).2

/-- A session finds what its state stores, and nothing once it is closed. -/
theorem readsFrom_reader (r : Repository) (s : Session) :
    (s.reader r).ReadsFrom (s.current (r.committed s.workspace)) where
  node h := (answer_eq_ok_iff.1 h).2
  nodeByIdentifier h := (answer_eq_ok_iff.1 h).2
  property h := (answer_eq_ok_iff.1 h).2
  children h hn := by
    obtain rfl := eq_of_listing_eq_ok h
    obtain ⟨m, hm, heq⟩ := List.mem_map.1 hn
    exact Except.ok.inj heq ▸ hm
  references h hp := eq_of_listing_eq_ok h ▸ List.mem_map_of_mem hp
  extent := le_rfl

end Session

/-- **A reader reads from the state of its session**, through whatever it is reached. -/
theorem Access.readsFrom (h : Host) (a : Access) : (a.reader h).ReadsFrom (h.current a.number) := by
  induction a with
  | direct number => exact Session.readsFrom_reader _ _
  | within id inner ih =>
      exact ⟨ih.node, ih.nodeByIdentifier, ih.property, ih.children, ih.references, ih.extent⟩
  | faulty plan inner ih =>
      constructor
      case node =>
        intro path n h
        have hnode := FaultPlan.eq_of_guarding_eq_ok h
        split at hnode
        · cases hnode
        · exact ih.node hnode
      case nodeByIdentifier => exact fun h => ih.nodeByIdentifier (FaultPlan.eq_of_guarding_eq_ok h)
      case property => exact fun h => ih.property (FaultPlan.eq_of_guarding_eq_ok h)
      case children =>
        intro path listing n h hn
        obtain ⟨all, hall, hmem⟩ := FaultPlan.mem_iff_of_listing_eq_ok h
        exact ih.children hall ((hmem n).1 hn)
      case references =>
        intro path kind listing p h hp
        obtain ⟨all, hall, hmem⟩ := FaultPlan.mem_iff_of_listing_eq_ok h
        exact (hmem p).2 (ih.references hall hp)
      case extent => exact ih.extent

/-- A listing of references holds nothing but what the state lists, through whatever it is
reached. -/
theorem Access.mem_references {h : Host} {a : Access} {path : String} {kind : ReferenceKind}
    {listing : List (Except Error Property)} {p : Property}
    (hlisting : (a.reader h).references path kind = .ok listing) (hp : .ok p ∈ listing) :
    p ∈ (h.current a.number).references path kind := by
  induction a generalizing listing with
  | direct number =>
      obtain rfl := Session.eq_of_listing_eq_ok hlisting
      obtain ⟨q, hq, heq⟩ := List.mem_map.1 hp
      exact Except.ok.inj heq ▸ hq
  | within id inner ih => exact ih hlisting hp
  | faulty plan inner ih =>
      obtain ⟨all, hall, hmem⟩ := FaultPlan.mem_iff_of_listing_eq_ok hlisting
      exact ih hall ((hmem p).1 hp)

/-- A listing of properties holds those that the state stores and no other. -/
theorem Access.mem_properties_iff {h : Host} {a : Access} {path : String}
    {listing : List (Except Error Property)} {p : Property}
    (hlisting : (a.reader h).properties path = .ok listing) :
    .ok p ∈ listing ↔ p ∈ (h.current a.number).propertiesOf path := by
  induction a generalizing listing with
  | direct number =>
      obtain rfl := Session.eq_of_listing_eq_ok hlisting
      exact List.mem_map_of_injective fun _ _ => Except.ok.inj
  | within id inner ih => exact ih hlisting
  | faulty plan inner ih =>
      obtain ⟨all, hall, hmem⟩ := FaultPlan.mem_iff_of_listing_eq_ok hlisting
      rw [hmem, ih hall]
      rfl

/-- The children that are listed without a failure are those that the state stores. -/
theorem Access.children_eq {h : Host} {a : Access} {path : String} {nodes : List Node}
    (hlisting : (a.reader h).children path = .ok (nodes.map .ok)) :
    (h.current a.number).children path = nodes := by
  induction a with
  | direct number =>
      have heq := Session.eq_of_listing_eq_ok hlisting
      exact List.map_injective_iff.2 (fun _ _ => Except.ok.inj) heq
  | within id inner ih => exact ih hlisting
  | faulty plan inner ih => exact ih (FaultPlan.eq_of_listing_eq_ok hlisting)

/-- What is answered about an identifier is what the state knows about it. -/
theorem Access.byIdentifier?_eq {h : Host} {a : Access} {identifier : String} {found : Option Node}
    (hfound : (a.reader h).nodeByIdentifier identifier = .ok found) :
    (h.current a.number).byIdentifier? identifier = found := by
  induction a with
  | direct number => exact (Session.answer_eq_ok_iff.1 hfound).2
  | within id inner ih => exact ih hfound
  | faulty plan inner ih => exact ih (FaultPlan.eq_of_guarding_eq_ok hfound)

/-- What is answered about a property is what the state stores. -/
theorem Access.property?_eq {h : Host} {a : Access} {path name : String} {found : Option Property}
    (hfound : (a.reader h).property path name = .ok found) :
    (h.current a.number).property? path name = found := by
  induction a with
  | direct number => exact (Session.answer_eq_ok_iff.1 hfound).2
  | within id inner ih => exact ih hfound
  | faulty plan inner ih => exact ih (FaultPlan.eq_of_guarding_eq_ok hfound)

/-- No node is hidden on the way to a session. -/
def Access.HidesNothing : Access → Prop
  | .direct _ => True
  | .within _ inner => inner.HidesNothing
  | .faulty plan inner => plan.hidden = [] ∧ inner.HidesNothing

/-- Where nothing is hidden, what is answered about a path is what the state stores there. -/
theorem Access.HidesNothing.node?_eq {h : Host} {a : Access} (ha : a.HidesNothing) {path : String}
    {found : Option Node} (hfound : (a.reader h).node path = .ok found) :
    (h.current a.number).node? path = found := by
  induction a with
  | direct number => exact (Session.answer_eq_ok_iff.1 hfound).2
  | within id inner ih => exact ih ha hfound
  | faulty plan inner ih =>
      obtain ⟨hhidden, hinner⟩ := ha
      have hnode := FaultPlan.eq_of_guarding_eq_ok hfound
      rw [hhidden, if_neg (by simp)] at hnode
      exact ih hinner hnode

/-! ### Resources -/

namespace Resource

variable {a : Reader} {w : Workspace} {x y : Resource}

/-- The resource is a stored node, in the role that the reader gives it. -/
structure FoundIn (w : Workspace) (a : Reader) (x : Resource) : Prop where
  stored : w.node? x.path = some x.node
  role : ofNode a x.node = .ok x

theorem node_of_ofNode {n : Node} (h : ofNode a n = .ok x) : x.node = n := by
  obtain ⟨types, -, htypes⟩ := bind_eq_ok_iff.1 h
  rw [← pure_eq_ok_iff.1 htypes]

/-- Two resources that are found at one path are the same. -/
theorem FoundIn.eq_of_path (hx : x.FoundIn w a) (hy : y.FoundIn w a) (hpath : x.path = y.path) :
    x = y := by
  have hnode : x.node = y.node :=
    Option.some.inj (hx.stored.symm.trans ((congrArg w.node? hpath).trans hy.stored))
  exact Except.ok.inj (hx.role.symm.trans (hnode ▸ hy.role))

theorem foundIn_of_ofNode (hw : w.Filed) {path : String} {n : Node} (hn : w.node? path = some n)
    (h : ofNode a n = .ok x) : x.FoundIn w a := by
  obtain rfl := node_of_ofNode h
  exact ⟨(congrArg w.node? (hw.path hn)).trans hn, h⟩

theorem at?_eq_some_iff {path : String} :
    at? a path = .ok (some x) ↔ ∃ n, a.node path = .ok (some n) ∧ ofNode a n = .ok x := by
  rw [at?, bind_eq_ok_iff]
  constructor
  · rintro ⟨found, hnode, h⟩
    cases found with
    | none => cases h
    | some n =>
        obtain ⟨y, hrole, heq⟩ := map_eq_ok_iff.1 h
        exact ⟨n, hnode, Option.some.inj heq ▸ hrole⟩
  · rintro ⟨n, hnode, hrole⟩
    exact ⟨some n, hnode, map_eq_ok_iff.2 ⟨x, hrole, rfl⟩⟩

theorem byIdentifier?_eq_some_iff {identifier : String} :
    byIdentifier? a identifier = .ok (some x) ↔
      ∃ n, a.nodeByIdentifier identifier = .ok (some n) ∧ ofNode a n = .ok x := by
  rw [byIdentifier?, bind_eq_ok_iff]
  constructor
  · rintro ⟨found, hnode, h⟩
    cases found with
    | none => cases h
    | some n =>
        obtain ⟨y, hrole, heq⟩ := map_eq_ok_iff.1 h
        exact ⟨n, hnode, Option.some.inj heq ▸ hrole⟩
  · rintro ⟨n, hnode, hrole⟩
    exact ⟨some n, hnode, map_eq_ok_iff.2 ⟨x, hrole, rfl⟩⟩

theorem foundIn_of_at? (ha : a.ReadsFrom w) (hw : w.Filed) {path : String}
    (h : at? a path = .ok (some x)) : x.FoundIn w a := by
  obtain ⟨n, hnode, hrole⟩ := at?_eq_some_iff.1 h
  exact foundIn_of_ofNode hw (ha.node hnode) hrole

theorem foundIn_of_byIdentifier? (ha : a.ReadsFrom w) (hw : w.Filed) {identifier : String}
    (h : byIdentifier? a identifier = .ok (some x)) : x.FoundIn w a := by
  obtain ⟨n, hnode, hrole⟩ := byIdentifier?_eq_some_iff.1 h
  obtain ⟨path, -, hstored⟩ := Option.bind_eq_some_iff.1 (ha.nodeByIdentifier hnode)
  exact foundIn_of_ofNode hw hstored hrole

end Resource

/-- What a value points at is found in the state that is read from. -/
theorem View.foundIn_of_target? {v : View} {w : Workspace} (ha : v.reader.ReadsFrom w)
    (hw : w.Filed) {value : Value} {x : Resource} (h : v.target? value = .ok (some x)) :
    x.FoundIn w v.reader := by
  cases value with
  | path path => exact Resource.foundIn_of_at? ha hw h
  | reference identifier => exact Resource.foundIn_of_byIdentifier? ha hw h
  | weakReference identifier => exact Resource.foundIn_of_byIdentifier? ha hw h
  | _ => cases h

end LinkedStore
