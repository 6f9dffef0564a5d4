import LinkedStore.Proofs.Host.Reading

/-!
# The nearest addressable ancestor

The container of a resource is found by a walk up the chain of parents, one path at a time: a path
that holds no addressable resource is passed over, and the walk ends at the first one that does, or
at the end of the chain.  Nothing is asked of the paths, which may have slashes missing, doubled or
at their ends: a parent is shorter than its path in any case, so the chain has an end and so does
the walk.

## Main definitions

* `Path.above?` : the path a number of steps up the chain of parents.
* `Path.Reserved` : names of the store's own nodes.
* `Resource.AddressableAt`, `Resource.PassedOver` : what the walk stops at, and what it passes over.
* `Resource.StartsAt` : the resource that the walk starts above.
* `Resource.NearestAbove` : what there is to be found above a path.
* `Resource.Walk` : the walk, turn by turn.
* `Reader.Replies` : a reader answers what it is asked about nodes and properties.
* `Resource.FindsContainer` : the container of a resource is found.

## Main statements

* `Path.length_add_le_of_above?` : every step up makes a path shorter.
* `Resource.walk_iff` : the walk ends in one way, which is what a search of the chain gives.
* `Resource.findsContainer` : the container of every resource is found.
-/

namespace LinkedStore

variable {path top : String} {r : Reader} {x y start : Resource}

namespace Path

/-! ### Up the chain of parents -/

/-- The path that lies a number of steps above a path; none behind the end of the chain. -/
def above? : Nat → String → Option String
  | 0, path => some path
  | steps + 1, path => (parent? path).bind (above? steps)

/-- Every step up makes a path shorter. -/
theorem length_add_le_of_above? {steps : Nat} (h : above? steps path = some top) :
    top.length + steps ≤ path.length := by
  induction steps generalizing path with
  | zero => exact Option.some.inj h ▸ Nat.le_refl _
  | succ steps ih =>
      obtain ⟨parent, hparent, htop⟩ := Option.bind_eq_some_iff.1 h
      have hshorter := length_parent_lt hparent
      have hle := ih htop
      omega

/-- A chain of parents has no more steps than its path has characters. -/
theorem above?_length_succ (path : String) : above? (path.length + 1) path = none := by
  rw [Option.eq_none_iff_forall_ne_some]
  intro top htop
  have hle := length_add_le_of_above? htop
  omega

/-- The chain of parents, step by step. -/
theorem getElem?_ancestors (path : String) (steps : Nat) :
    (ancestors path)[steps]? = above? (steps + 1) path := by
  induction steps generalizing path with
  | zero =>
      rw [ancestors_eq, above?]
      cases parent? path <;> rfl
  | succ steps ih =>
      rw [ancestors_eq, above?]
      cases parent? path with
      | none => rfl
      | some parent => exact ih parent

/-- The names of the store's own nodes: that of the holder of hash fragments, and those in the two
reserved name spaces. -/
def Reserved (name : String) : Prop :=
  name = "#" ∨ (∃ rest, name = "jcr:" ++ rest) ∨ ∃ rest, name = "fcr:" ++ rest

theorem beginsWith_iff {lead text : String} :
    beginsWith lead text = true ↔ ∃ rest, text = lead ++ rest := by
  rw [beginsWith, Text.startsWith_iff]
  constructor
  · rintro ⟨rest, hrest⟩
    exact ⟨String.ofList rest, by rw [← String.toList_inj, hrest, String.toList_append,
      String.toList_ofList]⟩
  · rintro ⟨rest, rfl⟩
    exact ⟨rest.toList, String.toList_append⟩

theorem isInternalName_iff {name : String} : isInternalName name = true ↔ Reserved name := by
  rw [isInternalName, Bool.or_eq_true, Bool.or_eq_true, beginsWith_iff, beginsWith_iff,
    beq_iff_eq, or_assoc]
  rfl

end Path

namespace Resource

/-! ### What the walk stops at -/

/-- A resource is addressable at a path: its node is stored there, is not one of the store's own,
and does not declare that it belongs to a pairtree. -/
structure AddressableAt (r : Reader) (path : String) (y : Resource) : Prop where
  stored : r.node path = .ok (some y.node)
  role : ofNode r y.node = .ok y
  name : ¬Path.Reserved y.node.name
  types : ∃ types, y.node.declaredTypes r = .ok types ∧ Vocab.Name.fedoraPairtree ∉ types

/-- A path is read and holds no addressable resource. -/
inductive PassedOver (r : Reader) (path : String) : Prop where
  | free (hnode : r.node path = .ok none)
  | reserved {n : Node} (hnode : r.node path = .ok (some n)) (hname : Path.Reserved n.name)
  | pairtree {n : Node} {types : List String} (hnode : r.node path = .ok (some n))
      (htypes : n.declaredTypes r = .ok types) (hmem : Vocab.Name.fedoraPairtree ∈ types)

theorem declares_eq_ok_iff {name : String} {answer : Bool} :
    x.declares r name = .ok answer ↔
      ∃ types, x.node.declaredTypes r = .ok types ∧ types.contains name = answer := by
  rw [declares, bind_eq_ok_iff]
  simp only [pure_eq_ok_iff]

/-- What is found at a path whose node is not one of the store's own. -/
theorem addressable?_of_not_internal {n : Node} (hnode : r.node path = .ok (some n))
    (hname : n.isInternalChild = false) :
    addressable? r path = (do
      let candidate ← ofNode r n
      if ← candidate.declares r Vocab.Name.fedoraPairtree then pure none
      else pure (some candidate)) := by
  rw [addressable?, hnode]
  change (if n.isInternalChild then _ else _) = _
  rw [hname, if_neg Bool.false_ne_true]

/-- A path that has been read holds an addressable resource, or is to be passed over. -/
theorem addressable?_cases {found : Option Resource} (h : addressable? r path = .ok found) :
    (∃ y, found = some y ∧ AddressableAt r path y) ∨ found = none ∧ PassedOver r path := by
  obtain ⟨n?, hnode, hfound⟩ := bind_eq_ok_iff.1 h
  cases n? with
  | none => exact .inr ⟨(pure_eq_ok_iff.1 hfound).symm, .free hnode⟩
  | some n =>
      cases hname : n.isInternalChild with
      | true =>
          simp only [hname, if_true] at hfound
          exact .inr ⟨(pure_eq_ok_iff.1 hfound).symm,
            .reserved hnode (Path.isInternalName_iff.1 hname)⟩
      | false =>
          rw [addressable?_of_not_internal hnode hname] at h
          obtain ⟨candidate, hrole, hrest⟩ := bind_eq_ok_iff.1 h
          obtain ⟨pairtree, hdeclares, hrest⟩ := bind_eq_ok_iff.1 hrest
          obtain ⟨types, htypes, hmem⟩ := declares_eq_ok_iff.1 hdeclares
          obtain rfl := node_of_ofNode hrole
          cases pairtree with
          | true =>
              exact .inr ⟨(pure_eq_ok_iff.1 hrest).symm,
                .pairtree hnode htypes (by simpa using hmem)⟩
          | false =>
              refine .inl ⟨candidate, (pure_eq_ok_iff.1 hrest).symm, hnode, hrole,
                fun hreserved => ?_, types, htypes, by simpa using hmem⟩
              rw [Node.isInternalChild, Path.isInternalName_iff.2 hreserved] at hname
              cases hname

theorem addressable?_eq_some_iff :
    addressable? r path = .ok (some y) ↔ AddressableAt r path y := by
  constructor
  · intro h
    rcases addressable?_cases h with ⟨z, heq, hz⟩ | ⟨heq, -⟩
    · exact Option.some.inj heq ▸ hz
    · cases heq
  · intro h
    obtain ⟨types, htypes, hmem⟩ := h.types
    have hname : y.node.isInternalChild = false :=
      Bool.eq_false_iff.2 fun hinternal => h.name (Path.isInternalName_iff.1 hinternal)
    have hdeclares : y.declares r Vocab.Name.fedoraPairtree = .ok false :=
      declares_eq_ok_iff.2 ⟨types, htypes, by simpa using hmem⟩
    rw [addressable?_of_not_internal h.stored hname]
    exact bind_eq_ok_iff.2 ⟨y, h.role, bind_eq_ok_iff.2 ⟨false, hdeclares, rfl⟩⟩

theorem addressable?_eq_none_iff : addressable? r path = .ok none ↔ PassedOver r path := by
  constructor
  · intro h
    rcases addressable?_cases h with ⟨z, heq, -⟩ | ⟨-, hpassed⟩
    · cases heq
    · exact hpassed
  · rintro (hnode | ⟨hnode, hname⟩ | ⟨hnode, htypes, hmem⟩)
    · exact bind_eq_ok_iff.2 ⟨none, hnode, rfl⟩
    · refine bind_eq_ok_iff.2 ⟨_, hnode, ?_⟩
      exact if_pos (Path.isInternalName_iff.2 hname)
    · rename_i n types
      cases hname : n.isInternalChild with
      | true => exact bind_eq_ok_iff.2 ⟨_, hnode, if_pos hname⟩
      | false =>
          rw [addressable?_of_not_internal hnode hname]
          have hrole : ofNode r n = .ok ⟨n, .ofTypes types, r.workspace⟩ :=
            bind_eq_ok_iff.2 ⟨types, htypes, rfl⟩
          exact bind_eq_ok_iff.2 ⟨_, hrole, bind_eq_ok_iff.2 ⟨true,
            declares_eq_ok_iff.2 ⟨types, htypes, by simpa using hmem⟩, rfl⟩⟩

theorem PassedOver.not_addressableAt (h : PassedOver r path) : ¬AddressableAt r path y := by
  intro hy
  have hsame := (addressable?_eq_none_iff.2 h).symm.trans (addressable?_eq_some_iff.2 hy)
  cases hsame

/-! ### Along the chain -/

variable {paths : List String} {found : Option Resource}

theorem firstAddressable_eq_some_iff :
    firstAddressable r paths = .ok (some y) ↔
      ∃ (steps : Nat) (top : String), paths[steps]? = some top ∧ AddressableAt r top y ∧
        ∀ k < steps, ∀ between, paths[k]? = some between → PassedOver r between := by
  induction paths with
  | nil => exact iff_of_false (fun h => nomatch h) fun ⟨_, _, h, _⟩ => nomatch h
  | cons path paths ih =>
      rw [firstAddressable, bind_eq_ok_iff]
      constructor
      · rintro ⟨found, hpath, h⟩
        cases found with
        | some z =>
            obtain rfl := Option.some.inj (pure_eq_ok_iff.1 h)
            exact ⟨0, path, rfl, addressable?_eq_some_iff.1 hpath, fun k hk => absurd hk (by omega)⟩
        | none =>
            obtain ⟨steps, top, htop, hy, hbetween⟩ := ih.1 h
            refine ⟨steps + 1, top, htop, hy, fun k hk between hk? => ?_⟩
            cases k with
            | zero => exact Option.some.inj hk? ▸ addressable?_eq_none_iff.1 hpath
            | succ k => exact hbetween k (Nat.lt_of_succ_lt_succ hk) between hk?
      · rintro ⟨steps, top, htop, hy, hbetween⟩
        cases steps with
        | zero =>
            obtain rfl : path = top := Option.some.inj htop
            exact ⟨some y, addressable?_eq_some_iff.2 hy, rfl⟩
        | succ steps =>
            have hpath := hbetween 0 (Nat.succ_pos steps) path rfl
            exact ⟨none, addressable?_eq_none_iff.2 hpath,
              ih.2 ⟨steps, top, htop, hy, fun k hk => hbetween (k + 1) (Nat.succ_lt_succ hk)⟩⟩

theorem firstAddressable_eq_none_iff :
    firstAddressable r paths = .ok none ↔ ∀ path ∈ paths, PassedOver r path := by
  induction paths with
  | nil => exact iff_of_true rfl fun _ h => nomatch h
  | cons path paths ih =>
      rw [firstAddressable, bind_eq_ok_iff, List.forall_mem_cons, ← ih]
      constructor
      · rintro ⟨found, hpath, h⟩
        cases found with
        | some z => cases h
        | none => exact ⟨addressable?_eq_none_iff.1 hpath, h⟩
      · rintro ⟨hpath, h⟩
        exact ⟨none, addressable?_eq_none_iff.2 hpath, h⟩

/-- What there is to be found above a path: the first addressable resource of its chain of parents,
or nothing, if all of the chain is passed over. -/
def NearestAbove (r : Reader) (path : String) : Option Resource → Prop
  | some y => ∃ (steps : Nat) (top : String), Path.above? (steps + 1) path = some top ∧
      AddressableAt r top y ∧
        ∀ k < steps, ∀ between, Path.above? (k + 1) path = some between → PassedOver r between
  | none => ∀ (steps : Nat) (top : String), Path.above? (steps + 1) path = some top →
      PassedOver r top

theorem firstAddressable_ancestors_eq_ok_iff :
    firstAddressable r (Path.ancestors path) = .ok found ↔ NearestAbove r path found := by
  cases found with
  | some y =>
      rw [firstAddressable_eq_some_iff]
      simp only [Path.getElem?_ancestors]
      rfl
  | none =>
      rw [firstAddressable_eq_none_iff, NearestAbove]
      simp only [← Path.getElem?_ancestors, List.mem_iff_getElem?]
      exact ⟨fun h steps top htop => h top ⟨steps, htop⟩, fun h top ⟨steps, htop⟩ =>
        h steps top htop⟩

/-! ### The walk -/

/-- The walk, turn by turn, from the path that is next, if there is one. -/
inductive Walk (r : Reader) : Option String → Except Error (Option Resource) → Prop where
  | ended : Walk r none (.ok none)
  | failed {path : String} {e : Error} (h : addressable? r path = .error e) :
      Walk r (some path) (.error e)
  | found {path : String} {y : Resource} (h : AddressableAt r path y) :
      Walk r (some path) (.ok (some y))
  | passed {path : String} {result : Except Error (Option Resource)} (h : PassedOver r path)
      (rest : Walk r (Path.parent? path) result) : Walk r (some path) result

/-- **The walk ends in one way**, which is what a search of the chain of parents gives. -/
theorem walk_iff {result : Except Error (Option Resource)} :
    Walk r (Path.parent? path) result ↔
      firstAddressable r (Path.ancestors path) = result := by
  induction hlength : path.length using Nat.strongRecOn generalizing path with
  | _ length ih =>
      rw [Path.ancestors_eq]
      cases hparent : Path.parent? path with
      | none =>
          refine ⟨fun h => ?_, fun h => h ▸ .ended⟩
          cases h
          rfl
      | some parent =>
          have hrest := ih parent.length (hlength ▸ Path.length_parent_lt hparent) rfl
          simp only [firstAddressable]
          constructor
          · rintro (_ | h | h | ⟨h, hwalk⟩)
            · rw [h]
              rfl
            · rw [addressable?_eq_some_iff.2 h]
              rfl
            · rw [addressable?_eq_none_iff.2 h]
              exact hrest.1 hwalk
          · cases hfound : addressable? r parent with
            | error e => exact fun h => h ▸ .failed hfound
            | ok found =>
                cases found with
                | some y => exact fun h => h ▸ .found (addressable?_eq_some_iff.1 hfound)
                | none =>
                    exact fun h => .passed (addressable?_eq_none_iff.1 hfound) (hrest.2 h)

/-! ### Containers -/

/-- The walk starts above a resource: above the description of a binary, and above any other
resource itself. -/
inductive StartsAt (r : Reader) (x : Resource) : Resource → Prop where
  | itself (h : x.kind ≠ .binary) : StartsAt r x x
  | description {parent : String} {n : Node} {start : Resource} (h : x.kind = .binary)
      (hparent : Path.parent? x.path = some parent) (hnode : r.node parent = .ok (some n))
      (hrole : ofNode r n = .ok start) : StartsAt r x start

theorem description_eq_ok_iff : x.description r = .ok start ↔ StartsAt r x start := by
  by_cases hkind : x.kind = .binary
  · rw [Resource.description, if_pos hkind]
    constructor
    · intro h
      cases hparent : Path.parent? x.path with
      | none =>
          rw [hparent] at h
          cases h
      | some parent =>
          rw [hparent] at h
          obtain ⟨found, hat, h⟩ := bind_eq_ok_iff.1 h
          cases found with
          | none => cases h
          | some found =>
              obtain rfl := pure_eq_ok_iff.1 h
              obtain ⟨n, hnode, hrole⟩ := at?_eq_some_iff.1 hat
              exact .description hkind hparent hnode hrole
    · rintro (h | ⟨-, hparent, hnode, hrole⟩)
      · exact absurd hkind h
      · rw [hparent]
        exact bind_eq_ok_iff.2 ⟨some start, at?_eq_some_iff.2 ⟨_, hnode, hrole⟩, rfl⟩
  · rw [Resource.description, if_neg hkind]
    constructor
    · intro h
      obtain rfl := pure_eq_ok_iff.1 h
      exact .itself hkind
    · rintro (- | ⟨h, -⟩)
      · rfl
      · exact absurd h hkind

theorem container_of_startsAt (h : StartsAt r x start) :
    x.container r = firstAddressable r (Path.ancestors start.path) := by
  rw [container, description_eq_ok_iff.2 h]
  rfl

/-! ### Readers that answer -/

end Resource

/-- A reader that answers every call about a node or a property. -/
structure Reader.Replies (r : Reader) : Prop where
  node : ∀ path, ∃ n?, r.node path = .ok n?
  property : ∀ path name, ∃ p?, r.property path name = .ok p?

/-- An open session answers. -/
theorem Session.replies_reader (repository : Repository) {s : Session} (hlive : s.live = true) :
    (s.reader repository).Replies where
  node _ := ⟨_, if_pos hlive⟩
  property _ _ := ⟨_, if_pos hlive⟩

namespace Reader.Replies

variable (hr : r.Replies)

include hr

theorem exists_recordedTypes (n : Node) (name : String) :
    ∃ types, n.recordedTypes r name = .ok types := by
  obtain ⟨p?, hp⟩ := hr.property n.path name
  rw [Node.recordedTypes, hp]
  cases p? <;> exact ⟨_, rfl⟩

theorem exists_declaredTypes (n : Node) : ∃ types, n.declaredTypes r = .ok types := by
  rw [Node.declaredTypes]
  split
  · obtain ⟨primary, hprimary⟩ := hr.exists_recordedTypes n Vocab.Name.frozenPrimaryType
    obtain ⟨mixins, hmixins⟩ := hr.exists_recordedTypes n Vocab.Name.frozenMixinTypes
    rw [hprimary, hmixins]
    by_cases hempty : (primary ++ mixins).isEmpty = true
    · exact ⟨n.types, if_pos hempty⟩
    · exact ⟨primary ++ mixins, if_neg hempty⟩
  · exact ⟨_, rfl⟩

theorem exists_addressable? (path : String) :
    ∃ found, Resource.addressable? r path = .ok found := by
  obtain ⟨n?, hnode⟩ := hr.node path
  cases n? with
  | none => exact ⟨none, Resource.addressable?_eq_none_iff.2 (.free hnode)⟩
  | some n =>
      obtain ⟨types, htypes⟩ := hr.exists_declaredTypes n
      by_cases hname : Path.Reserved n.name
      · exact ⟨none, Resource.addressable?_eq_none_iff.2 (.reserved hnode hname)⟩
      by_cases hmem : Vocab.Name.fedoraPairtree ∈ types
      · exact ⟨none, Resource.addressable?_eq_none_iff.2 (.pairtree hnode htypes hmem)⟩
      · exact ⟨some ⟨n, .ofTypes types, r.workspace⟩, Resource.addressable?_eq_some_iff.2
          ⟨hnode, bind_eq_ok_iff.2 ⟨types, htypes, rfl⟩, hname, types, htypes, hmem⟩⟩

theorem exists_firstAddressable (paths : List String) :
    ∃ found, Resource.firstAddressable r paths = .ok found := by
  induction paths with
  | nil => exact ⟨none, rfl⟩
  | cons path paths ih =>
      obtain ⟨found, hfound⟩ := hr.exists_addressable? path
      rw [Resource.firstAddressable, hfound]
      cases found with
      | some y => exact ⟨some y, rfl⟩
      | none => exact ih

end Reader.Replies

namespace Resource

/-- The container of a resource is found. -/
structure FindsContainer (r : Reader) (x : Resource) : Prop where
  /-- Every step up the chain of parents makes the path shorter, whatever the path is. -/
  shortens : ∀ path parent, Path.parent? path = some parent → parent.length < path.length
  /-- So the chain of parents has an end. -/
  ends : ∀ path, Path.above? (path.length + 1) path = none
  /-- The walk comes to an end, and what it ends with is the container. -/
  walk_iff : ∀ start, StartsAt r x start → ∀ result,
    Walk r (Path.parent? start.path) result ↔ x.container r = result
  /-- If it succeeds, it is with the first addressable resource of the chain, or with nothing if
  all of the chain is passed over. -/
  found_iff : ∀ found, x.container r = .ok found ↔
    ∃ start, StartsAt r x start ∧ NearestAbove r start.path found
  /-- It succeeds with nothing just if the chain holds no addressable resource. -/
  none_iff : ∀ start found, StartsAt r x start → x.container r = .ok found →
    (found = none ↔ ∀ steps top y, Path.above? (steps + 1) start.path = some top →
      ¬AddressableAt r top y)
  /-- It succeeds if the reader answers and a binary has its description. -/
  succeeds : r.Replies → ∀ start, StartsAt r x start → ∃ found, x.container r = .ok found

/-- **The walk up ends, at the nearest addressable ancestor.** -/
theorem findsContainer (r : Reader) (x : Resource) : FindsContainer r x where
  shortens _ _ := Path.length_parent_lt
  ends := Path.above?_length_succ
  walk_iff start hstart result := by rw [container_of_startsAt hstart, Resource.walk_iff]
  found_iff found := by
    constructor
    · intro h
      obtain ⟨start, hstart, hfound⟩ := bind_eq_ok_iff.1 h
      exact ⟨start, description_eq_ok_iff.1 hstart,
        firstAddressable_ancestors_eq_ok_iff.1 hfound⟩
    · rintro ⟨start, hstart, hfound⟩
      rw [container_of_startsAt hstart, firstAddressable_ancestors_eq_ok_iff]
      exact hfound
  none_iff start found hstart h := by
    rw [container_of_startsAt hstart, firstAddressable_ancestors_eq_ok_iff] at h
    cases found with
    | none => exact iff_of_true rfl fun steps top y htop => (h steps top htop).not_addressableAt
    | some y =>
        obtain ⟨steps, top, htop, hy, -⟩ := h
        exact iff_of_false (by simp) fun hall => hall steps top y htop hy
  succeeds hr start hstart := by
    rw [container_of_startsAt hstart]
    exact hr.exists_firstAddressable _

/-- A binary below a node of a pairtree, whose path ends with a slash. -/
def sheltering : List Host.Call :=
  let d : Draws := ⟨toString, .epoch⟩
  [.opening "default", .mutate 0 d (.createContainer "/a"),
    .mutate 0 d (.addNode "/a/p/" Vocab.Name.ntFolder),
    .mutate 0 d (.addMixin "/a/p/" Vocab.Name.fedoraPairtree),
    .mutate 0 d (.createBinary "/a/p//b" [] "text/plain")]

/-- The container of the content lies two steps above its description. -/
theorem findsContainer_sheltering :
    let r := (Access.direct 0).reader ((Host.start "root").run sheltering)
    let x : Resource :=
      ⟨⟨"/a/p//b/jcr:content", "1", Vocab.Name.ntResource, [Vocab.Name.fedoraBinary]⟩, .binary,
        "default"⟩
    let y : Resource :=
      ⟨⟨"/a", "0", Vocab.Name.ntFolder, [Vocab.Name.fedoraContainer]⟩, .container, "default"⟩
    r.Replies ∧ x.container r = .ok (some y) ∧
      ∃ start, StartsAt r x start ∧ NearestAbove r start.path (some y) := by
  intro r x y
  have hcontainer : x.container r = .ok (some y) := by decide +kernel
  exact ⟨Session.replies_reader _ rfl, hcontainer,
    ((findsContainer r x).found_iff (some y)).1 hcontainer⟩

end Resource

end LinkedStore
