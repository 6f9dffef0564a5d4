import LinkedStore.Proofs.Store.FreezeLoop

/-!
# Snapshots

A checkin that succeeds leaves a frozen copy of each node that is reached from the one it is made
of, and changes nothing else but the history of that node.

## Main definitions

* `Workspace.FrozenCopy` : a node has a frozen copy at a place.
* `Workspace.Copied` : every node that is reached has one, and nothing else is new.
* `Workspace.Snapshot` : what a checkin makes of a workspace.

## Main statements

* `Workspace.Storable.frozenCopy` : each listed copy that finds its place free becomes one.
* `Workspace.Filed.snapshot_of_checkin` : a checkin that succeeds makes a snapshot.
-/

namespace LinkedStore.Workspace

open LinkedStore.Path (Segment ofSegments descend)

variable {w w' w'' state : Workspace} {identifiers : Nat → String} {k : Nat} {n live q : Node}
  {path name source target identifier : String} {names : List String} {segs : List Segment}
  {places places' : String → Prop}

/-! ### One copy -/

/-- A node of `w` has a frozen copy in `w'`, under an identifier at a place that has been free.  Its
properties are those of the node, guarded, apart from the three that record the node. -/
structure FrozenCopy (w w' : Workspace) (live : Node) (place identifier : String) : Prop where
  free : w.node? place = none
  node : w'.node? place = some (.plain place identifier Vocab.Name.ntFrozenNode)
  uuid : w'.property? place Vocab.Name.frozenUuid =
    some (Property.single place Vocab.Name.frozenUuid (.string live.identifier)).guard
  primaryType : w'.property? place Vocab.Name.frozenPrimaryType =
    some (Property.single place Vocab.Name.frozenPrimaryType (.name live.primaryType)).guard
  mixins : w'.property? place Vocab.Name.frozenMixinTypes =
    some (Property.many place Vocab.Name.frozenMixinTypes (live.mixins.map .name)).guard
  property : ∀ name, name ≠ Vocab.Name.frozenUuid → name ≠ Vocab.Name.frozenPrimaryType →
    name ≠ Vocab.Name.frozenMixinTypes →
    w'.property? place name =
      (w.property? live.path name).map fun p => { p with owner := place, guarded := true }

theorem property?_holdProperties_of_forall {properties : List Property}
    (h : ∀ p ∈ properties, ¬(p.owner = path ∧ p.name = name)) (w : Workspace) :
    (properties.foldl holdProperty w).property? path name = w.property? path name := by
  induction properties generalizing w with
  | nil => rfl
  | cons p properties ih =>
      rw [List.foldl_cons, ih (fun q hq => h q (List.mem_cons_of_mem p hq)),
        property?_holdProperty, if_neg (h p List.mem_cons_self)]

/-- Of several properties of one name the last is held.  Here there is only one of the name. -/
theorem property?_holdProperties_of_mem {properties : List Property} {p : Property}
    (hp : p ∈ properties) (howner : p.owner = path) (hname : p.name = name)
    (hunique : ∀ q ∈ properties, q.name = name → q = p) (w : Workspace) :
    (properties.foldl holdProperty w).property? path name = some p := by
  induction properties generalizing w with
  | nil => exact nomatch hp
  | cons q properties ih =>
      rw [List.foldl_cons]
      by_cases hrest : p ∈ properties
      · exact ih hrest (fun q' hq' => hunique q' (List.mem_cons_of_mem q hq')) _
      · obtain rfl : p = q := (List.mem_cons.1 hp).resolve_right hrest
        rw [property?_holdProperties_of_forall, property?_holdProperty, if_pos ⟨howner, hname⟩]
        rintro q' hq' ⟨-, hname'⟩
        exact hrest (hunique q' (List.mem_cons_of_mem p hq') hname' ▸ hq')

theorem mem_propertiesOf {p : Property} :
    p ∈ w.propertiesOf path ↔ ∃ name, w.property? path name = some p := by
  rw [propertiesOf]
  cases hheld : w.properties[path]? with
  | none => simp [property?, hheld]
  | some held =>
      rw [Option.map_some, Option.getD_some, Table.mem_values_iff]
      simp only [property?, hheld, Option.bind_some]

/-- The properties that a frozen copy takes over from its node. -/
theorem property?_takenOver (hw : w.Filed) (hfree : state.property? target name = none) :
    (((w.propertiesOf path).map fun p : Property =>
      { p with owner := target, guarded := true }).foldl holdProperty state).property?
        target name =
      (w.property? path name).map fun p => { p with owner := target, guarded := true } := by
  cases hp : w.property? path name with
  | none =>
      rw [Option.map_none, property?_holdProperties_of_forall, hfree]
      rintro q hq ⟨-, hname⟩
      obtain ⟨p, hp', rfl⟩ := List.mem_map.1 hq
      obtain ⟨name', hp'⟩ := mem_propertiesOf.1 hp'
      obtain rfl : name' = name := (hw.property hp').2.1.symm.trans hname
      exact nomatch hp.symm.trans hp'
  | some p =>
      rw [Option.map_some]
      refine property?_holdProperties_of_mem
        (List.mem_map.2 ⟨p, mem_propertiesOf.2 ⟨name, hp⟩, rfl⟩) rfl (hw.property hp).2.1
        (fun q hq hname => ?_) state
      obtain ⟨p', hp', rfl⟩ := List.mem_map.1 hq
      obtain ⟨name', hp'⟩ := mem_propertiesOf.1 hp'
      obtain rfl : name' = name := (hw.property hp').2.1.symm.trans hname
      rw [Option.some.inj (hp'.symm.trans hp)]

/-- The properties in which a frozen copy records its node. -/
def records (live : Node) (target : String) : List Property :=
  [(Property.single target Vocab.Name.frozenUuid (.string live.identifier)).guard,
    (Property.single target Vocab.Name.frozenPrimaryType (.name live.primaryType)).guard,
    (Property.many target Vocab.Name.frozenMixinTypes (live.mixins.map .name)).guard]

theorem property?_records {p : Property} (hp : p ∈ records live target) (howner : p.owner = target)
    (w : Workspace) :
    ((records live target).foldl holdProperty w).property? target p.name = some p := by
  have hnames : ((records live target).map Property.name).Nodup := by
    change [Vocab.Name.frozenUuid, Vocab.Name.frozenPrimaryType,
      Vocab.Name.frozenMixinTypes].Nodup
    decide
  exact property?_holdProperties_of_mem hp howner rfl
    (fun q hq hname => List.inj_on_of_nodup_map hnames hq hp hname) w

theorem storeFrozen_eq (hlive : w.node? live.path = some live) (identifier target : String)
    (state : Workspace) :
    w.storeFrozen identifier live.path target state =
      (records live target).foldl holdProperty
        (((w.propertiesOf live.path).map fun p : Property =>
          { p with owner := target, guarded := true }).foldl holdProperty
          (state.insertNode (.plain target identifier Vocab.Name.ntFrozenNode))) := by
  simp only [storeFrozen, hlive, frozenProperties, List.map_append, List.foldl_append]
  rfl

/-- Storing the frozen copy of a node where nothing is stored makes a copy. -/
theorem Filed.frozenCopy_storeFrozen (hw : w.Filed) (hlive : w.node? live.path = some live)
    (hplace : w.node? target = none) (hfree : ∀ name, state.property? target name = none) :
    FrozenCopy w (w.storeFrozen identifier live.path target state) live target identifier := by
  have hrecord (p : Property) (hp : p ∈ records live target) (howner : p.owner = target) :
      (w.storeFrozen identifier live.path target state).property? target p.name = some p := by
    rw [storeFrozen_eq hlive]
    exact property?_records hp howner _
  refine ⟨hplace, ?_, hrecord _ List.mem_cons_self rfl,
    hrecord _ (List.mem_cons_of_mem _ List.mem_cons_self) rfl,
    hrecord _ (List.mem_cons_of_mem _ (List.mem_cons_of_mem _ List.mem_cons_self)) rfl,
    fun name huuid hprimary hmixins => ?_⟩
  all_goals rw [storeFrozen_eq hlive]
  · rw [node?_holdProperties, node?_holdProperties, node?_insertNode_plain, if_pos rfl]
  · rw [property?_holdProperties_of_forall, property?_takenOver hw]
    · exact hfree name
    · rintro p hp ⟨-, hname⟩
      simp only [records, List.mem_cons, List.not_mem_nil, or_false] at hp
      rcases hp with rfl | rfl | rfl
      · exact huuid hname.symm
      · exact hprimary hname.symm
      · exact hmixins hname.symm

theorem FrozenCopy.of_differsAt {place : String} (hcopy : FrozenCopy w w' live place identifier)
    (h : DiffersAt places w' w'') (hplace : ¬places place) :
    FrozenCopy w w'' live place identifier where
  free := hcopy.free
  node := (h.node place hplace).trans hcopy.node
  uuid := (h.property? hplace _).trans hcopy.uuid
  primaryType := (h.property? hplace _).trans hcopy.primaryType
  mixins := (h.property? hplace _).trans hcopy.mixins
  property name huuid hprimary hmixins :=
    (h.property? hplace name).trans (hcopy.property name huuid hprimary hmixins)

/-! ### All copies -/

variable {items : List (String × String)} {item : String × String} {i : Nat}

/-- A listed copy is stored after those before it and before those behind it. -/
theorem storeCopies_of_getElem? (hitem : items[i]? = some item) (w : Workspace)
    (identifiers : Nat → String) (state : Workspace) :
    w.storeCopies identifiers 0 items state =
      w.storeCopies identifiers (i + 1) (items.drop (i + 1))
        (w.storeFrozen (identifiers (i + 1)) item.1 item.2
          (w.storeCopies identifiers 0 (items.take i) state)) := by
  obtain ⟨hlt, rfl⟩ := List.getElem?_eq_some_iff.1 hitem
  have hsplit : items = items.take i ++ items[i] :: items.drop (i + 1) := by
    rw [← List.drop_eq_getElem_cons hlt, List.take_append_drop]
  conv_lhs => rw [hsplit]
  rw [storeCopies_append, storeCopies_cons, List.length_take_of_le (Nat.le_of_lt hlt), Nat.zero_add]

/-- Listed copies of stored nodes can be stored over a state: no two go to one place, and there is
nothing at their places. -/
structure Storable (w state : Workspace) (items : List (String × String)) : Prop where
  nodup : (items.map Prod.snd).Nodup
  source : ∀ item ∈ items, ∃ live, w.node? item.1 = some live
  free : ∀ place ∈ items.map Prod.snd, w.node? place = none ∧ state.node? place = none
  bare : ∀ place ∈ items.map Prod.snd, ∀ name, state.property? place name = none

/-- Each of the copies is there in the end. -/
theorem Storable.frozenCopy (h : Storable w state items) (hw : w.Filed)
    (identifiers : Nat → String) (hitem : items[i]? = some item)
    (hlive : w.node? item.1 = some live) :
    FrozenCopy w (w.storeCopies identifiers 0 items state) live item.2 (identifiers (i + 1)) := by
  have hmem := List.mem_map_of_mem (f := Prod.snd) (List.mem_of_getElem? hitem)
  obtain ⟨hlt, hget⟩ := List.getElem?_eq_some_iff.1 hitem
  have hnodup := h.nodup
  have hsplit : items = items.take i ++ item :: items.drop (i + 1) := by
    rw [← hget, ← List.drop_eq_getElem_cons hlt, List.take_append_drop]
  rw [hsplit, List.map_append, List.map_cons, List.nodup_middle, List.nodup_cons,
    List.mem_append, not_or] at hnodup
  obtain ⟨⟨hbefore, hbehind⟩, -⟩ := hnodup
  have hpath := hw.path hlive
  rw [← hpath] at hlive
  rw [storeCopies_of_getElem? hitem, ← hpath]
  refine (hw.frozenCopy_storeFrozen hlive (h.free _ hmem).1 fun name => ?_).of_differsAt
    (differsAt_storeCopies w _ _ _ _) hbehind
  rw [(differsAt_storeCopies w _ _ _ _).property? hbefore, h.bare _ hmem]

/-- A drawn identifier keeps its path while copies are stored under later ones. -/
theorem identifiers_storeCopies (hinjective : Function.Injective identifiers) {j : Nat}
    (hj : j ≤ k) (hsource : ∀ item ∈ items, ∃ live, w.node? item.1 = some live)
    (state : Workspace) :
    (w.storeCopies identifiers k items state).identifiers[identifiers j]? =
      state.identifiers[identifiers j]? := by
  induction items generalizing k state with
  | nil => rfl
  | cons item items ih =>
      obtain ⟨live, hlive⟩ := hsource item List.mem_cons_self
      rw [storeCopies_cons, ih (by omega) fun c hc => hsource c (List.mem_cons_of_mem item hc),
        identifiers_storeFrozen hlive, if_neg]
      intro hsame
      have hindex := hinjective hsame
      omega

/-- The identifier of a listed copy leads to its place. -/
theorem identifiers_of_getElem? (hinjective : Function.Injective identifiers)
    (hitem : items[i]? = some item) (hsource : ∀ item ∈ items, ∃ live, w.node? item.1 = some live)
    (state : Workspace) :
    (w.storeCopies identifiers 0 items state).identifiers[identifiers (i + 1)]? =
      some item.2 := by
  obtain ⟨live, hlive⟩ := hsource item (List.mem_of_getElem? hitem)
  rw [storeCopies_of_getElem? hitem, identifiers_storeCopies hinjective (Nat.le_refl _)
    fun c hc => hsource c (List.mem_of_mem_drop hc), identifiers_storeFrozen hlive, if_pos rfl]

/-! ### What a checkin makes of a workspace -/

/-- A node of `w` and what is reached from it have frozen copies in `w'`, below a target in a holder
of copies, and otherwise the nodes and properties are the same. -/
structure Copied (identifiers : Nat → String) (path holder target : String) (w w' : Workspace) :
    Prop where
  /-- What is reached lies below the node as its copy is to lie below the target. -/
  relative : ∀ names q, w.Below path names q → q.path = descend path names
  /-- Everything that is reached has a copy below the target. -/
  copied : ∀ names q, w.Below path names q →
    ∃ k, FrozenCopy w w' q (descend target names) (identifiers (k + 1))
  /-- No two nodes have the same place for their copies. -/
  apart : ∀ names names' q q', w.Below path names q → w.Below path names' q' →
    descend target names = descend target names' → q = q'
  /-- The nodes that were there are kept as they are. -/
  kept : ∀ k n, w.node? k = some n → w'.node? k = some n
  /-- A node that was not there is a copy or the holder of the copies. -/
  new : ∀ k n, w'.node? k = some n → w.node? k = none →
    (k = holder ∧ n = .plain k (identifiers 0) Vocab.Name.ntFolder) ∨
      ∃ names q, w.Below path names q ∧ k = descend target names
  holder : ∃ n, w'.node? holder = some n
  /-- If the identifiers are new, then each new node is found by its own and shares it with no
  other node. -/
  fresh : Function.Injective identifiers →
    (∀ j k n, w.node? k = some n → n.identifier ≠ identifiers j) →
    ∀ k n, w'.node? k = some n → w.node? k = none →
      w'.byIdentifier? n.identifier = some n ∧
        ∀ k' n', w'.node? k' = some n' → n'.identifier = n.identifier → k' = k
  /-- Properties are new on the copies only. -/
  property : ∀ k name, (∀ names q, w.Below path names q → k ≠ descend target names) →
    w'.property? k name = w.property? k name
  /-- The properties that were there are kept as they are. -/
  keptProperty : ∀ k name p, w.property? k name = some p → w'.property? k name = some p

/-- A checkin has added a version: its loop has come to an end, everything that is reached from the
node has been copied, nothing else has been changed but the history of the node, and that has got
the version. -/
structure Snapshot (identifiers : Nat → String) (path : String) (labels : List String)
    (created : Instant) (v : Version) (w w' : Workspace) : Prop
    extends Copied identifiers path (Path.child path Vocab.Name.versionsHolder) v.frozenPath
      w w' where
  version : v = nextVersion (w.historyAt path created) path labels created
  loop : Freezes identifiers 1 [(path, v.frozenPath)]
    ((w.withVersion path labels created).withHolder (identifiers 0)
      (Path.child path Vocab.Name.versionsHolder)) w'
  history : ∀ k, k ≠ path → w'.history? k = w.history? k
  ownHistory : w'.history? path =
    some { w.historyAt path created with
      versions := (w.historyAt path created).versions ++ [v] }

theorem Filed.property?_of_free (hw : w.Filed) (hfree : w.node? path = none) (name : String) :
    w.property? path name = none := by
  rw [Option.eq_none_iff_forall_ne_some]
  intro p hp
  obtain ⟨-, -, n, hn⟩ := hw.property hp
  exact nomatch hfree.symm.trans hn

theorem Copied.congr {holder : String} (h : Copied identifiers path holder target w w')
    {w₀ : Workspace} (hnodes : w.nodes = w₀.nodes) (hproperties : w.properties = w₀.properties) :
    Copied identifiers path holder target w₀ w' := by
  have hnode (k : String) : w.node? k = w₀.node? k := by rw [node?, hnodes, node?]
  have hproperty (k name : String) : w.property? k name = w₀.property? k name := by
    rw [Workspace.property?, hproperties, Workspace.property?]
  have hbelow {names : List String} {q : Node} (hq : w₀.Below path names q) :
      w.Below path names q := hq.congr hnodes
  refine ⟨fun _ _ hq => h.relative _ _ (hbelow hq), fun names q hq => ?_,
    fun _ _ _ _ hq hq' => h.apart _ _ _ _ (hbelow hq) (hbelow hq'), fun k n hn => ?_,
    fun k n hn hfree => ?_, h.holder, fun hinjective hunborne k n hn hfree => ?_,
    fun k name hk => ?_, fun k name p hp => ?_⟩
  · obtain ⟨k, hcopy⟩ := h.copied _ _ (hbelow hq)
    refine ⟨k, (hnode _).symm.trans hcopy.free, hcopy.node, hcopy.uuid, hcopy.primaryType,
      hcopy.mixins, fun name huuid hprimary hmixins => ?_⟩
    rw [hcopy.property name huuid hprimary hmixins, hproperty]
  · exact h.kept k n ((hnode k).trans hn)
  · rcases h.new k n hn ((hnode k).trans hfree) with hholder | ⟨names, q, hq, hk⟩
    · exact .inl hholder
    · exact .inr ⟨names, q, hq.congr hnodes.symm, hk⟩
  · exact h.fresh hinjective (fun j k n hn => hunborne j k n ((hnode k).symm.trans hn)) k n hn
      ((hnode k).trans hfree)
  · rw [h.property k name fun names q hq => hk names q (hq.congr hnodes.symm), hproperty]
  · exact h.keptProperty k name p ((hproperty k name).trans hp)

/-- A holder of copies is added only if it is missing. -/
theorem withHolder_cases (w : Workspace) (identifier holder : String) :
    (w.withHolder identifier holder = w ∧ ∃ n, w.node? holder = some n) ∨
      (w.withHolder identifier holder =
        w.insertNode (.plain holder identifier Vocab.Name.ntFolder) ∧ w.node? holder = none) := by
  cases hn : w.node? holder with
  | none =>
      have hcontains : w.nodes.contains holder = false := by
        rw [Std.ExtTreeMap.contains_eq_isSome_getElem?]
        exact congrArg Option.isSome hn
      exact Or.inr ⟨by simp [withHolder, hcontains], rfl⟩
  | some n =>
      have hcontains : w.nodes.contains holder = true := by
        rw [Std.ExtTreeMap.contains_eq_isSome_getElem?]
        exact congrArg Option.isSome hn
      exact Or.inl ⟨by simp [withHolder, hcontains], n, rfl⟩

theorem node?_withHolder_of_some (hn : w.node? path = some n) (identifier holder : String) :
    (w.withHolder identifier holder).node? path = some n := by
  rcases w.withHolder_cases identifier holder with ⟨heq, -⟩ | ⟨heq, hfree⟩
  · rw [heq, hn]
  · rw [heq, node?_insertNode_plain, if_neg, hn]
    rintro rfl
    exact nomatch hfree.symm.trans hn

/-- The holder is the only node that may be new, and then it bears the identifier that is given. -/
theorem new_of_withHolder {identifier holder : String} (hfree : w.node? path = none)
    (hn : (w.withHolder identifier holder).node? path = some n) :
    path = holder ∧ n = .plain path identifier Vocab.Name.ntFolder ∧
      (w.withHolder identifier holder).identifiers[identifier]? = some path := by
  rcases w.withHolder_cases identifier holder with ⟨heq, -⟩ | ⟨heq, -⟩
  · rw [heq, hfree] at hn
    exact nomatch hn
  · rw [heq, node?_insertNode_plain] at hn
    by_cases hpath : holder = path
    · subst hpath
      rw [if_pos rfl] at hn
      rw [heq, identifiers_insertNode]
      exact ⟨rfl, (Option.some.inj hn).symm, if_pos rfl⟩
    · rw [if_neg hpath, hfree] at hn
      exact nomatch hn

theorem property?_withHolder (w : Workspace) (identifier holder path name : String) :
    (w.withHolder identifier holder).property? path name = w.property? path name := by
  rw [withHolder]
  split <;> rfl

/-- A new node bears a drawn identifier that leads to it. -/
theorem Storable.exists_draw {holder : String}
    (h : Storable w (w.withHolder (identifiers 0) holder) items) (hw : w.Filed)
    (hinjective : Function.Injective identifiers) (hfree : w.node? path = none)
    (hn : (w.storeCopies identifiers 0 items
      (w.withHolder (identifiers 0) holder)).node? path = some n) :
    ∃ j, n.identifier = identifiers j ∧
      (w.storeCopies identifiers 0 items
        (w.withHolder (identifiers 0) holder)).identifiers[identifiers j]? = some path := by
  by_cases hpath : path ∈ items.map Prod.snd
  · obtain ⟨item, hitem, rfl⟩ := List.mem_map.1 hpath
    obtain ⟨live, hlive⟩ := h.source item hitem
    obtain ⟨i, hi⟩ := List.mem_iff_getElem?.1 hitem
    have hcopy := (h.frozenCopy hw identifiers hi hlive).node
    rw [hn] at hcopy
    exact ⟨i + 1, by rw [Option.some.inj hcopy, Node.plain],
      identifiers_of_getElem? hinjective hi h.source _⟩
  · rw [(differsAt_storeCopies w _ _ _ _).node path hpath] at hn
    obtain ⟨-, rfl, hidentifier⟩ := new_of_withHolder hfree hn
    exact ⟨0, rfl, (identifiers_storeCopies hinjective (Nat.le_refl 0) h.source _).trans
      hidentifier⟩

/-- The copies of what is reached from a node can be stored once there is a holder for them. -/
theorem Filed.storable_copies (hw : w.Filed)
    (hproper : ∀ {path : String} {n : Node}, w.node? path = some n → Path.Proper path)
    (hn : w.node? (ofSegments segs) = some n) {s : Segment}
    (hfree : w.node? (ofSegments (segs ++ [.holder] ++ [s])) = none) (identifier : String) :
    Storable w (w.withHolder identifier (ofSegments (segs ++ [.holder])))
      (w.copies w.nodes.size (ofSegments segs) (ofSegments (segs ++ [.holder] ++ [s]))) := by
  obtain ⟨hnodup, hplaces⟩ :=
    ((hw.isTree hproper).plantable_withHolder hn hfree identifier w.nodes.size).nodup
  have hfiled : (w.withHolder identifier (ofSegments (segs ++ [.holder]))).Filed := by
    rw [← Path.child_ofSegments]
    exact hw.withHolder hn identifier .holder
  have hfree (place : String) (hplace : place ∈
      (w.copies w.nodes.size (ofSegments segs) (ofSegments (segs ++ [.holder] ++ [s]))).map
        Prod.snd) :
      (w.withHolder identifier (ofSegments (segs ++ [.holder]))).node? place = none := by
    rw [Option.eq_none_iff_forall_ne_some]
    exact fun m hm => hplaces place hplace ⟨m, hm⟩
  refine ⟨hnodup, fun item hitem => hw.source_of_mem_copies hn hitem,
    fun place hplace => ⟨?_, hfree place hplace⟩,
    fun place hplace => hfiled.property?_of_free (hfree place hplace)⟩
  rw [Option.eq_none_iff_forall_ne_some]
  exact fun m hm => hplaces place hplace ⟨m, node?_withHolder_of_some hm _ _⟩

/-- Once the copies of all that is reached from a node are stored, it has been copied. -/
theorem Storable.copied {holder : String} {below : List Segment}
    (h : Storable w (w.withHolder (identifiers 0) holder) items) (hw : w.Filed)
    (htree : w.IsTree)
    (hitems : ∀ item, item ∈ items ↔ ∃ names q, w.Below (ofSegments segs) names q ∧
      item = (q.path, descend (ofSegments below) names)) :
    Copied identifiers (ofSegments segs) holder (ofSegments below) w
      (w.storeCopies identifiers 0 items (w.withHolder (identifiers 0) holder)) := by
  have hdiffers := differsAt_storeCopies w identifiers 0 items
    (w.withHolder (identifiers 0) holder)
  have hkept (k : String) (m : Node) (hm : w.node? k = some m) : k ∉ items.map Prod.snd :=
    fun hk => nomatch (h.free k hk).1.symm.trans hm
  have hplace {k : String} (hk : k ∈ items.map Prod.snd) :
      ∃ names q, w.Below (ofSegments segs) names q ∧ k = descend (ofSegments below) names := by
    obtain ⟨item, hitem, rfl⟩ := List.mem_map.1 hk
    obtain ⟨names, q, hq, rfl⟩ := (hitems item).1 hitem
    exact ⟨names, q, hq, rfl⟩
  refine
    { relative := fun names q hq => htree.path_of_below hq
      copied := fun names q hq => ?_
      apart := fun names names' q q' hq hq' => htree.eq_of_descend_eq hq hq'
      kept := fun k m hm =>
        (hdiffers.node k (hkept k m hm)).trans (node?_withHolder_of_some hm _ _)
      new := fun k m hm hnone => ?_
      holder := ?_
      fresh := fun hinjective hunborne k m hm hnone => ?_
      property := fun k name hk =>
        (hdiffers.property? (fun hmem => ?_) name).trans (property?_withHolder _ _ _ _ _)
      keptProperty := fun k name p hp => ?_ }
  · obtain ⟨-, -, -, hlive, -⟩ := htree.of_below hq
    obtain ⟨i, hi⟩ := List.mem_iff_getElem?.1 ((hitems _).2 ⟨names, q, hq, rfl⟩)
    exact ⟨i, h.frozenCopy hw identifiers hi hlive⟩
  · by_cases hmem : k ∈ items.map Prod.snd
    · exact Or.inr (hplace hmem)
    · obtain ⟨rfl, hplain, -⟩ := new_of_withHolder hnone ((hdiffers.node k hmem).symm.trans hm)
      exact Or.inl ⟨rfl, hplain⟩
  · obtain ⟨m, hm⟩ := (w.node?_withHolder (identifiers 0) holder holder).2 (Or.inl rfl)
    exact ⟨m, (hdiffers.node holder fun hk => nomatch (h.free holder hk).2.symm.trans hm).trans hm⟩
  · obtain ⟨j, hj, hidentifier⟩ := h.exists_draw hw hinjective hnone hm
    refine ⟨?_, fun k' m' hm' hsame => ?_⟩
    · rw [byIdentifier?, hj, hidentifier, Option.bind_some, hm]
    · cases hold : w.node? k' with
      | some m₀ =>
          have hkept' := (hdiffers.node k' (hkept k' m₀ hold)).trans
            (node?_withHolder_of_some hold _ _)
          rw [hm'] at hkept'
          rw [Option.some.inj hkept', hj] at hsame
          exact absurd hsame (hunborne j k' m₀ hold)
      | none =>
          obtain ⟨j', hj', hidentifier'⟩ := h.exists_draw hw hinjective hold hm'
          rw [← hj', hsame, hj, hidentifier] at hidentifier'
          exact (Option.some.inj hidentifier').symm
  · obtain ⟨names, q, hq, hplace⟩ := hplace hmem
    exact hk names q hq hplace
  · obtain ⟨-, -, m, hm⟩ := hw.property hp
    rw [hdiffers.property? (hkept k m hm), property?_withHolder, hp]

theorem history?_withCopies (w : Workspace) (identifiers : Nat → String)
    (source target identifier holder k : String) :
    (w.withCopies identifiers source target (w.withHolder identifier holder)).history? k =
      w.history? k :=
  ((differsAt_storeCopies w identifiers 0 _ _).history k).trans
    ((differsAt_withHolder w identifier holder).history k)

theorem history?_withVersion (w : Workspace) (path : String) (labels : List String)
    (created : Instant) (k : String) :
    (w.withVersion path labels created).history? k =
      if path = k then
        some { w.historyAt path created with
          versions := (w.historyAt path created).versions ++
            [nextVersion (w.historyAt path created) path labels created] }
      else w.history? k :=
  Table.getElem?_insert ..

/-- A checkin that succeeds enters a version and stores the copies below a target that is free. -/
theorem checkin_run_eq_ok {labels : List String} {created : Instant} {v : Version}
    (hrun : (checkin identifiers path labels created).run w = .ok v w') :
    ∃ n, w.node? path = some n ∧
      v = nextVersion (w.historyAt path created) path labels created ∧
      w.node? v.frozenPath = none ∧
      w' = (w.withVersion path labels created).withCopies identifiers path v.frozenPath
        ((w.withVersion path labels created).withHolder (identifiers 0)
          (Path.child path Vocab.Name.versionsHolder)) := by
  rw [checkin_run] at hrun
  cases hn : w.node? path with
  | none =>
      rw [hn] at hrun
      exact nomatch hrun
  | some n =>
      rw [hn] at hrun
      by_cases hversionable : n.declares Vocab.Name.mixVersionable = true
      · have hparent : Path.parent?
            (nextVersion (w.historyAt path created) path labels created).frozenPath =
              some (Path.child path Vocab.Name.versionsHolder) :=
          Path.parent?_child (Path.child_ne_empty path _) (.version _)
        simp only [hversionable, if_true, map_eq_pure_bind, EStateM.run_bind, freeze_run,
          hparent] at hrun
        cases hfree : (w.withVersion path labels created).nodes.contains
            (nextVersion (w.historyAt path created) path labels created).frozenPath with
        | true =>
            rw [hfree] at hrun
            exact nomatch hrun
        | false =>
            simp only [hfree, Bool.false_eq_true, if_false] at hrun
            obtain ⟨rfl, rfl⟩ := EStateM.Result.ok.inj hrun
            exact ⟨n, rfl, rfl, node?_of_contains_eq_false hfree, rfl⟩
      · simp only [hversionable, Bool.false_eq_true, if_false] at hrun
        exact nomatch hrun

/-- **A checkin that succeeds makes a snapshot**, if all paths are proper. -/
theorem Filed.snapshot_of_checkin (hw : w.Filed)
    (hproper : ∀ {path : String} {n : Node}, w.node? path = some n → Path.Proper path)
    {labels : List String} {created : Instant} {v : Version}
    (hrun : (checkin identifiers path labels created).run w = .ok v w') :
    Snapshot identifiers path labels created v w w' := by
  obtain ⟨n, hn, hversion, hfree, rfl⟩ := checkin_run_eq_ok hrun
  obtain ⟨segs, rfl⟩ := hproper hn
  have hholder : Path.child (ofSegments segs) Vocab.Name.versionsHolder =
      ofSegments (segs ++ [.holder]) := Path.child_ofSegments segs .holder
  obtain ⟨s, htarget⟩ : ∃ s, v.frozenPath = ofSegments (segs ++ [.holder] ++ [s]) := by
    rw [hversion]
    refine ⟨.version ((w.historyAt (ofSegments segs) created).versions.length - 1), ?_⟩
    rw [← Path.child_ofSegments, ← hholder]
    rfl
  rw [htarget] at hfree
  -- From here on the tree is that of the state with the version, which has the nodes of `w`.
  have hw₁ : (w.withVersion (ofSegments segs) labels created).Filed := hw.of_tables rfl rfl
  have htree := hw₁.isTree hproper
  have hcopied := (hw₁.storable_copies hproper hn hfree (identifiers 0)).copied hw₁ htree
    fun item => htree.mem_copies_iff hn (length_subtree_le _ _)
  have hloop := htree.freezes_withCopies hn identifiers s
  refine { toCopied := ?_, version := hversion, loop := ?_, history := ?_, ownHistory := ?_ }
  · rw [hholder, htarget]
    exact hcopied.congr rfl rfl
  · rw [hholder, htarget]
    exact hloop
  · intro k hk
    rw [history?_withCopies, history?_withVersion, if_neg (Ne.symm hk)]
  · rw [history?_withCopies, history?_withVersion, if_pos rfl, ← hversion]

end LinkedStore.Workspace
