import LinkedStore.Proofs.Store.Integrity

/-!
# Soundness of frozen copies

A freeze stores many nodes without looking at the places where it puts them.  They are free all
the same, and each has its parent: the copies come parent first, no two go to one place, and below
a free path there is nothing.

## Main definitions

* `Path.Plantable` : paths can be added to a tree one after another.
* `Workspace.IsTree` : the nodes of a workspace form a tree of proper paths.
* `Workspace.Grown` : a state with a property, grown from another one by nodes with identifiers of a
  draw.

## Main statements

* `Workspace.IsTree.plantable_copies` : the places of frozen copies can be added one after another.
* `Workspace.Grown.storeCopies` : copies are given the identifiers of a draw one after another.
* `Workspace.Sound.withCopies` : storing the frozen copies keeps a workspace sound.
-/

namespace LinkedStore

namespace Path

/-- Each listed path is free and has its parent in the tree when its turn comes. -/
def Plantable : (String → Prop) → List String → Prop
  | _, [] => True
  | stored, path :: rest =>
      Proper path ∧ ¬stored path ∧ (∃ parent, parent? path = some parent ∧ stored parent) ∧
        Plantable (fun k => k = path ∨ stored k) rest

variable {stored stored' : String → Prop}

theorem Plantable.congr (h : ∀ k, stored k ↔ stored' k) {paths : List String}
    (hpaths : Plantable stored paths) : Plantable stored' paths := by
  have heq : stored = stored' := funext fun k => propext (h k)
  exact heq ▸ hpaths

theorem Plantable.append {a b : List String} (ha : Plantable stored a)
    (hb : Plantable (fun k => k ∈ a ∨ stored k) b) : Plantable stored (a ++ b) := by
  induction a generalizing stored with
  | nil => exact hb.congr fun k => by simp
  | cons path a ih =>
      obtain ⟨hproper, hfree, hparent, hrest⟩ := ha
      refine ⟨hproper, hfree, hparent, ih hrest (hb.congr fun k => ?_)⟩
      rw [List.mem_cons, or_assoc, or_left_comm]

/-- No two of the paths are the same, and none of them is in the tree at first. -/
theorem Plantable.nodup {paths : List String} (hpaths : Plantable stored paths) :
    paths.Nodup ∧ ∀ path ∈ paths, ¬stored path := by
  induction paths generalizing stored with
  | nil => exact ⟨List.nodup_nil, fun _ hpath => nomatch hpath⟩
  | cons path paths ih =>
      obtain ⟨-, hfree, -, hrest⟩ := hpaths
      obtain ⟨hnodup, hnew⟩ := ih hrest
      refine ⟨List.nodup_cons.2 ⟨fun hmem => hnew path hmem (Or.inl rfl), hnodup⟩, ?_⟩
      rintro k hk hstored
      rcases List.mem_cons.1 hk with rfl | hk
      · exact hfree hstored
      · exact hnew k hk (Or.inr hstored)

/-! ### Segments of the store's own -/

/-- The segment of the holder of frozen copies. -/
def Segment.holder : Segment := ⟨Vocab.Name.versionsHolder, by decide, by decide⟩

/-- The segment of the content of a binary. -/
def Segment.content : Segment := ⟨Vocab.Name.content, by decide, by decide⟩

/-- A number is written in digits. -/
theorem notMem_toString {c : Char} (hc : c.isDigit = false) (count : Nat) :
    c ∉ (toString count).toList := by
  intro hmem
  have hdigit : c ∈ Nat.toDigits 10 count := by simpa using hmem
  rw [Nat.isDigit_of_mem_toDigits (by decide) (by decide) hdigit] at hc
  exact absurd hc (by decide)

theorem noSlash_toString (count : Nat) : '/' ∉ (toString count).toList :=
  notMem_toString (by decide) count

/-- The segment of the frozen copy of a version. -/
def Segment.version (count : Nat) : Segment where
  text := "1." ++ toString count
  ne_empty := by
    rw [Ne, ← String.toList_inj, String.toList_append]
    simp
  noSlash := by
    rw [String.toList_append, List.mem_append, not_or]
    exact ⟨by decide, noSlash_toString count⟩

end Path

namespace Workspace

open LinkedStore.Path (Segment ofSegments Plantable)

variable {w : Workspace} {segs : List Segment}

/-! ### What lies below a path -/

/-- The nodes of a workspace form a tree of proper paths: each is stored under its own path, and
with it its parent. -/
structure IsTree (w : Workspace) : Prop where
  path : ∀ {path : String} {n : Node}, w.node? path = some n → n.path = path
  proper : ∀ {path : String} {n : Node}, w.node? path = some n → Path.Proper path
  parent : ∀ {path : String} {n : Node}, w.node? path = some n → ∀ {parent : String},
    Path.parent? path = some parent → ∃ above, w.node? parent = some above

theorem Sound.isTree (hw : w.Sound) : w.IsTree := ⟨hw.path, hw.proper, hw.node?_of_parent?⟩

/-- Below a free path there is nothing. -/
theorem IsTree.free_below (hw : w.IsTree) (hfree : w.node? (ofSegments segs) = none)
    (below : List Segment) : w.node? (ofSegments (segs ++ below)) = none := by
  induction below using List.reverseRecOn with
  | nil => rw [List.append_nil, hfree]
  | append_singleton below s ih =>
      rw [← List.append_assoc, Option.eq_none_iff_forall_ne_some]
      intro n hn
      have hparent := Path.parent?_ofSegments (segs ++ below) s
      obtain ⟨above, habove⟩ := hw.parent hn hparent
      rw [ih] at habove
      exact nomatch habove

theorem IsTree.mem_children (hw : w.IsTree) {n : Node} (hn : n ∈ w.children (ofSegments segs)) :
    ∃ s, n.path = ofSegments (segs ++ [s]) ∧ n.name = s.text ∧ w.node? n.path = some n := by
  obtain ⟨⟨k, hk⟩, hparent⟩ := mem_children_iff.1 hn
  obtain rfl := hw.path hk
  obtain ⟨segs', s, hsegs, hpath⟩ := (hw.proper hk).exists_segment hparent
  rw [Path.ofSegments_injective hsegs]
  exact ⟨s, hpath, by rw [Node.name, hpath, Path.name_ofSegments], hk⟩

/-- The children of a node are told apart by their paths, if nodes are stored under them. -/
theorem nodup_children
    (hpath : ∀ {path : String} {n : Node}, w.node? path = some n → n.path = path) (path : String) :
    ((w.children path).map Node.path).Nodup :=
  (Table.nodup_map_values fun _ _ hn => hpath hn).sublist (List.Sublist.map _ List.filter_sublist)

/-! ### The places of copies -/

/-- A copy lies below the target as its source lies below the source of the freeze. -/
theorem IsTree.mem_copies (hw : w.IsTree) {fuel : Nat} {source target : List Segment}
    {n : Node} (hn : w.node? (ofSegments source) = some n) {c : String × String}
    (hc : c ∈ w.copies fuel (ofSegments source) (ofSegments target)) :
    ∃ below live, c = (ofSegments (source ++ below), ofSegments (target ++ below)) ∧
      w.node? (ofSegments (source ++ below)) = some live := by
  induction fuel generalizing source target n with
  | zero =>
      rw [copies, List.mem_singleton] at hc
      exact ⟨[], n, by simpa using hc, by simpa using hn⟩
  | succ fuel ih =>
      rw [copies, List.mem_cons] at hc
      rcases hc with hc | hc
      · exact ⟨[], n, by simpa using hc, by simpa using hn⟩
      · obtain ⟨child, hchild, hc⟩ := List.mem_flatMap.1 hc
        rw [List.mem_reverse, List.mem_filter] at hchild
        obtain ⟨s, hpath, hname, hnode⟩ := hw.mem_children hchild.1
        rw [hname, Path.child_ofSegments, hpath] at hc
        rw [hpath] at hnode
        obtain ⟨below, live, hc, hlive⟩ := ih hnode hc
        simp only [List.append_assoc] at hc hlive
        exact ⟨[s] ++ below, live, hc, hlive⟩

/-- The copies of siblings can be added one after another if those of each sibling can, since
they go to different children of the target. -/
theorem IsTree.plantable_siblings (hw : w.IsTree) {fuel : Nat} (source : List Segment)
    {target : List Segment}
    (hcopies : ∀ {source target : List Segment} {n : Node} {stored : String → Prop},
      w.node? (ofSegments source) = some n →
      (∃ parent, Path.parent? (ofSegments target) = some parent ∧ stored parent) →
      (∀ below, ¬stored (ofSegments (target ++ below))) →
      Plantable stored
        ((w.copies fuel (ofSegments source) (ofSegments target)).map Prod.snd))
    {siblings : List Node} (hsiblings : ∀ c ∈ siblings, c ∈ w.children (ofSegments source))
    (hnodup : (siblings.map Node.path).Nodup) {stored : String → Prop}
    (htarget : stored (ofSegments target))
    (hfree : ∀ c ∈ siblings, ∀ s, c.path = ofSegments (source ++ [s]) →
      ∀ below, ¬stored (ofSegments (target ++ [s] ++ below))) :
    Plantable stored
      ((siblings.flatMap fun c =>
        w.copies fuel c.path (Path.child (ofSegments target) c.name)).map Prod.snd) := by
  induction siblings generalizing stored with
  | nil => trivial
  | cons c siblings ih =>
      obtain ⟨s, hpath, hname, hnode⟩ := hw.mem_children (hsiblings c List.mem_cons_self)
      rw [List.map_cons, List.nodup_cons] at hnodup
      rw [hpath] at hnode
      rw [List.flatMap_cons, List.map_append, hname, Path.child_ofSegments, hpath]
      refine Plantable.append (hcopies hnode ⟨_, Path.parent?_ofSegments _ _, htarget⟩
        (hfree c List.mem_cons_self s hpath)) ?_
      refine ih (fun c' hc' => hsiblings c' (List.mem_cons_of_mem c hc')) hnodup.2
        (Or.inr htarget) fun c' hc' s' hpath' below => ?_
      rintro (hmem | hstored)
      · obtain ⟨copy, hcopy, heq⟩ := List.mem_map.1 hmem
        obtain ⟨below', live, rfl, -⟩ := hw.mem_copies hnode hcopy
        have hsegs := Path.ofSegments_injective heq
        simp only [List.append_assoc, List.append_cancel_left_eq, List.singleton_append,
          List.cons.injEq] at hsegs
        refine hnodup.1 (List.mem_map.2 ⟨c', hc', ?_⟩)
        rw [hpath, hpath', hsegs.1]
      · exact hfree c' (List.mem_cons_of_mem c hc') s' hpath' below hstored

/-- The places of the copies of a stored node can be added one after another, if there is nothing
below the target but its parent is there. -/
theorem IsTree.plantable_copies (hw : w.IsTree) {fuel : Nat} {source target : List Segment}
    {n : Node} {stored : String → Prop} (hn : w.node? (ofSegments source) = some n)
    (hparent : ∃ parent, Path.parent? (ofSegments target) = some parent ∧ stored parent)
    (hfree : ∀ below, ¬stored (ofSegments (target ++ below))) :
    Plantable stored
      ((w.copies fuel (ofSegments source) (ofSegments target)).map Prod.snd) := by
  induction fuel generalizing source target n stored with
  | zero => exact ⟨⟨target, rfl⟩, List.append_nil target ▸ hfree [], hparent, trivial⟩
  | succ fuel ih =>
      refine ⟨⟨target, rfl⟩, List.append_nil target ▸ hfree [], hparent, ?_⟩
      refine hw.plantable_siblings source ih (fun c hc => ?_) ?_ (Or.inl rfl)
        fun c hc s hpath below => ?_
      · rw [List.mem_reverse, List.mem_filter] at hc
        exact hc.1
      · rw [List.map_reverse, (List.reverse_perm _).nodup_iff]
        exact (nodup_children hw.path _).sublist (List.Sublist.map _ List.filter_sublist)
      · rintro (heq | hstored)
        · have hsegs := congrArg List.length (Path.ofSegments_injective heq)
          simp at hsegs
        · exact hfree ([s] ++ below) (by rwa [← List.append_assoc])

/-! ### States that grow

The identifiers of a draw are used one after another, so that those behind the last one used are
not in use.  The account of them is the same whatever else is to hold of the states. -/

/-- A state with a property, in which none of the identifiers drawn from the `k`-th on is in use,
and whose identifiers are those of the state that it has grown from or were drawn. -/
structure Grown (P : Workspace → Prop) (identifiers : Nat → String) (k : Nat)
    (w₀ w : Workspace) : Prop where
  holds : P w
  unused : ∀ j, k ≤ j → w.identifiers[identifiers j]? = none
  entries : ∀ identifier path : String, w.identifiers[identifier]? = some path →
    w₀.identifiers[identifier]? = some path ∨ ∃ j, identifier = identifiers j

variable {P : Workspace → Prop} {identifiers : Nat → String} {k : Nat} {w₀ state : Workspace}
  {identifier source target holder : String}

theorem Grown.mono (hw : Grown P identifiers k w₀ w) {l : Nat} (hle : k ≤ l) :
    Grown P identifiers l w₀ w :=
  ⟨hw.holds, fun j hj => hw.unused j (Nat.le_trans hle hj), hw.entries⟩

/-- A change that adds no identifier. -/
theorem Grown.of_entries (hw : Grown P identifiers k w₀ w) (hstate : P state)
    (hentries : ∀ identifier path : String, state.identifiers[identifier]? = some path →
      w.identifiers[identifier]? = some path) : Grown P identifiers k w₀ state where
  holds := hstate
  unused j hj := by
    rw [Option.eq_none_iff_forall_ne_some]
    intro path hpath
    exact nomatch (hw.unused j hj).symm.trans (hentries _ path hpath)
  entries identifier path hpath := hw.entries identifier path (hentries identifier path hpath)

/-- A change that gives the next identifier to a path. -/
theorem Grown.of_added (hinjective : Function.Injective identifiers)
    (hw : Grown P identifiers k w₀ w) (hstate : P state) {path : String}
    (hadded : ∀ identifier : String, state.identifiers[identifier]? =
      if identifiers k = identifier then some path else w.identifiers[identifier]?) :
    Grown P identifiers (k + 1) w₀ state where
  holds := hstate
  unused j hj := by
    rw [hadded, if_neg, hw.unused j (by omega)]
    intro hsame
    have hj' : k = j := hinjective hsame
    omega
  entries identifier k' hk' := by
    rw [hadded] at hk'
    by_cases hidentifier : identifiers k = identifier
    · exact Or.inr ⟨k, hidentifier.symm⟩
    · rw [if_neg hidentifier] at hk'
      exact hw.entries identifier k' hk'

theorem Grown.insertNode (hinjective : Function.Injective identifiers)
    (hw : Grown P identifiers k w₀ w) {path primaryType : String}
    (hstate : P (w.insertNode (.plain path (identifiers k) primaryType))) :
    Grown P identifiers (k + 1) w₀ (w.insertNode (.plain path (identifiers k) primaryType)) :=
  hw.of_added hinjective hstate fun identifier => w.identifiers_insertNode _ identifier

theorem Grown.withHolder (hinjective : Function.Injective identifiers)
    (hw : Grown P identifiers k w₀ w) (hstate : P (w.withHolder (identifiers k) holder)) :
    Grown P identifiers (k + 1) w₀ (w.withHolder (identifiers k) holder) := by
  rw [Workspace.withHolder] at hstate ⊢
  cases hholder : w.nodes.contains holder with
  | true => exact hw.mono (Nat.le_succ k)
  | false =>
      rw [hholder] at hstate
      exact hw.insertNode hinjective hstate

/-! ### Storing copies -/

theorem identifiers_holdProperties (w : Workspace) (properties : List Property) :
    (properties.foldl holdProperty w).identifiers = w.identifiers := by
  induction properties generalizing w with
  | nil => rfl
  | cons p properties ih => exact ih (w.holdProperty p)

theorem identifiers_storeFrozen {live : Node} (hlive : w.node? source = some live)
    (drawn target : String) (state : Workspace) (identifier : String) :
    (w.storeFrozen drawn source target state).identifiers[identifier]? =
      if drawn = identifier then some target else state.identifiers[identifier]? := by
  rw [Workspace.storeFrozen, hlive]
  simp only
  rw [identifiers_holdProperties, identifiers_insertNode]
  rfl

theorem Grown.storeFrozen (hinjective : Function.Injective identifiers)
    (hstate : Grown P identifiers k w₀ state)
    (hstored : P (w.storeFrozen (identifiers k) source target state)) :
    Grown P identifiers (k + 1) w₀ (w.storeFrozen (identifiers k) source target state) := by
  cases hlive : w.node? source with
  | none =>
      rw [Workspace.storeFrozen, hlive]
      exact hstate.mono (Nat.le_succ k)
  | some live =>
      exact hstate.of_added hinjective hstored (identifiers_storeFrozen hlive _ target state)

/-- The copies are given the identifiers of the draw one after another.  What is to hold of a state
while there are copies to store, besides the property, is `Q`. -/
theorem Grown.storeCopies {Q : List (String × String) → Workspace → Prop}
    (hinjective : Function.Injective identifiers)
    (hstored : ∀ {identifier : String} {state : Workspace} {c : String × String}
      {items : List (String × String)}, P state → Q (c :: items) state →
      state.identifiers[identifier]? = none →
      P (w.storeFrozen identifier c.1 c.2 state) ∧ Q items (w.storeFrozen identifier c.1 c.2 state))
    (hstate : Grown P identifiers (k + 1) w₀ state) {items : List (String × String)}
    (hitems : Q items state) :
    Grown P identifiers (k + items.length + 1) w₀
      ((items.zipIdx k).foldl
        (fun state copy => w.storeFrozen (identifiers (copy.2 + 1)) copy.1.1 copy.1.2 state)
        state) := by
  induction items generalizing k state with
  | nil => exact hstate
  | cons c items ih =>
      rw [List.zipIdx_cons, List.foldl_cons, List.length_cons,
        show k + (items.length + 1) = k + 1 + items.length by omega]
      obtain ⟨hholds, hrest⟩ :=
        hstored hstate.holds hitems (hstate.unused (k + 1) (Nat.le_refl _))
      exact ih (hstate.storeFrozen hinjective hholds) hrest

/-- Properties that a stored node is to own. -/
theorem Sound.holdProperties (hw : w.Sound) {n : Node} {path : String}
    (hn : w.node? path = some n) {properties : List Property}
    (hproperties : ∀ p ∈ properties, p.owner = path) :
    (properties.foldl Workspace.holdProperty w).Sound := by
  induction properties generalizing w with
  | nil => exact hw
  | cons p properties ih =>
      have howner := hproperties p List.mem_cons_self
      exact ih (hw.holdProperty (howner ▸ hn)) hn
        fun q hq => hproperties q (List.mem_cons_of_mem p hq)

theorem node?_holdProperties (w : Workspace) (properties : List Property) (path : String) :
    (properties.foldl holdProperty w).node? path = w.node? path := by
  induction properties generalizing w with
  | nil => rfl
  | cons p properties ih => exact ih (w.holdProperty p)

/-- The frozen copy of a stored node goes to a free path below a stored node. -/
theorem Sound.storeFrozen (hstate : state.Sound) {parent : String} {live above : Node}
    (hlive : w.node? source = some live) (hproper : Path.Proper target)
    (hfree : state.node? target = none) (hparent : Path.parent? target = some parent)
    (habove : state.node? parent = some above) (hunused : state.identifiers[identifier]? = none) :
    (w.storeFrozen identifier source target state).Sound := by
  rw [Workspace.storeFrozen, hlive]
  have hnode := state.node?_insertNode_plain target identifier Vocab.Name.ntFrozenNode target
  rw [if_pos rfl] at hnode
  refine (hstate.insertNode hproper hparent habove hfree hunused).holdProperties hnode ?_
  intro p hp
  obtain ⟨q, -, rfl⟩ := List.mem_map.1 hp
  rfl

theorem node?_storeFrozen {live : Node} (hlive : w.node? source = some live)
    (identifier target : String) (state : Workspace) (path : String) :
    (∃ n, (w.storeFrozen identifier source target state).node? path = some n) ↔
      path = target ∨ ∃ n, state.node? path = some n := by
  rw [storeFrozen, hlive]
  simp only
  rw [node?_holdProperties, node?_insertNode_plain]
  by_cases hpath : target = path
  · simp [hpath]
  · rw [if_neg hpath, eq_false (Ne.symm hpath), false_or]

/-- Listed copies of stored nodes can be added to a state, one after another. -/
def Plants (w : Workspace) (items : List (String × String)) (state : Workspace) : Prop :=
  (∀ c ∈ items, ∃ live, w.node? c.1 = some live) ∧
    Plantable (fun path => ∃ n, state.node? path = some n) (items.map Prod.snd)

/-- The first of such copies is stored, and the others can be stored still. -/
theorem Sound.storeFrozen_of_plants (hstate : state.Sound) {c : String × String}
    {items : List (String × String)} (hitems : w.Plants (c :: items) state)
    (hunused : state.identifiers[identifier]? = none) :
    (w.storeFrozen identifier c.1 c.2 state).Sound ∧
      w.Plants items (w.storeFrozen identifier c.1 c.2 state) := by
  obtain ⟨hsource, hproper, hfree, ⟨parent, hparent, above, habove⟩, hrest⟩ := hitems
  obtain ⟨live, hlive⟩ := hsource c List.mem_cons_self
  have hfree : state.node? c.2 = none := by
    rw [Option.eq_none_iff_forall_ne_some]
    exact fun n hn => hfree ⟨n, hn⟩
  refine ⟨hstate.storeFrozen hlive hproper hfree hparent habove hunused,
    fun c' hc' => hsource c' (List.mem_cons_of_mem c hc'), hrest.congr fun path => ?_⟩
  rw [node?_storeFrozen hlive]

theorem node?_withHolder (w : Workspace) (identifier holder path : String) :
    (∃ n, (w.withHolder identifier holder).node? path = some n) ↔
      path = holder ∨ ∃ n, w.node? path = some n := by
  rw [withHolder, Std.ExtTreeMap.contains_eq_isSome_getElem?]
  cases hholder : w.nodes[holder]? with
  | some n =>
      refine ⟨Or.inr, ?_⟩
      rintro (rfl | hn)
      · exact ⟨n, hholder⟩
      · exact hn
  | none =>
      simp only [Option.isSome_none, Bool.false_eq_true, if_false, node?_insertNode_plain]
      by_cases hpath : holder = path
      · simp [hpath]
      · rw [if_neg hpath, eq_false (Ne.symm hpath), false_or]

/-- The places of the copies of a stored node can be added one after another, once there is a holder
for them, if the first of them is free. -/
theorem IsTree.plantable_withHolder (hw : w.IsTree) {n : Node}
    (hn : w.node? (ofSegments segs) = some n) {holder s : Segment}
    (hfree : w.node? (ofSegments (segs ++ [holder] ++ [s])) = none) (identifier : String)
    (fuel : Nat) :
    Plantable (fun path =>
        ∃ n, (w.withHolder identifier (ofSegments (segs ++ [holder]))).node? path = some n)
      ((w.copies fuel (ofSegments segs) (ofSegments (segs ++ [holder] ++ [s]))).map
        Prod.snd) := by
  have hstored (path : String) := w.node?_withHolder identifier (ofSegments (segs ++ [holder])) path
  refine hw.plantable_copies hn ⟨_, Path.parent?_ofSegments _ _, ?_⟩ fun below => ?_
  · exact (hstored _).2 (Or.inl rfl)
  · rw [hstored]
    rintro (hholder | ⟨n', hn'⟩)
    · have hlength := congrArg List.length (Path.ofSegments_injective hholder)
      simp at hlength
    · rw [hw.free_below hfree below] at hn'
      exact nomatch hn'

theorem Sound.withHolder (hw : w.Sound) {n : Node} (hn : w.node? (ofSegments segs) = some n)
    (s : Segment) (hunused : w.identifiers[identifier]? = none) :
    (w.withHolder identifier (ofSegments (segs ++ [s]))).Sound := by
  rw [Workspace.withHolder, Std.ExtTreeMap.contains_eq_isSome_getElem?]
  cases hholder : w.nodes[ofSegments (segs ++ [s])]? with
  | some n => exact hw
  | none => exact hw.insertNode ⟨_, rfl⟩ (Path.parent?_ofSegments _ _) hn hholder hunused

/-- **Storing the frozen copies keeps a workspace sound.** -/
theorem Sound.withCopies (hinjective : Function.Injective identifiers)
    (hw : Grown Sound identifiers 0 w₀ w) {n : Node} (hn : w.node? (ofSegments segs) = some n)
    {holder s : Segment} (hfree : w.node? (ofSegments (segs ++ [holder] ++ [s])) = none) :
    ∃ k, Grown Sound identifiers k w₀
      (w.withCopies identifiers (ofSegments segs) (ofSegments (segs ++ [holder] ++ [s]))
        (w.withHolder (identifiers 0) (ofSegments (segs ++ [holder])))) := by
  have hheld := hw.withHolder hinjective
    (hw.holds.withHolder hn holder (hw.unused 0 (Nat.le_refl 0)))
  refine ⟨_, hheld.storeCopies (Q := w.Plants) hinjective
    (fun hstate hitems => hstate.storeFrozen_of_plants hitems)
    ⟨fun c hc => ?_, hw.holds.isTree.plantable_withHolder hn hfree _ _⟩⟩
  obtain ⟨below, live, rfl, hlive⟩ := hw.holds.isTree.mem_copies hn hc
  exact ⟨live, hlive⟩

end Workspace

end LinkedStore
