import LinkedStore.Proofs.Store.Copies

/-!
# The loop that freezes

A checkin copies a node and what is reached from it to a place below the node itself, while it reads
the tree that it writes to.  It does not come across its own copies, since the first step from the
node to any of them is reserved.  So the loop that reads and writes one state makes the copies that
are listed before the first of them is stored.

## Main definitions

* `Workspace.Freezes` : the loop that makes the copies, one round for each node.
* `Workspace.DiffersAt` : two states differ at given places at most.

## Main statements

* `Workspace.IsTree.freezes_storeCopies` : the loop ends, with the listed copies stored.
* `Workspace.IsTree.freezes_withCopies` : so does the loop of a checkin.
-/

namespace LinkedStore.Workspace

open LinkedStore.Path (Segment ofSegments descend)

variable {w w' w'' state : Workspace} {identifiers : Nat → String} {k : Nat} {n live q : Node}
  {path name source target identifier : String} {names : List String} {segs : List Segment}
  {places places' : String → Prop}

/-! ### The loop -/

/-- What a node adds to the agenda: the children that are copied with it, each with the place of its
copy, the last child first. -/
def upcoming (state : Workspace) (source target : String) : List (String × String) :=
  ((state.copiedChildren source).map fun c => (c.path, Path.child target c.name)).reverse

/-- The loop that makes frozen copies: each round takes a node and the place of its copy from the
agenda, stores the copy under the next identifier and puts what the node adds on the agenda.  A
round reads the state that the rounds before it have left. -/
inductive Freezes (identifiers : Nat → String) :
    Nat → List (String × String) → Workspace → Workspace → Prop
  | done {k : Nat} {state : Workspace} : Freezes identifiers k [] state state
  | round {k : Nat} {source target : String} {agenda : List (String × String)}
      {state next final : Workspace} {live : Node} : state.node? source = some live →
      next = state.storeFrozen (identifiers k) source target state →
      Freezes identifiers (k + 1) (next.upcoming source target ++ agenda) next final →
      Freezes identifiers k ((source, target) :: agenda) state final

/-! ### States that differ at some places -/

/-- Two states differ at given places at most: elsewhere they have the same nodes and properties,
and their histories are the same.  A new node bears the path of its place. -/
structure DiffersAt (places : String → Prop) (w w' : Workspace) : Prop where
  node : ∀ path, ¬places path → w'.node? path = w.node? path
  properties : ∀ path, ¬places path → w'.properties[path]? = w.properties[path]?
  history : ∀ path, w'.history? path = w.history? path
  own : ∀ path n, w'.node? path = some n → w.node? path = some n ∨ n.path = path

theorem DiffersAt.refl (places : String → Prop) (w : Workspace) : DiffersAt places w w :=
  ⟨fun _ _ => rfl, fun _ _ => rfl, fun _ => rfl, fun _ _ => Or.inl⟩

theorem DiffersAt.trans (h : DiffersAt places w w') (h' : DiffersAt places w' w'') :
    DiffersAt places w w'' where
  node path hpath := (h'.node path hpath).trans (h.node path hpath)
  properties path hpath := (h'.properties path hpath).trans (h.properties path hpath)
  history path := (h'.history path).trans (h.history path)
  own path n hn := (h'.own path n hn).elim (h.own path n) Or.inr

theorem DiffersAt.mono (h : DiffersAt places w w') (hplaces : ∀ path, places path → places' path) :
    DiffersAt places' w w' where
  node path hpath := h.node path (mt (hplaces path) hpath)
  properties path hpath := h.properties path (mt (hplaces path) hpath)
  history := h.history
  own := h.own

theorem DiffersAt.property? (h : DiffersAt places w w') (hpath : ¬places path) (name : String) :
    w'.property? path name = w.property? path name := by
  rw [Workspace.property?, h.properties path hpath, Workspace.property?]

theorem DiffersAt.propertiesOf (h : DiffersAt places w w') (hpath : ¬places path) :
    w'.propertiesOf path = w.propertiesOf path := by
  rw [Workspace.propertiesOf, h.properties path hpath, Workspace.propertiesOf]

theorem differsAt_insertNode (w : Workspace) (n : Node) :
    DiffersAt (· = n.path) w (w.insertNode n) where
  node path hpath := by rw [node?_insertNode, if_neg (Ne.symm hpath)]
  properties _ _ := rfl
  history _ := rfl
  own path m hm := by
    rw [node?_insertNode] at hm
    by_cases hpath : n.path = path
    · rw [if_pos hpath] at hm
      exact Or.inr (by rw [← Option.some.inj hm, hpath])
    · rw [if_neg hpath] at hm
      exact Or.inl hm

theorem differsAt_holdProperty (w : Workspace) (p : Property) :
    DiffersAt (· = p.owner) w (w.holdProperty p) where
  node _ _ := rfl
  properties path hpath := by rw [holdProperty, Table.getElem?_insert, if_neg (Ne.symm hpath)]
  history _ := rfl
  own _ _ := Or.inl

theorem differsAt_holdProperties {properties : List Property}
    (hproperties : ∀ p ∈ properties, p.owner = path) (w : Workspace) :
    DiffersAt (· = path) w (properties.foldl holdProperty w) := by
  induction properties generalizing w with
  | nil => exact .refl _ w
  | cons p properties ih =>
      have howner := hproperties p List.mem_cons_self
      exact (howner ▸ differsAt_holdProperty w p).trans
        (ih (fun q hq => hproperties q (List.mem_cons_of_mem p hq)) _)

theorem owner_of_mem_frozenProperties {p : Property} (hp : p ∈ w.frozenProperties live target) :
    p.owner = target := by
  obtain ⟨q, -, rfl⟩ := List.mem_map.1 hp
  rfl

theorem differsAt_storeFrozen (w : Workspace) (identifier source target : String)
    (state : Workspace) :
    DiffersAt (· = target) state (w.storeFrozen identifier source target state) := by
  rw [storeFrozen]
  cases w.node? source with
  | none => exact .refl _ state
  | some live =>
      exact (differsAt_insertNode state (.plain target identifier Vocab.Name.ntFrozenNode)).trans
        (differsAt_holdProperties (fun _ => owner_of_mem_frozenProperties) _)

theorem differsAt_withHolder (w : Workspace) (identifier holder : String) :
    DiffersAt (· = holder) w (w.withHolder identifier holder) := by
  rw [withHolder]
  split
  · exact .refl _ w
  · exact differsAt_insertNode w (.plain holder identifier Vocab.Name.ntFolder)

/-! ### Storing the listed copies -/

/-- A state with listed copies of nodes of `w`, the first of which has the number `k`. -/
def storeCopies (w : Workspace) (identifiers : Nat → String) (k : Nat)
    (items : List (String × String)) (state : Workspace) : Workspace :=
  (items.zipIdx k).foldl
    (fun state copy => w.storeFrozen (identifiers (copy.2 + 1)) copy.1.1 copy.1.2 state) state

theorem storeCopies_cons (w : Workspace) (identifiers : Nat → String) (k : Nat)
    (item : String × String) (items : List (String × String)) (state : Workspace) :
    w.storeCopies identifiers k (item :: items) state =
      w.storeCopies identifiers (k + 1) items
        (w.storeFrozen (identifiers (k + 1)) item.1 item.2 state) := by
  rw [storeCopies, List.zipIdx_cons, List.foldl_cons, storeCopies]

theorem storeCopies_append (w : Workspace) (identifiers : Nat → String) (k : Nat)
    (items more : List (String × String)) (state : Workspace) :
    w.storeCopies identifiers k (items ++ more) state =
      w.storeCopies identifiers (k + items.length) more
        (w.storeCopies identifiers k items state) := by
  rw [storeCopies, List.zipIdx_append, List.foldl_append, storeCopies, storeCopies]

theorem differsAt_storeCopies (w : Workspace) (identifiers : Nat → String) (k : Nat)
    (items : List (String × String)) (state : Workspace) :
    DiffersAt (· ∈ items.map Prod.snd) state (w.storeCopies identifiers k items state) := by
  induction items generalizing k state with
  | nil => exact .refl _ state
  | cons item items ih =>
      rw [storeCopies_cons]
      refine ((differsAt_storeFrozen w _ item.1 item.2 state).mono ?_).trans ((ih _ _).mono ?_)
      · rintro path rfl
        exact List.mem_cons_self
      · exact fun path hpath => List.mem_cons_of_mem _ hpath

/-! ### What the loop reads -/

/-- A path lies in the holder of the copies of a node, or is the holder. -/
def InHolder (segs : List Segment) (path : String) : Prop :=
  ∃ below, path = ofSegments (segs ++ Segment.holder :: below)

theorem beginsWith_holder : Path.beginsWith "fcr:" Segment.holder.text = true := by decide

/-- What is copied does not lie in the holder, since the way there is reserved. -/
theorem IsTree.not_inHolder (hw : w.IsTree) (hq : w.Below (ofSegments segs) names q) :
    ¬InHolder segs q.path := by
  rintro ⟨below', hpath⟩
  obtain ⟨below, -, hbelow, -, hfree⟩ := hw.of_below hq
  rw [hbelow] at hpath
  have hsegs := List.append_cancel_left (Path.ofSegments_injective hpath)
  have hholder := hfree .holder (by rw [hsegs]; exact List.mem_cons_self)
  rw [beginsWith_holder] at hholder
  exact nomatch hholder

/-- A node whose path lies in the holder is not copied with any node that is. -/
theorem IsTree.not_copied_of_inHolder (hw : w.IsTree) (hq : w.Below (ofSegments segs) names q)
    (hn : InHolder segs n.path) (hparent : Path.parent? n.path = some q.path) :
    Path.beginsWith "fcr:" n.name = true := by
  obtain ⟨below, hpath⟩ := hn
  rcases List.eq_nil_or_concat below with rfl | ⟨below, s, rfl⟩
  · rw [Node.name, hpath, Path.name_ofSegments]
    exact beginsWith_holder
  · have hconcat : segs ++ Segment.holder :: below.concat s =
        segs ++ Segment.holder :: below ++ [s] := by simp
    rw [hpath, hconcat, Path.parent?_ofSegments, Option.some_inj] at hparent
    exact absurd ⟨below, hparent.symm⟩ (hw.not_inHolder hq)

/-- The loop reads of a node to be copied what there was before the first round. -/
theorem IsTree.copiedChildren_eq (hw : w.IsTree) (hstate : DiffersAt (InHolder segs) w state)
    (hq : w.Below (ofSegments segs) names q) :
    state.copiedChildren q.path = w.copiedChildren q.path := by
  rw [copiedChildren, copiedChildren, children, children, List.filter_filter, List.filter_filter]
  refine Table.filter_values_congr fun k v hv => ?_
  rw [Bool.and_eq_true, Bool.not_eq_true', beq_iff_eq] at hv
  by_cases hk : InHolder segs k
  · have hnot (hpath : v.path = k) : False := by
      have hreserved := hw.not_copied_of_inHolder hq (hpath ▸ hk) hv.2
      rw [hv.1] at hreserved
      cases hreserved
    constructor
    · intro hstored
      exact (hnot ((hstate.own k v hstored).elim hw.path id)).elim
    · intro hstored
      exact (hnot (hw.path hstored)).elim
  · exact Eq.congr_left (hstate.node k hk)

/-- **The loop ends, with the listed copies stored.**  The agenda stands for the copies of its nodes
and of what is reached from them. -/
theorem IsTree.freezes_storeCopies (hw : w.IsTree) (identifiers : Nat → String)
    {below : List Segment} {agenda : List (String × String)} {k : Nat}
    (hstate : DiffersAt (InHolder segs) w state)
    (hagenda : ∀ item ∈ agenda, ∃ names q, w.Below (ofSegments segs) names q ∧
      item = (q.path, descend (ofSegments (segs ++ Segment.holder :: below)) names)) :
    Freezes identifiers (k + 1) agenda state
      (w.storeCopies identifiers k
        (agenda.flatMap fun item => w.copies w.nodes.size item.1 item.2) state) := by
  generalize hitems : (agenda.flatMap fun item => w.copies w.nodes.size item.1 item.2) = items
  induction items generalizing agenda k state with
  | nil =>
      cases agenda with
      | nil => exact .done
      | cons item agenda =>
          obtain ⟨names, q, hq, rfl⟩ := hagenda item List.mem_cons_self
          obtain ⟨-, -, -, hnode, -⟩ := hw.of_below hq
          rw [List.flatMap_cons, hw.copies_eq hnode] at hitems
          exact nomatch hitems
  | cons item items ih =>
      cases agenda with
      | nil => exact nomatch hitems
      | cons item' agenda =>
          obtain ⟨names, q, hq, rfl⟩ := hagenda item' List.mem_cons_self
          obtain ⟨reached, hnames, -, hnode, -⟩ := hw.of_below hq
          rw [List.flatMap_cons, hw.copies_eq hnode, List.cons_append, List.cons.injEq] at hitems
          obtain ⟨rfl, hrest⟩ := hitems
          have hlive := (hstate.node _ (hw.not_inHolder hq)).trans hnode
          have hstored (identifier target : String) :
              state.storeFrozen identifier q.path target state =
                w.storeFrozen identifier q.path target state := by
            simp only [storeFrozen, hlive, hnode, frozenProperties,
              hstate.propertiesOf (hw.not_inHolder hq)]
          have hnext : DiffersAt (InHolder segs) w (w.storeFrozen (identifiers (k + 1)) q.path
              (descend (ofSegments (segs ++ Segment.holder :: below)) names) state) := by
            refine hstate.trans ((differsAt_storeFrozen w _ _ _ state).mono ?_)
            rintro path rfl
            rw [hnames, Path.descend_ofSegments]
            exact ⟨below ++ reached, by simp⟩
          rw [storeCopies_cons]
          refine .round hlive (hstored _ _).symm ?_
          rw [upcoming, hw.copiedChildren_eq hnext hq]
          refine ih hnext (fun item hitem => ?_) ?_
          · rcases List.mem_append.1 hitem with hitem | hitem
            · obtain ⟨c, hc, rfl⟩ := List.mem_map.1 (List.mem_reverse.1 hitem)
              exact ⟨names ++ [c.name], c, hw.below_snoc hq hc, by rw [descend, descend,
                List.foldl_append, List.foldl_cons, List.foldl_nil]⟩
            · exact hagenda item (List.mem_cons_of_mem _ hitem)
          · rw [List.flatMap_append, ← List.map_reverse, List.flatMap_map]
            exact hrest

/-- The loop of a freeze ends, once there is a holder for the copies. -/
theorem IsTree.freezes_withCopies (hw : w.IsTree) (hn : w.node? (ofSegments segs) = some n)
    (identifiers : Nat → String) (s : Segment) :
    Freezes identifiers 1 [(ofSegments segs, ofSegments (segs ++ [.holder] ++ [s]))]
      (w.withHolder (identifiers 0) (ofSegments (segs ++ [.holder])))
      (w.withCopies identifiers (ofSegments segs) (ofSegments (segs ++ [.holder] ++ [s]))
        (w.withHolder (identifiers 0) (ofSegments (segs ++ [.holder])))) := by
  have hholder : DiffersAt (InHolder segs) w
      (w.withHolder (identifiers 0) (ofSegments (segs ++ [.holder]))) := by
    refine (differsAt_withHolder w _ _).mono ?_
    rintro path rfl
    exact ⟨[], rfl⟩
  have hagenda : ∀ item ∈ [(ofSegments segs, ofSegments (segs ++ [.holder] ++ [s]))],
      ∃ names q, w.Below (ofSegments segs) names q ∧
        item = (q.path, descend (ofSegments (segs ++ Segment.holder :: [s])) names) := by
    intro item hitem
    obtain rfl := List.mem_singleton.1 hitem
    refine ⟨[], n, .here hn, ?_⟩
    rw [hw.path hn, List.append_assoc]
    rfl
  have hloop := hw.freezes_storeCopies identifiers (k := 0) hholder hagenda
  rwa [List.flatMap_cons, List.flatMap_nil, List.append_nil] at hloop

end LinkedStore.Workspace
