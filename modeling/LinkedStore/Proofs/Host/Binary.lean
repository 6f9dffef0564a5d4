import LinkedStore.Proofs.Host.Refusal
import LinkedStore.Proofs.Host.Snapshot

/-!
# Binaries that have been created

The creation of a binary stores two nodes, each with a mixin and stamps, and on the content the
bytes, their digest and their number.  Nothing was stored under either path before, so that neither
node has types that were recorded by a freeze, even at the path of a snapshot.

## Main definitions

* `Workspace.withStamped`, `Workspace.withBinary` : the states with a new node and a new binary.
* `Workspace.HoldsBinary` : the two nodes of a binary, with what was recorded of its bytes.
* `Host.replacement` : the mutation that stores other bytes.

## Main statements

* `Workspace.createBinary_run` : the run of the creation of a binary.
* `Host.holdsBinary_of_mutate` : a binary that has been created is held.
* `Host.mutate_replacement` : its bytes can be replaced, and what was recorded stays.
-/

namespace LinkedStore

/-! ### The creation as an edit -/

namespace Workspace

variable {w : Workspace} {path identifier primaryType mixin k name : String} {now : Instant}

/-- The state with a node that has one mixin, without its stamps. -/
def withMixed (w : Workspace) (path identifier primaryType mixin : String) : Workspace :=
  let added := w.insertNode (.plain path identifier primaryType)
  { added with nodes := added.nodes.insert path ⟨path, identifier, primaryType, [mixin]⟩ }

/-- The state with a node that has one mixin and the stamps. -/
def withStamped (w : Workspace) (now : Instant) (path identifier primaryType mixin : String) :
    Workspace :=
  (stamps now (.plain path identifier primaryType)).foldl holdProperty
    (w.withMixed path identifier primaryType mixin)

theorem node?_withStamped (w : Workspace) (now : Instant)
    (path identifier primaryType mixin k : String) :
    (w.withStamped now path identifier primaryType mixin).node? k =
      if path = k then some ⟨path, identifier, primaryType, [mixin]⟩ else w.node? k := by
  rw [withStamped, node?_holdProperties]
  change ((w.withMixed path identifier primaryType mixin).nodes)[k]? = _
  rw [withMixed, Table.getElem?_insert]
  split
  · rfl
  · rename_i hk
    exact (node?_insertNode_plain w path identifier primaryType k).trans (if_neg hk)

/-- The stamps are the only properties that a new node has. -/
theorem property?_withStamped_of_notMem
    (hname : name ∉ [Vocab.Name.uuid, Vocab.Name.created, Vocab.Name.lastModified]) :
    (w.withStamped now path identifier primaryType mixin).property? k name =
      w.property? k name := by
  rw [withStamped, property?_holdProperties_of_forall]
  · rfl
  · rintro p hp ⟨-, rfl⟩
    exact hname (List.mem_map_of_mem hp)

theorem run_putProperty_eq_ok {β : Type} {f : Unit → Edit β} {p : Property} {b : β}
    {left : Workspace} (hrun : (putProperty p >>= f).run w = .ok b left) :
    (f ()).run (w.holdProperty p) = .ok b left := by
  obtain ⟨_, w', hput, hrest⟩ := Edit.run_bind_eq_ok hrun
  rw [putProperty_run] at hput
  split at hput
  · cases hput
  · rwa [(EStateM.Result.ok.inj hput).2]

theorem run_stampCreated_eq_ok {β : Type} {f : Unit → Edit β} {n : Node} {b : β}
    {left : Workspace} (hrun : (stampCreated now n >>= f).run w = .ok b left) :
    (f ()).run ((stamps now n).foldl holdProperty w) = .ok b left := by
  simp only [stampCreated, bind_assoc] at hrun
  exact run_putProperty_eq_ok (run_putProperty_eq_ok (run_putProperty_eq_ok hrun))

/-- A node that could be added has been added at a free path.  It is given a mixin and its stamps,
and the program goes on with it. -/
theorem run_stamped_eq_ok {β : Type} {f : Node → Edit β} {b : β} {left : Workspace}
    (hrun : (addNodeAt identifier path primaryType >>= fun n => addMixin path mixin >>= fun _ =>
      stampCreated now n >>= fun _ => f n).run w = .ok b left) :
    w.node? path = none ∧
      (f (.plain path identifier primaryType)).run
        (w.withStamped now path identifier primaryType mixin) = .ok b left := by
  obtain ⟨n, w', hadd, hrest⟩ := Edit.run_bind_eq_ok hrun
  obtain ⟨error, hrefused⟩ | ⟨_, -, hfree, hadded⟩ :=
    Edit.addNodeAt_run_cases identifier primaryType path w
  · exact nomatch hrefused.symm.trans hadd
  obtain ⟨rfl, rfl⟩ := EStateM.Result.ok.inj (hadded.symm.trans hadd)
  have hnode : (w.insertNode (.plain path identifier primaryType)).node? path =
      some (.plain path identifier primaryType) := by
    rw [node?_insertNode_plain, if_pos rfl]
  obtain ⟨_, w'', hmixin, hstamp⟩ := Edit.run_bind_eq_ok hrest
  rw [addMixin, changeMixins_run, hnode] at hmixin
  obtain ⟨-, rfl⟩ := EStateM.Result.ok.inj hmixin
  exact ⟨hfree, run_stampCreated_eq_ok hstamp⟩

/-- What is recorded of the content of a binary. -/
def contentProperties (contentPath : String) (bytes : Text.Bytes) (mimeType : String) :
    List Property :=
  [.single contentPath Vocab.Name.data (.binary bytes),
    (Property.single contentPath Vocab.Name.mimeType (.string mimeType)).guard,
    .single contentPath Vocab.Name.contentDigest (.uri (DigestAlgorithm.sha1.digestIri bytes)),
    .single contentPath Vocab.Name.contentSize (.long bytes.length)]

/-- The state with a binary. -/
def withBinary (w : Workspace) (d : Draws) (path : String) (bytes : Text.Bytes)
    (mimeType : String) : Workspace :=
  let contentPath := Path.child path Vocab.Name.content
  (contentProperties contentPath bytes mimeType).foldl holdProperty
    ((w.withStamped d.now path (d.identifier 0) Vocab.Name.ntFile
      Vocab.Name.fedoraDescription).withStamped d.now contentPath (d.identifier 1)
        Vocab.Name.ntResource Vocab.Name.fedoraBinary)

theorem node?_withBinary (w : Workspace) (d : Draws) (path : String) (bytes : Text.Bytes)
    (mimeType k : String) :
    (w.withBinary d path bytes mimeType).node? k =
      if Path.child path Vocab.Name.content = k then
        some ⟨Path.child path Vocab.Name.content, d.identifier 1, Vocab.Name.ntResource,
          [Vocab.Name.fedoraBinary]⟩
      else if path = k then
        some ⟨path, d.identifier 0, Vocab.Name.ntFile, [Vocab.Name.fedoraDescription]⟩
      else w.node? k := by
  rw [withBinary, node?_holdProperties, node?_withStamped, node?_withStamped]

/-- A binary that could be created has been stored at two paths, which have been free. -/
theorem createBinary_run {d : Draws} {bytes : Text.Bytes} {mimeType : String} {n : Node}
    {left : Workspace} (hrun : (createBinary d path bytes mimeType).run w = .ok n left) :
    w.node? path = none ∧
      (w.node? (Path.child path Vocab.Name.content) = none ∧
        path ≠ Path.child path Vocab.Name.content) ∧
      left = w.withBinary d path bytes mimeType := by
  obtain ⟨hfree, hrest⟩ := run_stamped_eq_ok hrun
  -- The content is added next to the description, so that its path was free and is another one.
  obtain ⟨hcontentFree, hrest⟩ := run_stamped_eq_ok hrest
  rw [node?_withStamped] at hcontentFree
  split at hcontentFree
  case isTrue => cases hcontentFree
  case isFalse hne =>
    refine ⟨hfree, ⟨hcontentFree, hne⟩, ?_⟩
    have hcreated := run_putProperty_eq_ok (run_putProperty_eq_ok
      (run_putProperty_eq_ok (run_putProperty_eq_ok hrest)))
    rw [createdNode, EStateM.run_bind, EStateM.run_get] at hcreated
    dsimp only at hcreated
    split at hcreated
    · exact (EStateM.Result.ok.inj hcreated).2.symm
    · cases hcreated

theorem property?_withBinary_of_mem (w : Workspace) (d : Draws) {bytes : Text.Bytes}
    {mimeType : String} {p : Property}
    (hp : p ∈ contentProperties (Path.child path Vocab.Name.content) bytes mimeType) :
    (w.withBinary d path bytes mimeType).property? (Path.child path Vocab.Name.content) p.name =
      some p := by
  refine property?_holdProperties_of_mem hp ?_ rfl (fun q hq hname => ?_) _
  · simp only [contentProperties, List.mem_cons, List.not_mem_nil, or_false] at hp
    obtain rfl | rfl | rfl | rfl := hp <;> rfl
  · have hnames : ((contentProperties (Path.child path Vocab.Name.content) bytes mimeType).map
        Property.name).Nodup :=
      show [Vocab.Name.data, Vocab.Name.mimeType, Vocab.Name.contentDigest,
        Vocab.Name.contentSize].Nodup by decide
    exact List.inj_on_of_nodup_map hnames hq hp hname

theorem property?_withBinary_of_notMem (w : Workspace) (d : Draws) {bytes : Text.Bytes}
    {mimeType : String}
    (hstamps : name ∉ [Vocab.Name.uuid, Vocab.Name.created, Vocab.Name.lastModified])
    (hcontent : name ∉ [Vocab.Name.data, Vocab.Name.mimeType, Vocab.Name.contentDigest,
      Vocab.Name.contentSize]) :
    (w.withBinary d path bytes mimeType).property? k name = w.property? k name := by
  rw [withBinary, property?_holdProperties_of_forall, property?_withStamped_of_notMem hstamps,
    property?_withStamped_of_notMem hstamps]
  rintro p hp ⟨-, rfl⟩
  exact hcontent (List.mem_map_of_mem hp)

/-! ### What is held of a binary -/

/-- The names under which a freeze records the types of a node. -/
def recordedNames : List String := [Vocab.Name.frozenPrimaryType, Vocab.Name.frozenMixinTypes]

/-- The two nodes of a binary, what was recorded of its bytes when it was created, and the bytes
that are stored now. -/
structure HoldsBinary (w : Workspace) (path : String) (recorded stored : Text.Bytes) : Prop where
  description : ∃ identifier, w.node? path =
    some ⟨path, identifier, Vocab.Name.ntFile, [Vocab.Name.fedoraDescription]⟩
  content : ∃ identifier, w.node? (Path.child path Vocab.Name.content) =
    some ⟨Path.child path Vocab.Name.content, identifier, Vocab.Name.ntResource,
      [Vocab.Name.fedoraBinary]⟩
  /-- Neither node has types that were recorded by a freeze. -/
  unrecorded : ∀ k ∈ [path, Path.child path Vocab.Name.content], ∀ name ∈ recordedNames,
    w.property? k name = none
  data : w.property? (Path.child path Vocab.Name.content) Vocab.Name.data =
    some (.single (Path.child path Vocab.Name.content) Vocab.Name.data (.binary stored))
  digest : w.property? (Path.child path Vocab.Name.content) Vocab.Name.contentDigest =
    some (.single (Path.child path Vocab.Name.content) Vocab.Name.contentDigest
      (.uri (DigestAlgorithm.sha1.digestIri recorded)))
  size : w.property? (Path.child path Vocab.Name.content) Vocab.Name.contentSize =
    some (.single (Path.child path Vocab.Name.content) Vocab.Name.contentSize
      (.long recorded.length))

theorem holdsBinary_withBinary (hw : w.Filed) (d : Draws) (bytes : Text.Bytes)
    (mimeType : String) (hfree : w.node? path = none)
    (hcontentFree : w.node? (Path.child path Vocab.Name.content) = none)
    (hne : path ≠ Path.child path Vocab.Name.content) :
    (w.withBinary d path bytes mimeType).HoldsBinary path bytes bytes where
  description := by
    rw [node?_withBinary, if_neg (Ne.symm hne), if_pos rfl]
    exact ⟨_, rfl⟩
  content := by
    rw [node?_withBinary, if_pos rfl]
    exact ⟨_, rfl⟩
  unrecorded k hk name hname := by
    have hunstored : w.node? k = none := by
      simp only [List.mem_cons, List.not_mem_nil, or_false] at hk
      obtain rfl | rfl := hk
      · exact hfree
      · exact hcontentFree
    rw [property?_withBinary_of_notMem, Option.eq_none_iff_forall_ne_some]
    · intro p hp
      obtain ⟨-, -, n, hn⟩ := hw.property hp
      exact nomatch hunstored.symm.trans hn
    · exact (show ∀ name ∈ recordedNames,
        name ∉ [Vocab.Name.uuid, Vocab.Name.created, Vocab.Name.lastModified] by decide) name hname
    · exact (show ∀ name ∈ recordedNames, name ∉ [Vocab.Name.data, Vocab.Name.mimeType,
        Vocab.Name.contentDigest, Vocab.Name.contentSize] by decide) name hname
  data := property?_withBinary_of_mem w d (List.mem_cons_self)
  digest := property?_withBinary_of_mem w d
    (List.mem_cons_of_mem _ (List.mem_cons_of_mem _ List.mem_cons_self))
  size := property?_withBinary_of_mem w d
    (List.mem_cons_of_mem _ (List.mem_cons_of_mem _ (List.mem_cons_of_mem _ List.mem_cons_self)))

/-- Other bytes on the content leave what was recorded as it is. -/
theorem HoldsBinary.holdData {recorded stored : Text.Bytes}
    (hw : w.HoldsBinary path recorded stored) (replaced : Text.Bytes) :
    (w.holdProperty (.single (Path.child path Vocab.Name.content) Vocab.Name.data
      (.binary replaced))).HoldsBinary path recorded replaced := by
  have hkept {k name : String} (hname : Vocab.Name.data ≠ name) :
      (w.holdProperty (.single (Path.child path Vocab.Name.content) Vocab.Name.data
        (.binary replaced))).property? k name = w.property? k name := by
    rw [property?_holdProperty, if_neg fun h => hname h.2]
  exact
    { description := hw.description
      content := hw.content
      unrecorded := fun k hk name hname =>
        (hkept ((show ∀ name ∈ recordedNames, Vocab.Name.data ≠ name by decide) name hname)).trans
          (hw.unrecorded k hk name hname)
      data := by rw [property?_holdProperty, if_pos ⟨rfl, rfl⟩]
      digest := (hkept (by decide)).trans hw.digest
      size := (hkept (by decide)).trans hw.size }

end Workspace

/-! ### Binaries of a session -/

namespace Host

variable {r : Repository} {h h' : Host} {calls : List Call} {number : Nat} {d : Draws}
  {m : Mutation} {outcome : Mutation.Outcome} {path : String} {recorded stored : Text.Bytes}

/-- **A binary that has been created is held**, with its bytes as they were recorded. -/
theorem holdsBinary_of_mutate (hr : r.IsNew) {mimeType : String}
    (hrun : (mutate number d (.createBinary path recorded mimeType)).run
      ((Host.mk r []).run calls) = .ok outcome h') :
    (h'.session number).live = true ∧ (h'.current number).HoldsBinary path recorded recorded := by
  have horphan := orphan?_of_mutate hrun
  refine ⟨(live_of_mutate horphan hrun).2, ?_⟩
  have hedit := edit_run_of_mutate horphan hrun
  rw [Mutation.edit, map_eq_pure_bind] at hedit
  obtain ⟨n, left, hcreate, hleft⟩ := Edit.run_bind_eq_ok hedit
  obtain ⟨hfree, ⟨hcontentFree, hne⟩, hmade⟩ := Workspace.createBinary_run hcreate
  rw [← (EStateM.Result.ok.inj hleft).2, hmade]
  exact Workspace.holdsBinary_withBinary (filed_current hr calls number) d recorded mimeType hfree
    hcontentFree hne

/-- The mutation that stores other bytes for a binary. -/
def replacement (path : String) (stored : Text.Bytes) : Mutation :=
  .putProperty (.single (Path.child path Vocab.Name.content) Vocab.Name.data (.binary stored))

/-- The bytes of a binary that is held can be replaced, and what was recorded of them stays. -/
theorem mutate_replacement (hlive : (h.session number).live = true)
    (hheld : (h.current number).HoldsBinary path recorded stored) (d : Draws)
    (replaced : Text.Bytes) :
    let h' := h.after (.mutate number d (replacement path replaced))
    (mutate number d (replacement path replaced)).run h = .ok .done h' ∧
      (h'.session number).live = true ∧
      (h'.current number).HoldsBinary path recorded replaced := by
  intro h'
  obtain ⟨identifier, hcontent⟩ := hheld.content
  have hedit : ((replacement path replaced).edit d).run (h.current number) = .ok .done
      ((h.current number).holdProperty (.single (Path.child path Vocab.Name.content)
        Vocab.Name.data (.binary replaced))) := by
    rw [replacement, Mutation.edit, map_eq_pure_bind, EStateM.run_bind, Workspace.putProperty_run,
      Property.single, hcontent]
    rfl
  obtain ⟨hrun, hcurrent⟩ := mutate_run_of_edit hlive rfl hedit
  refine ⟨hrun, (live_of_mutate rfl hrun).2, ?_⟩
  rw [hcurrent]
  exact hheld.holdData replaced

end Host

end LinkedStore
