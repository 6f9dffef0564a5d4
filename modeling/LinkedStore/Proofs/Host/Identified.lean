import LinkedStore.Proofs.Host.Filing
import Std.Data.String.ToNat

/-!
# Every node is found by its identifier

If every identifier that is drawn is new, then in every state of a host the identifier of a node
leads to the node, wherever nodes have been added.  The converse needs proper paths: a frozen copy
may go to the place of another one if nodes lie at improper paths, and then the identifier of the
copy that is gone leads to the other one.

## Main definitions

* `Workspace.Identified` : the identifier of every node leads to it.

## Main statements

* `Edit.withstands_identified` : no mutation leaves another state, if identifiers are new.
* `Host.identified_current` : the identifiers of nodes lead to them, in every state of a host.
-/

namespace LinkedStore

namespace Workspace

variable {w w' w₀ state : Workspace} {n : Node} {path : String} {identifiers : Nat → String}

/-- The identifier of every node leads to the path that the node is stored under. -/
structure Identified (w : Workspace) : Prop where
  leads : ∀ {path : String} {n : Node}, w.node? path = some n →
    w.identifiers[n.identifier]? = some path

theorem Identified.byIdentifier? (hw : w.Identified) (hn : w.node? path = some n) :
    w.byIdentifier? n.identifier = some n := by
  rw [Workspace.byIdentifier?, hw.leads hn, Option.bind_some, hn]

theorem identified_empty : empty.Identified :=
  ⟨fun hn => nomatch (node?_empty _).symm.trans hn⟩

/-- A node with an identifier that is not in use may be stored anywhere. -/
theorem Identified.insertNode (hw : w.Identified) (hunused : w.identifiers[n.identifier]? = none) :
    (w.insertNode n).Identified := by
  constructor
  intro k m hm
  rw [node?_insertNode] at hm
  rw [identifiers_insertNode]
  by_cases hk : n.path = k
  · rw [if_pos hk] at hm
    obtain rfl := Option.some.inj hm
    rw [if_pos rfl, hk]
  · rw [if_neg hk] at hm
    rw [if_neg, hw.leads hm]
    intro hsame
    rw [hsame, hw.leads hm] at hunused
    exact nomatch hunused

theorem identified_withRoot (identifier : String) : (withRoot identifier).Identified :=
  identified_empty.insertNode Std.ExtTreeMap.getElem?_empty

/-- Taking a node out takes no other node's identifier with it. -/
theorem Identified.dropNode (hw : w.Identified) (path : String) : (w.dropNode path).Identified := by
  constructor
  intro k m hm
  rw [node?_dropNode] at hm
  by_cases hk : path = k
  · rw [if_pos hk] at hm
    exact nomatch hm
  · rw [if_neg hk] at hm
    cases hn : w.node? path with
    | none => rw [identifiers_dropNode_of_free hn, hw.leads hm]
    | some n =>
        rw [identifiers_dropNode hn, if_neg, hw.leads hm]
        intro hsame
        have hpath := hw.leads hn
        rw [hsame, hw.leads hm] at hpath
        exact hk (Option.some.inj hpath).symm

theorem Identified.of_sameNodes (hw : w.Identified) (hnodes : SameNodes w w')
    (hidentifiers : w'.identifiers = w.identifiers) : w'.Identified := by
  constructor
  intro path n' hn'
  obtain ⟨n, hn, -, hsame⟩ := hnodes.symm.exists_node hn'
  rw [hidentifiers, ← hsame, hw.leads hn]

theorem Identified.dropNodes (hw : w.Identified) (paths : List String) :
    (paths.foldl Workspace.dropNode w).Identified := by
  induction paths generalizing w with
  | nil => exact hw
  | cons path paths ih => exact ih (hw.dropNode path)

/-! ### Storing copies -/

theorem Identified.holdProperties (hw : w.Identified) (properties : List Property) :
    (properties.foldl holdProperty w).Identified := by
  induction properties generalizing w with
  | nil => exact hw
  | cons p properties ih => exact ih (hw.of_sameNodes (sameNodes_of_nodes_eq rfl) rfl)

theorem Identified.storeFrozen (hstate : state.Identified) {identifier : String}
    (hunused : state.identifiers[identifier]? = none) (w : Workspace) (source target : String) :
    (w.storeFrozen identifier source target state).Identified := by
  rw [Workspace.storeFrozen]
  cases w.node? source with
  | none => exact hstate
  | some live => exact (hstate.insertNode hunused).holdProperties _

theorem Identified.withHolder (hw : w.Identified) {identifier : String}
    (hunused : w.identifiers[identifier]? = none) (holder : String) :
    (w.withHolder identifier holder).Identified := by
  rw [Workspace.withHolder]
  split
  · exact hw
  · exact hw.insertNode hunused

theorem Identified.withCopies (hinjective : Function.Injective identifiers)
    (hw : Grown Identified identifiers 0 w₀ w) (source target holder : String) :
    ∃ k, Grown Identified identifiers k w₀
      (w.withCopies identifiers source target (w.withHolder (identifiers 0) holder)) := by
  have hheld := hw.withHolder hinjective
    (hw.holds.withHolder (hw.unused 0 (Nat.le_refl 0)) holder)
  exact ⟨_, hheld.storeCopies (Q := fun _ _ => True) hinjective
    (fun hstate _ hunused => ⟨hstate.storeFrozen hunused w _ _, trivial⟩) trivial⟩

end Workspace

namespace Edit

open Workspace

/-- **No mutation hides a node from its identifier**, wherever it adds nodes. -/
theorem withstands_identified : Withstands (fun _ => True) Identified where
  content := id
  insertNode _ hw _ _ _ _ hunused := hw.insertNode hunused
  changeMixins mixins hw hn := hw.of_sameNodes (sameNodes_changeMixins hn mixins) rfl
  removeSubtree path hw := hw.dropNodes _
  holdProperty hw _ := hw.of_sameNodes (sameNodes_of_nodes_eq rfl) rfl
  withoutProperty {w} path name hw :=
    hw.of_sameNodes (fun k => by rw [node?_withoutProperty])
      (identifiers_withoutProperty w path name)
  insertHistory _ hw _ := hw.of_sameNodes (sameNodes_of_nodes_eq rfl) rfl
  withCopies _ hinjective hw _ _ _ := Identified.withCopies hinjective hw _ _ _
  setVersion _ hw := hw.of_sameNodes (sameNodes_of_nodes_eq rfl) rfl

end Edit

namespace Host

variable {r : Repository} {calls : List Call} {c : Call}

/-- **Every node is found by its identifier** in the state that a session works on, if every
identifier that is drawn is new. -/
theorem identified_current (hr : r.IsNew) (hfresh : Fresh r calls) (number : Nat) :
    (((Host.mk r []).run calls).current number).Identified :=
  (kept_of_fresh Edit.withstands_identified
    (hr.of_committed Workspace.identified_empty Workspace.identified_withRoot) hfresh
    fun _ _ _ _ => trivial).holds (hasHeld_of_holds (holds_current _ number))

/-! ### Numbered draws -/

/-- The draw of a number: the identifiers begin with the number. -/
def numbered (number : Nat) : Draws := ⟨fun j => toString number ++ ":" ++ toString j, .epoch⟩

/-- The identifiers of numbered draws differ. -/
theorem numbered_inj {number number' j j' : Nat}
    (h : (numbered number).identifier j = (numbered number').identifier j') :
    number = number' ∧ j = j' := by
  have hcut (number j : Nat) : Text.cutFirst ':' ((numbered number).identifier j).toList =
      some ((toString number).toList, (toString j).toList) :=
    Text.cutFirst_eq_some_iff.2
      ⟨by simp [numbered], Path.notMem_toString (by decide) number⟩
  have hparts := hcut number j
  rw [h, hcut number' j'] at hparts
  obtain ⟨hnumber, hj⟩ := Prod.mk.inj (Option.some.inj hparts)
  exact ⟨(Nat.repr_inj.1 (String.toList_inj.1 hnumber)).symm,
    (Nat.repr_inj.1 (String.toList_inj.1 hj)).symm⟩

/-- A run of mutations on one session, each with a draw of its own number. -/
def runOf (mutations : List Mutation) : List Call :=
  .opening "default" :: mutations.zipIdx.map fun m => .mutate 0 (numbered m.2) m.1

theorem exists_numbered_of_mem {mutations : List Mutation} (hc : c ∈ runOf mutations) {d : Draws}
    (hd : c.draws? = some d) : ∃ number, d = numbered number := by
  rcases List.mem_cons.1 hc with rfl | hc
  · exact nomatch hd
  · obtain ⟨m, -, rfl⟩ := List.mem_map.1 hc
    exact ⟨m.2, (Option.some.inj hd).symm⟩

/-- Every identifier drawn in a run with numbered draws is new. -/
theorem fresh_runOf (mutations : List Mutation) : Fresh (.start "root") (runOf mutations) where
  injective c hc d hd i j hsame := by
    obtain ⟨number, rfl⟩ := exists_numbered_of_mem hc hd
    exact (numbered_inj hsame).2
  apart := by
    refine List.Pairwise.cons (fun c' _ d d' hd => nomatch hd) (List.pairwise_map.2 ?_)
    have hordered : (mutations.zipIdx.map Prod.snd).Pairwise (· < ·) := by
      rw [List.zipIdx_map_snd]
      exact List.pairwise_lt_range' ..
    refine (List.pairwise_map.1 hordered).imp fun hlt d d' hd hd' i j hsame => ?_
    obtain rfl := Option.some.inj hd
    obtain rfl := Option.some.inj hd'
    exact absurd (numbered_inj hsame).1 (Nat.ne_of_lt hlt)
  unused c hc d hd workspace j := by
    obtain ⟨number, rfl⟩ := exists_numbered_of_mem hc hd
    have hne : "root" ≠ (numbered number).identifier j := by
      intro hsame
      have hcolon : ':' ∈ "root".toList := by
        rw [hsame]
        simp [numbered]
      exact absurd hcolon (by decide)
    have hroot : (Repository.start "root").committed workspace = .empty ∨
        (Repository.start "root").committed workspace = .withRoot "root" := by
      rw [Repository.committed, Repository.start, Std.ExtTreeMap.getD_insert]
      split
      · exact .inr rfl
      · exact .inl (Std.ExtTreeMap.getD_empty ..)
    rcases hroot with hempty | hroot
    · rw [hempty]
      exact Std.ExtTreeMap.getElem?_empty
    · rw [hroot, Workspace.withRoot, Workspace.identifiers_insertNode, if_neg hne]
      exact Std.ExtTreeMap.getElem?_empty

end Host

end LinkedStore
