import LinkedStore.Proofs.Host.Run
import LinkedStore.Proofs.Session.Integrity

/-!
# The integrity of all states of a host

Whatever sessions do, in whatever order, every state that a host holds is sound, saved or staged.
Moreover an identifier stands for one path in all states that a workspace ever has, so that the
identifier of a node that is gone leads nowhere, even when another node has come to its path.

The run has to be orderly: nodes are added at proper paths, and every identifier that is drawn is
new.  The invariant is about all states ever held, since an identifier that has been forgotten in
one state may live on in the staged copy of another session.

## Main definitions

* `Host.Holds`, `Host.HasHeld` : the states of a workspace that a host holds, or has ever held.
* `Host.Undergoes` : a mutation is made on a session of a workspace.
* `Host.Fresh` : identifiers are new when they are drawn.
* `Host.Orderly` : nodes are added at proper paths, and identifiers are new when they are drawn.
* `Host.Intact` : what holds of the states of a host after a run.

## Main statements

* `Host.holds_after` : where the states come from that a host holds after a call.
* `Host.of_undergone` : what the mutations of a run do not take away holds of every state of it.
* `Host.of_holds` : what no edit takes away holds of every state of a host.
* `Host.Kept.concat` : an invariant about identifiers and a property that withstands mutations is
  kept by every call.
* `Host.intact_of_orderly` : all states of a host are sound after an orderly run.
-/

namespace LinkedStore

/-- Every workspace of a new repository holds a root alone. -/
def Repository.IsNew (r : Repository) : Prop :=
  ∀ (name : String) (w : Workspace), r.workspaces[name]? = some w →
    ∃ identifier, w = .withRoot identifier

theorem Repository.isNew_start (identifier : String) : (start identifier).IsNew := by
  intro name w hw
  rw [start, Table.getElem?_insert] at hw
  by_cases hname : defaultWorkspace = name
  · rw [if_pos hname] at hw
    exact ⟨identifier, (Option.some.inj hw).symm⟩
  · rw [if_neg hname, Std.ExtTreeMap.getElem?_empty] at hw
    exact nomatch hw

theorem Repository.IsNew.createWorkspace {r r' : Repository} (hr : r.IsNew)
    {name identifier : String} (h : r.createWorkspace name identifier = .ok r') : r'.IsNew := by
  intro k w hw
  rw [Repository.createWorkspace] at h
  split at h
  · exact nomatch h
  · rw [← Except.ok.inj h, Table.getElem?_insert] at hw
    by_cases hk : name = k
    · rw [if_pos hk] at hw
      exact ⟨identifier, (Option.some.inj hw).symm⟩
    · rw [if_neg hk] at hw
      exact hr k w hw

/-- What holds of the empty workspace and of every root alone holds of each state that a new
repository has saved. -/
theorem Repository.IsNew.of_committed {r : Repository} {P : Workspace → Prop} (hr : r.IsNew)
    (hempty : P .empty) (hroot : ∀ identifier, P (.withRoot identifier)) (workspace : String) :
    P (r.committed workspace) := by
  rw [committed, Std.ExtTreeMap.getD_eq_getD_getElem?]
  cases hw : r.workspaces[workspace]? with
  | none => exact hempty
  | some w =>
      obtain ⟨identifier, rfl⟩ := hr workspace w hw
      exact hroot identifier

theorem Repository.IsNew.sound_committed {r : Repository} (hr : r.IsNew) (workspace : String) :
    (r.committed workspace).Sound :=
  hr.of_committed Workspace.sound_empty Workspace.sound_withRoot workspace

namespace Host

/-- What is drawn for a call. -/
def Call.draws? : Call → Option Draws
  | .mutate _ d _ => some d
  | _ => none

/-- The path at which a call adds a node of its own. -/
def Call.newPath? : Call → Option String
  | .mutate _ _ m => m.newPath?
  | _ => none

/-- The state that a session works on. -/
def current (h : Host) (number : Nat) : Workspace :=
  (h.session number).current (h.committedFor number)

/-- A state that a host holds of a workspace: the saved one, or one that a session has staged. -/
def Holds (h : Host) (workspace : String) (w : Workspace) : Prop :=
  w = h.repository.committed workspace ∨
    ∃ number, (h.session number).workspace = workspace ∧ (h.session number).staged = some w

/-- A state that a host has held of a workspace at some time of a run. -/
def HasHeld (h : Host) (calls : List Call) (workspace : String) (w : Workspace) : Prop :=
  ∃ done, done <+: calls ∧ (h.run done).Holds workspace w

/-- An identifier has been drawn in a run. -/
def Drawn (calls : List Call) (identifier : String) : Prop :=
  ∃ c ∈ calls, ∃ d j, c.draws? = some d ∧ identifier = d.identifier j

/-- Every identifier that is drawn is new: no other draw gives it, and it is not in use at the
start. -/
structure Fresh (r : Repository) (calls : List Call) : Prop where
  injective : ∀ c ∈ calls, ∀ d, c.draws? = some d → Function.Injective d.identifier
  apart : calls.Pairwise fun c c' => ∀ d d', c.draws? = some d → c'.draws? = some d' →
    ∀ i j, d.identifier i ≠ d'.identifier j
  unused : ∀ c ∈ calls, ∀ d, c.draws? = some d → ∀ workspace j,
    (r.committed workspace).identifiers[d.identifier j]? = none

/-- Nodes are added at proper paths, and every identifier that is drawn is new. -/
structure Orderly (r : Repository) (calls : List Call) : Prop extends Fresh r calls where
  proper : ∀ c ∈ calls, ∀ path, c.newPath? = some path → Path.Proper path

/-! ### The states after a call -/

variable {h : Host} {c : Call} {workspace : String} {w : Workspace}

theorem holds_current (h : Host) (number : Nat) :
    h.Holds (h.session number).workspace (h.current number) := by
  rw [current, Session.current]
  cases hstaged : (h.session number).staged with
  | none => exact Or.inl rfl
  | some w => exact Or.inr ⟨number, rfl, hstaged⟩

/-- A call that stages nothing and saves nothing adds no state. -/
theorem Holds.of_sessions {h' : Host} (hw : h'.Holds workspace w)
    (hrepository : h'.repository = h.repository)
    (hsessions : ∀ k v, (h'.session k).staged = some v →
      (h.session k).staged = some v ∧ (h'.session k).workspace = (h.session k).workspace) :
    h.Holds workspace w := by
  rcases hw with hw | ⟨k, hworkspace, hstaged⟩
  · exact Or.inl (by rw [hw, hrepository])
  · obtain ⟨hold, hsame⟩ := hsessions k w hstaged
    exact Or.inr ⟨k, hsame.symm.trans hworkspace, hold⟩

theorem holds_after_opening {opened : String}
    (hw : (h.after (.opening opened)).Holds workspace w) : h.Holds workspace w := by
  refine hw.of_sessions (h.repository_after_opening opened) fun k v hv => ?_
  obtain heq | ⟨-, hopened⟩ := h.session_after_opening k opened
  · rw [heq] at hv ⊢
    exact ⟨hv, rfl⟩
  · rw [hopened] at hv
    exact nomatch hv

theorem holds_after_refresh {number : Nat} {keep : Bool}
    (hw : (h.after (.refresh number keep)).Holds workspace w) : h.Holds workspace w := by
  refine hw.of_sessions (by rw [h.after_refresh]; rfl) fun k v hv => ?_
  rw [h.session_after_refresh] at hv ⊢
  split at hv
  · exact nomatch hv
  · rename_i hkept
    rw [if_neg hkept]
    exact ⟨hv, rfl⟩

theorem holds_after_close {number : Nat}
    (hw : (h.after (.close number)).Holds workspace w) : h.Holds workspace w := by
  refine hw.of_sessions (by rw [h.after_close]; rfl) fun k v hv => ?_
  rw [h.session_after_close] at hv ⊢
  by_cases hk : k = number
  · subst hk
    rw [if_pos rfl] at hv ⊢
    exact ⟨hv, rfl⟩
  · rw [if_neg hk] at hv ⊢
    exact ⟨hv, rfl⟩

/-- A save turns a staged state into a saved one. -/
theorem holds_after_save {number : Nat} (hw : (h.after (.save number)).Holds workspace w) :
    ∃ w', h.Holds workspace w' ∧ (w = w' ∨ w = { w' with version := w'.version + 1 }) := by
  cases haccepts : h.accepts (.save number) with
  | false =>
      rw [h.after_save_of_not number (Or.inl haccepts)] at hw
      exact ⟨w, hw, Or.inl rfl⟩
  | true =>
      cases hstaged : (h.session number).staged with
      | none =>
          rw [h.after_save_of_not number (Or.inr hstaged)] at hw
          exact ⟨w, hw, Or.inl rfl⟩
      | some w' =>
          rcases hw with hw | ⟨k, hworkspace, hheld⟩
          · rw [h.committed_after_save number hstaged haccepts] at hw
            by_cases hworkspace : workspace = (h.session number).workspace
            · rw [if_pos hworkspace] at hw
              exact ⟨w', Or.inr ⟨number, hworkspace.symm, hstaged⟩, Or.inr hw⟩
            · rw [if_neg hworkspace] at hw
              exact ⟨w, Or.inl hw, Or.inl rfl⟩
          · rw [h.session_after_save number k hstaged haccepts] at hworkspace hheld
            by_cases hk : k = number
            · rw [if_pos hk] at hheld
              exact nomatch hheld
            · rw [if_neg hk] at hworkspace hheld
              exact ⟨w, Or.inr ⟨k, hworkspace, hheld⟩, Or.inl rfl⟩

theorem holds_after_mutate {number : Nat} {d : Draws} {m : Mutation}
    (hw : (h.after (.mutate number d m)).Holds workspace w) :
    h.Holds workspace w ∨
      (h.session number).workspace = workspace ∧ w = leftBy (m.edit d) (h.current number) := by
  rcases hw with hw | ⟨k, hworkspace, hstaged⟩
  · rw [h.after_mutate] at hw
    exact Or.inl (Or.inl hw)
  · rw [h.session_after_mutate] at hworkspace hstaged
    by_cases hk : k = number
    · rw [if_pos hk, Mutation.leftBy_run] at hworkspace hstaged
      split at hstaged
      · rename_i hwrites
        rw [if_pos hwrites] at hworkspace
        exact Or.inr ⟨hworkspace, (Option.some.inj hstaged).symm⟩
      · rename_i hwrites
        rw [if_neg hwrites] at hworkspace
        exact Or.inl (Or.inr ⟨number, hworkspace, hstaged⟩)
    · rw [if_neg hk] at hworkspace hstaged
      exact Or.inl (Or.inr ⟨k, hworkspace, hstaged⟩)

/-- A state that a host holds after a call was held before, has been saved, or has been made by a
mutation of the state that a session works on. -/
theorem holds_after (hw : (h.after c).Holds workspace w) :
    (∃ w', h.Holds workspace w' ∧ (w = w' ∨ w = { w' with version := w'.version + 1 })) ∨
      ∃ number d m, c = .mutate number d m ∧ (h.session number).workspace = workspace ∧
        w = leftBy (m.edit d) (h.current number) := by
  cases c with
  | opening opened => exact Or.inl ⟨w, holds_after_opening hw, Or.inl rfl⟩
  | save number => exact Or.inl (holds_after_save hw)
  | refresh number keep => exact Or.inl ⟨w, holds_after_refresh hw, Or.inl rfl⟩
  | close number => exact Or.inl ⟨w, holds_after_close hw, Or.inl rfl⟩
  | mutate number d m =>
      rcases holds_after_mutate hw with hw | ⟨hworkspace, hw⟩
      · exact Or.inl ⟨w, hw, Or.inl rfl⟩
      · exact Or.inr ⟨number, d, m, rfl, hworkspace, hw⟩

/-! ### All states of a run -/

variable {calls : List Call}

/-- A mutation has been made in a run, on a session of a workspace. -/
def Undergoes (h : Host) (calls : List Call) (workspace : String) (d : Draws) (m : Mutation) :
    Prop :=
  ∃ done number, done ++ [.mutate number d m] <+: calls ∧
    ((h.run done).session number).workspace = workspace

theorem Undergoes.concat {d : Draws} {m : Mutation} (h' : h.Undergoes calls workspace d m) :
    h.Undergoes (calls ++ [c]) workspace d m := by
  obtain ⟨done, number, hdone, hworkspace⟩ := h'
  exact ⟨done, number, hdone.trans (List.prefix_append calls [c]), hworkspace⟩

theorem Undergoes.mem {d : Draws} {m : Mutation} (h' : h.Undergoes calls workspace d m) :
    ∃ number, Call.mutate number d m ∈ calls := by
  obtain ⟨done, number, hdone, -⟩ := h'
  exact ⟨number, hdone.subset List.mem_concat_self⟩

/-- What holds of a workspace at first, and is not taken away by the mutations that are made on its
sessions, holds of all its states. -/
theorem of_undergone {r : Repository} {P : Workspace → Prop} (hfirst : P (r.committed workspace))
    (hversion : ∀ w version, P w → P { w with version := version })
    (hkept : ∀ d m, (Host.mk r []).Undergoes calls workspace d m → Edit.Leads P P (m.edit d))
    (hw : ((Host.mk r []).run calls).Holds workspace w) : P w := by
  induction calls using List.reverseRecOn generalizing w with
  | nil =>
      rcases hw with rfl | ⟨k, -, hstaged⟩
      · exact hfirst
      · cases hstaged
  | append_singleton calls c ih =>
      have ih {w : Workspace} (hw : ((Host.mk r []).run calls).Holds workspace w) : P w :=
        ih (fun d m hm => hkept d m hm.concat) hw
      rw [run_concat] at hw
      rcases holds_after hw with ⟨w', hw', rfl | rfl⟩ | ⟨number, d, m, rfl, rfl, rfl⟩
      · exact ih hw'
      · exact hversion _ _ (ih hw')
      · exact hkept d m ⟨calls, number, List.prefix_refl _, rfl⟩ _ (ih (holds_current _ number))

/-- What holds of every new workspace and no edit takes away holds of every state of a host. -/
theorem of_holds {r : Repository} {P : Workspace → Prop} (hr : r.IsNew) (hempty : P .empty)
    (hroot : ∀ identifier, P (.withRoot identifier))
    (hversion : ∀ w version, P w → P { w with version := version })
    (hkept : Edit.Kept P) (hw : ((Host.mk r []).run calls).Holds workspace w) : P w :=
  of_undergone (hr.of_committed hempty hroot workspace) hversion (fun d m _ => hkept.edit d m) hw

theorem hasHeld_of_holds (hw : (h.run calls).Holds workspace w) :
    h.HasHeld calls workspace w := ⟨calls, List.prefix_refl calls, hw⟩

theorem hasHeld_concat (hw : h.HasHeld (calls ++ [c]) workspace w) :
    h.HasHeld calls workspace w ∨ ((h.run calls).after c).Holds workspace w := by
  obtain ⟨done, hdone, hw⟩ := hw
  rcases List.prefix_concat_iff.1 hdone with rfl | hdone
  · exact Or.inr (by rwa [← run_concat])
  · exact Or.inl ⟨done, hdone, hw⟩

theorem Drawn.concat {identifier : String} (hdrawn : Drawn calls identifier) :
    Drawn (calls ++ [c]) identifier := by
  obtain ⟨c', hc', hdraw⟩ := hdrawn
  exact ⟨c', List.mem_append_left [c] hc', hdraw⟩

theorem Fresh.of_concat {r : Repository} (h : Fresh r (calls ++ [c])) : Fresh r calls where
  injective c' hc' := h.injective c' (List.mem_append_left [c] hc')
  apart := (List.pairwise_append.1 h.apart).1
  unused c' hc' := h.unused c' (List.mem_append_left [c] hc')

/-- The identifiers drawn for a call have not been drawn before. -/
theorem Fresh.not_drawn {r : Repository} (h : Fresh r (calls ++ [c])) {d : Draws}
    (hd : c.draws? = some d) (j : Nat) : ¬Drawn calls (d.identifier j) := by
  rintro ⟨c', hc', d', i, hd', hsame⟩
  exact (List.pairwise_append.1 h.apart).2.2 c' hc' c (List.mem_singleton.2 rfl) d' d hd' hd i j
    hsame.symm

/-- The invariant: every state ever held has a property, its identifiers were there from the start
or have been drawn, and an identifier stands for the same path in all states of a workspace. -/
structure Kept (P : Workspace → Prop) (r : Repository) (calls : List Call) : Prop where
  holds : ∀ {workspace : String} {w : Workspace},
    (Host.mk r []).HasHeld calls workspace w → P w
  known : ∀ {workspace : String} {w : Workspace}, (Host.mk r []).HasHeld calls workspace w →
    ∀ {identifier path : String}, w.identifiers[identifier]? = some path →
      (r.committed workspace).identifiers[identifier]? = some path ∨ Drawn calls identifier
  coherent : ∀ {workspace : String} {w w' : Workspace},
    (Host.mk r []).HasHeld calls workspace w → (Host.mk r []).HasHeld calls workspace w' →
    ∀ {identifier path path' : String}, w.identifiers[identifier]? = some path →
      w'.identifiers[identifier]? = some path' → path = path'

variable {r : Repository} {P : Workspace → Prop} {added : String → Prop}

/-- Before the first call, a host holds what the repository has saved. -/
theorem committed_of_hasHeld_nil (hw : (Host.mk r []).HasHeld [] workspace w) :
    w = r.committed workspace := by
  obtain ⟨done, hdone, hw⟩ := hw
  rw [List.prefix_nil.1 hdone] at hw
  rcases hw with hw | ⟨k, -, hstaged⟩
  · exact hw
  · exact nomatch hstaged

theorem kept_nil (hfirst : ∀ workspace, P (r.committed workspace)) : Kept P r [] := by
  refine ⟨fun hw => ?_, fun hw _ _ hpath => ?_, fun hw hw' _ _ _ hpath hpath' => ?_⟩
  · rw [committed_of_hasHeld_nil hw]
    exact hfirst _
  · rw [committed_of_hasHeld_nil hw] at hpath
    exact Or.inl hpath
  · rw [committed_of_hasHeld_nil hw] at hpath
    rw [committed_of_hasHeld_nil hw'] at hpath'
    exact Option.some.inj (hpath.symm.trans hpath')

namespace Kept

/-- The identifiers drawn for a call are not in use in any state held so far. -/
theorem unused (hkept : Kept P r calls) (hfresh : Fresh r (calls ++ [c])) {d : Draws}
    (hd : c.draws? = some d) (hw : (Host.mk r []).HasHeld calls workspace w) (j : Nat) :
    w.identifiers[d.identifier j]? = none := by
  rw [Option.eq_none_iff_forall_ne_some]
  intro path hpath
  rcases hkept.known hw hpath with hfirst | hdrawn
  · have hunused := hfresh.unused c List.mem_concat_self d hd workspace j
    exact nomatch hunused.symm.trans hfirst
  · exact hfresh.not_drawn hd j hdrawn

/-- The state that a mutation leaves has grown from the state that the session works on. -/
theorem grown (hP : Edit.Withstands added P) (hkept : Kept P r calls) {number : Nat} {d : Draws}
    {m : Mutation} (hfresh : Fresh r (calls ++ [.mutate number d m]))
    (hadded : ∀ path, m.newPath? = some path → added path) :
    ∃ k, Workspace.Grown P d.identifier k (((Host.mk r []).run calls).current number)
      (leftBy (m.edit d) (((Host.mk r []).run calls).current number)) := by
  have hheld := hasHeld_of_holds (holds_current ((Host.mk r []).run calls) number)
  refine hP.edit (hfresh.injective _ List.mem_concat_self d rfl) hadded _
    ⟨hkept.holds hheld, ?_, ?_⟩
  · exact fun j _ => hkept.unused hfresh rfl hheld j
  · exact fun identifier path hpath => Or.inl hpath

/-- Where the entries come from of a state held after a call: they were there in a state held
before, or the call drew the identifier and the state is the one that it has made. -/
theorem origin (hP : Edit.Withstands added P) (hkept : Kept P r calls)
    (hfresh : Fresh r (calls ++ [c])) (hadded : ∀ path, c.newPath? = some path → added path)
    (hw : (Host.mk r []).HasHeld (calls ++ [c]) workspace w) {identifier path : String}
    (hpath : w.identifiers[identifier]? = some path) :
    (∃ w', (Host.mk r []).HasHeld calls workspace w' ∧
      w'.identifiers[identifier]? = some path) ∨
      ∃ number d m j, c = .mutate number d m ∧ identifier = d.identifier j ∧
        w = leftBy (m.edit d) (((Host.mk r []).run calls).current number) := by
  rcases hasHeld_concat hw with hw | hw
  · exact Or.inl ⟨w, hw, hpath⟩
  · rcases holds_after hw with ⟨w', hw', rfl | rfl⟩ | ⟨number, d, m, rfl, rfl, rfl⟩
    · exact Or.inl ⟨w, hasHeld_of_holds hw', hpath⟩
    · exact Or.inl ⟨w', hasHeld_of_holds hw', hpath⟩
    · obtain ⟨k, hgrown⟩ := hkept.grown hP hfresh hadded
      rcases hgrown.entries identifier path hpath with hold | ⟨j, hj⟩
      · exact Or.inl ⟨_, hasHeld_of_holds (holds_current _ number), hold⟩
      · exact Or.inr ⟨number, d, m, j, rfl, hj, rfl⟩

/-- The invariant is kept by every call. -/
theorem concat (hP : Edit.Withstands added P) (hkept : Kept P r calls)
    (hfresh : Fresh r (calls ++ [c])) (hadded : ∀ path, c.newPath? = some path → added path) :
    Kept P r (calls ++ [c]) where
  holds hw := by
    rcases hasHeld_concat hw with hw | hw
    · exact hkept.holds hw
    · rcases holds_after hw with ⟨w', hw', rfl | rfl⟩ | ⟨number, d, m, rfl, -, rfl⟩
      · exact hkept.holds (hasHeld_of_holds hw')
      · exact hP.setVersion _ (hkept.holds (hasHeld_of_holds hw'))
      · obtain ⟨k, hgrown⟩ := hkept.grown hP hfresh hadded
        exact hgrown.holds
  known hw identifier path hpath := by
    rcases hkept.origin hP hfresh hadded hw hpath with
      ⟨w', hw', hold⟩ | ⟨number, d, m, j, rfl, hj, -⟩
    · exact (hkept.known hw' hold).imp id Drawn.concat
    · exact Or.inr ⟨_, List.mem_concat_self, d, j, rfl, hj⟩
  coherent hw hw' identifier path path' hpath hpath' := by
    have hnew {workspace path : String} {w : Workspace} {number j : Nat} {d : Draws}
        {m : Mutation} (hw : (Host.mk r []).HasHeld calls workspace w)
        (hc : c = .mutate number d m) (hj : identifier = d.identifier j) :
        w.identifiers[identifier]? ≠ some path := by
      intro hpath
      rw [hj, hkept.unused hfresh (by rw [hc]; rfl) hw j] at hpath
      exact nomatch hpath
    rcases hkept.origin hP hfresh hadded hw hpath with
      ⟨v, hv, hold⟩ | ⟨number, d, m, j, hc, hj, rfl⟩
    · rcases hkept.origin hP hfresh hadded hw' hpath' with
        ⟨v', hv', hold'⟩ | ⟨_, _, _, _, hc, hj, -⟩
      · exact hkept.coherent hv hv' hold hold'
      · exact absurd hold (hnew hv hc hj)
    · rcases hkept.origin hP hfresh hadded hw' hpath' with
        ⟨v', hv', hold'⟩ | ⟨_, _, _, _, hc', -, rfl⟩
      · exact absurd hold' (hnew hv' hc hj)
      · obtain ⟨rfl, rfl, rfl⟩ := Call.mutate.inj (hc.symm.trans hc')
        exact Option.some.inj (hpath.symm.trans hpath')

end Kept

/-- What withstands mutations holds of every state ever held, if it holds at first and every
identifier that is drawn is new. -/
theorem kept_of_fresh (hP : Edit.Withstands added P)
    (hfirst : ∀ workspace, P (r.committed workspace)) (hfresh : Fresh r calls)
    (hadded : ∀ c ∈ calls, ∀ path, c.newPath? = some path → added path) : Kept P r calls := by
  induction calls using List.reverseRecOn with
  | nil => exact kept_nil hfirst
  | append_singleton calls c ih =>
      have hearlier := ih hfresh.of_concat fun c' hc' => hadded c' (List.mem_append_left [c] hc')
      exact hearlier.concat hP hfresh (hadded c List.mem_concat_self)

theorem kept_of_orderly (hr : r.IsNew) (horderly : Orderly r calls) :
    Kept Workspace.Sound r calls :=
  kept_of_fresh Edit.withstands_sound hr.sound_committed horderly.toFresh horderly.proper

/-! ### What holds of a host after a run -/

/-- All states that a host holds after a run from a repository are sound.  What has been removed
is gone from all reads, and what is created starts anew. -/
structure Intact (r : Repository) (calls : List Call) : Prop where
  sound : ∀ workspace w, ((Host.mk r []).run calls).Holds workspace w → w.Sound
  /-- Where no node is stored, nothing is read. -/
  hidden : ∀ workspace w path, ((Host.mk r []).run calls).Holds workspace w →
    w.node? path = none → w.ShowsNothingAt path
  /-- The identifier of a node that was stored at some time, and is not stored at its path any
  more, is not read anywhere, even if there is another node at the path. -/
  forgotten : ∀ workspace w w₀ path n, ((Host.mk r []).run calls).Holds workspace w →
    (Host.mk r []).HasHeld calls workspace w₀ → w₀.node? path = some n →
    (∀ n', w.node? path = some n' → n'.identifier ≠ n.identifier) → w.Forgets n.identifier
  /-- A node that is created at a free path bears an identifier that no node of any state has
  borne, owns nothing but the properties that it is created with, and has no history. -/
  reborn : ∀ number d m path, Orderly r (calls ++ [.mutate number d m]) →
    m.newPath? = some path → (((Host.mk r []).run calls).current number).node? path = none →
    Workspace.Newborn (d.identifier 0) (m.firstProperties d) path
        (((Host.mk r []).run (calls ++ [.mutate number d m])).current number) ∧
      ∀ workspace w₀ k n, (Host.mk r []).HasHeld calls workspace w₀ → w₀.node? k = some n →
        n.identifier ≠ d.identifier 0

theorem current_after_mutate_eq (h : Host) (number : Nat) (d : Draws) (m : Mutation) :
    (h.after (.mutate number d m)).current number =
      if (h.session number).live ∧ m.orphan? = none then leftBy (m.edit d) (h.current number)
      else h.current number := by
  rw [current, committedFor_after_mutate, h.session_after_mutate, if_pos rfl, Mutation.leftBy_run]
  split <;> rfl

theorem current_after_mutate (h : Host) (number : Nat) (d : Draws) (m : Mutation) :
    (h.after (.mutate number d m)).current number = leftBy (m.edit d) (h.current number) ∨
      (h.after (.mutate number d m)).current number = h.current number := by
  rw [current_after_mutate_eq]
  split
  · exact Or.inl rfl
  · exact Or.inr rfl

/-- **All states of a host are sound after an orderly run** from a new repository. -/
theorem intact_of_orderly (hr : r.IsNew) (horderly : Orderly r calls) : Intact r calls := by
  have hkept := kept_of_orderly hr horderly
  refine ⟨fun workspace w hw => ?_, fun workspace w path hw hfree => ?_,
    fun workspace w w₀ path n hw hw₀ hn hgone => ?_, fun number d m path hnext hnew hfree => ?_⟩
  · exact hkept.holds (hasHeld_of_holds hw)
  · exact (hkept.holds (hasHeld_of_holds hw)).showsNothingAt hfree
  · have hsound := hkept.holds (hasHeld_of_holds hw)
    refine hsound.forgets fun k n' hn' hsame => ?_
    -- The two nodes bear one identifier, so that they are at one path.
    have hpath := hkept.coherent (hasHeld_of_holds hw) hw₀
      (hsound.identifier.2 ⟨n', hn', hsame⟩) ((hkept.holds hw₀).identifier.2 ⟨n, hn, rfl⟩)
    subst hpath
    exact hgone n' hn' hsame
  · have hproper := hnext.proper _ List.mem_concat_self path hnew
    have hsound := hkept.holds (hasHeld_of_holds (holds_current ((Host.mk r []).run calls) number))
    refine ⟨?_, fun workspace w₀ k n hw₀ hn hsame => ?_⟩
    · rw [run_concat]
      rcases current_after_mutate ((Host.mk r []).run calls) number d m with hmade | hsame
      · rw [hmade]
        exact Edit.newborn_edit d hnew hproper _ ⟨hsound, hfree⟩
      · rw [hsame]
        exact Edit.newborn_of_free hsound hfree
    · have hused := (hkept.holds hw₀).identifier.2 ⟨n, hn, hsame⟩
      exact nomatch (hkept.unused hnext.toFresh rfl hw₀ 0).symm.trans hused

/-- A draw of texts of different lengths. -/
def drawOfLengths (step first : Nat) : Draws :=
  ⟨fun j => String.ofList (List.replicate (step * j + first) 'i'), .epoch⟩

theorem length_drawOfLengths (step first j : Nat) :
    ((drawOfLengths step first).identifier j).length = step * j + first := by
  rw [drawOfLengths, String.length_ofList, List.length_replicate]

/-- A run in which a container is created, removed and created again. -/
def recreation : List Call :=
  [.opening "default", .mutate 0 (drawOfLengths 3 5) (.createContainer "/a"),
    .mutate 0 (drawOfLengths 3 6) (.removeNode "/a"),
    .mutate 0 (drawOfLengths 3 7) (.createContainer "/a"), .save 0]

theorem draws_recreation (hc : c ∈ recreation) {d : Draws} (hd : c.draws? = some d) :
    ∃ first, 4 < first ∧ d = drawOfLengths 3 first := by
  simp only [recreation, List.mem_cons, List.not_mem_nil, or_false] at hc
  rcases hc with rfl | rfl | rfl | rfl | rfl
  · exact nomatch hd
  · exact ⟨5, by decide, (Option.some.inj hd).symm⟩
  · exact ⟨6, by decide, (Option.some.inj hd).symm⟩
  · exact ⟨7, by decide, (Option.some.inj hd).symm⟩
  · exact nomatch hd

theorem fresh_recreation : Fresh (.start "root") recreation where
  injective c hc d hd := by
    obtain ⟨first, -, rfl⟩ := draws_recreation hc hd
    intro i j hsame
    have hlength := congrArg String.length hsame
    rw [length_drawOfLengths, length_drawOfLengths] at hlength
    omega
  apart := by
    have hlengths {first first' : Nat} (hne : first % 3 ≠ first' % 3) (i j : Nat) :
        (drawOfLengths 3 first).identifier i ≠ (drawOfLengths 3 first').identifier j := by
      intro hsame
      have hlength := congrArg String.length hsame
      rw [length_drawOfLengths, length_drawOfLengths] at hlength
      omega
    simp only [recreation, List.pairwise_cons, List.mem_cons, List.not_mem_nil, or_false,
      forall_eq_or_imp, forall_eq, Call.draws?, Option.some.injEq, reduceCtorEq,
      IsEmpty.forall_iff, implies_true, and_true, true_and]
    refine ⟨⟨?_, ?_⟩, ?_, List.Pairwise.nil⟩
    all_goals
      rintro d d' rfl rfl
      exact hlengths (by decide)
  unused c hc d hd workspace j := by
    obtain ⟨first, hfirst, rfl⟩ := draws_recreation hc hd
    have hne : "root" ≠ (drawOfLengths 3 first).identifier j := by
      intro hsame
      have hlength := congrArg String.length hsame
      have hroot : "root".length = 4 := by decide
      rw [length_drawOfLengths] at hlength
      omega
    rw [Repository.committed, Repository.start, Std.ExtTreeMap.getD_insert]
    split
    · rw [Workspace.withRoot, Workspace.identifiers_insertNode, if_neg hne]
      exact Std.ExtTreeMap.getElem?_empty
    · rw [Std.ExtTreeMap.getD_empty]
      exact Std.ExtTreeMap.getElem?_empty

theorem orderly_recreation : Orderly (.start "root") recreation where
  toFresh := fresh_recreation
  proper c hc path hpath := by
    simp only [recreation, List.mem_cons, List.not_mem_nil, or_false] at hc
    have ha : Path.Proper "/a" := ⟨[⟨"a", by decide, by decide⟩], by decide⟩
    rcases hc with rfl | rfl | rfl | rfl | rfl
    · cases hpath
    · exact Option.some.inj hpath ▸ ha
    · cases hpath
    · exact Option.some.inj hpath ▸ ha
    · cases hpath

/-- The run is orderly, so that all its states are sound, and after it there is a container at the
path once more. -/
theorem intact_recreation :
    (Repository.start "root").IsNew ∧ Orderly (.start "root") recreation ∧
      Intact (.start "root") recreation ∧
      ((((Host.start "root").run recreation).repository.committed "default").node? "/a").isSome :=
  ⟨Repository.isNew_start "root", orderly_recreation,
    intact_of_orderly (Repository.isNew_start "root") orderly_recreation, by decide +kernel⟩

end Host

end LinkedStore
