import LinkedStore.Proofs.Host.Filing

/-!
# Refused mutations

A mutation that is refused changes nothing that its session reads, with one exception.  A checkin
enters its version into the history before it looks whether the place of the frozen copy is free.
If the place is taken, then the checkin is refused and the version stays in the history, without a
copy of its own.

A mutation of several parts can be refused by its first part only: once a node has been added, it
can be given mixins and properties, and in a filed workspace there is nothing at the place of the
content below a node that has just been added.

## Main definitions

* `Edit.Succeeds` : an edit is not refused.
* `Mutation.stray?` : the history with a version that a refused checkin leaves in it.
* `Reader.SameData` : two readers answer alike about nodes, properties and histories.

## Main statements

* `Edit.left_of_refused` : the workspace that a refused mutation leaves.
* `Host.sameData_of_refused` : what a session reads after a refused mutation.
-/

namespace LinkedStore

namespace Edit

open Workspace

variable {α β : Type} {P Q R : Workspace → Prop} {e : Edit α} {w left : Workspace} {error : Error}

/-! ### Edits that succeed -/

/-- On workspaces with one property an edit succeeds and leaves workspaces with another. -/
def Succeeds (P Q : Workspace → Prop) (e : Edit α) : Prop :=
  ∀ w, P w → ∃ a left, e.run w = .ok a left ∧ Q left

theorem succeeds_bind_of_run {f : α → Edit β} (he : Succeeds P Q e)
    (hf : ∀ w a left, e.run w = .ok a left → Succeeds Q R (f a)) : Succeeds P R (e >>= f) := by
  intro w hw
  obtain ⟨a, left, hrun, hleft⟩ := he w hw
  obtain ⟨b, left', hrun', hleft'⟩ := hf w a left hrun left hleft
  refine ⟨b, left', ?_, hleft'⟩
  rw [EStateM.run_bind, hrun]
  exact hrun'

theorem succeeds_bind {f : α → Edit β} (he : Succeeds P Q e) (hf : ∀ a, Succeeds Q R (f a)) :
    Succeeds P R (e >>= f) :=
  succeeds_bind_of_run he fun _ a _ _ => hf a

/-- If what follows an edit succeeds, then only the edit itself can be refused. -/
theorem refused_of_bind {f : α → Edit β} (hrun : (e >>= f).run w = .error error left)
    (hf : ∀ a left', e.run w = .ok a left' → ∃ b left'', (f a).run left' = .ok b left'') :
    e.run w = .error error left := by
  rw [EStateM.run_bind] at hrun
  cases he : e.run w with
  | error error' left' =>
      rw [he] at hrun
      obtain ⟨rfl, rfl⟩ := EStateM.Result.error.inj hrun
      rfl
  | ok a left' =>
      obtain ⟨b, left'', hok⟩ := hf a left' he
      rw [he] at hrun
      exact nomatch hok.symm.trans hrun

theorem refused_of_map {f : α → β} (hrun : (f <$> e).run w = .error error left) :
    e.run w = .error error left := by
  rw [map_eq_pure_bind] at hrun
  exact refused_of_bind hrun fun a left' _ => ⟨f a, left', rfl⟩

/-! ### Edits of stored nodes -/

/-- The nodes of a workspace are stored at given paths. -/
def Storing (stored : String → Prop) (w : Workspace) : Prop :=
  ∀ k, (∃ n, w.node? k = some n) ↔ stored k

variable {stored : String → Prop} {path : String}

theorem storing_self (w : Workspace) : Storing (fun k => ∃ n, w.node? k = some n) w :=
  fun _ => Iff.rfl

theorem succeeds_changeMixins (hpath : stored path) (change : List String → List String) :
    Succeeds (Storing stored) (Storing stored) (changeMixins path change) := by
  intro w hw
  obtain ⟨n, hn⟩ := (hw path).2 hpath
  refine ⟨(), _, by rw [changeMixins_run, hn], fun k => ?_⟩
  rw [← hw]
  have hsame := sameNodes_changeMixins hn (change n.mixins)
  constructor
  · rintro ⟨m, hm⟩
    obtain ⟨m', hm', -⟩ := hsame.symm.exists_node hm
    exact ⟨m', hm'⟩
  · rintro ⟨m, hm⟩
    obtain ⟨m', hm', -⟩ := hsame.exists_node hm
    exact ⟨m', hm'⟩

theorem succeeds_putProperty {p : Property} (howner : stored p.owner) :
    Succeeds (Storing stored) (Storing stored) (putProperty p) := by
  intro w hw
  obtain ⟨n, hn⟩ := (hw p.owner).2 howner
  exact ⟨(), w.holdProperty p, by rw [putProperty_run, hn], hw⟩

theorem succeeds_stampCreated {n : Node} (hn : stored n.path) (now : Instant) :
    Succeeds (Storing stored) (Storing stored) (stampCreated now n) :=
  succeeds_bind (succeeds_putProperty hn) fun _ =>
    succeeds_bind (succeeds_putProperty hn) fun _ => succeeds_putProperty hn

theorem succeeds_createdNode (hpath : stored path) :
    Succeeds (Storing stored) (fun _ => True) (createdNode path) := by
  intro w hw
  obtain ⟨n, hn⟩ := (hw path).2 hpath
  refine ⟨n, w, ?_, trivial⟩
  rw [createdNode, EStateM.run_bind, EStateM.run_get]
  simp only [hn]
  rfl

theorem storing_insertNode (hw : Storing stored w) (identifier primaryType : String) :
    Storing (fun k => k = path ∨ stored k)
      (w.insertNode (.plain path identifier primaryType)) := by
  intro k
  change _ ↔ k = path ∨ stored k
  rw [node?_insertNode_plain, ← hw]
  by_cases hk : path = k
  · simp [hk]
  · rw [if_neg hk, eq_false (Ne.symm hk), false_or]

/-- A node is added below a stored node at a free path. -/
theorem addNodeAt_run_of_free {parent : String} {above : Node}
    (hparent : Path.parent? path = some parent) (habove : w.node? parent = some above)
    (hfree : w.node? path = none) (identifier primaryType : String) :
    (addNodeAt identifier path primaryType).run w =
      .ok (.plain path identifier primaryType)
        (w.insertNode (.plain path identifier primaryType)) := by
  have hcontains : w.nodes.contains path = false := contains_eq_false_iff.2 hfree
  rw [addNodeAt, hparent]
  simp only [addNode_run, habove, hcontains, Bool.false_eq_true, if_false]

theorem succeeds_addNodeAt {parent : String} (hparent : Path.parent? path = some parent)
    (hstored : stored parent) (hfree : ¬stored path) (identifier primaryType : String) :
    Succeeds (Storing stored) (Storing fun k => k = path ∨ stored k)
      (addNodeAt identifier path primaryType) := by
  intro w hw
  obtain ⟨above, habove⟩ := (hw parent).2 hstored
  have hnone : w.node? path = none :=
    Option.eq_none_iff_forall_ne_some.2 fun n hn => hfree ((hw path).1 ⟨n, hn⟩)
  exact ⟨_, _, addNodeAt_run_of_free hparent habove hnone identifier primaryType,
    storing_insertNode hw identifier primaryType⟩

/-! ### The workspace that a refused edit leaves -/

/-- An edit that fails only for want of a node leaves the workspace as it is. -/
theorem left_of_refused_require {n? : Option Node} {missing : Error} {answer : Node → α}
    {change : Node → Workspace}
    (hrun : (match n? with
      | none => .error missing w
      | some n => .ok (answer n) (change n)) = (EStateM.Result.error error left :
        EStateM.Result Error Workspace α)) : left = w := by
  cases n? with
  | none => exact (EStateM.Result.error.inj hrun).2.symm
  | some n => exact nomatch hrun

/-- The addition of a node either is refused and leaves the workspace as it is, or stores the node
at a path that has been free. -/
theorem addNodeAt_run_cases (identifier primaryType path : String) (w : Workspace) :
    (∃ error, (addNodeAt identifier path primaryType).run w = .error error w) ∨
      ∃ parent, Path.parent? path = some parent ∧ w.node? path = none ∧
        (addNodeAt identifier path primaryType).run w =
          .ok (.plain path identifier primaryType)
            (w.insertNode (.plain path identifier primaryType)) := by
  cases hparent : Path.parent? path with
  | none =>
      left
      rw [addNodeAt, hparent]
      exact ⟨_, rfl⟩
  | some parent =>
      rw [addNodeAt, hparent]
      simp only [addNode_run]
      cases w.node? parent with
      | none => exact Or.inl ⟨_, rfl⟩
      | some above =>
          cases hcontains : w.nodes.contains path with
          | true => exact Or.inl ⟨_, rfl⟩
          | false => exact Or.inr ⟨parent, rfl, node?_of_contains_eq_false hcontains, rfl⟩

/-- A sequence that starts with the addition of a node leaves the workspace as it is if it is
refused, provided that what follows the addition succeeds. -/
theorem left_of_refused_addition {identifier primaryType : String} {f : Node → Edit β}
    (hrun : (addNodeAt identifier path primaryType >>= f).run w = .error error left)
    (hf : ∀ parent, Path.parent? path = some parent → w.node? path = none →
      Succeeds (Storing fun k => k = path ∨ ∃ n, w.node? k = some n) (fun _ => True)
        (f (.plain path identifier primaryType))) : left = w := by
  rcases addNodeAt_run_cases identifier primaryType path w with
    ⟨error', hadd⟩ | ⟨parent, hparent, hfree, hadd⟩
  · rw [EStateM.run_bind, hadd] at hrun
    exact (EStateM.Result.error.inj hrun).2.symm
  · obtain ⟨b, left', hok, -⟩ := hf parent hparent hfree _
      (storing_insertNode (storing_self w) identifier primaryType)
    rw [EStateM.run_bind, hadd] at hrun
    exact nomatch hok.symm.trans hrun

theorem left_of_refused_createContainer {d : Draws}
    (hrun : (createContainer d path).run w = .error error left) : left = w := by
  refine left_of_refused_addition hrun fun parent _ _ => ?_
  refine succeeds_bind (succeeds_changeMixins (Or.inl rfl) _) fun _ => ?_
  refine succeeds_bind (succeeds_stampCreated (Or.inl rfl) d.now) fun _ => ?_
  exact succeeds_createdNode (Or.inl rfl)

theorem left_of_refused_createBinary (hw : w.Filed) {d : Draws} {bytes : Text.Bytes}
    {mimeType : String} (hrun : (createBinary d path bytes mimeType).run w = .error error left) :
    left = w := by
  refine left_of_refused_addition hrun fun parent hparent hfree => ?_
  have hpath : path ≠ "" := by
    rintro rfl
    exact nomatch (show Path.parent? "" = none by decide).symm.trans hparent
  have hcontent : Path.parent? (Path.child path Vocab.Name.content) = some path :=
    Path.parent?_child hpath .content
  have hcontentFree : ¬(Path.child path Vocab.Name.content = path ∨
      ∃ n, w.node? (Path.child path Vocab.Name.content) = some n) := by
    rintro (hsame | ⟨n, hn⟩)
    · have hlt := Path.length_parent_lt hcontent
      rw [hsame] at hlt
      exact absurd hlt (Nat.lt_irrefl _)
    · obtain ⟨above, habove⟩ := hw.parent hn hcontent
      exact nomatch hfree.symm.trans habove
  refine succeeds_bind (succeeds_changeMixins (Or.inl rfl) _) fun _ => ?_
  refine succeeds_bind (succeeds_stampCreated (Or.inl rfl) d.now) fun _ => ?_
  refine succeeds_bind_of_run (succeeds_addNodeAt hcontent (Or.inl rfl) hcontentFree _ _)
    fun w' content left' hadd => ?_
  have hpathOf : content.path = Path.child path Vocab.Name.content := by
    rcases addNodeAt_run_cases (d.identifier 1) Vocab.Name.ntResource
      (Path.child path Vocab.Name.content) w' with ⟨error', hrun'⟩ | ⟨_, -, -, hrun'⟩
    · exact nomatch hrun'.symm.trans hadd
    · rw [← (EStateM.Result.ok.inj (hrun'.symm.trans hadd)).1, Node.plain]
  refine succeeds_bind (succeeds_changeMixins (Or.inl rfl) _) fun _ => ?_
  refine succeeds_bind (succeeds_stampCreated (Or.inl hpathOf) d.now) fun _ => ?_
  refine succeeds_bind (succeeds_putProperty (Or.inl rfl)) fun _ => ?_
  refine succeeds_bind (succeeds_putProperty (Or.inl rfl)) fun _ => ?_
  refine succeeds_bind (succeeds_putProperty (Or.inl rfl)) fun _ => ?_
  refine succeeds_bind (succeeds_putProperty (Or.inl rfl)) fun _ => ?_
  exact succeeds_createdNode (Or.inr (Or.inl rfl))

end Edit

/-! ### Checkins whose copy has no place -/

/-- The history of a node with the version that a checkin enters into it and leaves there, since
the place of the frozen copy is taken. -/
def Workspace.strayHistory? (w : Workspace) (path : String) (labels : List String)
    (created : Instant) : Option VersionHistory :=
  (w.node? path).bind fun n =>
    let history := w.historyAt path created
    let version := nextVersion history path labels created
    if n.declares Vocab.Name.mixVersionable ∧ w.nodes.contains version.frozenPath then
      some { history with versions := history.versions ++ [version] }
    else none

/-- The node and its history, if the mutation is a checkin that leaves a version without a copy. -/
def Mutation.stray? (d : Draws) (w : Workspace) : Mutation → Option (String × VersionHistory)
  | .checkin path labels created =>
      (w.strayHistory? path labels (created.getD d.now)).map fun history => (path, history)
  | _ => none

/-- The state with the history of a node replaced, if there is one to replace it. -/
def Workspace.withHistory? (w : Workspace) : Option (String × VersionHistory) → Workspace
  | some (path, history) => { w with histories := w.histories.insert path history }
  | none => w

theorem Workspace.version_withHistory? (w : Workspace)
    (replaced : Option (String × VersionHistory)) :
    (w.withHistory? replaced).version = w.version := by
  cases replaced <;> rfl

namespace Edit

open Workspace

variable {w left : Workspace} {error : Error}

theorem left_of_refused_checkin {identifiers : Nat → String} {path : String}
    {labels : List String} {created : Instant}
    (hrun : (checkin identifiers path labels created).run w = .error error left) :
    left = w.withHistory?
      ((w.strayHistory? path labels created).map fun history => (path, history)) := by
  rw [checkin_run] at hrun
  rw [strayHistory?]
  cases hn : w.node? path with
  | none =>
      rw [hn] at hrun
      exact (EStateM.Result.error.inj hrun).2.symm
  | some n =>
      rw [hn] at hrun
      by_cases hversionable : n.declares Vocab.Name.mixVersionable = true
      · simp only [hversionable, if_true] at hrun
        have hfreeze := refused_of_map hrun
        have hparent : Path.parent?
            (nextVersion (w.historyAt path created) path labels created).frozenPath =
              some (Path.child path Path.Segment.holder.text) :=
          Path.parent?_child (Path.child_ne_empty path Path.Segment.holder.text) (.version _)
        rw [freeze_run, hparent] at hfreeze
        split at hfreeze
        · rename_i htaken
          rw [← (EStateM.Result.error.inj hfreeze).2, Option.bind_some,
            if_pos ⟨hversionable, htaken⟩]
          rfl
        · exact nomatch hfreeze
      · simp only [hversionable, Bool.false_eq_true, if_false] at hrun
        rw [Option.bind_some, if_neg fun h => hversionable h.1]
        exact (EStateM.Result.error.inj hrun).2.symm

/-- **A mutation that is refused leaves the workspace as it is**, but for the version of a checkin
whose copy finds its place taken. -/
theorem left_of_refused (hw : w.Filed) {d : Draws} {m : Mutation}
    (hrun : (m.edit d).run w = .error error left) : left = w.withHistory? (m.stray? d w) := by
  cases m with
  | addNode path primaryType =>
      rcases addNodeAt_run_cases (d.identifier 0) primaryType path w with
        ⟨error', hadd⟩ | ⟨parent, -, -, hadd⟩
      · exact (EStateM.Result.error.inj (hadd.symm.trans (refused_of_map hrun))).2.symm
      · exact nomatch hadd.symm.trans (refused_of_map hrun)
  | createContainer path => exact left_of_refused_createContainer (refused_of_map hrun)
  | createBinary path bytes mimeType =>
      exact left_of_refused_createBinary hw (refused_of_map hrun)
  | addMixin path mixin | removeMixin path mixin =>
      exact left_of_refused_require
        ((changeMixins_run w path _).symm.trans (refused_of_map hrun))
  | removeNode path =>
      exact left_of_refused_require ((removeNode_run w path).symm.trans (refused_of_map hrun))
  | putProperty p =>
      exact left_of_refused_require ((putProperty_run w p).symm.trans (refused_of_map hrun))
  | removeProperty path name =>
      exact left_of_refused_require
        ((removeProperty_run w path name).symm.trans (refused_of_map hrun))
  | checkin path labels created => exact left_of_refused_checkin (refused_of_map hrun)
  | addVersionLabel path version label =>
      have hlabel := refused_of_map hrun
      rw [addVersionLabel_run] at hlabel
      split at hlabel
      · exact (EStateM.Result.error.inj hlabel).2.symm
      · split at hlabel
        · exact nomatch hlabel
        · exact (EStateM.Result.error.inj hlabel).2.symm

end Edit

theorem Mutation.stray?_of_orphan {m : Mutation} {path : String} (h : m.orphan? = some path)
    (d : Draws) (w : Workspace) : m.stray? d w = none := by
  obtain ⟨hnew, -⟩ := orphan?_eq_some_iff.1 h
  cases m with
  | checkin => exact nomatch hnew
  | _ => rfl

/-! ### What a session reads -/

/-- Two readers answer alike about nodes, properties and histories. -/
structure Reader.SameData (a b : Reader) : Prop where
  node : ∀ path, a.node path = b.node path
  nodeByIdentifier : ∀ identifier, a.nodeByIdentifier identifier = b.nodeByIdentifier identifier
  properties : ∀ path, a.properties path = b.properties path
  property : ∀ path name, a.property path name = b.property path name
  children : ∀ path, a.children path = b.children path
  references : ∀ path kind, a.references path kind = b.references path kind
  history : ∀ path, a.history path = b.history path

/-- The answers of a reader with the history of a node replaced, if there is one to replace it. -/
def Reader.withHistory? (a : Reader) : Option (String × VersionHistory) → Reader
  | some (path, history) =>
      { a with history := fun k => if k = path then .ok (some history) else a.history k }
  | none => a

namespace Session

variable {r : Repository} {s s' : Session}

theorem answer_congr (hlive : s'.live = s.live) (hworkspace : s'.workspace = s.workspace)
    {α : Type} (value : α) : s'.answer value = s.answer value := by
  rw [answer, answer, refusal, refusal, hlive, hworkspace]

/-- Sessions that work on states with the same data answer alike. -/
theorem sameData_withHistory? (hlive : s'.live = s.live) (hworkspace : s'.workspace = s.workspace)
    {replaced : Option (String × VersionHistory)} (hopen : replaced ≠ none → s.live = true)
    (hcurrent : s'.current (r.committed s'.workspace) =
      (s.current (r.committed s.workspace)).withHistory? replaced) :
    ((s.reader r).withHistory? replaced).SameData (s'.reader r) := by
  have hanswer {α : Type} (value : α) := answer_congr hlive hworkspace value
  cases replaced with
  | none =>
      constructor <;> intros <;> simp only [reader, hcurrent, listing, hanswer] <;> rfl
  | some replaced =>
      obtain ⟨path, history⟩ := replaced
      constructor
      case history =>
        intro k
        have hok {α : Type} (value : α) : s.answer value = .ok value := if_pos (hopen (by simp))
        simp only [Reader.withHistory?, reader, hcurrent, hanswer, hok, Workspace.withHistory?,
          Workspace.history?, Table.getElem?_insert, eq_comm (a := k)]
        split <;> rfl
      all_goals
        intros
        simp only [reader, hcurrent, listing, hanswer]
        rfl

end Session

namespace Host

variable {r : Repository} {calls : List Call} {number : Nat} {d : Draws} {m : Mutation}

/-- The node and its history, if the mutation is a checkin of an open session that leaves a version
without a copy. -/
def stray? (h : Host) (number : Nat) (d : Draws) (m : Mutation) :
    Option (String × VersionHistory) :=
  if (h.session number).live then m.stray? d (h.current number) else none

/-- A refused mutation of a session leaves what the session works on as it is, but for a version
without a copy. -/
theorem current_of_refused {h : Host} (hfiled : (h.current number).Filed)
    (hrefused : h.accepts (.mutate number d m) = false) :
    (h.after (.mutate number d m)).current number =
      (h.current number).withHistory? (h.stray? number d m) := by
  rw [current_after_mutate_eq, stray?]
  cases hlive : (h.session number).live with
  | false => simp [Workspace.withHistory?]
  | true =>
      cases horphan : m.orphan? with
      | some path => simp [Mutation.stray?_of_orphan horphan, Workspace.withHistory?]
      | none =>
          rw [accepts_mutate, Mutation.run_eq d horphan, Session.run_write _ _ hlive] at hrefused
          simp only [and_self, if_true]
          cases hrun : (m.edit d).run (h.current number) with
          | ok a left =>
              change (m.edit d).run ((h.session number).current (h.committedFor number)) = _ at hrun
              rw [hrun] at hrefused
              exact nomatch hrefused
          | error error left =>
              rw [leftBy, hrun]
              exact Edit.left_of_refused hfiled hrun

/-- A history with one more version is not the history that was there. -/
theorem history?_ne_of_stray {h : Host} {path : String} {history : VersionHistory}
    (hstray : h.stray? number d m = some (path, history)) :
    (h.current number).history? path ≠ some history := by
  rw [stray?] at hstray
  split at hstray
  · cases m with
    | checkin at_ labels created =>
        obtain ⟨history', hhistory, heq⟩ := Option.map_eq_some_iff.1 hstray
        obtain ⟨rfl, rfl⟩ := Prod.mk.inj heq
        obtain ⟨n, -, hversion⟩ := Option.bind_eq_some_iff.1 hhistory
        intro hold
        simp only [Workspace.historyAt, hold, Option.getD_some] at hversion
        split at hversion
        · have hlength := congrArg (fun h => h.versions.length) (Option.some.inj hversion)
          simp at hlength
        · exact nomatch hversion
    | _ => exact nomatch hstray
  · exact nomatch hstray

/-- **After a refused mutation a session reads what it read before**, exactly unless the mutation
is a checkin whose copy has found its place taken; then it reads the version in the history. -/
theorem sameData_of_refused (hr : r.IsNew)
    (hrefused : ((Host.mk r []).run calls).accepts (.mutate number d m) = false) :
    let h := (Host.mk r []).run calls
    let before := Access.reader h (.direct number)
    let after := Access.reader (h.after (.mutate number d m)) (.direct number)
    (before.withHistory? (h.stray? number d m)).SameData after ∧
      (before.SameData after ↔ h.stray? number d m = none) := by
  intro h before after
  have hcurrent := current_of_refused (filed_current hr calls number) hrefused
  have hsession := h.session_after_mutate number number d m
  rw [if_pos rfl] at hsession
  have hopen : h.stray? number d m ≠ none → (h.session number).live = true := by
    intro hstray
    rw [stray?] at hstray
    split at hstray
    · assumption
    · exact absurd rfl hstray
  have hrepository : (h.after (.mutate number d m)).repository = h.repository := by
    rw [h.after_mutate]
    rfl
  have hafter : after =
      ((h.after (.mutate number d m)).session number).reader h.repository := by
    rw [← hrepository]
    rfl
  have hsame : (before.withHistory? (h.stray? number d m)).SameData after := by
    rw [hafter]
    refine Session.sameData_withHistory? ?_ ?_ hopen ?_
    · rw [hsession, Mutation.live_leftBy_run]
    · rw [hsession, Mutation.workspace_leftBy_run]
    · change _ = (h.current number).withHistory? _
      rw [← hcurrent, current, committedFor, hrepository]
  refine ⟨hsame, fun hdata => ?_, fun hnone => ?_⟩
  · cases hstray : h.stray? number d m with
    | none => rfl
    | some stray =>
        obtain ⟨path, history⟩ := stray
        have hlive := hopen (by simp [hstray])
        have hread := (hdata.history path).trans (hsame.history path).symm
        simp only [hstray, Reader.withHistory?, if_true] at hread
        have hanswer : before.history path = .ok ((h.current number).history? path) := if_pos hlive
        rw [hanswer] at hread
        exact absurd (Except.ok.inj hread) (history?_ne_of_stray hstray)
  · rw [hnone] at hsame
    exact hsame

/-- A run after which the place of the next copy of the root is taken. -/
def occupation : List Call :=
  let d : Draws := ⟨toString, .epoch⟩
  [.opening "default", .mutate 0 d (.addMixin "/" Vocab.Name.mixVersionable),
    .mutate 0 d (.addNode "/fcr:versions" Vocab.Name.ntFolder),
    .mutate 0 d (.addNode "/fcr:versions/1.0" Vocab.Name.ntFolder)]

/-- The refused checkin of the root leaves a version in the history. -/
theorem sameData_of_refused_occupation :
    let h := (Host.start "root").run occupation
    let d : Draws := ⟨toString, .epoch⟩
    let before := Access.reader h (.direct 0)
    let after := Access.reader (h.after (.mutate 0 d (.checkin "/" [] none))) (.direct 0)
    h.accepts (.mutate 0 d (.checkin "/" [] none)) = false ∧
      (h.stray? 0 d (.checkin "/" [] none)).isSome = true ∧
      (before.withHistory? (h.stray? 0 d (.checkin "/" [] none))).SameData after ∧
      (before.SameData after ↔ h.stray? 0 d (.checkin "/" [] none) = none) :=
  have hrefused : ((Host.start "root").run occupation).accepts
      (.mutate 0 ⟨toString, .epoch⟩ (.checkin "/" [] none)) = false := by decide +kernel
  ⟨hrefused, by decide +kernel, sameData_of_refused (Repository.isNew_start "root") hrefused⟩

/-- So it is not true of every refused mutation that it changes nothing that is read. -/
theorem not_sameData_of_refused :
    ¬∀ (calls : List Call) (number : Nat) (d : Draws) (m : Mutation),
      ((Host.start "root").run calls).accepts (.mutate number d m) = false →
      (Access.reader ((Host.start "root").run calls) (.direct number)).SameData
        (Access.reader (((Host.start "root").run calls).after (.mutate number d m))
          (.direct number)) := by
  intro hall
  have hsame := hall occupation 0 ⟨toString, .epoch⟩ (.checkin "/" [] none) (by decide +kernel)
  have hhistory := congrArg (fun answer => answer.toOption.bind (·.map VersionHistory.visible))
    (hsame.history "/")
  exact absurd hhistory (by decide +kernel)

end Host

end LinkedStore
