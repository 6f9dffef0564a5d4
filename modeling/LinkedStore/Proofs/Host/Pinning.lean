import LinkedStore.Proofs.Host.Reading
import LinkedStore.Proofs.Host.Refusal
import LinkedStore.Proofs.Transaction.Event

/-!
# Sessions that a refused mutation pins

A session that has nothing staged follows what is saved, and its own save changes nothing.  A
mutation takes a copy of the saved state before it is tried, and the copy is kept if the mutation is
refused.  From then on the session has changes pending although it has changed nothing: it does not
see what other sessions save, its own save is refused as soon as one of them has saved, and until
then it saves the state once more, as the next version.  Dropping changes frees it.  Only a path
without a parent is refused before the copy is taken.

## Main definitions

* `Host.Free` : a session follows what is saved.
* `Host.Pinned` : a session works on a copy of a saved state.
* `Host.Remains` : a session is left alone while others save.

## Main statements

* `Host.Remains.run` : what is done elsewhere leaves a session alone.
* `Host.free_iff`, `Host.pinned_of_staged` : which sessions are free, and which are pinned.
* `Host.pinned_of_refused` : what becomes of a free session by a refused mutation.
-/

namespace LinkedStore.Host

variable {r : Repository} {h h' : Host} {calls rest : List Call} {number : Nat} {d : Draws}
  {m : Mutation} {base copy : Workspace}

/-! ### Free and pinned sessions -/

/-- An open session without pending changes: it works on what is saved, and its own save is accepted
and changes nothing. -/
structure Free (h : Host) (number : Nat) : Prop where
  pending : ((Access.direct number).reader h).hasPendingChanges = .ok false
  current : h.current number = h.committedFor number
  accepts : h.accepts (.save number) = true
  saved : h.after (.save number) = h

/-- An open session with a copy of a saved state pending: it works on the copy, whatever is saved.
Its own save is accepted only as long as the saved state is the one that the copy was taken from,
and makes the copy the next version.  It is free again once changes are dropped. -/
structure Pinned (h : Host) (number : Nat) (base copy : Workspace) : Prop where
  pending : ((Access.direct number).reader h).hasPendingChanges = .ok true
  current : h.current number = copy
  accepts : h.accepts (.save number) = true ↔ h.committedFor number = base
  saved : h.accepts (.save number) = true →
    (h.after (.save number)).committedFor number = { copy with version := base.version + 1 }
  dropped : (h.after (.refresh number false)).Free number

/-- The sessions without pending changes are the open ones with nothing staged. -/
theorem hasPendingChanges_eq_false_iff :
    ((Access.direct number).reader h).hasPendingChanges = .ok false ↔
      (h.session number).live = true ∧ (h.session number).staged = none := by
  rw [← Option.isNone_iff_eq_none, ← Option.isSome_eq_false_iff]
  exact Session.answer_eq_ok_iff

/-- The free sessions are those without pending changes. -/
theorem free_iff :
    h.Free number ↔ (h.session number).live = true ∧ (h.session number).staged = none := by
  refine ⟨fun hfree => hasPendingChanges_eq_false_iff.1 hfree.pending, ?_⟩
  rintro ⟨hlive, hstaged⟩
  refine ⟨hasPendingChanges_eq_false_iff.2 ⟨hlive, hstaged⟩, ?_, ?_,
    h.after_save_of_not number (.inr hstaged)⟩
  · rw [current, Session.current, hstaged, Option.getD_none]
  · refine (h.accepts_save number).2 ⟨hlive, fun w hw => ?_⟩
    rw [hstaged] at hw
    cases hw

/-- A session with a copy staged is pinned, if the saved state is still the one that the copy was
taken from, or of a later version. -/
theorem pinned_of_staged (hlive : (h.session number).live = true)
    (hstaged : (h.session number).staged = some copy) (hversion : copy.version = base.version)
    (hsaved : h.committedFor number = base ∨ base.version < (h.committedFor number).version) :
    h.Pinned number base copy where
  pending := Session.answer_eq_ok_iff.2 ⟨hlive, by rw [hstaged]; rfl⟩
  current := by rw [current, Session.current, hstaged, Option.getD_some]
  accepts := by
    rw [accepts_save]
    constructor
    · rintro ⟨-, haccepts⟩
      refine hsaved.resolve_right fun hlater => ?_
      rw [haccepts copy hstaged, hversion] at hlater
      exact absurd hlater (Nat.lt_irrefl _)
    · intro hbase
      refine ⟨hlive, fun w hw => ?_⟩
      obtain rfl := Option.some.inj (hstaged.symm.trans hw)
      rw [hbase, hversion]
  saved haccepts := by
    rw [committedFor, h.session_after_save number number hstaged haccepts, if_pos rfl,
      h.committed_after_save number hstaged haccepts, if_pos rfl, hversion]
  dropped := by
    rw [free_iff, session_after_refresh, if_pos ⟨rfl, hlive, rfl⟩]
    exact ⟨hlive, rfl⟩

/-! ### What is done elsewhere -/

/-- A session is as it was, and what is saved in its workspace is as it was or of a later
version. -/
structure Remains (h h' : Host) (number : Nat) : Prop where
  session : h'.session number = h.session number
  saved : h'.committedFor number = h.committedFor number ∨
    (h.committedFor number).version < (h'.committedFor number).version

/-- **What is done elsewhere leaves a session alone.** -/
theorem Remains.run (hnumber : number < h.sessions.length)
    (hrest : ∀ c ∈ rest, c.number? ≠ some number) : h.Remains (h.run rest) number := by
  have hsession : (h.run rest).session number = h.session number := by
    induction rest using List.reverseRecOn with
    | nil => rfl
    | append_singleton rest c ih =>
        have hlength := Nat.lt_of_lt_of_le hnumber (h.length_le_length_run rest)
        rw [run_concat, session_after_of_ne hlength (hrest c List.mem_concat_self),
          ih fun c hc => hrest c (List.mem_append_left _ hc)]
  refine ⟨hsession, ?_⟩
  rw [committedFor, hsession]
  exact h.committed_run_cases rest _

/-! ### Refused mutations -/

/-- A refused mutation of a free session leaves a copy of the saved state staged, unless it is
refused before a copy is taken. -/
theorem session_after_of_refused (hfiled : (h.current number).Filed) (hfree : h.Free number)
    (hrefused : h.accepts (.mutate number d m) = false) :
    (h.after (.mutate number d m)).session number =
      if m.orphan? = none then
        { h.session number with
          staged := some ((h.committedFor number).withHistory?
            (m.stray? d (h.committedFor number))) }
      else h.session number := by
  obtain ⟨hlive, -⟩ := free_iff.1 hfree
  have hcopy : (h.session number).current (h.committedFor number) = h.committedFor number :=
    hfree.current
  have hcurrent := current_of_refused hfiled hrefused
  rw [current_after_mutate_eq, stray?, if_pos hlive, hfree.current] at hcurrent
  rw [session_after_mutate, if_pos rfl, Mutation.leftBy_run, hcopy]
  by_cases horphan : m.orphan? = none
  · rw [if_pos ⟨hlive, horphan⟩] at hcurrent
    rw [if_pos ⟨hlive, horphan⟩, if_pos horphan, hcurrent]
  · rw [if_neg fun hall => horphan hall.2, if_neg horphan]

/-- **What becomes of a session without pending changes by a refused mutation.**  Whatever is done
elsewhere afterwards, the session is still free exactly if the mutation has been refused for a path
without a parent.  Otherwise it is pinned to the state that was saved then, in which a checkin whose
copy found its place taken has left a version. -/
theorem pinned_of_refused (hr : r.IsNew)
    (hclean : ((Access.direct number).reader ((Host.mk r []).run calls)).hasPendingChanges =
      .ok false)
    (hrefused : ((Host.mk r []).run calls).accepts (.mutate number d m) = false)
    (hrest : ∀ c ∈ rest, c.number? ≠ some number) :
    let h := (Host.mk r []).run calls
    let h' := (h.after (.mutate number d m)).run rest
    (h'.Free number ↔ ∃ path, m.orphan? = some path) ∧
      (m.orphan? = none → h'.Pinned number (h.committedFor number)
        ((h.committedFor number).withHistory? (m.stray? d (h.committedFor number)))) := by
  intro h h'
  have hfree : h.Free number := free_iff.2 (hasPendingChanges_eq_false_iff.1 hclean)
  obtain ⟨hlive, hstaged⟩ := free_iff.1 hfree
  -- What the refusal leaves staged is what the session still has staged in the end.
  have hnumber := h.lt_length_of_live number hlive
  have hremains : (h.after (.mutate number d m)).Remains h' number :=
    .run (Nat.lt_of_lt_of_le hnumber (h.length_le_length_after _)) hrest
  have hsession := session_after_of_refused (filed_current hr calls number) hfree hrefused
  cases horphan : m.orphan? with
  | some path =>
      rw [horphan, if_neg (by simp), ← hremains.session] at hsession
      have hstill : h'.Free number := free_iff.2 ⟨hsession ▸ hlive, hsession ▸ hstaged⟩
      exact ⟨iff_of_true hstill ⟨path, rfl⟩, fun hnone => absurd hnone (by simp)⟩
  | none =>
      rw [horphan, if_pos rfl, ← hremains.session] at hsession
      have hsaved := hremains.saved
      rw [committedFor_after_mutate] at hsaved
      have hpinned : h'.Pinned number (h.committedFor number)
          ((h.committedFor number).withHistory? (m.stray? d (h.committedFor number))) :=
        pinned_of_staged (by rw [hsession]; exact hlive) (by rw [hsession])
          (Workspace.version_withHistory? _ _) hsaved
      refine ⟨iff_of_false (fun hstill => ?_) (by simp), fun _ => hpinned⟩
      have hpending := hstill.pending
      rw [hpinned.pending] at hpending
      cases hpending

/-- Two sessions of one workspace. -/
def neighbours : List Call := [.opening "default", .opening "default"]

/-- The second session adds a node and saves. -/
def overtaking : List Call := [.mutate 1 ⟨toString, .epoch⟩ (.createContainer "/b"), .save 1]

theorem elsewhere_overtaking : ∀ c ∈ overtaking, c.number? ≠ some 0 := by
  intro c hc
  simp only [overtaking, List.mem_cons, List.not_mem_nil, or_false] at hc
  rcases hc with rfl | rfl <;> simp [Call.number?]

/-- The first session is pinned by a mutation of a node that is missing.  It does not see the node
that the second one has saved, and its own save is refused. -/
theorem pinned_of_refused_overtaken :
    let h := (Host.start "root").run neighbours
    let d : Draws := ⟨toString, .epoch⟩
    let m : Mutation := .addMixin "/a" Vocab.Name.mixVersionable
    let h' := (h.after (.mutate 0 d m)).run overtaking
    h.accepts (.mutate 0 d m) = false ∧
      h'.Pinned 0 (h.committedFor 0) (h.committedFor 0) ∧
      ((h'.committedFor 0).node? "/b").isSome = true ∧ (h'.current 0).node? "/b" = none ∧
      h'.accepts (.save 0) = false := by
  intro h d m h'
  have hrefused : h.accepts (.mutate 0 d m) = false := by decide +kernel
  have hpinned := (pinned_of_refused (d := d) (m := m) (Repository.isNew_start "root") rfl hrefused
    elsewhere_overtaking).2 rfl
  exact ⟨hrefused, hpinned, by decide +kernel, by decide +kernel, by decide +kernel⟩

/-- So a refused mutation of a session without pending changes does not always leave it free. -/
theorem not_free_of_refused :
    ¬∀ (calls rest : List Call) (number : Nat) (d : Draws) (m : Mutation),
      ((Access.direct number).reader ((Host.start "root").run calls)).hasPendingChanges =
        .ok false →
      ((Host.start "root").run calls).accepts (.mutate number d m) = false →
      (∀ c ∈ rest, c.number? ≠ some number) →
      ((((Host.start "root").run calls).after (.mutate number d m)).run rest).Free number := by
  intro hall
  have hfree := hall neighbours overtaking 0 ⟨toString, .epoch⟩
    (.addMixin "/a" Vocab.Name.mixVersionable) rfl (by decide +kernel) elsewhere_overtaking
  exact absurd hfree.accepts (by decide +kernel)

end LinkedStore.Host
