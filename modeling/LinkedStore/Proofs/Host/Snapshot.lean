import LinkedStore.Proofs.Host.Filing
import LinkedStore.Proofs.Store.Snapshot

/-!
# Snapshots of a session

A session checks in a node of the state that it works on.  That state is filed, so that a checkin
which succeeds makes a snapshot of the node, provided that no stored path has an empty segment.

## Main statements

* `Host.orphan?_of_mutate`, `Host.live_of_mutate` : which mutations of which sessions succeed.
* `Host.edit_run_of_mutate`, `Host.mutate_run_of_edit` : a mutation succeeds as its edit does.
* `Host.checkin_run_of_mutate` : a checkin of a session checks in a node of its state.
* `Host.snapshot_of_mutate` : a checkin that succeeds makes a snapshot.
-/

namespace LinkedStore

/-- Every stored path is proper if the paths that are listed are made of segments. -/
theorem Workspace.proper_of_keys {w : Workspace} (all : List (List Path.Segment))
    (hkeys : w.nodes.keys = all.map Path.ofSegments) {path : String} {n : Node}
    (hn : w.node? path = some n) : Path.Proper path := by
  have hpath : path ∈ w.nodes.keys := Table.mem_keys_iff.2 ⟨n, hn⟩
  rw [hkeys] at hpath
  obtain ⟨segs, -, rfl⟩ := List.mem_map.1 hpath
  exact ⟨segs, rfl⟩

namespace Host

variable {r : Repository} {h h' : Host} {calls : List Call} {number : Nat} {d : Draws}
  {m : Mutation} {outcome : Mutation.Outcome}

/-- A mutation that succeeds has run on the session, as the host has it afterwards. -/
theorem session_run_of_mutate (hrun : (mutate number d m).run h = .ok outcome h') :
    h' = h.after (.mutate number d m) ∧
      (m.run (h.committedFor number) d).run (h.session number) =
        .ok outcome (h'.session number) := by
  have hmade : h' = h.after (.mutate number d m) := by
    rw [after, Call.perform, leftBy_map, leftBy, hrun]
  refine ⟨hmade, ?_⟩
  rw [hmade, session_after_mutate, if_pos rfl, leftBy]
  rw [mutate, EStateM.run_bind, EStateM.run_get] at hrun
  simp only [EStateM.run, onSession] at hrun ⊢
  cases hresult : m.run (h.committedFor number) d (h.session number) with
  | ok a s =>
      rw [hresult] at hrun
      rw [(EStateM.Result.ok.inj hrun).1]
  | error error s =>
      rw [hresult] at hrun
      cases hrun

/-- The path of a mutation that succeeds has a parent, if the mutation adds a node there. -/
theorem orphan?_of_mutate (hrun : (mutate number d m).run h = .ok outcome h') :
    m.orphan? = none := by
  cases horphan : m.orphan? with
  | none => rfl
  | some path =>
      obtain ⟨-, hsession⟩ := session_run_of_mutate hrun
      rw [Mutation.run_of_orphan d horphan] at hsession
      exact nomatch hsession

/-- A mutation succeeds on an open session only, which stays open. -/
theorem live_of_mutate (horphan : m.orphan? = none)
    (hrun : (mutate number d m).run h = .ok outcome h') :
    (h.session number).live = true ∧ (h'.session number).live = true := by
  obtain ⟨hmade, hsession⟩ := session_run_of_mutate hrun
  have hlive : (h.session number).live = true := by
    rw [Mutation.run_eq d horphan] at hsession
    cases hlive : (h.session number).live with
    | true => rfl
    | false =>
        rw [Session.write_of_closed _ _ hlive] at hsession
        cases hsession
  exact ⟨hlive, by rw [hmade, session_after_mutate, if_pos rfl, Mutation.live_leftBy_run, hlive]⟩

/-- A mutation that succeeds has made its edit of the state that the session works on. -/
theorem edit_run_of_mutate (horphan : m.orphan? = none)
    (hrun : (mutate number d m).run h = .ok outcome h') :
    (m.edit d).run (h.current number) = .ok outcome (h'.current number) := by
  obtain ⟨hmade, hsession⟩ := session_run_of_mutate hrun
  obtain ⟨hlive, -⟩ := live_of_mutate horphan hrun
  rw [Mutation.run_eq d horphan, Session.run_write _ _ hlive] at hsession
  rw [hmade, current_after_mutate_eq, if_pos ⟨hlive, horphan⟩, leftBy]
  change (m.edit d).run ((h.session number).current (h.committedFor number)) = _
  rw [current]
  cases hedit : (m.edit d).run ((h.session number).current (h.committedFor number)) with
  | ok a left =>
      rw [hedit] at hsession
      rw [(EStateM.Result.ok.inj hsession).1]
  | error error left =>
      rw [hedit] at hsession
      cases hsession

/-- An edit that succeeds on the state that an open session works on makes the mutation succeed. -/
theorem mutate_run_of_edit (hlive : (h.session number).live = true) (horphan : m.orphan? = none)
    {left : Workspace} (hedit : (m.edit d).run (h.current number) = .ok outcome left) :
    (mutate number d m).run h = .ok outcome (h.after (.mutate number d m)) ∧
      (h.after (.mutate number d m)).current number = left := by
  constructor
  · have hsession : (m.run (h.committedFor number) d).run (h.session number) =
        .ok outcome { h.session number with staged := some left } := by
      rw [Mutation.run_eq d horphan, Session.run_write _ _ hlive]
      rw [current] at hedit
      rw [hedit]
    rw [h.after_mutate, leftBy, hsession, mutate, EStateM.run_bind, EStateM.run_get]
    simp only [EStateM.run, onSession] at hsession ⊢
    rw [hsession]
    rfl
  · rw [current_after_mutate_eq, if_pos ⟨hlive, horphan⟩, leftBy, hedit]

/-- A checkin that succeeds has checked in the node of the state that the session works on. -/
theorem checkin_run_of_mutate {path : String} {labels : List String} {created : Option Instant}
    {v : Version}
    (hrun : (mutate number d (.checkin path labels created)).run h = .ok (.version v) h') :
    (Workspace.checkin d.identifier path labels (created.getD d.now)).run (h.current number) =
      .ok v (h'.current number) := by
  have hedit := edit_run_of_mutate rfl hrun
  rw [Mutation.edit, map_eq_pure_bind] at hedit
  obtain ⟨a, left, hcheckin, hleft⟩ := Edit.run_bind_eq_ok hedit
  obtain ⟨houtcome, rfl⟩ := EStateM.Result.ok.inj hleft
  rw [hcheckin, Mutation.Outcome.version.inj houtcome]

/-- **A checkin that succeeds makes a snapshot** of the node, whatever has happened on the host
before, provided that no path of the state has an empty segment. -/
theorem snapshot_of_mutate (hr : r.IsNew)
    (hproper : ∀ path n, (((Host.mk r []).run calls).current number).node? path = some n →
      Path.Proper path)
    {path : String} {labels : List String} {created : Option Instant} {v : Version}
    (hrun : (mutate number d (.checkin path labels created)).run ((Host.mk r []).run calls) =
      .ok (.version v) h') :
    Workspace.Snapshot d.identifier path labels (created.getD d.now) v
      (((Host.mk r []).run calls).current number) (h'.current number) :=
  (filed_current hr calls number).snapshot_of_checkin
    (fun {path} {n} hn => hproper path n hn) (checkin_run_of_mutate hrun)

/-- A run that gives a versionable container a child and a reserved child, each with a property. -/
def filling : List Call :=
  let d (number : Nat) : Draws := ⟨fun j => toString number ++ ":" ++ toString j, .epoch⟩
  [.opening "default", .mutate 0 (d 1) (.createContainer "/a"),
    .mutate 0 (d 2) (.addMixin "/a" Vocab.Name.mixVersionable),
    .mutate 0 (d 3) (.createContainer "/a/b"), .mutate 0 (d 4) (.createContainer "/a/fcr:c"),
    .mutate 0 (d 5) (.putProperty (.single "/a/b" "dc:title" (.string "b")))]

theorem proper_filling {path : String} {n : Node}
    (hn : (((Host.start "root").run filling).current 0).node? path = some n) :
    Path.Proper path :=
  let a : Path.Segment := ⟨"a", by decide, by decide⟩
  Workspace.proper_of_keys
    [[], [a], [a, ⟨"b", by decide, by decide⟩], [a, ⟨"fcr:c", by decide, by decide⟩]]
    (by decide +kernel) hn

/-- The container can be checked in, which makes a snapshot, with a copy of the child and none of
the reserved child. -/
theorem snapshot_of_mutate_filling :
    let h := (Host.start "root").run filling
    let d : Draws := ⟨fun j => "6:" ++ toString j, .epoch⟩
    ∃ v h', (mutate 0 d (.checkin "/a" ["first"] none)).run h = .ok (.version v) h' ∧
      Workspace.Snapshot d.identifier "/a" ["first"] .epoch v (h.current 0) (h'.current 0) ∧
      (h'.current 0).nodes.keys =
        ["/", "/a", "/a/b", "/a/fcr:c", "/a/fcr:versions", "/a/fcr:versions/1.0",
          "/a/fcr:versions/1.0/b"] := by
  intro h d
  have hruns : (match (mutate 0 d (.checkin "/a" ["first"] none)).run h with
      | .ok (.version _) h' => some (h'.current 0).nodes.keys
      | _ => none) =
      some ["/", "/a", "/a/b", "/a/fcr:c", "/a/fcr:versions", "/a/fcr:versions/1.0",
        "/a/fcr:versions/1.0/b"] := by decide +kernel
  split at hruns
  · rename_i v h' hrun
    exact ⟨v, h', hrun, snapshot_of_mutate (Repository.isNew_start "root")
      (fun _ _ => proper_filling) hrun, Option.some.inj hruns⟩
  · exact nomatch hruns

end Host

end LinkedStore
