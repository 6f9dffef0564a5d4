import LinkedStore.Proofs.Session.Effect
import LinkedStore.Session.Host
import Mathlib.Data.List.Induction

/-!
# Runs of a host

A run is a list of calls on the sessions of a host, in the order in which they are made: sessions
are opened and closed, and the open ones mutate, save and refresh in any order.  Reading is no
call, since what a session answers is a function of the host.

## Main definitions

* `Host.Call` : the calls.
* `Host.after`, `Host.accepts` : the host that a call leaves, and whether it succeeds.
* `Host.run` : the host that a list of calls leaves.
* `Host.withSession` : the host with a session replaced.

## Main statements

* `Host.after_mutate`, `Host.after_save`, `Host.after_refresh`, `Host.after_close`,
  `Host.after_opening` : what each call does.
* `Host.session_after_cases` : what a call does to one session.
* `Host.committed_run_cases` : what is saved stays as it is, or is of a later version.
-/

namespace LinkedStore

namespace Host

/-- A call on the sessions of a host. -/
inductive Call where
  | opening (workspace : String)
  | mutate (number : Nat) (d : Draws) (m : Mutation)
  | save (number : Nat)
  | refresh (number : Nat) (keep : Bool)
  | close (number : Nat)

/-- The program of a call. -/
def Call.perform : Call → HostM Unit
  | opening workspace => (fun _ => ()) <$> openSession workspace
  | mutate number d m => (fun _ => ()) <$> Host.mutate number d m
  | save number => saveSession number
  | refresh number keep => onSession number (Session.refresh keep)
  | close number => onSession number (modify Session.close)

/-- The host that a call leaves, whether it succeeds or is refused. -/
def after (h : Host) (c : Call) : Host := leftBy c.perform h

/-- Whether a call succeeds. -/
def accepts (h : Host) (c : Call) : Bool :=
  match c.perform.run h with
  | .ok _ _ => true
  | .error _ _ => false

/-- The host that a list of calls leaves. -/
def run (h : Host) (calls : List Call) : Host := calls.foldl after h

theorem run_concat (h : Host) (calls : List Call) (c : Call) :
    h.run (calls ++ [c]) = (h.run calls).after c := by
  rw [run, run, List.foldl_append, List.foldl_cons, List.foldl_nil]

/-! ### Sessions of a host -/

/-- The host with a session replaced. -/
def withSession (h : Host) (number : Nat) (s : Session) : Host :=
  { h with sessions := h.sessions.set number s }

variable (h : Host) (number k : Nat)

@[simp] theorem repository_withSession (s : Session) :
    (h.withSession number s).repository = h.repository := rfl

theorem session_of_length_le (hle : h.sessions.length ≤ number) :
    h.session number = .closed := by
  rw [session, List.getD_eq_getElem?_getD, List.getElem?_eq_none hle, Option.getD_none]

theorem lt_length_of_live (hlive : (h.session number).live = true) :
    number < h.sessions.length := by
  refine Nat.lt_of_not_le fun hle => ?_
  rw [h.session_of_length_le number hle] at hlive
  cases hlive

theorem lt_length_of_staged {w : Workspace} (hstaged : (h.session number).staged = some w) :
    number < h.sessions.length := by
  refine Nat.lt_of_not_le fun hle => ?_
  rw [h.session_of_length_le number hle] at hstaged
  exact absurd hstaged (by simp [Session.closed])

/-- A session is replaced by one that takes its place; a number not given out keeps the closed
session. -/
theorem session_withSession {s : Session}
    (hs : h.sessions.length ≤ number → s = h.session number) :
    (h.withSession number s).session k = if k = number then s else h.session k := by
  rw [session, withSession, List.getD_eq_getElem?_getD, List.getElem?_set]
  by_cases hk : number = k
  · subst hk
    by_cases hlt : number < h.sessions.length
    · simp [hlt]
    · have hclosed := hs (Nat.le_of_not_lt hlt)
      rw [h.session_of_length_le number (Nat.le_of_not_lt hlt)] at hclosed
      simp [hlt, hclosed]
  · rw [if_neg hk, if_neg (Ne.symm hk), session, List.getD_eq_getElem?_getD]

theorem withSession_session : h.withSession number (h.session number) = h := by
  rw [withSession, session, List.getD_eq_getElem?_getD]
  by_cases hlt : number < h.sessions.length
  · simp [hlt]
  · rw [List.set_eq_of_length_le (Nat.le_of_not_lt hlt)]

/-! ### What each call does -/

theorem leftBy_onSession {α : Type} (work : Session.Work α) :
    leftBy (onSession number work) h =
      h.withSession number (leftBy work (h.session number)) := by
  rw [leftBy, EStateM.run, onSession, leftBy]
  cases work.run (h.session number) <;> rfl

/-- A mutation changes one session. -/
theorem after_mutate (d : Draws) (m : Mutation) :
    h.after (.mutate number d m) =
      h.withSession number (leftBy (m.run (h.committedFor number) d) (h.session number)) := by
  rw [after, Call.perform, leftBy_map, ← leftBy_onSession, leftBy, mutate, EStateM.run_bind,
    EStateM.run_get]
  rfl

theorem session_after_mutate (d : Draws) (m : Mutation) :
    (h.after (.mutate number d m)).session k =
      if k = number then leftBy (m.run (h.committedFor number) d) (h.session number)
      else h.session k := by
  rw [after_mutate, session_withSession]
  intro hle
  rw [h.session_of_length_le number hle, Mutation.leftBy_run, if_neg (by simp [Session.closed])]

/-- A mutation saves nothing and keeps sessions in their workspaces. -/
theorem committedFor_after_mutate (d : Draws) (m : Mutation) :
    (h.after (.mutate number d m)).committedFor k = h.committedFor k := by
  have hworkspace : ((h.after (.mutate number d m)).session k).workspace =
      (h.session k).workspace := by
    rw [session_after_mutate]
    split
    · rename_i hk
      rw [Mutation.workspace_leftBy_run, hk]
    · rfl
  rw [committedFor, hworkspace, h.after_mutate, repository_withSession, committedFor]

theorem accepts_mutate (d : Draws) (m : Mutation) :
    h.accepts (.mutate number d m) =
      match (m.run (h.committedFor number) d).run (h.session number) with
      | .ok _ _ => true
      | .error _ _ => false := by
  rw [accepts, Call.perform, mutate, map_eq_pure_bind, EStateM.run_bind, EStateM.run_bind,
    EStateM.run_get]
  simp only [EStateM.run, onSession]
  cases (m.run (h.committedFor number) d) (h.session number) <;> rfl

/-- A refresh drops the staged copy of an open session, unless it is to be kept. -/
theorem after_refresh (keep : Bool) :
    h.after (.refresh number keep) =
      h.withSession number
        (if (h.session number).live ∧ keep = false then
          { h.session number with staged := none }
        else h.session number) := by
  rw [after, Call.perform, leftBy_onSession, leftBy]
  simp only [EStateM.run, Session.refresh]
  cases (h.session number).live <;> cases keep <;> rfl

/-- A refresh that is to keep what is staged does nothing. -/
theorem after_refresh_true : h.after (.refresh number true) = h := by
  rw [after_refresh, if_neg (by simp), withSession_session]

theorem session_after_refresh (keep : Bool) :
    (h.after (.refresh number keep)).session k =
      if k = number ∧ (h.session number).live ∧ keep = false then
        { h.session number with staged := none }
      else h.session k := by
  rw [after_refresh, session_withSession]
  · by_cases hk : k = number
    · subst hk
      simp only [true_and, if_true]
    · rw [if_neg hk, if_neg fun hall => hk hall.1]
  · intro hle
    rw [h.session_of_length_le number hle]
    rfl

theorem accepts_refresh (keep : Bool) :
    h.accepts (.refresh number keep) = (h.session number).live := by
  rw [accepts, Call.perform, EStateM.run, onSession]
  simp only [EStateM.run, Session.refresh]
  cases (h.session number).live <;> rfl

theorem after_close :
    h.after (.close number) = h.withSession number (h.session number).close := by
  rw [after, Call.perform, leftBy_onSession]
  rfl

theorem session_after_close :
    (h.after (.close number)).session k =
      if k = number then (h.session number).close else h.session k := by
  rw [after_close, session_withSession]
  intro hle
  rw [h.session_of_length_le number hle]
  rfl

/-- A save is accepted by an open session that has nothing staged, or whose staged copy has the
version of the saved state. -/
theorem accepts_save :
    h.accepts (.save number) = true ↔
      (h.session number).live = true ∧
        ∀ w, (h.session number).staged = some w →
          (h.committedFor number).version = w.version := by
  rw [accepts, Call.perform, EStateM.run, saveSession, committedFor]
  cases hlive : (h.session number).live with
  | false => simp [Session.save, hlive]
  | true =>
      cases hstaged : (h.session number).staged with
      | none => simp [Session.save, hlive, hstaged]
      | some w =>
          by_cases hversion :
              (h.repository.committed (h.session number).workspace).version = w.version
          · simp [Session.save, hlive, hstaged, hversion]
          · simp [Session.save, hlive, hstaged, hversion]

theorem after_save_eq :
    h.after (.save number) =
      Host.mk ((h.session number).save h.repository).2.1
        (h.sessions.set number ((h.session number).save h.repository).2.2) := by
  rw [after, Call.perform, leftBy, EStateM.run, saveSession]
  obtain ⟨answer, r, s⟩ := (h.session number).save h.repository
  cases answer <;> rfl

/-- A save that is refused, or that has nothing to publish, leaves the host as it is. -/
theorem after_save_of_not
    (hnot : h.accepts (.save number) = false ∨ (h.session number).staged = none) :
    h.after (.save number) = h := by
  have hsave : ((h.session number).save h.repository).2 = (h.repository, h.session number) := by
    rw [Session.save]
    cases hlive : (h.session number).live with
    | false => rfl
    | true =>
        cases hstaged : (h.session number).staged with
        | none => rfl
        | some w =>
            have hversion :
                (h.repository.committed (h.session number).workspace).version ≠ w.version := by
              rintro hversion
              have haccepts : h.accepts (.save number) = true := by
                refine (h.accepts_save number).2 ⟨hlive, fun v hv => ?_⟩
                rw [hstaged] at hv
                exact Option.some.inj hv ▸ hversion
              simp [haccepts, hstaged] at hnot
            simp only [if_true, if_neg hversion]
  rw [after_save_eq, hsave]
  exact h.withSession_session number

/-- A save that is accepted publishes the staged copy as the next version. -/
theorem after_save {w : Workspace} (hstaged : (h.session number).staged = some w)
    (haccepts : h.accepts (.save number) = true) :
    h.after (.save number) =
      Host.withSession
        { h with
          repository :=
            { h.repository with
              workspaces := h.repository.workspaces.insert (h.session number).workspace
                { w with version := w.version + 1 } } }
        number { h.session number with staged := none } := by
  obtain ⟨hlive, hversion⟩ := (h.accepts_save number).1 haccepts
  have hversion : (h.repository.committed (h.session number).workspace).version = w.version :=
    hversion w hstaged
  rw [after_save_eq, Session.save, if_pos hlive, hstaged]
  simp only [if_pos hversion]
  rfl

theorem session_after_save {w : Workspace} (hstaged : (h.session number).staged = some w)
    (haccepts : h.accepts (.save number) = true) :
    (h.after (.save number)).session k =
      if k = number then { h.session number with staged := none } else h.session k := by
  rw [h.after_save number hstaged haccepts, session_withSession]
  · rfl
  · intro hle
    exact absurd (h.lt_length_of_staged number hstaged) (Nat.not_lt.2 hle)

theorem session_after_save_of_ne (hk : k ≠ number) :
    (h.after (.save number)).session k = h.session k := by
  cases hstaged : (h.session number).staged with
  | none => rw [h.after_save_of_not number (.inr hstaged)]
  | some w =>
      cases haccepts : h.accepts (.save number) with
      | false => rw [h.after_save_of_not number (.inl haccepts)]
      | true => rw [h.session_after_save number k hstaged haccepts, if_neg hk]

theorem committed_after_save {w : Workspace} (hstaged : (h.session number).staged = some w)
    (haccepts : h.accepts (.save number) = true) (workspace : String) :
    (h.after (.save number)).repository.committed workspace =
      if workspace = (h.session number).workspace then { w with version := w.version + 1 }
      else h.repository.committed workspace := by
  rw [h.after_save number hstaged haccepts, repository_withSession, Repository.committed,
    Std.ExtTreeMap.getD_insert]
  by_cases hworkspace : workspace = (h.session number).workspace
  · simp [hworkspace]
  · rw [if_neg hworkspace, if_neg (by simpa using Ne.symm hworkspace), Repository.committed]

/-- Opening adds a session with nothing staged, if the workspace exists. -/
theorem after_opening (workspace : String) :
    h.after (.opening workspace) =
      if h.repository.workspaces.contains workspace then
        { h with sessions := h.sessions ++ [.opened workspace] }
      else h := by
  rw [after, Call.perform, leftBy_map, leftBy, openSession, EStateM.run_bind, EStateM.run_get]
  simp only
  by_cases hworkspace : h.repository.workspaces.contains workspace = true
  · rw [if_pos hworkspace, if_pos hworkspace]
    rfl
  · rw [if_neg hworkspace, if_neg hworkspace]
    rfl

theorem session_after_opening (workspace : String) :
    (h.after (.opening workspace)).session k = h.session k ∨
      h.sessions.length ≤ k ∧
        (h.after (.opening workspace)).session k = .opened workspace := by
  rw [after_opening]
  split
  · by_cases hk : k < h.sessions.length
    · left
      simp [session, List.getElem?_append_left hk]
    · by_cases hlast : k = h.sessions.length
      · right
        simp [session, hlast]
      · left
        have hle : (h.sessions ++ [Session.opened workspace]).length ≤ k := by
          simp only [List.length_append, List.length_singleton]
          omega
        rw [session_of_length_le _ k hle, session_of_length_le h k (Nat.le_of_not_lt hk)]
  · exact Or.inl rfl

theorem repository_after_opening (workspace : String) :
    (h.after (.opening workspace)).repository = h.repository := by
  rw [after_opening]
  split <;> rfl

/-! ### What a call does to one session -/

variable (c : Call)

/-- A call keeps an open or closed session as it is, unless it is one of the calls on it. -/
theorem session_after_cases (hk : k < h.sessions.length) :
    (h.after c).session k = h.session k ∨
      (∃ d m, c = .mutate k d m ∧
        (h.after c).session k = leftBy (m.run (h.committedFor k) d) (h.session k)) ∨
      (c = .save k ∨ ∃ keep, c = .refresh k keep) ∧
        (h.after c).session k = { h.session k with staged := none } ∨
      c = .close k ∧ (h.after c).session k = (h.session k).close := by
  cases c with
  | opening workspace =>
      exact .inl ((h.session_after_opening k workspace).resolve_right fun hnew =>
        Nat.not_lt.2 hnew.1 hk)
  | mutate number d m =>
      rw [session_after_mutate]
      by_cases hnumber : k = number
      · subst hnumber
        exact .inr (.inl ⟨d, m, rfl, if_pos rfl⟩)
      · exact .inl (if_neg hnumber)
  | save number =>
      by_cases hnumber : k = number
      · subst hnumber
        cases hstaged : (h.session k).staged with
        | none => exact .inl (by rw [h.after_save_of_not k (.inr hstaged)])
        | some w =>
            cases haccepts : h.accepts (.save k) with
            | false => exact .inl (by rw [h.after_save_of_not k (.inl haccepts)])
            | true =>
                rw [h.session_after_save k k hstaged haccepts]
                exact .inr (.inr (.inl ⟨.inl rfl, if_pos rfl⟩))
      · exact .inl (h.session_after_save_of_ne number k hnumber)
  | refresh number keep =>
      rw [session_after_refresh]
      split
      · rename_i hdrop
        obtain rfl := hdrop.1
        exact .inr (.inr (.inl ⟨.inr ⟨keep, rfl⟩, rfl⟩))
      · exact .inl rfl
  | close number =>
      rw [session_after_close]
      by_cases hnumber : k = number
      · subst hnumber
        exact .inr (.inr (.inr ⟨rfl, if_pos rfl⟩))
      · exact .inl (if_neg hnumber)

/-- A session that is closed stays closed. -/
theorem live_after_eq_false (hk : k < h.sessions.length) (hlive : (h.session k).live = false) :
    ((h.after c).session k).live = false := by
  rcases h.session_after_cases k c hk with heq | ⟨d, m, -, heq⟩ | ⟨-, heq⟩ | ⟨-, heq⟩
  · rw [heq, hlive]
  · rw [heq, Mutation.live_leftBy_run, hlive]
  · rw [heq, hlive]
  · rw [heq, Session.close]

/-- Sessions are added one at a time. -/
theorem length_after_cases :
    (h.after c).sessions.length = h.sessions.length ∨
      ∃ workspace, c = .opening workspace ∧
        (h.after c).sessions.length = h.sessions.length + 1 := by
  cases c with
  | opening workspace =>
      rw [after_opening]
      split
      · exact .inr ⟨workspace, rfl, by rw [List.length_append, List.length_singleton]⟩
      · exact .inl rfl
  | mutate number d m => exact .inl (by rw [after_mutate, withSession, List.length_set])
  | save number => exact .inl (by rw [after_save_eq, List.length_set])
  | refresh number keep => exact .inl (by rw [after_refresh, withSession, List.length_set])
  | close number => exact .inl (by rw [after_close, withSession, List.length_set])

/-- A number that has not been given out stands for a session with nothing staged. -/
theorem staged_after_of_length_le (hle : h.sessions.length ≤ k) :
    ((h.after c).session k).staged = none := by
  rcases h.length_after_cases c with heq | ⟨workspace, rfl, -⟩
  · rw [session_of_length_le _ k (heq ▸ hle), Session.closed]
  · rcases h.session_after_opening k workspace with heq | ⟨-, hopened⟩
    · rw [heq, h.session_of_length_le k hle, Session.closed]
    · rw [hopened, Session.opened]

theorem length_le_length_after : h.sessions.length ≤ (h.after c).sessions.length := by
  rcases h.length_after_cases c with heq | ⟨workspace, -, heq⟩
  · exact Nat.le_of_eq heq.symm
  · exact heq ▸ Nat.le_succ _

theorem length_le_length_run (calls : List Call) :
    h.sessions.length ≤ (h.run calls).sessions.length := by
  induction calls generalizing h with
  | nil => exact Nat.le_refl _
  | cons c calls ih => exact Nat.le_trans (h.length_le_length_after c) (ih (h.after c))

theorem accepts_close : h.accepts (.close number) = true := rfl

/-! ### Versions of saved states -/

/-- A call leaves a saved state as it is, or saves its next version. -/
theorem committed_after_cases (workspace : String) :
    (h.after c).repository.committed workspace = h.repository.committed workspace ∨
      ((h.after c).repository.committed workspace).version =
        (h.repository.committed workspace).version + 1 := by
  cases c with
  | opening opened => exact .inl (by rw [repository_after_opening])
  | mutate number d m => exact .inl (by rw [after_mutate, repository_withSession])
  | save number =>
      cases hstaged : (h.session number).staged with
      | none => exact .inl (by rw [h.after_save_of_not number (.inr hstaged)])
      | some w =>
          cases haccepts : h.accepts (.save number) with
          | false => exact .inl (by rw [h.after_save_of_not number (.inl haccepts)])
          | true =>
              rw [h.committed_after_save number hstaged haccepts]
              by_cases hworkspace : workspace = (h.session number).workspace
              · have hversion := ((h.accepts_save number).1 haccepts).2 w hstaged
                rw [if_pos hworkspace, hworkspace]
                exact .inr (by rw [← hversion, committedFor])
              · exact .inl (if_neg hworkspace)
  | refresh number keep => exact .inl (by rw [after_refresh, repository_withSession])
  | close number => exact .inl (by rw [after_close, repository_withSession])

/-- A state that is as it was or of a later version is so one save later. -/
theorem saved_trans {w w' w'' : Workspace} (h : w' = w ∨ w.version < w'.version)
    (hsaved : w'' = w' ∨ w''.version = w'.version + 1) : w'' = w ∨ w.version < w''.version := by
  rcases hsaved with rfl | hnext
  · exact h
  · refine .inr (hnext ▸ Nat.lt_succ_of_le ?_)
    rcases h with rfl | hlt
    · exact Nat.le_refl _
    · exact Nat.le_of_lt hlt

/-- A saved state is as it was, or is of a later version. -/
theorem committed_run_cases (calls : List Call) (workspace : String) :
    (h.run calls).repository.committed workspace = h.repository.committed workspace ∨
      (h.repository.committed workspace).version <
        ((h.run calls).repository.committed workspace).version := by
  induction calls using List.reverseRecOn with
  | nil => exact .inl rfl
  | append_singleton calls c ih =>
      rw [run_concat]
      exact saved_trans ih ((h.run calls).committed_after_cases c workspace)

end Host

end LinkedStore
