import LinkedStore.Error
import Mathlib.Data.List.Forall2

/-!
# Steps that may fail

A program that may fail succeeds just if each of its steps does.

## Main statements

* `bind_eq_ok_iff`, `map_eq_ok_iff` : two steps succeed if both do.
* `mapM_eq_ok_iff`, `mapM_eq_error_iff` : a list is mapped if each member is.
-/

namespace LinkedStore

variable {α β : Type} {x : Except Error α} {b : β}

theorem bind_eq_ok_iff {f : α → Except Error β} :
    x >>= f = .ok b ↔ ∃ a, x = .ok a ∧ f a = .ok b := by
  cases x with
  | error e => simp [bind, Except.bind]
  | ok a => simp [bind, Except.bind]

theorem map_eq_ok_iff {f : α → β} : x.map f = .ok b ↔ ∃ a, x = .ok a ∧ f a = b := by
  cases x with
  | error e => simp [Except.map]
  | ok a => simp [Except.map]

theorem pure_eq_ok_iff {a a' : α} : (pure a : Except Error α) = .ok a' ↔ a = a' :=
  ⟨Except.ok.inj, congrArg _⟩

/-- A list is mapped if each member is. -/
theorem mapM_eq_ok_iff {f : α → Except Error β} {members : List α} {mapped : List β} :
    members.mapM f = .ok mapped ↔ List.Forall₂ (fun a b => f a = .ok b) members mapped := by
  induction members generalizing mapped with
  | nil =>
      rw [List.mapM_nil, pure_eq_ok_iff, List.forall₂_nil_left_iff, eq_comm]
  | cons a members ih =>
      simp only [List.mapM_cons, bind_eq_ok_iff, pure_eq_ok_iff, ih, List.forall₂_cons_left_iff]
      constructor
      · rintro ⟨b, hb, rest, hrest, rfl⟩
        exact ⟨b, rest, hb, hrest, rfl⟩
      · rintro ⟨b, rest, hb, hrest, rfl⟩
        exact ⟨b, hb, rest, hrest, rfl⟩

/-- A list is not mapped if some member is not. -/
theorem mapM_eq_error_iff {f : α → Except Error β} {members : List α} :
    (∃ e, members.mapM f = .error e) ↔ ∃ a ∈ members, ∃ e, f a = .error e := by
  induction members with
  | nil => simp [List.mapM_nil, pure, Except.pure]
  | cons a members ih =>
      rw [List.mapM_cons, List.exists_mem_cons_iff, ← ih]
      cases f a with
      | error e => simp [bind, Except.bind]
      | ok b => cases members.mapM f <;> simp [bind, Except.bind, pure, Except.pure]

theorem mem_iff_of_mapM_eq_ok {f : α → Except Error β} {members : List α} {mapped : List β}
    (h : members.mapM f = .ok mapped) : b ∈ mapped ↔ ∃ a ∈ members, f a = .ok b := by
  have hmapped := mapM_eq_ok_iff.1 h
  clear h
  induction hmapped with
  | nil => simp
  | cons ha _ ih => simp [ha, ih, eq_comm]

end LinkedStore
