import LinkedStore.Stream.Basic
import Mathlib.Data.List.Basic

/-!
# What pulling a stream does

In surroundings that do not change, all that a stream does is a list of marks and items, which ends
with the first failure.  Pulling the stream reads that list from the left: each pull goes through
the next item and not beyond it, so that the marks left by a number of pulls are those in front of
the last item pulled.  When there are no more items, a pull leaves the remaining marks, and every
one after it does nothing.

## Main definitions

* `through` : a list through its member of a given number with a property.

## Main statements

* `through_append`, `through_flatMap` : how such a part of a list is put together.
* `Flow.run_untilFailure`, `Flow.run_filter` : what the operations on flows do.
* `Stream.run_remaining_next` : a pull reads the list up to the next item.
* `Stream.marks_take`, `Stream.results_take` : what a number of pulls does.
-/

namespace LinkedStore

/-! ### Parts of lists -/

section Through

variable {α β : Type} {p : α → Bool} {n : Nat} {a b l l' : List α}

/-- The list through its member number `n` with a property, or all of it if there are fewer. -/
def through (p : α → Bool) : Nat → List α → List α
  | 0, _ => []
  | _ + 1, [] => []
  | n + 1, a :: l => a :: if p a then through p n l else through p (n + 1) l

@[simp] theorem through_zero (p : α → Bool) (l : List α) : through p 0 l = [] := by
  cases l <;> rfl

@[simp] theorem through_nil (p : α → Bool) (n : Nat) : through p n [] = [] := by
  cases n <;> rfl

theorem through_cons_of_pos {x : α} (hx : p x = true) (n : Nat) (l : List α) :
    through p (n + 1) (x :: l) = x :: through p n l := by
  rw [through, if_pos hx]

theorem through_cons_of_neg {x : α} (hx : p x = false) (n : Nat) (l : List α) :
    through p (n + 1) (x :: l) = x :: through p (n + 1) l := by
  rw [through, if_neg (by simp [hx])]

theorem isPrefix_through (p : α → Bool) (n : Nat) (l : List α) : through p n l <+: l := by
  induction l generalizing n with
  | nil => simp
  | cons x l ih =>
      cases n with
      | zero => exact List.nil_prefix
      | succ n =>
          rw [through]
          split
          · exact List.cons_prefix_cons.2 ⟨rfl, ih n⟩
          · exact List.cons_prefix_cons.2 ⟨rfl, ih (n + 1)⟩

/-- What an appended list has is counted on from what the first one has. -/
theorem through_append (p : α → Bool) (n : Nat) (l l' : List α) :
    through p n (l ++ l') = through p n l ++ through p (n - l.countP p) l' := by
  induction l generalizing n with
  | nil => simp
  | cons x l ih =>
      cases n with
      | zero => simp
      | succ n =>
          cases hx : p x with
          | true =>
              rw [List.cons_append, through_cons_of_pos hx, through_cons_of_pos hx, ih,
                List.countP_cons_of_pos hx, Nat.add_sub_add_right, List.cons_append]
          | false =>
              rw [List.cons_append, through_cons_of_neg hx, through_cons_of_neg hx, ih,
                List.countP_cons_of_neg (by simp [hx]), List.cons_append]

theorem countP_through (p : α → Bool) (n : Nat) (l : List α) :
    (through p n l).countP p = min n (l.countP p) := by
  induction l generalizing n with
  | nil => simp
  | cons x l ih =>
      cases n with
      | zero => simp
      | succ n =>
          cases hx : p x with
          | true =>
              rw [through_cons_of_pos hx, List.countP_cons_of_pos hx, List.countP_cons_of_pos hx,
                ih]
              omega
          | false =>
              have hneg : ¬p x = true := by simp [hx]
              rw [through_cons_of_neg hx, List.countP_cons_of_neg hneg,
                List.countP_cons_of_neg hneg, ih]

/-- A part of an appended list depends on such parts of the two lists only. -/
theorem through_one_append_congr (ha : through p 1 a = through p 1 b)
    (hl : through p 1 l = through p 1 l') : through p 1 (a ++ l) = through p 1 (b ++ l') := by
  have hcount : 1 - a.countP p = 1 - b.countP p := by
    have hmin := congrArg (List.countP p) ha
    rw [countP_through, countP_through] at hmin
    omega
  rw [through_append, through_append, ha, hcount]
  have hone : 1 - b.countP p = 0 ∨ 1 - b.countP p = 1 := by omega
  rcases hone with hone | hone
  · rw [hone, through_zero, through_zero]
  · rw [hone, hl]

/-- The same for the lists of the members of a list, one after the other. -/
theorem through_one_flatMap_congr {g g' : β → List α} (members : List β)
    (h : ∀ x, through p 1 (g x) = through p 1 (g' x)) :
    through p 1 (members.flatMap g) = through p 1 (members.flatMap g') := by
  induction members with
  | nil => rfl
  | cons x members ih => exact through_one_append_congr (h x) ih

/-- Members without the property may be taken out before or after. -/
theorem through_filter {q : α → Bool} (hq : ∀ x, p x = true → q x = true) (n : Nat) (l : List α) :
    through p n (l.filter q) = (through p n l).filter q := by
  induction l generalizing n with
  | nil => simp
  | cons x l ih =>
      cases n with
      | zero => simp
      | succ n =>
          cases hx : p x with
          | true =>
              rw [through_cons_of_pos hx, List.filter_cons_of_pos (hq x hx),
                List.filter_cons_of_pos (hq x hx), through_cons_of_pos hx, ih]
          | false =>
              rw [through_cons_of_neg hx]
              by_cases hqx : q x = true
              · rw [List.filter_cons_of_pos hqx, List.filter_cons_of_pos hqx,
                  through_cons_of_neg hx, ih]
              · rw [List.filter_cons_of_neg hqx, List.filter_cons_of_neg hqx, ih]

theorem through_one_through_one (p : α → Bool) (l : List α) :
    through p 1 (through p 1 l) = through p 1 l := by
  induction l with
  | nil => rfl
  | cons x l ih =>
      cases hx : p x with
      | true => rw [through_cons_of_pos hx, through_zero, through_cons_of_pos hx, through_zero]
      | false => rw [through_cons_of_neg hx, through_cons_of_neg hx, ih]

/-- A list that has fewer members with the property is not cut. -/
theorem through_of_countP_lt (h : l.countP p < n) : through p n l = l := by
  induction l generalizing n with
  | nil => exact through_nil p n
  | cons x l ih =>
      obtain ⟨n, rfl⟩ : ∃ m, n = m + 1 := Nat.exists_eq_succ_of_ne_zero (Nat.ne_zero_of_lt h)
      cases hx : p x with
      | true =>
          rw [List.countP_cons_of_pos hx] at h
          rw [through_cons_of_pos hx, ih (Nat.lt_of_succ_lt_succ h)]
      | false =>
          rw [List.countP_cons_of_neg (by simp [hx])] at h
          rw [through_cons_of_neg hx, ih h]

/-- A map of lists that neither adds nor removes members with the property keeps such parts. -/
theorem through_flatMap {q : β → Bool} {g : α → List β}
    (hpos : ∀ x, p x = true → ∃ y, g x = [y] ∧ q y = true)
    (hneg : ∀ x, p x = false → (g x).countP q = 0) (n : Nat) (l : List α) :
    through q n (l.flatMap g) = (through p n l).flatMap g := by
  induction l generalizing n with
  | nil => simp
  | cons x l ih =>
      cases n with
      | zero => simp
      | succ n =>
          rw [List.flatMap_cons]
          cases hx : p x with
          | true =>
              obtain ⟨y, hg, hy⟩ := hpos x hx
              rw [through_cons_of_pos hx, List.flatMap_cons, hg, List.cons_append, List.nil_append,
                through_cons_of_pos hy, ih, List.cons_append, List.nil_append]
          | false =>
              have hnone := hneg x hx
              rw [through_cons_of_neg hx, List.flatMap_cons, through_append, hnone, Nat.sub_zero,
                through_of_countP_lt (hnone ▸ Nat.succ_pos n), ih]

end Through

namespace Flow

variable {ρ α β : Type} {r : ρ}

/-! ### Marks and items -/

namespace Event

def mark? : Event α → Option String
  | mark m => some m
  | item _ => none

def item? : Event α → Option (Except Error α)
  | mark _ => none
  | item x => some x

def isItem : Event α → Bool
  | mark _ => false
  | item _ => true

/-- Whether the event is a failure. -/
def fails : Event α → Bool
  | item (.error _) => true
  | _ => false

/-- What an event becomes when the items are tested. -/
def sift (keep : α → Bool) (marks : α → List String) : Event α → List (Event α)
  | item (.ok a) => (marks a).map mark ++ if keep a then [item (.ok a)] else []
  | e => [e]

theorem filterMap_mark?_map_mark (marks : List String) :
    (marks.map (mark (α := α))).filterMap mark? = marks := by
  rw [List.filterMap_map]
  exact List.filterMap_some

theorem filterMap_item?_map_mark (marks : List String) :
    (marks.map (mark (α := α))).filterMap item? = [] := by
  rw [List.filterMap_map]
  exact List.filterMap_eq_nil_iff.2 fun _ _ => rfl

theorem countP_map_mark (q : Event α → Bool) (hq : ∀ m, q (mark m) = false) (marks : List String) :
    (marks.map mark).countP q = 0 := by
  rw [List.countP_eq_zero]
  rintro e he
  obtain ⟨m, -, rfl⟩ := List.mem_map.1 he
  simp [hq]

/-- Marks in front are not counted. -/
theorem through_map_mark (q : Event α → Bool) (hq : ∀ m, q (mark m) = false) (n : Nat)
    (marks : List String) (l : List (Event α)) :
    through q (n + 1) (marks.map mark ++ l) = marks.map mark ++ through q (n + 1) l := by
  have hnone := countP_map_mark q hq marks
  rw [through_append, hnone, through_of_countP_lt (hnone ▸ Nat.succ_pos n), Nat.sub_zero]

/-- Testing the items neither adds nor removes a failure. -/
theorem through_sift (keep : α → Bool) (marks : α → List String) (n : Nat) (l : List (Event α)) :
    through fails n (l.flatMap (sift keep marks)) =
      (through fails n l).flatMap (sift keep marks) := by
  refine through_flatMap (fun e he => ?_) (fun e he => ?_) n l
  · match e, he with
    | item (.error e), _ => exact ⟨_, rfl, rfl⟩
  · match e, he with
    | mark m, _ => rfl
    | item (.ok a), _ =>
        rw [sift, List.countP_append, countP_map_mark fails fun _ => rfl]
        split <;> rfl

end Event

/-! ### What the operations do -/

theorem run_ofList (r : ρ) (items : List (Except Error α)) :
    (ofList items : Flow ρ α).run r = items.map .item := by
  induction items with
  | nil => rfl
  | cons item items ih => exact congrArg (Event.item item :: ·) ih

theorem run_foldr_note (r : ρ) (marks : List String) (a : Flow ρ α) :
    (marks.foldr note a).run r = marks.map .mark ++ a.run r := by
  induction marks with
  | nil => rfl
  | cons mark marks ih => exact congrArg (Event.mark mark :: ·) ih

theorem run_defer (r : ρ) (build : ρ → Except Error (Flow ρ α)) :
    (defer build).run r =
      match build r with
      | .ok flow => flow.run r
      | .error e => [.item (.error e)] := by
  rw [defer, run]
  cases build r <;> rfl

/-- What a flow does up to its first failure. -/
theorem run_untilFailure (r : ρ) (a : Flow ρ α) :
    a.untilFailure.run r = through Event.fails 1 (a.run r) := by
  induction a with
  | done => rfl
  | emit item rest ih =>
      cases item with
      | error e =>
          rw [untilFailure, run, run, run, through_cons_of_pos (by rfl), through_zero]
      | ok a => exact congrArg (Event.item (.ok a) :: ·) ih
  | note mark rest ih => exact congrArg (Event.mark mark :: ·) ih
  | ask next ih => exact ih r

/-- What a flow does whose items are tested. -/
theorem run_filter (r : ρ) (keep : α → Bool) (marks : α → List String) (a : Flow ρ α) :
    (a.filter keep marks).run r = (a.run r).flatMap (Event.sift keep marks) := by
  induction a with
  | done => rfl
  | emit item rest ih =>
      cases item with
      | error e => exact congrArg (Event.item (.error e) :: ·) ih
      | ok a =>
          rw [filter, run_foldr_note, run, List.flatMap_cons, Event.sift, List.append_assoc, ← ih]
          split <;> rfl
  | note mark rest ih => exact congrArg (Event.mark mark :: ·) ih
  | ask next ih => exact ih r

/-- What the flows of a list of items do, if each part is what its flow does up to a failure. -/
theorem run_each (r : ρ) (listed : List (Except Error β)) (f : β → Flow ρ α) :
    (each listed f).run r =
      listed.flatMap fun
        | .ok b => through Event.fails 1 ((f b).run r)
        | .error e => [.item (.error e)] := by
  induction listed with
  | nil => rfl
  | cons item listed ih =>
      rw [List.flatMap_cons, ← ih]
      cases item with
      | error e => rfl
      | ok b =>
          change ((f b).untilFailure ++ each listed f).run r = _
          rw [run_append, run_untilFailure]

/-! ### Items -/

/-- Whether an item is a failure. -/
def failed : Except Error α → Bool
  | .ok _ => false
  | .error _ => true

/-- Whether an item is left when the values are tested. -/
def passes (keep : α → Bool) : Except Error α → Bool
  | .ok a => keep a
  | .error _ => true

theorem filterMap_item?_run (r : ρ) (a : Flow ρ α) :
    (a.run r).filterMap Event.item? = a.items r := by
  induction a with
  | done => rfl
  | emit item rest ih => exact congrArg (item :: ·) ih
  | note mark rest ih => exact ih
  | ask next ih => exact ih r

theorem items_defer (r : ρ) (build : ρ → Except Error (Flow ρ α)) :
    (defer build).items r =
      match build r with
      | .ok flow => flow.items r
      | .error e => [.error e] := by
  rw [defer, items]
  cases build r <;> rfl

theorem items_untilFailure (r : ρ) (a : Flow ρ α) :
    a.untilFailure.items r = through failed 1 (a.items r) := by
  induction a with
  | done => rfl
  | emit item rest ih =>
      cases item with
      | error e =>
          rw [untilFailure, items, items, items, through_cons_of_pos (by rfl), through_zero]
      | ok a => exact congrArg (.ok a :: ·) ih
  | note mark rest ih => exact ih
  | ask next ih => exact ih r

theorem items_filter (r : ρ) (keep : α → Bool) (marks : α → List String) (a : Flow ρ α) :
    (a.filter keep marks).items r = (a.items r).filter (passes keep) := by
  induction a with
  | done => rfl
  | emit item rest ih =>
      cases item with
      | error e => exact congrArg (.error e :: ·) ih
      | ok a =>
          rw [filter, items_foldr_note, items]
          by_cases hkeep : keep a = true
          · have hpasses : passes keep (.ok a : Except Error α) = true := hkeep
            rw [if_pos hkeep, items, List.filter_cons_of_pos hpasses, ih]
          · have hpasses : ¬passes keep (.ok a : Except Error α) = true := hkeep
            rw [if_neg hkeep, List.filter_cons_of_neg hpasses, ih]
  | note mark rest ih => exact ih
  | ask next ih => exact ih r

/-! ### Pulling -/

/-- A pull reads what a flow does up to the next item. -/
theorem run_pull (r : ρ) (a : Flow ρ α) :
    a.run r = (a.pull r).1.map .mark ++
      match (a.pull r).2 with
      | none => []
      | some (item, rest) => .item item :: rest.run r := by
  induction a with
  | done => rfl
  | emit item rest ih => rfl
  | note mark rest ih => exact congrArg (Event.mark mark :: ·) ih
  | ask next ih => exact ih r

end Flow

namespace Stream

open LinkedStore.Flow (Event)

variable {ρ : Type} {r : ρ} {s : Stream ρ}

/-- What is left to be done by a stream. -/
theorem run_remaining (r : ρ) (s : Stream ρ) :
    s.remaining.run r = if s.finished then [] else through Event.fails 1 (s.flow.run r) := by
  rw [remaining]
  split
  · rfl
  · exact Flow.run_untilFailure r s.flow

theorem items_remaining (r : ρ) (s : Stream ρ) :
    s.remaining.items r = if s.finished then [] else through Flow.failed 1 (s.flow.items r) := by
  rw [remaining]
  split
  · rfl
  · exact Flow.items_untilFailure r s.flow

/-- What is left of a stream whose triples are tested. -/
theorem items_remaining_filter (r : ρ) (s : Stream ρ) (keep : Triple → Bool)
    (marks : Triple → List String) :
    (s.filter keep marks).remaining.items r = (s.remaining.items r).filter (Flow.passes keep) := by
  rw [items_remaining, items_remaining, filter]
  cases s.finished with
  | true => rfl
  | false =>
      rw [if_neg Bool.false_ne_true, if_neg Bool.false_ne_true, Flow.items_filter, through_filter]
      rintro (e | t) hfailed
      · rfl
      · cases hfailed

/-- The triples in front of the first failure, and that failure. -/
def drained : List (Except Error Triple) → List Triple × Option Error
  | [] => ([], none)
  | .ok t :: items => (t :: (drained items).1, (drained items).2)
  | .error e :: _ => ([], some e)

/-- What is left of a stream when it is drained. -/
theorem drain_snd (r : ρ) (s : Stream ρ) : (s.drain r).2 = drained (s.remaining.items r) := by
  rw [drain]
  induction s.remaining with
  | done => rfl
  | emit item rest ih =>
      cases item with
      | error e => rfl
      | ok t => rw [drainFlow, Flow.items, drained, ← ih]
  | note mark rest ih => exact ih
  | ask next ih => exact ih r

/-- **A pull reads what a stream does up to the next item.** -/
theorem run_remaining_next (r : ρ) (s : Stream ρ) :
    s.remaining.run r = (s.next r).1.map .mark ++
      match (s.next r).2.1 with
      | none => []
      | some item => .item item :: (s.next r).2.2.remaining.run r := by
  rw [run_remaining, next]
  cases hfinished : s.finished with
  | true => rfl
  | false =>
      have hpull := Flow.run_pull r s.flow
      rcases hnext : s.flow.pull r with ⟨marks, _ | ⟨_ | t, rest⟩⟩
      all_goals
        rw [hnext] at hpull
        simp only [Bool.false_eq_true, if_false, run_remaining]
        rw [hpull, Event.through_map_mark _ fun _ => rfl]
      case none => rw [through_nil]
      case error =>
        rw [through_cons_of_pos (by rfl), through_zero]
        rfl
      case ok =>
        rw [through_cons_of_neg (by rfl)]

/-- After a pull that yields nothing, nothing is left. -/
theorem finished_of_next_eq_none (h : (s.next r).2.1 = none) : (s.next r).2.2.finished = true := by
  rw [next] at h ⊢
  cases hfinished : s.finished with
  | true => exact hfinished
  | false =>
      rw [hfinished] at h
      rcases hnext : s.flow.pull r with ⟨marks, _ | ⟨_ | t, rest⟩⟩
      · rfl
      · rfl
      · rw [hnext] at h
        cases h

theorem take_succ (r : ρ) (n : Nat) (s : Stream ρ) :
    s.take r (n + 1) =
      ((s.next r).1 ++ ((s.next r).2.2.take r n).1,
        (s.next r).2.1 :: ((s.next r).2.2.take r n).2.1, ((s.next r).2.2.take r n).2.2) := rfl

/-- **The marks that a number of pulls leaves** are those in front of the last item pulled. -/
theorem marks_take (r : ρ) (n : Nat) (s : Stream ρ) :
    (s.take r n).1 = (through Event.isItem n (s.remaining.run r)).filterMap Event.mark? := by
  induction n generalizing s with
  | zero => simp [take]
  | succ n ih =>
      rw [run_remaining_next, Event.through_map_mark _ fun _ => rfl, List.filterMap_append,
        Event.filterMap_mark?_map_mark, take_succ, ih]
      cases hnext : (s.next r).2.1 with
      | none => rw [remaining, if_pos (finished_of_next_eq_none hnext)]; simp [Flow.run]
      | some item =>
          simp only
          rw [through_cons_of_pos (by rfl), List.filterMap_cons]
          rfl

/-- **What a number of pulls yields** are the items, and then nothing for ever. -/
theorem results_take (r : ρ) (n : Nat) (s : Stream ρ) :
    (s.take r n).2.1 = (List.range n).map fun k => (s.remaining.items r)[k]? := by
  induction n generalizing s with
  | zero => rfl
  | succ n ih =>
      rw [← Flow.filterMap_item?_run, run_remaining_next, List.filterMap_append,
        Event.filterMap_item?_map_mark, List.nil_append, take_succ, ih, List.range_succ_eq_map,
        List.map_cons, List.map_map]
      cases hnext : (s.next r).2.1 with
      | none => rw [remaining, if_pos (finished_of_next_eq_none hnext)]; rfl
      | some item => rw [List.filterMap_cons, Event.item?, Flow.filterMap_item?_run]; rfl

end Stream

end LinkedStore
