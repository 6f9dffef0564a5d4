import LinkedStore.Proofs.Stream.Trace

/-!
# What is left of concatenated streams

A stream is pulled for a while and then concatenated to another one, which may have been pulled
before as well.  The concatenation is to yield what either of them would have yielded still.  It
does so as long as the first stream has not been pulled past its end and the second one has not
failed.  The mark of having ended is that of the first stream alone, and the flows are joined as
they are: behind a first stream that has been pulled past its end nothing of the second is yielded,
and a second stream that has failed yields what it held behind its failure.

## Main definitions

* `Stream.left` : what pulls yield from now on.
* `Stream.Pulled` : a stream after a number of pulls.
* `Stream.KeepsLeft` : a concatenation yields what its parts would have yielded still.
* `Stream.JoinsLeft` : what a concatenation does yield.

## Main statements

* `Stream.left_concat` : a concatenation goes through both flows, if its first part has not ended.
* `Stream.Pulled.finished_iff`, `Stream.Pulled.flow_eq_done` : what pulls leave behind.
* `Stream.joinsLeft_of_pulled` : what a concatenation of pulled streams yields.
* `Stream.not_keepsLeft` : the two ways in which it does not yield what its parts would have
  yielded.
-/

namespace LinkedStore

open LinkedStore.Flow (failed)

/-! ### Lists up to their first failure -/

section Through

variable {α : Type} {p : α → Bool} {l : List α}

theorem exists_mem_through_one_iff : (∃ x ∈ through p 1 l, p x = true) ↔ ∃ x ∈ l, p x = true := by
  rw [← List.countP_pos_iff, ← List.countP_pos_iff, countP_through, Nat.lt_min]
  exact and_iff_right Nat.one_pos

/-- What comes behind the first member with the property is cut off. -/
theorem through_one_append_of_exists (h : ∃ x ∈ l, p x = true) (l' : List α) :
    through p 1 (l ++ l') = through p 1 l := by
  have hpos : 0 < l.countP p := List.countP_pos_iff.2 h
  rw [through_append, Nat.sub_eq_zero_of_le hpos, through_zero, List.append_nil]

theorem through_one_append_of_forall (h : ¬∃ x ∈ l, p x = true) (l' : List α) :
    through p 1 (l ++ l') = through p 1 l ++ through p 1 l' := by
  have hzero : l.countP p = 0 := Nat.eq_zero_of_not_pos (mt List.countP_pos_iff.1 h)
  rw [through_append, hzero, Nat.sub_zero]

end Through

namespace Stream

variable {ρ : Type} {r : ρ} {s t a b : Stream ρ}

/-- What pulls yield from now on, in surroundings that do not change. -/
def left (r : ρ) (s : Stream ρ) : List (Except Error Triple) := s.remaining.items r

/-- The items that the flow of a stream holds, up to the first failure, whether the stream has ended
or not. -/
def held (r : ρ) (s : Stream ρ) : List (Except Error Triple) := through failed 1 (s.flow.items r)

/-- Some item is a failure. -/
def Fails (items : List (Except Error Triple)) : Prop := ∃ item ∈ items, failed item = true

theorem left_of_finished (h : s.finished = true) : s.left r = [] := by
  rw [left, items_remaining, if_pos h]

theorem left_of_not_finished (h : s.finished = false) : s.left r = s.held r := by
  rw [left, items_remaining, if_neg (by simp [h]), held]

theorem held_eq_nil_iff : s.held r = [] ↔ s.flow.items r = [] := by
  rw [held]
  cases s.flow.items r with
  | nil => simp
  | cons item items => simp [through]

/-- **A concatenation goes through both flows**, if its first part has not ended. -/
theorem left_concat (h : a.finished = false) :
    (a ++ b).left r = through failed 1 (a.flow.items r ++ b.flow.items r) := by
  have hfinished : (a ++ b).finished = false := h
  rw [left_of_not_finished hfinished, held]
  exact congrArg _ (Flow.items_append r a.flow b.flow)

theorem left_concat_of_fails (h : a.finished = false) (hfails : Fails (a.left r)) :
    (a ++ b).left r = a.left r := by
  rw [left_of_not_finished h] at hfails ⊢
  rw [left_concat h, through_one_append_of_exists (exists_mem_through_one_iff.1 hfails), held]

theorem left_concat_of_not_fails (h : a.finished = false) (hfails : ¬Fails (a.left r)) :
    (a ++ b).left r = a.left r ++ b.held r := by
  rw [left_of_not_finished h] at hfails ⊢
  rw [left_concat h, through_one_append_of_forall (mt exists_mem_through_one_iff.2 hfails), held,
    held]

/-! ### Streams that have been pulled -/

/-- The stream after a number of pulls, each in surroundings of its own, and what they have
yielded. -/
inductive Pulled (s : Stream ρ) : List (Option (Except Error Triple)) → Stream ρ → Prop
  | start : Pulled s [] s
  | pull {yielded t} (h : Pulled s yielded t) (r : ρ) :
      Pulled s (yielded ++ [(t.next r).2.1]) (t.next r).2.2

/-- Some pull has yielded a failure. -/
def HasFailed (yielded : List (Option (Except Error Triple))) : Prop :=
  ∃ e, some (.error e) ∈ yielded

/-- Some pull has yielded nothing. -/
def HasEnded (yielded : List (Option (Except Error Triple))) : Prop := none ∈ yielded

/-- The three outcomes of a pull of a stream that has not ended. -/
theorem next_cases (r : ρ) (h : s.finished = false) :
    ((s.next r).2.1 = none ∧ (s.next r).2.2.finished = true ∧ (s.next r).2.2.flow = .done) ∨
      (∃ e, (s.next r).2.1 = some (.error e) ∧ (s.next r).2.2.finished = true) ∨
      ∃ t, (s.next r).2.1 = some (.ok t) ∧ (s.next r).2.2.finished = false := by
  rw [next, h, if_neg Bool.false_ne_true]
  rcases s.flow.pull r with ⟨marks, _ | ⟨e | t, rest⟩⟩
  · exact .inl ⟨rfl, rfl, rfl⟩
  · exact .inr (.inl ⟨e, rfl, rfl⟩)
  · exact .inr (.inr ⟨t, rfl, rfl⟩)

theorem next_of_finished (r : ρ) (h : s.finished = true) : s.next r = ([], none, s) := by
  rw [next, if_pos h]

namespace Pulled

variable {yielded : List (Option (Except Error Triple))}

/-- A stream has ended when a pull has yielded nothing or a failure. -/
theorem finished_iff (h : s.Pulled yielded t) (hs : s.finished = false) :
    t.finished = true ↔ HasEnded yielded ∨ HasFailed yielded := by
  induction h with
  | start => simp [hs, HasEnded, HasFailed]
  | @pull yielded t _ r ih =>
      cases hfinished : t.finished with
      | true =>
          have hearlier := ih.1 hfinished
          rw [next_of_finished r hfinished]
          refine iff_of_true hfinished (hearlier.imp (List.mem_append_left _) ?_)
          exact fun ⟨e, he⟩ => ⟨e, List.mem_append_left _ he⟩
      | false =>
          have hearlier : ¬(HasEnded yielded ∨ HasFailed yielded) := by simp [← ih, hfinished]
          simp only [HasEnded, HasFailed, not_or, not_exists] at hearlier
          obtain ⟨hended, hfailed⟩ := hearlier
          rcases next_cases r hfinished with ⟨hnext, hend, -⟩ | ⟨e, hnext, hend⟩ | ⟨u, hnext, hend⟩
          · simp [hnext, hend, HasEnded]
          · simp [hnext, hend, HasFailed]
          · simp [hnext, hend, HasEnded, HasFailed, hended, hfailed]

/-- A stream that has ended without a failure holds nothing any more. -/
theorem flow_eq_done (h : s.Pulled yielded t) (hs : s.finished = false)
    (hfailed : ¬HasFailed yielded) (ht : t.finished = true) : t.flow = .done := by
  induction h with
  | start => simp [hs] at ht
  | @pull yielded t _ r ih =>
      have hearlier : ¬HasFailed yielded :=
        fun ⟨e, he⟩ => hfailed ⟨e, List.mem_append_left _ he⟩
      cases hfinished : t.finished with
      | true =>
          rw [next_of_finished r hfinished]
          exact ih hearlier hfinished
      | false =>
          rcases next_cases r hfinished with ⟨-, -, hflow⟩ | ⟨e, hnext, -⟩ | ⟨u, -, hend⟩
          · exact hflow
          · exact absurd ⟨e, by simp [hnext]⟩ hfailed
          · simp [hend] at ht

/-- A stream that has not failed would still yield what its flow holds. -/
theorem held_eq_left (h : s.Pulled yielded t) (hs : s.finished = false)
    (hfailed : ¬HasFailed yielded) : t.held r = t.left r := by
  cases hfinished : t.finished with
  | true => rw [left_of_finished hfinished, held, h.flow_eq_done hs hfailed hfinished]; rfl
  | false => exact (left_of_not_finished hfinished).symm

end Pulled

/-! ### The concatenation -/

/-- The concatenation yields what the first stream would have yielded still, and then, unless that
is a failure, what the second one would have yielded still. -/
def KeepsLeft (r : ρ) (a b : Stream ρ) : Prop :=
  (Fails (a.left r) → (a ++ b).left r = a.left r) ∧
    (¬Fails (a.left r) → (a ++ b).left r = a.left r ++ b.left r)

/-- What is left of the concatenation of two streams that have yielded something already. -/
structure JoinsLeft (r : ρ) (a b : Stream ρ) (fromA fromB : List (Option (Except Error Triple))) :
    Prop where
  /-- What is left of a stream is what pulls yield, and then nothing for ever. -/
  pulls : ∀ s ∈ [a, b, a ++ b], ∀ n,
    (s.take r n).2.1 = (List.range n).map fun k => (s.left r)[k]?
  /-- Nothing, if the first stream has been pulled past its end. -/
  ended : HasEnded fromA → (a ++ b).left r = []
  /-- What is left of the first stream, if it is going to fail. -/
  fails : ¬HasEnded fromA → Fails (a.left r) → (a ++ b).left r = a.left r
  /-- What is left of both, unless the second one has failed. -/
  joins : ¬HasEnded fromA → ¬Fails (a.left r) → ¬HasFailed fromB →
    (a ++ b).left r = a.left r ++ b.left r
  /-- What is left of the first stream, and what the second one held behind its failure. -/
  revives : ¬HasEnded fromA → ¬Fails (a.left r) → HasFailed fromB →
    b.left r = [] ∧ (a ++ b).left r = a.left r ++ b.held r
  /-- Nothing is lost and nothing comes back just if the second stream had nothing left behind a
  first one that has been pulled past its end, and held nothing behind its own failure. -/
  keeps_iff : KeepsLeft r a b ↔ (HasEnded fromA → b.left r = []) ∧
    (¬HasEnded fromA → ¬Fails (a.left r) → HasFailed fromB → b.flow.items r = [])

/-- **What is left of concatenated streams**, whatever has been pulled before, the first stream not
having failed. -/
theorem joinsLeft_of_pulled {a₀ b₀ : Stream ρ} {fromA fromB : List (Option (Except Error Triple))}
    (ha₀ : a₀.finished = false) (hb₀ : b₀.finished = false) (ha : a₀.Pulled fromA a)
    (hb : b₀.Pulled fromB b) (hok : ¬HasFailed fromA) (r : ρ) :
    JoinsLeft r a b fromA fromB := by
  have hended (h : HasEnded fromA) : a.finished = true := (ha.finished_iff ha₀).2 (.inl h)
  have hopen (h : ¬HasEnded fromA) : a.finished = false := by
    rw [← Bool.not_eq_true, ha.finished_iff ha₀]
    exact not_or.2 ⟨h, hok⟩
  have hlost (h : HasEnded fromA) : (a ++ b).left r = [] :=
    left_of_finished (s := a ++ b) (hended h)
  have hfailed (h : HasFailed fromB) : b.left r = [] :=
    left_of_finished ((hb.finished_iff hb₀).2 (.inr h))
  have hjoined (h : ¬HasEnded fromA) (hfails : ¬Fails (a.left r)) :
      (a ++ b).left r = a.left r ++ b.held r := left_concat_of_not_fails (hopen h) hfails
  have hjoins (h : ¬HasEnded fromA) (hfails : ¬Fails (a.left r)) (hwell : ¬HasFailed fromB) :
      (a ++ b).left r = a.left r ++ b.left r := by
    rw [hjoined h hfails, hb.held_eq_left hb₀ hwell]
  refine ⟨fun s _ n => results_take r n s, hlost,
    fun h => left_concat_of_fails (hopen h), hjoins,
    fun h hfails hb => ⟨hfailed hb, hjoined h hfails⟩, ?_⟩
  by_cases h : HasEnded fromA
  · have hnone : a.left r = [] := left_of_finished (hended h)
    simp [KeepsLeft, Fails, hnone, hlost h, h]
  · by_cases hfails : Fails (a.left r)
    · simp [KeepsLeft, hfails, h, left_concat_of_fails (hopen h) hfails]
    · by_cases hwell : HasFailed fromB
      · simp [KeepsLeft, hfails, h, hwell, hjoined h hfails, hfailed hwell, held_eq_nil_iff]
      · simp [KeepsLeft, hfails, h, hwell, hjoins h hfails hwell]

/-- A statement that tells numbers apart. -/
def numbered (n : Int) : Triple :=
  ⟨.iri "http://localhost/rest/a", .iri Vocab.Ldp.member, .integer n⟩

/-- A stream of two statements. -/
def twoNumbers : Stream Unit := ofTriples (.iri "http://localhost/rest/a") [numbered 1, numbered 2]

/-- A stream that fails in front of a statement. -/
def brokenNumber : Stream Unit :=
  ofFlow (.iri "http://localhost/rest/a")
    (.ofList [.error (.notFound (.resource "/b")), .ok (numbered 3)])

/-- Half of a stream is left, and the other one has failed: what it held behind its failure comes
back. -/
theorem joinsLeft_of_pulled_halfway :
    JoinsLeft () (twoNumbers.next ()).2.2 (brokenNumber.next ()).2.2 [some (.ok (numbered 1))]
        [some (.error (.notFound (.resource "/b")))] ∧
      ((twoNumbers.next ()).2.2 ++ (brokenNumber.next ()).2.2).left () =
        [.ok (numbered 2), .ok (numbered 3)] :=
  ⟨joinsLeft_of_pulled (show twoNumbers.finished = false from rfl)
    (show brokenNumber.finished = false from rfl) (.pull .start ()) (.pull .start ())
    (fun ⟨_, he⟩ => nomatch List.mem_singleton.1 he) (), rfl⟩

/-- Behind a stream that has been pulled past its end everything is lost, and behind any other one
what a stream held behind its failure comes back. -/
theorem not_keepsLeft :
    ¬KeepsLeft () (twoNumbers.take () 3).2.2 twoNumbers ∧
      ¬KeepsLeft () twoNumbers (brokenNumber.next ()).2.2 := by
  have hnone : ¬Fails ((twoNumbers.take () 3).2.2.left ()) := by
    have heq : (twoNumbers.take () 3).2.2.left () = [] := rfl
    simp [heq, Fails]
  have hboth : ¬Fails (twoNumbers.left ()) := by
    have heq : twoNumbers.left () = [.ok (numbered 1), .ok (numbered 2)] := rfl
    simp [heq, Fails, failed]
  refine ⟨fun h => ?_, fun h => ?_⟩
  · have hlost : ([] : List (Except Error Triple)) = [.ok (numbered 1), .ok (numbered 2)] :=
      h.2 hnone
    simp at hlost
  · have hback : [.ok (numbered 1), .ok (numbered 2), .ok (numbered 3)] =
        [.ok (numbered 1), (.ok (numbered 2) : Except Error Triple)] := h.2 hboth
    simp at hback

end Stream

end LinkedStore
