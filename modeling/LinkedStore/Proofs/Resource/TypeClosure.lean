import LinkedStore.Proofs.Host.Reading
import LinkedStore.Resource.TypeClosure
import Mathlib.Data.List.Nodup

/-!
# What a closure of types holds

The closure of a list of types is described without a queue: it holds the names that lie above the
declared ones, each once, in the order in which they are first seen when the declared names are read
and then, along the closure itself, the names above each.  A list that is so described is
determined, and names that are nearer to the declared ones come first in it.  The queue works it
off, whatever cycles there are among the types, within as many steps as there are declared names and
registered links.

## Main definitions

* `TypeClosure.LiesAbove` : a name lies a number of links above the declared ones.
* `TypeClosure.ClosesUp` : a list is the closure of the declared names.
* `TypeClosure.Queued` : what has been taken from the queue, and what is in it.

## Main statements

* `TypeClosure.ClosesUp.unique` : there is one closure.
* `TypeClosure.Queued.step`, `TypeClosure.Queued.exists_closeQueue` : what one step of the queue
  does, and what all of them do.
* `TypeClosure.exists_closesUp` : the closure is found.
-/

namespace LinkedStore

/-! ### Distinct members -/

section EraseDups

variable {α : Type} [BEq α] [LawfulBEq α]

theorem nodup_eraseDups (l : List α) : l.eraseDups.Nodup := by
  generalize hlength : l.length = n
  induction n using Nat.strong_induction_on generalizing l with
  | _ n ih =>
      cases l with
      | nil => exact .nil
      | cons a l =>
          rw [List.eraseDups_cons, List.nodup_cons, List.mem_eraseDups]
          refine ⟨by simp, ih _ ?_ _ rfl⟩
          rw [← hlength]
          exact Nat.lt_succ_of_le (List.length_filter_le _ _)

/-- What is first seen does not change with what is read behind it. -/
theorem eraseDups_prefix (l l' : List α) : l.eraseDups <+: (l ++ l').eraseDups :=
  ⟨_, List.eraseDups_append.symm⟩

end EraseDups

namespace TypeClosure

/-- The names that are fresh are the distinct ones among those that have not been seen. -/
theorem fresh_eq (seen names : List String) :
    fresh seen names = (names.filter (· ∉ seen)).eraseDups := by
  induction names generalizing seen with
  | nil => rfl
  | cons name names ih =>
      simp only [fresh, List.contains_iff_mem]
      by_cases hseen : name ∈ seen
      · rw [if_pos hseen, ih, List.filter_cons_of_neg (by simpa using hseen)]
      · have hagain : names.filter (· ∉ name :: seen) =
            (names.filter (· ∉ seen)).filter fun other => !other == name := by
          rw [List.filter_filter]
          refine List.filter_congr fun other _ => ?_
          by_cases hname : other = name <;> simp [hname]
        rw [if_neg hseen, ih, List.filter_cons_of_pos (by simpa using hseen),
          List.eraseDups_cons, hagain]

theorem fresh_nil (names : List String) : fresh [] names = names.eraseDups := by
  rw [fresh_eq, List.filter_eq_self.2 (by simp)]

/-- Reading on adds what is fresh. -/
theorem eraseDups_append_eq (names more : List String) :
    (names ++ more).eraseDups = names.eraseDups ++ fresh names.eraseDups more := by
  have hnew : more.removeAll names = more.filter (· ∉ names.eraseDups) := by
    simp [List.removeAll]
  rw [List.eraseDups_append, fresh_eq, hnew]

/-! ### The closure -/

variable {supers : String → List String} {declared closure closure' : List String}

/-- A name lies a number of links above one of the declared names. -/
inductive LiesAbove (supers : String → List String) (declared : List String) : Nat → String → Prop
  | declared {name} (h : name ∈ declared) : LiesAbove supers declared 0 name
  | link {steps name parent} (h : LiesAbove supers declared steps name)
      (hparent : parent ∈ supers name) : LiesAbove supers declared (steps + 1) parent

/-- A list is the closure of the declared names: each name that lies above them once; the distinct
declared names first and in order; then the rest, nearer names first, in the order in which the
names above those of the list are first seen. -/
structure ClosesUp (supers : String → List String) (declared closure : List String) : Prop where
  nodup : closure.Nodup
  mem_iff : ∀ name, name ∈ closure ↔ ∃ steps, LiesAbove supers declared steps name
  declared_first : declared.eraseDups <+: closure
  first_seen : closure = (declared ++ closure.flatMap supers).eraseDups
  nearest_first : closure.Pairwise fun name other => ∀ steps,
    LiesAbove supers declared steps other → ∃ fewer ≤ steps, LiesAbove supers declared fewer name

/-- What the order of first sight says about the first names of a list. -/
theorem prefix_of_first_seen (h : closure = (declared ++ closure.flatMap supers).eraseDups)
    {l : List String} (hl : l <+: closure) :
    (declared ++ l.flatMap supers).eraseDups <+: closure := by
  obtain ⟨rest, hrest⟩ := hl
  have hlist : declared ++ closure.flatMap supers =
      (declared ++ l.flatMap supers) ++ rest.flatMap supers := by
    rw [← hrest, List.flatMap_append, List.append_assoc]
  have hbegins := eraseDups_prefix (declared ++ l.flatMap supers) (rest.flatMap supers)
  rwa [← hlist, ← h] at hbegins

/-- A list that holds the declared names and the names above its own holds whatever lies above. -/
theorem mem_of_liesAbove {l : List String} (hl : (declared ++ l.flatMap supers).eraseDups ⊆ l)
    {steps : Nat} {name : String} (hname : LiesAbove supers declared steps name) : name ∈ l := by
  induction hname with
  | declared hname => exact hl (List.mem_eraseDups.2 (List.mem_append_left _ hname))
  | @link _ name parent _ hparent ih =>
      exact hl (List.mem_eraseDups.2
        (List.mem_append_right _ (List.mem_flatMap.2 ⟨name, ih, hparent⟩)))

/-- A member of a prefix comes behind members of the prefix only. -/
theorem subset_of_mem_prefix {l p : List String} {name : String} (hnodup : closure.Nodup)
    (hp : p <+: closure) (hl : l ++ [name] <+: closure) (hname : name ∈ p) : l ⊆ p := by
  rcases List.prefix_or_prefix_of_prefix hl hp with hbegins | hbegins
  · exact fun other hother => hbegins.subset (List.mem_append_left _ hother)
  · rcases List.prefix_concat_iff.1 hbegins with rfl | hbegins
    · exact List.subset_append_left _ _
    · have hnot : name ∉ l := by
        have hdistinct := hnodup.sublist hl.sublist
        exact fun hmem => List.disjoint_of_nodup_append hdistinct hmem List.mem_cons_self
      exact absurd (hbegins.subset hname) hnot

/-- In the order of first sight, the names before one that lies a number of links above the declared
ones lie no further above them. -/
theorem exists_fewer (h : closure = (declared ++ closure.flatMap supers).eraseDups)
    (hnodup : closure.Nodup) {steps : Nat} {other : String}
    (hother : LiesAbove supers declared steps other) {l : List String}
    (hl : l ++ [other] <+: closure) :
    ∀ name ∈ l, ∃ fewer ≤ steps, LiesAbove supers declared fewer name := by
  induction hother generalizing l with
  | declared hother =>
      intro name hname
      have hfirst := prefix_of_first_seen h (List.nil_prefix)
      rw [List.flatMap_nil, List.append_nil] at hfirst
      have hmem := subset_of_mem_prefix hnodup hfirst hl (List.mem_eraseDups.2 hother) hname
      exact ⟨0, le_rfl, .declared (List.mem_eraseDups.1 hmem)⟩
  | @link steps below other hbelow hparent ih =>
      have hclosed : (declared ++ closure.flatMap supers).eraseDups ⊆ closure :=
        fun name hname => h.symm ▸ hname
      obtain ⟨first, rest, hsplit⟩ := List.append_of_mem (mem_of_liesAbove hclosed hbelow)
      have hfirst : first ++ [below] <+: closure :=
        ⟨rest, by rw [hsplit, List.append_assoc, List.singleton_append]⟩
      have hnear : ∀ name ∈ first ++ [below], ∃ fewer ≤ steps,
          LiesAbove supers declared fewer name := by
        intro name hname
        rcases List.mem_append.1 hname with hname | hname
        · exact ih hfirst name hname
        · exact ⟨steps, le_rfl, List.mem_singleton.1 hname ▸ hbelow⟩
      have hseen : other ∈ (declared ++ (first ++ [below]).flatMap supers).eraseDups :=
        List.mem_eraseDups.2 (List.mem_append_right _ (List.mem_flatMap.2
          ⟨below, List.mem_append_right _ List.mem_cons_self, hparent⟩))
      intro name hname
      have hmem := subset_of_mem_prefix hnodup (prefix_of_first_seen h hfirst) hl hseen hname
      rcases List.mem_append.1 (List.mem_eraseDups.1 hmem) with hname | hname
      · exact ⟨0, Nat.zero_le _, .declared hname⟩
      · obtain ⟨lower, hlower, hparent⟩ := List.mem_flatMap.1 hname
        obtain ⟨fewer, hle, hlies⟩ := hnear lower hlower
        exact ⟨fewer + 1, Nat.succ_le_succ hle, .link hlies hparent⟩

/-- A list in the order of first sight, of names that lie above the declared ones, is the
closure. -/
theorem closesUp_of_first_seen (h : closure = (declared ++ closure.flatMap supers).eraseDups)
    (hsound : ∀ name ∈ closure, ∃ steps, LiesAbove supers declared steps name) :
    ClosesUp supers declared closure := by
  have hnodup : closure.Nodup := h ▸ nodup_eraseDups _
  have hclosed : (declared ++ closure.flatMap supers).eraseDups ⊆ closure :=
    fun name hname => h.symm ▸ hname
  refine ⟨hnodup, fun name => ⟨hsound name, fun ⟨_, hname⟩ => mem_of_liesAbove hclosed hname⟩,
    ?_, h, ?_⟩
  · have hfirst := prefix_of_first_seen h (List.nil_prefix)
    rwa [List.flatMap_nil, List.append_nil] at hfirst
  · have hpairs {l : List String} (hl : l <+: closure) :
        l.Pairwise fun name other => ∀ steps, LiesAbove supers declared steps other →
          ∃ fewer ≤ steps, LiesAbove supers declared fewer name := by
      induction l using List.reverseRecOn with
      | nil => exact .nil
      | append_singleton l other ih =>
          refine List.pairwise_append.2
            ⟨ih ((List.prefix_append _ _).trans hl), List.pairwise_singleton _ _, ?_⟩
          intro name hname other' hother' steps hlies
          obtain rfl := List.mem_singleton.1 hother'
          exact exists_fewer h hnodup hlies hl name hname
    exact hpairs List.prefix_rfl

namespace ClosesUp

/-- The first names of one closure come first in another. -/
theorem take_prefix (h : ClosesUp supers declared closure)
    (h' : ClosesUp supers declared closure') (n : Nat) : closure.take n <+: closure' := by
  induction n with
  | zero => exact List.nil_prefix
  | succ n ih =>
      have hfirst := prefix_of_first_seen h.first_seen (List.take_prefix n closure)
      have hfirst' := prefix_of_first_seen h'.first_seen ih
      by_cases hlength : n + 1 ≤ (declared ++ (closure.take n).flatMap supers).eraseDups.length
      · exact (List.prefix_of_prefix_length_le (List.take_prefix _ _) hfirst
          ((List.length_take_le _ _).trans hlength)).trans hfirst'
      · -- nothing new is seen above the first names, so that they are all there are
        have hlength' := hfirst.length_le
        have hclosed : (declared ++ (closure.take n).flatMap supers).eraseDups <+: closure.take n :=
          List.prefix_of_prefix_length_le hfirst (List.take_prefix _ _)
            (by rw [List.length_take]; omega)
        have hall : closure ⊆ closure.take n := fun name hname => by
          obtain ⟨_, hlies⟩ := (h.mem_iff name).1 hname
          exact mem_of_liesAbove hclosed.subset hlies
        have hshort := (List.subperm_of_subset h.nodup hall).length_le
        rw [List.length_take] at hshort
        rw [List.take_of_length_le (by omega)]
        rwa [List.take_of_length_le (by omega)] at ih

/-- **There is one closure.** -/
theorem unique (h : ClosesUp supers declared closure) (h' : ClosesUp supers declared closure') :
    closure = closure' := by
  have hbegins := h.take_prefix h' closure.length
  have hbegins' := h'.take_prefix h closure'.length
  rw [List.take_length] at hbegins hbegins'
  exact hbegins.eq_of_length_le hbegins'.length_le

end ClosesUp

/-! ### The queue -/

/-- Some names have been taken from the queue and others are in it: together they are those first
seen among the declared names and above the names taken. -/
structure Queued (supers : String → List String) (declared taken queue : List String) : Prop where
  first_seen : taken ++ queue = (declared ++ taken.flatMap supers).eraseDups
  sound : ∀ name ∈ taken ++ queue, ∃ steps, LiesAbove supers declared steps name

namespace Queued

variable {taken queue : List String} {name : String}

theorem start (supers : String → List String) (declared : List String) :
    Queued supers declared [] (fresh [] declared) where
  first_seen := by rw [List.nil_append, List.flatMap_nil, List.append_nil, fresh_nil]
  sound name hname := by
    rw [List.nil_append, fresh_nil, List.mem_eraseDups] at hname
    exact ⟨0, .declared hname⟩

/-- What one step of the queue does: the names above the next one go to its end, those left out that
have been seen. -/
theorem step (h : Queued supers declared taken (name :: queue)) :
    Queued supers declared (taken ++ [name])
      (queue ++ fresh (taken ++ name :: queue) (supers name)) := by
  have hseen : (taken ++ [name]) ++ (queue ++ fresh (taken ++ name :: queue) (supers name)) =
      (taken ++ name :: queue) ++ fresh (taken ++ name :: queue) (supers name) := by
    simp only [List.append_assoc, List.cons_append, List.nil_append]
  constructor
  · rw [hseen, List.flatMap_append, ← List.append_assoc, eraseDups_append_eq, ← h.first_seen,
      List.flatMap_singleton]
  · rw [hseen]
    intro other hother
    rcases List.mem_append.1 hother with hother | hother
    · exact h.sound other hother
    · rw [fresh_eq, List.mem_eraseDups, List.mem_filter] at hother
      obtain ⟨steps, hname⟩ := h.sound name (by simp)
      exact ⟨steps + 1, .link hname hother.1⟩

theorem nodup (h : Queued supers declared taken queue) : (taken ++ queue).Nodup :=
  h.first_seen ▸ nodup_eraseDups _

/-- When the queue is empty, the closure has been taken from it. -/
theorem closesUp (h : Queued supers declared taken []) : ClosesUp supers declared taken := by
  have hfirst := h.first_seen
  have hsound := h.sound
  rw [List.append_nil] at hfirst hsound
  exact closesUp_of_first_seen hfirst hsound

/-- **The queue is worked off**, if no more distinct names lie above the declared ones than names
have been taken and steps are left. -/
theorem exists_closeQueue {r : Reader} (hsupers : ∀ name, above r name = .ok (supers name))
    {bound : Nat} (hbound : ∀ names : List String, names.Nodup →
      (∀ name ∈ names, ∃ steps, LiesAbove supers declared steps name) → names.length ≤ bound)
    {steps : Nat} (h : Queued supers declared taken queue) (hsteps : bound ≤ taken.length + steps) :
    ∃ rest, closeQueue r steps queue (taken ++ queue) = .ok rest ∧
      ClosesUp supers declared (taken ++ rest) := by
  induction steps generalizing taken queue with
  | zero =>
      cases queue with
      | nil => exact ⟨[], rfl, by rw [List.append_nil]; exact h.closesUp⟩
      | cons name queue =>
          have hlength := hbound _ h.nodup h.sound
          rw [List.length_append, List.length_cons] at hlength
          omega
  | succ steps ih =>
      cases queue with
      | nil => exact ⟨[], rfl, by rw [List.append_nil]; exact h.closesUp⟩
      | cons name queue =>
          obtain ⟨rest, hrest, hcloses⟩ := ih h.step (by simp; omega)
          refine ⟨name :: rest, ?_, by simpa using hcloses⟩
          simp only [List.append_assoc, List.cons_append, List.nil_append] at hrest
          simp only [closeQueue, hsupers, bind, Except.bind, List.append_assoc, List.cons_append,
            hrest]
          rfl

end Queued

/-! ### The registry -/

/-- The names above a name, as a registry has them. -/
def registered (types : Table NodeType) (name : String) : List String :=
  (types[name]?.map NodeType.supertypes).getD []

/-- The reader answers about types from a registry. -/
structure Reads (r : Reader) (types : Table NodeType) : Prop where
  nodeType : ∀ name, r.nodeType name = .ok types[name]?
  typeLinks : r.typeLinks = (types.values.flatMap NodeType.supertypes).length

variable {r : Reader} {types : Table NodeType}

theorem Reads.above_eq (hr : Reads r types) (name : String) :
    above r name = .ok (registered types name) := by
  rw [above, hr.nodeType, registered]
  cases types[name]? <;> rfl

/-- There are no more names above the declared ones than declared names and registered links. -/
theorem length_le {names : List String} (hnodup : names.Nodup)
    (hnames : ∀ name ∈ names, ∃ steps, LiesAbove (registered types) declared steps name) :
    names.length ≤ (fresh [] declared).length +
      (types.values.flatMap NodeType.supertypes).length := by
  have hsubset : names ⊆ fresh [] declared ++ types.values.flatMap NodeType.supertypes := by
    intro name hname
    obtain ⟨steps, hlies⟩ := hnames name hname
    rw [fresh_nil, List.mem_append, List.mem_eraseDups]
    cases hlies with
    | declared hname => exact .inl hname
    | @link _ below _ _ hparent =>
        rw [registered] at hparent
        cases hbelow : types[below]? with
        | none => simp [hbelow] at hparent
        | some t =>
            rw [hbelow] at hparent
            exact .inr (List.mem_flatMap.2 ⟨t, Table.mem_values_iff.2 ⟨below, hbelow⟩, hparent⟩)
  exact (List.subperm_of_subset hnodup hsubset).length_le.trans_eq List.length_append

/-- **The closure is found**, for every registry and every list of declared names, and a queue that
may be worked off in more steps does not find anything else. -/
theorem exists_closesUp (hr : Reads r types) (declared : List String) :
    ∃ closure, close r declared = .ok closure ∧ ClosesUp (registered types) declared closure ∧
      ∀ steps, (fresh [] declared).length + r.typeLinks ≤ steps →
        closeQueue r steps (fresh [] declared) (fresh [] declared) = .ok closure := by
  have hfound {steps : Nat} (hsteps : (fresh [] declared).length + r.typeLinks ≤ steps) :
      ∃ closure, closeQueue r steps (fresh [] declared) (fresh [] declared) = .ok closure ∧
        ClosesUp (registered types) declared closure := by
    have h := (Queued.start (registered types) declared).exists_closeQueue hr.above_eq
      (fun names => length_le) (by rw [← hr.typeLinks]; simpa using hsteps)
    simpa only [List.nil_append] using h
  obtain ⟨closure, hclose, hcloses⟩ := hfound le_rfl
  refine ⟨closure, hclose, hcloses, fun steps hsteps => ?_⟩
  obtain ⟨closure', hclose', hcloses'⟩ := hfound hsteps
  exact hcloses'.unique hcloses ▸ hclose'

end TypeClosure

end LinkedStore
