import LinkedStore.Proofs.Description.Embedding
import LinkedStore.Proofs.Store.Freeze
import Mathlib.Algebra.Order.BigOperators.Group.List
import Mathlib.Algebra.Order.Ring.Nat
import Mathlib.Data.List.TakeWhile

/-!
# The hash fragments of a description

The nodes below the holder of a resource are embedded one after the other, each with the blank nodes
that it leads to.  The paths visited are handed on from one to the next, so that no blank node is
embedded on the account of two of them.  A node below the holder is embedded when its turn comes,
whether or not it has been visited: one that is itself a blank node, to which a node before it
leads, is embedded twice.

## Main definitions

* `Description.LedTo` : the blank nodes that some resources lead to.
* `Description.Unfolds` : the walk over the nodes below a holder, without a bound.
* `Description.Swept` : what has been visited after some of the nodes.
* `Description.Sweep` : the nodes below a holder, and the blank nodes embedded on their account.
* `Description.EmbedsFragments` : the walk comes to an end, and states what a sweep embeds, unless
  it fails.

## Main statements

* `Description.Swept.snoc`, `Description.Unfolds.swept` : what one node below a holder adds, and
  what all of them do.
* `Description.embeds_fragments` : what the walk embeds, in every state of a host.
* `Description.not_forall_statesOnce` : a node that it embeds twice.
-/

namespace LinkedStore.Description

variable {v : View} {w : Workspace} {x y b owner : Resource}

/-! ### What comes before a node -/

section Before

variable {nodes : List Resource}

/-- The members of a list that come before a node; all of them, if it is not there. -/
def before (b : Resource) (nodes : List Resource) : List Resource := nodes.takeWhile (· ≠ b)

@[simp] theorem before_nil : before b [] = [] := rfl

@[simp] theorem before_self (nodes : List Resource) : before b (b :: nodes) = [] :=
  List.takeWhile_cons_of_neg (by simp)

theorem before_subset : before b nodes ⊆ nodes := (List.takeWhile_sublist _).subset

theorem before_append_of_notMem (hb : b ∉ nodes) (more : List Resource) :
    before b (nodes ++ more) = nodes ++ before b more :=
  List.takeWhile_append_of_pos fun _ hy => decide_eq_true fun heq => hb (heq ▸ hy)

theorem before_of_notMem (hb : b ∉ nodes) : before b nodes = nodes := by
  have h := before_append_of_notMem hb []
  rwa [List.append_nil, before_nil, List.append_nil] at h

theorem before_append_of_mem (hb : b ∈ nodes) (more : List Resource) :
    before b (nodes ++ more) = before b nodes := by
  obtain ⟨first, rest, rfl, hfirst⟩ := List.eq_append_cons_of_mem hb
  rw [List.append_assoc, List.cons_append, before_append_of_notMem hfirst,
    before_append_of_notMem hfirst, before_self, before_self]

theorem before_subset_append (more : List Resource) :
    before b nodes ⊆ before b (nodes ++ more) := by
  by_cases hb : b ∈ nodes
  · rw [before_append_of_mem hb]
    exact List.Subset.refl _
  · rw [before_append_of_notMem hb]
    exact List.Subset.trans before_subset (List.subset_append_left _ _)

end Before

/-! ### What some resources lead to -/

/-- The blank nodes that one of some resources points at, directly or through other blank nodes,
without the owner of the description. -/
inductive LedTo (v : View) (owner : Resource) (sources : List Resource) : Resource → Prop
  | direct {x b : Resource} (hx : x ∈ sources) (hpoints : PointsAt v x b)
      (hne : b.path ≠ owner.path) : LedTo v owner sources b
  | further {y b : Resource} (hy : LedTo v owner sources y) (hpoints : PointsAt v y b)
      (hne : b.path ≠ owner.path) : LedTo v owner sources b

namespace LedTo

variable {sources more : List Resource}

theorem mono (h : LedTo v owner sources b) (hsubset : sources ⊆ more) : LedTo v owner more b := by
  induction h with
  | direct hx hpoints hne => exact .direct (hsubset hx) hpoints hne
  | further _ hpoints hne ih => exact .further ih hpoints hne

/-- A blank node that a source, or one that the sources lead to, points at is led to. -/
theorem of_pointsAt (hy : y ∈ sources ∨ LedTo v owner sources y) (hpoints : PointsAt v y b)
    (hne : b.path ≠ owner.path) : LedTo v owner sources b :=
  hy.elim (fun hy => .direct hy hpoints hne) fun hy => .further hy hpoints hne

end LedTo

theorem Reached.pointsAt_iff (c : Reached v) :
    PointsAt v c.node b ↔ ∃ p value, .ok p ∈ c.opening.listing ∧ value ∈ p.values ∧
      blankTarget? v value = .ok (some b) := by
  rw [Description.pointsAt_iff]
  constructor
  · rintro ⟨listing, p, value, hlisting, h⟩
    obtain rfl := Except.ok.inj (c.properties_eq.symm.trans hlisting)
    exact ⟨p, value, h⟩
  · rintro ⟨p, value, h⟩
    exact ⟨c.opening.listing, p, value, c.properties_eq, h⟩

/-! ### The walk without a bound -/

/-- A node below a holder, with the blank nodes that are embedded on its account. -/
structure Round (v : View) where
  fragment : Reached v
  embedded : List (Reached v)

/-- The nodes of a round in the order in which they are embedded. -/
def Round.nodes (round : Round v) : List (Reached v) := round.fragment :: round.embedded

/-- The walk over the nodes below a holder, given the paths visited so far: its rounds, and the
items that it comes to.  A failure ends a round, and it is the turn of the next node. -/
inductive Unfolds (v : View) : List (Except Error Node) → List String → List (Round v) →
    List (Except Error Triple) → Prop
  | done {visited} : Unfolds v [] visited [] []
  | broken {e rest visited rounds items} (h : Unfolds v rest visited rounds items) :
      Unfolds v (.error e :: rest) visited rounds (.error e :: items)
  | roleless {n rest visited e rounds items} (hrole : Resource.ofNode v.reader n = .error e)
      (h : Unfolds v rest visited rounds items) :
      Unfolds v (.ok n :: rest) visited rounds (.error e :: items)
  | refused {n x rest visited e rounds items} (hrole : Resource.ofNode v.reader n = .ok x)
      (hopening : Opening.of v x = .error e) (h : Unfolds v rest (x.path :: visited) rounds items) :
      Unfolds v (.ok n :: rest) visited rounds (.error e :: items)
  | goesOn {n rest visited triples ending rounds items} (round : Round v)
      (hrole : Resource.ofNode v.reader n = .ok round.fragment.node)
      (hexplores : Explores v [.node round.fragment] (round.fragment.path :: visited) round.nodes
        triples ending)
      (h : Unfolds v rest ending.visited rounds items) :
      Unfolds v (.ok n :: rest) visited (round :: rounds) (ending.items triples ++ items)

/-- What is embedded on the account of a node comes after it. -/
theorem Explores.eq_cons_of_node {c : Reached v} {visited : List String} {nodes : List (Reached v)}
    {triples : List Triple} {ending : Ending}
    (h : Explores v [.node c] visited nodes triples ending) :
    ∃ embedded, nodes = c :: embedded := by
  cases h with
  | cut _ => exact ⟨[], rfl⟩
  | embed _ _ => exact ⟨_, rfl⟩

/-- **The walk over the nodes below a holder comes to an end**: with a bound greater than the number
of stored paths, it does what the walk without a bound does. -/
theorem exists_unfolds {stored : Finset String} {depth : Nat}
    (hstored : ∀ value x, blankTarget? v value = .ok (some x) → x.path ∈ stored)
    (hdepth : stored.card < depth) (listing : List (Except Error Node)) (visited : List String) :
    ∃ rounds, Unfolds v listing visited rounds ((walkFragments depth listing visited).items v) := by
  induction listing generalizing visited with
  | nil => exact ⟨[], .done⟩
  | cons item rest ih =>
      cases item with
      | error e =>
          obtain ⟨rounds, hrest⟩ := ih visited
          exact ⟨rounds, .broken hrest⟩
      | ok n =>
          cases hrole : Resource.ofNode v.reader n with
          | error e =>
              obtain ⟨rounds, hrest⟩ := ih visited
              have hitems : (walkFragments depth (.ok n :: rest) visited).items v =
                  .error e :: (walkFragments depth rest visited).items v := by
                simp only [walkFragments, List.foldr_cons, Flow.items, hrole]
              exact ⟨rounds, hitems ▸ .roleless hrole hrest⟩
          | ok x =>
              cases hopening : Opening.of v x with
              | error e =>
                  obtain ⟨rounds, hrest⟩ := ih (x.path :: visited)
                  have hitems : (walkFragments depth (.ok n :: rest) visited).items v =
                      .error e :: (walkFragments depth rest (x.path :: visited)).items v := by
                    simp only [walkFragments, List.foldr_cons, Flow.items, hrole, hopening]
                  exact ⟨rounds, hitems ▸ .refused hrole hopening hrest⟩
              | ok opening =>
                  let c : Reached v := ⟨x, opening, hopening⟩
                  obtain ⟨nodes, triples, ending, hexplores, hround⟩ :=
                    exists_explores_node hstored hdepth c (c.path :: visited)
                  obtain ⟨embedded, rfl⟩ := hexplores.eq_cons_of_node
                  obtain ⟨rounds, hrest⟩ := ih ending.visited
                  have hitems : (walkFragments depth (.ok n :: rest) visited).items v =
                      ending.items triples ++
                        (walkFragments depth rest ending.visited).items v := by
                    have hstep := hround (walkFragments depth rest) (walkFragments depth rest)
                    rw [Ending.onward_self] at hstep
                    rw [← hstep]
                    simp only [walkFragments, List.foldr_cons, Flow.items, hrole, hopening]
                    rfl
                  exact ⟨⟨c, embedded⟩ :: rounds,
                    hitems ▸ .goesOn ⟨c, embedded⟩ hrole hexplores hrest⟩

/-! ### The nodes embedded on the account of one -/

namespace Explores

variable {c : Reached v} {visited : List String} {more : List (Reached v)}
  {triples : List Triple} {ending : Ending}

/-- No node that has been visited is embedded on the account of another. -/
theorem notMem_visited_of_node (h : Explores v [.node c] visited (c :: more) triples ending) :
    ∀ d ∈ more, d.path ∉ visited := by
  cases h with
  | cut => simp
  | embed _ h =>
      intro d hd
      have hpending := h.origin hd
      rw [pending_properties] at hpending
      exact hpending.resolve_left (by simp)

/-- A node is embedded on the account of one that leads to it. -/
theorem ledTo_of_node (h : Explores v [.node c] visited (c :: more) triples ending)
    (howner : owner.path ∈ visited) : ∀ d ∈ more, LedTo v owner [c.node] d.node := by
  have hpointed {y d : Reached v} {p : Property} {value : Value}
      (hy : y.node ∈ [c.node] ∨ LedTo v owner [c.node] y.node) (hp : .ok p ∈ y.opening.listing)
      (hvalue : value ∈ p.values) (htarget : blankTarget? v value = .ok (some d.node))
      (hd : d.path ∉ [owner.path]) : LedTo v owner [c.node] d.node :=
    .of_pointsAt hy (y.pointsAt_iff.2 ⟨p, value, hp, hvalue, htarget⟩)
      fun hpath => hd (List.mem_singleton.2 hpath)
  cases h with
  | cut => simp
  | embed _ h =>
      refine h.forall_embedded (List.cons_subset.2 ⟨howner, List.nil_subset _⟩) (by simp)
        (fun p hp value hvalue d htarget hd => ?_)
        fun y hy p hp value hvalue d htarget hd => hpointed (.inr hy) hp hvalue htarget hd
      have hp : .ok p ∈ c.opening.listing := by simpa using hp
      exact hpointed (.inl List.mem_cons_self) hp hvalue htarget hd

end Explores

/-! ### What has been visited -/

/-- The nodes that a walk has come by are those visited beside the owner, and whatever they point at
has been visited. -/
structure Settled (v : View) (w : Workspace) (owner : Resource) (known : List (Reached v))
    (visited : List String) : Prop where
  found : ∀ c ∈ known, c.node.FoundIn w v.reader
  mem_visited_iff : ∀ {path : String},
    path ∈ visited ↔ path = owner.path ∨ ∃ c ∈ known, c.path = path
  closed : ∀ c ∈ known, ∀ b, PointsAt v c.node b → b.path ∈ visited

namespace Settled

variable {known known' nodes : List (Reached v)} {visited visited' : List String}
  {triples : List Triple}

theorem of_mem_iff (h : Settled v w owner known visited) (hmem : ∀ c, c ∈ known' ↔ c ∈ known) :
    Settled v w owner known' visited where
  found c hc := h.found c ((hmem c).1 hc)
  mem_visited_iff := by
    intro path
    simpa only [hmem] using h.mem_visited_iff
  closed c hc := h.closed c ((hmem c).1 hc)

variable (ha : v.reader.ReadsFrom w) (hw : w.Filed)

include ha hw

/-- Nothing is left out that the nodes lead to. -/
theorem exists_of_ledTo (h : Settled v w owner known visited) {sources : List Resource}
    (hsources : ∀ x ∈ sources, ∃ c ∈ known, c.node = x) (hb : LedTo v owner sources b) :
    ∃ c ∈ known, c.node = b := by
  have hpointed {y b : Resource} (hy : ∃ c ∈ known, c.node = y) (hpoints : PointsAt v y b)
      (hne : b.path ≠ owner.path) : ∃ c ∈ known, c.node = b := by
    obtain ⟨c, hc, rfl⟩ := hy
    obtain ⟨d, hd, hpath⟩ := (h.mem_visited_iff.1 (h.closed c hc b hpoints)).resolve_left hne
    exact ⟨d, hd, (h.found d hd).eq_of_path (hpoints.foundIn ha hw) hpath⟩
  induction hb with
  | direct hx hpoints hne => exact hpointed (hsources _ hx) hpoints hne
  | further _ hpoints hne ih => exact hpointed ih hpoints hne

/-- A walk from one more node comes by it, and by the nodes that it embeds. -/
theorem explore (h : Settled v w owner known visited) {c : Reached v}
    (hc : c.node.FoundIn w v.reader)
    (hexplores : Explores v [.node c] (c.path :: visited) nodes triples (.finished visited')) :
    Settled v w owner (known ++ nodes) visited' := by
  have hnodes : ∀ {path : String}, path ∈ visited' ↔
      (∃ d ∈ nodes, d.path = path) ∨ path ∈ c.path :: visited :=
    hexplores.mem_visited_iff (by simp)
  have hself : c ∈ nodes := hexplores.mem_of_node List.mem_cons_self
  have hpointed {d : Reached v} {p : Property} {value : Value} (b : Reached v)
      (hp : .ok p ∈ d.opening.listing) (hvalue : value ∈ p.values)
      (htarget : blankTarget? v value = .ok (some b.node)) : b.node.FoundIn w v.reader :=
    (d.pointsAt_iff.2 ⟨p, value, hp, hvalue, htarget⟩).foundIn ha hw
  refine ⟨fun d hd => ?_, fun {path} => ?_, fun d hd b hpoints => ?_⟩
  · rcases List.mem_append.1 hd with hd | hd
    · exact h.found d hd
    · refine hexplores.forall_embedded (List.nil_subset _) (fun b hb => ?_) (by simp)
        (fun d _ p hp value hvalue b htarget _ => hpointed b hp hvalue htarget) d hd
      exact Task.node.inj (List.mem_singleton.1 hb) ▸ hc
  · simp only [hnodes, List.mem_cons, h.mem_visited_iff, List.mem_append, or_and_right, exists_or]
    constructor
    · rintro (hnode | rfl | howner | hknown)
      · exact .inr (.inr hnode)
      · exact .inr (.inr ⟨c, hself, rfl⟩)
      · exact .inl howner
      · exact .inr (.inl hknown)
    · rintro (howner | hknown | hnode)
      · exact .inr (.inr (.inl howner))
      · exact .inr (.inr (.inr hknown))
      · exact .inl hnode
  · rcases List.mem_append.1 hd with hd | hd
    · exact hexplores.subset (List.mem_cons_of_mem _ (h.closed d hd b hpoints))
    · obtain ⟨p, value, hp, hvalue, htarget⟩ := d.pointsAt_iff.1 hpoints
      exact hnodes.2 ((hexplores.closed.2 d hd p hp value hvalue b htarget).symm)

end Settled

/-- What has been embedded after some nodes below a holder: beside those nodes, each blank node once
that one of them leads to, those left out that are among them and that no node before them leads
to. -/
structure Swept (v : View) (w : Workspace) (owner : Resource)
    (fragments embedded : List (Reached v)) (visited : List String) : Prop where
  settled : Settled v w owner (fragments ++ embedded) visited
  nodup : (embedded.map Reached.path).Nodup
  mem_iff : ∀ {b : Resource}, b ∈ embedded.map Reached.node ↔
    LedTo v owner (before b (fragments.map Reached.node)) b

namespace Swept

variable {fragments embedded : List (Reached v)} {visited visited' : List String}
  {triples : List Triple} {ending : Ending}

theorem nil : Swept v w owner [] [] [owner.path] where
  settled := ⟨by simp, by simp, by simp⟩
  nodup := .nil
  mem_iff := by
    intro b
    have hnone {y : Resource} (h : LedTo v owner [] y) : False := by
      induction h with
      | direct hx _ _ => cases hx
      | further _ _ _ ih => exact ih
    exact ⟨by simp, fun h => (hnone h).elim⟩

variable {c : Reached v} {more : List (Reached v)}

theorem mem_visited (h : Swept v w owner fragments embedded visited) {d : Reached v}
    (hd : d ∈ fragments ++ embedded) : d.path ∈ visited :=
  h.settled.mem_visited_iff.2 (.inr ⟨d, hd, rfl⟩)

/-- A blank node that is embedded on the account of one more node has not been visited, so that it
is not among the nodes so far. -/
theorem ledTo_of_mem (h : Swept v w owner fragments embedded visited)
    (hexplores : Explores v [.node c] (c.path :: visited) (c :: more) triples ending)
    {d : Reached v} (hd : d ∈ more) :
    LedTo v owner (before d.node ((fragments ++ [c]).map Reached.node)) d.node := by
  have hnew := hexplores.notMem_visited_of_node d hd
  have hfresh : d.node ∉ (fragments ++ [c]).map Reached.node := by
    intro hmem
    obtain ⟨d', hd', heq⟩ := List.mem_map.1 hmem
    obtain rfl := Reached.eq_of_node heq
    rcases List.mem_append.1 hd' with hd' | hd'
    · exact hnew (List.mem_cons_of_mem _ (h.mem_visited (List.mem_append_left _ hd')))
    · exact hnew (List.mem_singleton.1 hd' ▸ List.mem_cons_self)
  have howner : owner.path ∈ c.path :: visited :=
    List.mem_cons_of_mem _ (h.settled.mem_visited_iff.2 (.inl rfl))
  rw [before_of_notMem hfresh, List.map_append]
  exact (hexplores.ledTo_of_node howner d hd).mono (List.subset_append_right _ _)

/-- Once nothing is left out that one more node leads to, whatever is led to by a node before it has
been embedded. -/
theorem mem_of_ledTo (ha : v.reader.ReadsFrom w) (hw : w.Filed)
    (h : Swept v w owner fragments embedded visited)
    (hsettled : Settled v w owner ((fragments ++ [c]) ++ (embedded ++ more)) visited')
    (hb : LedTo v owner (before b ((fragments ++ [c]).map Reached.node)) b) :
    b ∈ (embedded ++ more).map Reached.node := by
  have hold (hb : b ∈ embedded.map Reached.node) : b ∈ (embedded ++ more).map Reached.node := by
    rw [List.map_append]
    exact List.mem_append_left _ hb
  by_cases hmem : b ∈ (fragments ++ [c]).map Reached.node
  · rw [List.map_append] at hmem hb
    by_cases hearlier : b ∈ fragments.map Reached.node
    · rw [before_append_of_mem hearlier] at hb
      exact hold (h.mem_iff.2 hb)
    · obtain rfl : b = c.node :=
        List.mem_singleton.1 ((List.mem_append.1 hmem).resolve_left hearlier)
      rw [before_append_of_notMem hearlier, List.map_singleton, before_self, List.append_nil] at hb
      exact hold (h.mem_iff.2 (by rwa [before_of_notMem hearlier]))
  · have hsources : ∀ x ∈ (fragments ++ [c]).map Reached.node,
        ∃ d ∈ (fragments ++ [c]) ++ (embedded ++ more), d.node = x := by
      intro x hx
      obtain ⟨d, hd, heq⟩ := List.mem_map.1 hx
      exact ⟨d, List.mem_append_left _ hd, heq⟩
    obtain ⟨d, hd, rfl⟩ := hsettled.exists_of_ledTo ha hw hsources (hb.mono before_subset)
    rcases List.mem_append.1 hd with hd | hd
    · exact absurd (List.mem_map_of_mem hd) hmem
    · exact List.mem_map_of_mem hd

/-- What one more node below the holder adds. -/
theorem snoc (ha : v.reader.ReadsFrom w) (hw : w.Filed)
    (h : Swept v w owner fragments embedded visited) (hfound : c.node.FoundIn w v.reader)
    (hexplores : Explores v [.node c] (c.path :: visited) (c :: more) triples
      (.finished visited')) :
    Swept v w owner (fragments ++ [c]) (embedded ++ more) visited' := by
  have hsettled : Settled v w owner ((fragments ++ [c]) ++ (embedded ++ more)) visited' := by
    refine (h.settled.explore ha hw hfound hexplores).of_mem_iff fun d => ?_
    simp only [List.mem_append, List.mem_cons, List.not_mem_nil, or_false]
    tauto
  refine ⟨hsettled, ?_, fun {b} => ⟨fun hb => ?_, h.mem_of_ledTo ha hw hsettled⟩⟩
  · have hmore := hexplores.nodup (by simp) (by simp)
    rw [List.map_append, List.nodup_append']
    refine ⟨h.nodup, (List.nodup_cons.1 hmore).2, fun path hold hnew => ?_⟩
    obtain ⟨d, hd, rfl⟩ := List.mem_map.1 hnew
    obtain ⟨d', hd', hpath⟩ := List.mem_map.1 hold
    have hvisited : d.path ∈ visited := hpath ▸ h.mem_visited (List.mem_append_right _ hd')
    exact hexplores.notMem_visited_of_node d hd (List.mem_cons_of_mem _ hvisited)
  · obtain ⟨d, hd, rfl⟩ := List.mem_map.1 hb
    rcases List.mem_append.1 hd with hd | hd
    · have hled := h.mem_iff.1 (List.mem_map_of_mem hd)
      rw [List.map_append]
      exact hled.mono (before_subset_append _)
    · exact h.ledTo_of_mem hexplores hd

end Swept

namespace Unfolds

variable {listing : List (Except Error Node)} {rounds : List (Round v)}
  {visited : List String} {items : List (Except Error Triple)}

/-- Unless the walk fails, it takes the nodes of the listing in order. -/
theorem listing_eq (h : Unfolds v listing visited rounds items) (hitems : ∀ e, .error e ∉ items) :
    listing = (rounds.map fun round => round.fragment.node.node).map .ok := by
  induction h with
  | done => rfl
  | broken => exact absurd List.mem_cons_self (hitems _)
  | roleless => exact absurd List.mem_cons_self (hitems _)
  | refused => exact absurd List.mem_cons_self (hitems _)
  | goesOn round hrole _ _ ih =>
      rw [ih fun e he => hitems e (List.mem_append_right _ he), List.map_cons, List.map_cons,
        Resource.node_of_ofNode hrole]

/-- The walk takes each node in its role. -/
theorem role (h : Unfolds v listing visited rounds items) :
    ∀ round ∈ rounds, Resource.ofNode v.reader round.fragment.node.node =
      .ok round.fragment.node := by
  induction h with
  | done => simp
  | broken _ ih => exact ih
  | roleless _ _ ih => exact ih
  | refused _ _ _ ih => exact ih
  | goesOn round hrole _ _ ih =>
      exact List.forall_mem_cons.2 ⟨Resource.node_of_ofNode hrole ▸ hrole, ih⟩

/-- Unless the walk fails, its items are what the nodes yield, one after the other. -/
theorem yields (h : Unfolds v listing visited rounds items) {triples : List Triple}
    (hitems : items = triples.map .ok) : ∃ parts,
      List.Forall₂ (fun b part => b.opening.own.Yields v part) (rounds.flatMap Round.nodes) parts ∧
        triples = parts.flatten := by
  induction h generalizing triples with
  | done => exact ⟨[], .nil, List.map_eq_nil_iff.1 hitems.symm⟩
  | broken => cases triples <;> simp at hitems
  | roleless => cases triples <;> simp at hitems
  | refused => cases triples <;> simp at hitems
  | goesOn round _ hexplores _ ih =>
      obtain ⟨first, rest, rfl, hfirst, hrest⟩ := List.map_eq_append_iff.1 hitems.symm
      obtain ⟨hending, rfl⟩ := Ending.items_eq_map_ok hfirst.symm
      obtain ⟨parts, hparts, rfl⟩ := (hending ▸ hexplores).yields
      obtain ⟨parts', hparts', rfl⟩ := ih hrest.symm
      exact ⟨parts ++ parts', List.rel_append hparts hparts', List.flatten_append.symm⟩

/-- What all the nodes below a holder add. -/
theorem swept (ha : v.reader.ReadsFrom w) (hw : w.Filed) {fragments embedded : List (Reached v)}
    (hswept : Swept v w owner fragments embedded visited)
    (h : Unfolds v listing visited rounds items) {triples : List Triple}
    (hitems : items = triples.map .ok)
    (hlisting : ∀ n, .ok n ∈ listing → w.node? n.path = some n) : ∃ visited',
      Swept v w owner (fragments ++ rounds.map Round.fragment)
        (embedded ++ rounds.flatMap Round.embedded) visited' := by
  induction h generalizing fragments embedded triples with
  | @done visited => exact ⟨visited, by simpa using hswept⟩
  | broken => cases triples <;> simp at hitems
  | roleless => cases triples <;> simp at hitems
  | refused => cases triples <;> simp at hitems
  | goesOn round hrole hexplores _ ih =>
      obtain ⟨first, rest, rfl, hfirst, hrest⟩ := List.map_eq_append_iff.1 hitems.symm
      obtain ⟨hending, rfl⟩ := Ending.items_eq_map_ok hfirst.symm
      have hfound : round.fragment.node.FoundIn w v.reader :=
        Resource.foundIn_of_ofNode hw (hlisting _ List.mem_cons_self) hrole
      have hstep := hswept.snoc ha hw hfound (hending ▸ hexplores)
      obtain ⟨visited', hmore⟩ := ih hstep hrest.symm
        fun n hn => hlisting n (List.mem_cons_of_mem _ hn)
      refine ⟨visited', ?_⟩
      rwa [List.append_assoc, List.append_assoc] at hmore

end Unfolds

/-- The nodes of some rounds are the nodes below the holder and the nodes embedded on their
account. -/
theorem perm_nodes (rounds : List (Round v)) :
    (rounds.flatMap Round.nodes).Perm
      (rounds.map Round.fragment ++ rounds.flatMap Round.embedded) := by
  induction rounds with
  | nil => exact .nil
  | cons round rounds ih =>
      rw [List.flatMap_cons, List.map_cons, List.flatMap_cons, Round.nodes, List.cons_append,
        List.cons_append]
      refine ((ih.append_left round.embedded).trans ?_).cons round.fragment
      rw [← List.append_assoc, ← List.append_assoc]
      exact List.perm_append_comm.append_right _

/-! ### The stream -/

/-- The nodes below the holder of an owner, and the blank nodes that are embedded on their account:
each blank node that one of them leads to is embedded once, unless it is among them itself and no
node before it leads to it. -/
structure Sweep (v : View) (owner : Resource) (fragments embedded : List Resource) : Prop where
  listed : owner.hashChildren v.reader = .ok (fragments.map .ok)
  nodup_fragments : fragments.Nodup
  nodup_embedded : embedded.Nodup
  mem_iff : ∀ b, b ∈ embedded ↔ LedTo v owner (before b fragments) b

namespace Sweep

variable {fragments embedded : List Resource} (h : Sweep v owner fragments embedded)

include h

/-- Nothing is left out that the nodes below the holder lead to, and nothing else is embedded. -/
theorem mem_append_iff :
    b ∈ fragments ++ embedded ↔ b ∈ fragments ∨ LedTo v owner fragments b := by
  rw [List.mem_append, h.mem_iff]
  by_cases hb : b ∈ fragments
  · simp only [hb, true_or]
  · rw [before_of_notMem hb]

/-- Nothing is left out either without one occurrence of a node below the holder. -/
theorem mem_append_erase {c : Resource} (hb : b ∈ fragments)
    (hc : c ∈ fragments ∨ LedTo v owner fragments c) : c ∈ fragments ++ embedded.erase b := by
  by_cases hcb : c = b
  · exact List.mem_append_left _ (hcb ▸ hb)
  · rcases List.mem_append.1 (h.mem_append_iff.2 hc) with hc | hc
    · exact List.mem_append_left _ hc
    · exact List.mem_append_right _ ((List.mem_erase_of_ne hcb).2 hc)

/-- A node is embedded twice if it is below the holder and a node before it leads to it. -/
theorem nodup_iff :
    (fragments ++ embedded).Nodup ↔ ∀ b ∈ fragments, ¬LedTo v owner (before b fragments) b := by
  rw [List.nodup_append', and_iff_right h.nodup_fragments, and_iff_right h.nodup_embedded]
  exact forall₂_congr fun b _ => not_congr (h.mem_iff b)

end Sweep

/-- The walk over the hash fragments of a resource comes to an end, also without a bound, and behind
a failure too; unless it fails, it states what is to be stated about each node of a sweep: twice
about a node below the holder to which a node before it leads, and once about every other. -/
structure EmbedsFragments (v : View) (x : Resource) : Prop where
  ends : ∀ {s : Stream View}, hashFragments v x = .ok s → ∃ owner listing rounds,
    x.description v.reader = .ok owner ∧ owner.hashNodes v.reader = .ok listing ∧
      Unfolds v listing [owner.path] rounds (s.flow.items v)
  exact : ∀ {s : Stream View} {triples : List Triple}, hashFragments v x = .ok s →
    s.collect v = .ok triples → ∃ owner fragments embedded, x.description v.reader = .ok owner ∧
      Sweep v owner fragments embedded ∧ ∃ nodes parts, nodes.Perm (fragments ++ embedded) ∧
        List.Forall₂ (fun b part => ownTriples v b = .ok part) nodes parts ∧
        triples = parts.flatten ∧
        (∀ b, b ∈ nodes ↔ b ∈ fragments ∨ LedTo v owner fragments b) ∧
        (nodes.Nodup ↔ ∀ b ∈ fragments, ¬LedTo v owner (before b fragments) b)

/-- The hash fragments of a resource, and the blank nodes that they lead to, are each stated
once. -/
def StatesOnce (v : View) (x : Resource) : Prop :=
  ∀ {s : Stream View} {triples : List Triple}, hashFragments v x = .ok s →
    s.collect v = .ok triples → ∃ owner fragments, x.description v.reader = .ok owner ∧
      owner.hashChildren v.reader = .ok (fragments.map .ok) ∧ ∃ nodes : List Resource, nodes.Nodup ∧
        (∀ b, b ∈ nodes ↔ b ∈ fragments ∨ LedTo v owner fragments b) ∧ ∃ parts,
          List.Forall₂ (fun b part => ownTriples v b = .ok part) nodes parts ∧
          triples = parts.flatten

theorem hashNodes_eq_ok {a : Reader} {listing : List (Except Error Node)}
    (h : owner.hashNodes a = .ok listing) :
    listing = [] ∨ a.children (Path.child owner.path Vocab.Name.hashHolder) = .ok listing := by
  obtain ⟨found, -, h⟩ := bind_eq_ok_iff.1 h
  cases found with
  | none => exact .inl (pure_eq_ok_iff.1 h).symm
  | some _ => exact .inr h

/-- The nodes below a holder are told apart by their paths. -/
theorem nodup_hashNodes {h : Host} {a : Access} (hv : v.reader = a.reader h)
    (hw : (h.current a.number).Filed) {nodes : List Node}
    (hlisting : owner.hashNodes v.reader = .ok (nodes.map .ok)) :
    (nodes.map Node.path).Nodup := by
  rcases hashNodes_eq_ok hlisting with hnone | hchildren
  · rw [List.map_eq_nil_iff.1 hnone]
    exact .nil
  · rw [hv] at hchildren
    exact Access.children_eq hchildren ▸ Workspace.nodup_children hw.path _

/-- The stream of the hash fragments of a resource walks over the nodes below its holder, without a
bound. -/
theorem unfolds_of_hashFragments (ha : v.reader.ReadsFrom w) (hw : w.Filed) {s : Stream View}
    (hs : hashFragments v x = .ok s) :
    s.finished = false ∧ ∃ owner listing rounds, x.description v.reader = .ok owner ∧
      owner.hashNodes v.reader = .ok listing ∧
      Unfolds v listing [owner.path] rounds (s.flow.items v) := by
  obtain ⟨topic, -, hs⟩ := bind_eq_ok_iff.1 hs
  obtain ⟨owner, howner, hs⟩ := bind_eq_ok_iff.1 hs
  obtain ⟨listing, hlisting, hs⟩ := bind_eq_ok_iff.1 hs
  obtain rfl := Except.ok.inj hs
  obtain ⟨rounds, h⟩ := exists_unfolds (fun _ _ => path_mem_stored ha hw) (card_stored_lt ha)
    listing [owner.path]
  exact ⟨rfl, owner, listing, rounds, howner, hlisting, h⟩

/-- A walk over the nodes below a holder that does not fail is a sweep. -/
theorem Unfolds.sweep {h : Host} {a : Access} (hv : v.reader = a.reader h)
    (hw : (h.current a.number).Filed) {listing : List (Except Error Node)} {rounds : List (Round v)}
    {items : List (Except Error Triple)} {triples : List Triple}
    (hlisting : owner.hashNodes v.reader = .ok listing)
    (hunfolds : Unfolds v listing [owner.path] rounds items) (hitems : items = triples.map .ok) :
    Sweep v owner (rounds.map fun round => round.fragment.node)
      ((rounds.flatMap Round.embedded).map Reached.node) := by
  have ha : v.reader.ReadsFrom (h.current a.number) := hv ▸ a.readsFrom h
  have hnodes := hunfolds.listing_eq (by simp [hitems])
  have hstored : ∀ n, .ok n ∈ listing → (h.current a.number).node? n.path = some n := by
    intro n hn
    rcases hashNodes_eq_ok hlisting with rfl | hchildren
    · cases hn
    · exact (Workspace.node?_of_mem_children hw.path (ha.children hchildren hn)).1
  obtain ⟨visited, hswept⟩ := hunfolds.swept ha hw .nil hitems hstored
  rw [List.nil_append, List.nil_append] at hswept
  refine ⟨?_, ?_, ?_, fun b => ?_⟩
  · have hroles : Resource.eachOfNode v.reader listing =
        (rounds.map fun round => round.fragment.node).map .ok := by
      rw [hnodes, Resource.eachOfNode, List.map_map, List.map_map, List.map_map]
      exact List.map_congr_left hunfolds.role
    rw [Resource.hashChildren, hlisting, Except.map, hroles]
  · have hpaths := nodup_hashNodes hv hw (hnodes ▸ hlisting)
    rw [List.map_map] at hpaths
    refine List.Nodup.of_map Resource.path ?_
    rwa [List.map_map]
  · have hpaths : ((rounds.flatMap Round.embedded).map Reached.path).Nodup := hswept.nodup
    exact List.Nodup.of_map Resource.path (by rwa [List.map_map])
  · rw [hswept.mem_iff, List.map_map]
    rfl

/-- **The nodes below a holder are embedded, and the blank nodes that they lead to**, wherever a
reader reads from a state that is filed. -/
theorem embedsFragments {h : Host} {a : Access} (hv : v.reader = a.reader h)
    (hw : (h.current a.number).Filed) (x : Resource) : EmbedsFragments v x where
  ends hs := (unfolds_of_hashFragments (hv ▸ a.readsFrom h) hw hs).2
  exact := by
    intro s triples hs htriples
    obtain ⟨hfinished, owner, listing, rounds, howner, hlisting, hunfolds⟩ :=
      unfolds_of_hashFragments (hv ▸ a.readsFrom h) hw hs
    have hitems : s.flow.items v = triples.map .ok := by
      rw [Stream.collect_eq_ok_iff, Stream.remaining, hfinished] at htriples
      exact Flow.yields_untilFailure.1 htriples
    have hsweep := hunfolds.sweep hv hw hlisting hitems
    have hperm : ((rounds.flatMap Round.nodes).map Reached.node).Perm
        ((rounds.map fun round => round.fragment.node) ++
          (rounds.flatMap Round.embedded).map Reached.node) := by
      have hmap := (perm_nodes rounds).map Reached.node
      rwa [List.map_append, List.map_map] at hmap
    obtain ⟨parts, hparts, rfl⟩ := hunfolds.yields hitems
    refine ⟨owner, _, _, howner, hsweep, _, parts, hperm, ?_, rfl, fun b => ?_, ?_⟩
    · exact List.forall₂_map_left_iff.2 (hparts.imp fun b part => b.ownTriples_eq)
    · rw [hperm.mem_iff, hsweep.mem_append_iff]
    · rw [hperm.nodup_iff, hsweep.nodup_iff]

/-- **What a description embeds of its hash fragments**, in every state of a host, through whatever
the state is read, and however the nodes are named. -/
theorem embeds_fragments {r : Repository} (hr : r.IsNew) (calls : List Host.Call) (a : Access)
    (hv : v.reader = a.reader ((Host.mk r []).run calls)) (x : Resource) :
    EmbedsFragments v x :=
  embedsFragments hv (Host.filed_current hr calls a.number) x

/-! ### A node that is stated twice -/

/-- How many triples are stated about a node. -/
def ownCount (v : View) (b : Resource) : Nat := ((ownTriples v b).toOption.getD []).length

theorem length_flatten_eq_sum {nodes : List Resource} {parts : List (List Triple)}
    (h : List.Forall₂ (fun b part => ownTriples v b = .ok part) nodes parts) :
    parts.flatten.length = (nodes.map (ownCount v)).sum := by
  induction h with
  | nil => rfl
  | cons hpart _ ih =>
      rw [List.flatten_cons, List.length_append, ih, List.map_cons, List.sum_cons, ownCount, hpart]
      rfl

/-- Members that are listed once count no more than any list of them. -/
theorem sum_map_le_of_subset {α : Type} {l l' : List α} (hl : l.Nodup) (hsubset : l ⊆ l')
    (count : α → Nat) : (l.map count).sum ≤ (l'.map count).sum := by
  obtain ⟨members, hmembers, hsublist⟩ := List.subperm_of_subset hl hsubset
  rw [← (hmembers.map count).sum_eq]
  exact (hsublist.map count).sum_le_sum (by simp)

/-- A node below the holder to which a node before it leads is not stated once, if anything is
stated about it. -/
theorem EmbedsFragments.not_statesOnce (h : EmbedsFragments v x) {s : Stream View}
    {triples : List Triple} (hs : hashFragments v x = .ok s) (htriples : s.collect v = .ok triples)
    {fragments : List Resource} (howner : x.description v.reader = .ok owner)
    (hfragments : owner.hashChildren v.reader = .ok (fragments.map .ok)) (hb : b ∈ fragments)
    (hled : LedTo v owner (before b fragments) b) (hcount : 0 < ownCount v b) :
    ¬StatesOnce v x := by
  intro honce
  have hagree {l l' : List Resource} (hl : owner.hashChildren v.reader = .ok (l.map .ok))
      (hl' : owner.hashChildren v.reader = .ok (l'.map .ok)) : l = l' :=
    List.map_injective_iff.2 (fun _ _ => Except.ok.inj) (Except.ok.inj (hl.symm.trans hl'))
  obtain ⟨_, _, embedded, howner', hsweep, nodes, parts, hperm, hparts, rfl, -, -⟩ :=
    h.exact hs htriples
  obtain rfl := Except.ok.inj (howner.symm.trans howner')
  obtain rfl := hagree hfragments hsweep.listed
  obtain ⟨_, _, howner', hlisted, nodes', hnodup, hmem, parts', hparts', hflatten⟩ :=
    honce hs htriples
  obtain rfl := Except.ok.inj (howner.symm.trans howner')
  obtain rfl := hagree hfragments hlisted
  -- the nodes can be stated without the second occurrence, so that less is stated
  have hembedded : embedded.Perm (b :: embedded.erase b) :=
    List.perm_cons_erase ((hsweep.mem_iff b).2 hled)
  have hless : (nodes'.map (ownCount v)).sum ≤
      ((fragments ++ embedded.erase b).map (ownCount v)).sum :=
    sum_map_le_of_subset hnodup (fun c hc => hsweep.mem_append_erase hb ((hmem c).1 hc)) _
  have hmore : (nodes.map (ownCount v)).sum =
      ((fragments ++ embedded.erase b).map (ownCount v)).sum + ownCount v b := by
    rw [(hperm.map _).sum_eq, List.map_append, List.sum_append, (hembedded.map _).sum_eq,
      List.map_cons, List.sum_cons, List.map_append, List.sum_append]
    omega
  have hlength := congrArg List.length hflatten
  rw [length_flatten_eq_sum hparts, length_flatten_eq_sum hparts'] at hlength
  omega

/-- A run that lets a node below a holder point at the next one, which is a blank node. -/
def crossing : List Host.Call :=
  let d (number : Nat) : Draws := ⟨fun j => toString number ++ ":" ++ toString j, .epoch⟩
  let add (number : Nat) (path : String) : Host.Call :=
    .mutate 0 (d number) (.addNode path Vocab.Name.ntUnstructured)
  [.opening "default", add 1 "/a", add 2 "/a/#", add 3 "/a/#/x", add 4 "/a/#/y",
    .mutate 0 (d 5) (.addMixin "/a/#/y" Vocab.Name.fedoraBlanknode),
    .mutate 0 (d 6) (.putProperty (.many "/a/#/x" "ldp:member" [.path "/a/#/y"]))]

/-- The nodes of the run, named by IRIs. -/
def crossingView : View :=
  .ofMap ⟨"http://localhost"⟩ ((Access.direct 0).reader ((Host.start "root").run crossing))

/-- The subjects of the run's hash fragments: the blank node is embedded on the account of the node
that points at it, and then when its own turn comes. -/
theorem embeds_fragments_crossing :
    (∀ x, EmbedsFragments crossingView x) ∧
      (do
        let x ← Resource.require crossingView.reader "/a"
        let triples ← (← hashFragments crossingView x).collect crossingView
        pure (triples.map Triple.subject)) =
      Except.ok (ε := Error) (List.replicate 3 (.iri "http://localhost/a#x") ++
        List.replicate 6 (.iri "http://localhost/a#y")) :=
  ⟨embeds_fragments (Repository.isNew_start "root") crossing (.direct 0) rfl, by decide +kernel⟩

/-- It is not so that the hash fragments and the blank nodes that they lead to are each stated once:
in the run above, the blank node below the holder is not. -/
theorem not_forall_statesOnce : ¬∀ {r : Repository}, r.IsNew →
    ∀ (calls : List Host.Call) (a : Access) {v : View},
      v.reader = a.reader ((Host.mk r []).run calls) → ∀ x, StatesOnce v x := by
  intro honce
  let owner : Resource := ⟨.plain "/a" "1:0" Vocab.Name.ntUnstructured, .container, "default"⟩
  let first : Resource := ⟨.plain "/a/#/x" "3:0" Vocab.Name.ntUnstructured, .container, "default"⟩
  let second : Resource := ⟨⟨"/a/#/y", "4:0", Vocab.Name.ntUnstructured,
    [Vocab.Name.fedoraBlanknode]⟩, .placeholder, "default"⟩
  have hpoints : PointsAt crossingView first second :=
    ⟨[.ok ⟨"/a/#/x", "ldp:member", .path, [.path "/a/#/y"], true, false⟩], _, _, by decide +kernel,
      List.mem_singleton_self _, List.mem_singleton_self _, by decide +kernel, by decide +kernel⟩
  have hled : LedTo crossingView owner (before second [first, second]) second :=
    .direct (by decide) hpoints (by decide)
  have hcollects :
      (hashFragments crossingView owner >>= fun s => s.collect crossingView).isOk = true := by
    decide +kernel
  cases htriples : hashFragments crossingView owner >>= fun s => s.collect crossingView with
  | error e => rw [htriples] at hcollects; cases hcollects
  | ok triples =>
    obtain ⟨s, hs, htriples⟩ := bind_eq_ok_iff.1 htriples
    have hembeds : EmbedsFragments crossingView owner :=
      embedsFragments rfl (Host.filed_current (Repository.isNew_start "root") crossing 0) owner
    have hdescription : owner.description crossingView.reader = .ok owner := by decide +kernel
    have hfragments : owner.hashChildren crossingView.reader = .ok ([first, second].map .ok) := by
      decide +kernel
    exact hembeds.not_statesOnce hs htriples hdescription hfragments (by simp) hled
      (by decide +kernel) (honce (Repository.isNew_start "root") crossing (.direct 0) rfl owner)

end LinkedStore.Description
