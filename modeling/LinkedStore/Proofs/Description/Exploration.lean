import LinkedStore.Description.Embedding
import LinkedStore.Proofs.Host.Reading
import LinkedStore.Proofs.Stream.Items
import Mathlib.Data.Finset.Card
import Mathlib.Data.Finset.SDiff

/-!
# The walk over blank nodes

The walk of a description carries a bound on how deep nodes may be embedded in one another.  Here
the walk is described without a bound, as a list of tasks that is worked off from the front: a
property is followed, which puts the nodes that it leads to in front, and a node is embedded, which
puts its properties there.  The walk with a bound never comes to its bound, since each level of
embedding visits a stored path that had not been visited.

A failure ends a walk, but not those that come after it, to which it leaves the paths that have been
visited by then.

## Main definitions

* `Reached`, `Reaches` : the nodes that a list of values leads to.
* `Explores` : the walk over an agenda without a bound: the nodes that it embeds, the triples that
  it comes to, and how it ends.
* `Surveys` : the walks over the properties of a resource, one after the other.
* `WorksOff` : a part of the walk with a bound does what the walk without one does.

## Main statements

* `Explores.unique`, `Surveys.unique` : the walks have one outcome.
* `Explores.nodup`, `Explores.closed` : each node is embedded once, and none that is led to is left.
* `Explores.append` : a walk over two agendas is two walks, the second one with the paths that the
  first one has left visited.
* `exists_explores`, `exists_surveys` : the walks come to an end, and do what those with a bound do.
-/

namespace LinkedStore.Description

variable {v : View}

/-! ### Reaching nodes -/

/-- A node that the walk has reached, with what it has found there. -/
@[ext] structure Reached (v : View) where
  node : Resource
  opening : Opening
  opened : Opening.of v node = .ok opening

namespace Reached

def path (b : Reached v) : String := b.node.path

theorem eq_of_node {b c : Reached v} (h : b.node = c.node) : b = c :=
  Reached.ext h (Except.ok.inj (b.opened.symm.trans (h ▸ c.opened)))

end Reached

/-- The blank nodes that a list of values points at, without those already visited, and the paths
visited since. -/
inductive Reaches (v : View) : List Value → List String → List (Reached v) → List String → Prop
  | nil {visited} : Reaches v [] visited [] visited
  | pass {value rest target visited reached visited'} (htarget : blankTarget? v value = .ok target)
      (hvisited : ∀ x, target = some x → x.path ∈ visited)
      (hrest : Reaches v rest visited reached visited') :
      Reaches v (value :: rest) visited reached visited'
  | new {value rest visited reached visited'} (b : Reached v)
      (htarget : blankTarget? v value = .ok (some b.node)) (hvisited : b.path ∉ visited)
      (hrest : Reaches v rest (b.path :: visited) reached visited') :
      Reaches v (value :: rest) visited (b :: reached) visited'

/-- What is opened has been reached. -/
theorem reaches_of_openings {values : List Value} {visited visited' : List String}
    {opened : List Opening} (h : openings v values visited = (.ok opened, visited')) :
    ∃ reached, opened = reached.map Reached.opening ∧
      Reaches v values visited reached visited' := by
  induction values generalizing visited opened with
  | nil =>
      obtain ⟨hopened, rfl⟩ := Prod.mk.inj h
      obtain rfl := Except.ok.inj hopened
      exact ⟨[], rfl, .nil⟩
  | cons value rest ih =>
      rw [openings] at h
      cases htarget : blankTarget? v value with
      | error e =>
          rw [htarget] at h
          cases (Prod.mk.inj h).1
      | ok target =>
          rw [htarget] at h
          cases target with
          | none =>
              obtain ⟨reached, hopened, hreaches⟩ := ih h
              exact ⟨reached, hopened, .pass htarget (by simp) hreaches⟩
          | some x =>
              simp only [List.contains_iff_mem] at h
              by_cases hvisited : x.path ∈ visited
              · rw [if_pos hvisited] at h
                obtain ⟨reached, hopened, hreaches⟩ := ih h
                exact ⟨reached, hopened,
                  .pass htarget (fun y hy => Option.some.inj hy ▸ hvisited) hreaches⟩
              · rw [if_neg hvisited] at h
                cases hopening : Opening.of v x with
                | error e =>
                    rw [hopening] at h
                    cases (Prod.mk.inj h).1
                | ok opening =>
                    rw [hopening] at h
                    obtain ⟨hopened, hleft⟩ := Prod.mk.inj h
                    obtain ⟨more, hmore, rfl⟩ := map_eq_ok_iff.1 hopened
                    obtain ⟨reached, rfl, hreaches⟩ := ih (Prod.ext hmore hleft)
                    exact ⟨⟨x, opening, hopening⟩ :: reached, rfl, .new _ htarget hvisited hreaches⟩

theorem openings_of_reaches {values : List Value} {visited visited' : List String}
    {reached : List (Reached v)} (h : Reaches v values visited reached visited') :
    openings v values visited = (.ok (reached.map Reached.opening), visited') := by
  induction h with
  | nil => rfl
  | @pass value rest target visited reached visited' htarget hvisited hrest ih =>
      rw [openings, htarget]
      cases target with
      | none => exact ih
      | some x =>
          have hx : visited.contains x.path = true := List.contains_iff_mem.2 (hvisited x rfl)
          simpa only [hx, if_true] using ih
  | @new value rest visited reached visited' b htarget hvisited hrest ih =>
      have hb : ¬visited.contains b.node.path = true := mt List.contains_iff_mem.1 hvisited
      rw [Reached.path] at ih
      rw [openings, htarget]
      simp only [hb, b.opened, ih]
      rfl

/-- No path that has been visited is forgotten, not even if a value fails. -/
theorem subset_of_openings {values : List Value} {visited visited' : List String}
    {opened : Except Error (List Opening)} (h : openings v values visited = (opened, visited')) :
    visited ⊆ visited' := by
  fun_induction openings v values visited generalizing opened visited' with
  | case1 visited => exact (Prod.mk.inj h).2 ▸ List.Subset.refl _
  | case2 => exact (Prod.mk.inj h).2 ▸ List.Subset.refl _
  | case3 value rest visited htarget ih => exact ih h
  | case4 value rest visited x htarget hvisited ih => exact ih h
  | case5 => exact (Prod.mk.inj h).2 ▸ List.subset_cons_self _ _
  | case6 value rest visited x htarget hvisited opening hopening more left hrest ih =>
      exact (Prod.mk.inj h).2 ▸ List.Subset.trans (List.subset_cons_self _ _) (ih hrest)

namespace Reaches

variable {values : List Value} {visited visited' : List String} {reached : List (Reached v)}

theorem visited_eq (h : Reaches v values visited reached visited') :
    visited' = (reached.map Reached.path).reverse ++ visited := by
  induction h with
  | nil => rfl
  | pass _ _ _ ih => exact ih
  | new b _ _ _ ih =>
      rw [ih, List.map_cons, List.reverse_cons, List.append_assoc, List.singleton_append]

theorem mem_visited_iff (h : Reaches v values visited reached visited') {path : String} :
    path ∈ visited' ↔ (∃ b ∈ reached, b.path = path) ∨ path ∈ visited := by
  rw [h.visited_eq, List.mem_append, List.mem_reverse, List.mem_map]

theorem notMem_visited (h : Reaches v values visited reached visited') {b : Reached v}
    (hb : b ∈ reached) : b.path ∉ visited := by
  induction h with
  | nil => cases hb
  | pass _ _ _ ih => exact ih hb
  | new c _ hvisited _ ih =>
      rcases List.mem_cons.1 hb with rfl | hb
      · exact hvisited
      · exact fun hmem => ih hb (List.mem_cons_of_mem _ hmem)

theorem nodup (h : Reaches v values visited reached visited') :
    (reached.map Reached.path).Nodup := by
  induction h with
  | nil => exact .nil
  | pass _ _ _ ih => exact ih
  | new b _ _ hrest ih =>
      refine List.nodup_cons.2 ⟨fun hmem => ?_, ih⟩
      obtain ⟨c, hc, hpath⟩ := List.mem_map.1 hmem
      exact hrest.notMem_visited hc (hpath ▸ List.mem_cons_self)

theorem pointedAt (h : Reaches v values visited reached visited') {b : Reached v}
    (hb : b ∈ reached) : ∃ value ∈ values, blankTarget? v value = .ok (some b.node) := by
  induction h with
  | nil => cases hb
  | pass _ _ _ ih =>
      obtain ⟨value, hvalue, htarget⟩ := ih hb
      exact ⟨value, List.mem_cons_of_mem _ hvalue, htarget⟩
  | new c htarget _ _ ih =>
      rcases List.mem_cons.1 hb with rfl | hb
      · exact ⟨_, List.mem_cons_self, htarget⟩
      · obtain ⟨value, hvalue, htarget⟩ := ih hb
        exact ⟨value, List.mem_cons_of_mem _ hvalue, htarget⟩

/-- Whatever one of the values points at has been visited in the end. -/
theorem complete (h : Reaches v values visited reached visited') {value : Value} {x : Resource}
    (hvalue : value ∈ values) (htarget : blankTarget? v value = .ok (some x)) :
    x.path ∈ visited' := by
  induction h with
  | nil => cases hvalue
  | pass htarget' hvisited hrest ih =>
      rcases List.mem_cons.1 hvalue with rfl | hvalue
      · have hx := Except.ok.inj (htarget'.symm.trans htarget)
        exact hrest.mem_visited_iff.2 (.inr (hvisited x hx))
      · exact ih hvalue
  | new b htarget' _ hrest ih =>
      rcases List.mem_cons.1 hvalue with rfl | hvalue
      · have hx := Option.some.inj (Except.ok.inj (htarget'.symm.trans htarget))
        exact hrest.mem_visited_iff.2 (.inr (hx ▸ List.mem_cons_self))
      · exact ih hvalue

/-- What is reached is determined. -/
theorem unique {reached' : List (Reached v)} {visited'' : List String}
    (h : Reaches v values visited reached visited')
    (h' : Reaches v values visited reached' visited'') :
    reached = reached' ∧ visited' = visited'' := by
  induction h generalizing reached' with
  | nil => cases h' with | nil => exact ⟨rfl, rfl⟩
  | pass htarget hvisited _ ih =>
      cases h' with
      | pass _ _ hrest => exact ih hrest
      | new b htarget' hnot hrest =>
          exact absurd (hvisited _ (Except.ok.inj (htarget.symm.trans htarget'))) hnot
  | new b htarget hnot _ ih =>
      cases h' with
      | pass htarget' hvisited hrest =>
          exact absurd (hvisited _ (Except.ok.inj (htarget'.symm.trans htarget))) hnot
      | new c htarget' _ hrest =>
          obtain rfl : b = c := Reached.eq_of_node
            (Option.some.inj (Except.ok.inj (htarget.symm.trans htarget')))
          obtain ⟨rfl, rfl⟩ := ih hrest
          exact ⟨rfl, rfl⟩

end Reaches

/-! ### The walk without a bound -/

/-- What is still to be done. -/
inductive Task (v : View) where
  /-- A property is to be followed. -/
  | property (item : Except Error Property)
  /-- A node that has been reached is to be embedded. -/
  | node (b : Reached v)

/-- The paths of the nodes that are still to be embedded. -/
def pending (agenda : List (Task v)) : List String :=
  agenda.filterMap fun
    | .property _ => none
    | .node b => some b.path

@[simp] theorem pending_nil : pending ([] : List (Task v)) = [] := rfl

@[simp] theorem pending_cons_property (item : Except Error Property) (agenda : List (Task v)) :
    pending (.property item :: agenda) = pending agenda := rfl

@[simp] theorem pending_cons_node (b : Reached v) (agenda : List (Task v)) :
    pending (.node b :: agenda) = b.path :: pending agenda := rfl

@[simp] theorem pending_properties (listing : List (Except Error Property))
    (agenda : List (Task v)) : pending (listing.map .property ++ agenda) = pending agenda := by
  induction listing with
  | nil => rfl
  | cons item listing ih => exact ih

@[simp] theorem pending_nodes (reached : List (Reached v)) (agenda : List (Task v)) :
    pending (reached.map .node ++ agenda) = reached.map Reached.path ++ pending agenda := by
  induction reached with
  | nil => rfl
  | cons b reached ih => exact congrArg (b.path :: ·) ih

/-- How a walk ends: with nothing left to be done, or with a failure.  It leaves paths visited. -/
inductive Ending where
  | finished (visited : List String)
  | failed (e : Error) (visited : List String)

namespace Ending

def visited : Ending → List String
  | finished visited => visited
  | failed _ visited => visited

/-- The items of a walk that comes to some triples and then to its end. -/
def items (triples : List Triple) : Ending → List (Except Error Triple)
  | finished _ => triples.map .ok
  | failed e _ => triples.map .ok ++ [.error e]

/-- How it goes on after a walk. -/
def onward (next fallback : Onward) : Ending → Flow View Triple
  | finished visited => next visited
  | failed _ visited => fallback visited

/-- It goes on in the same way, whether the walk has failed or not. -/
theorem onward_self (next : Onward) (ending : Ending) :
    ending.onward next next = next ending.visited := by
  cases ending <;> rfl

theorem items_append (first second : List Triple) (ending : Ending) :
    ending.items (first ++ second) = first.map .ok ++ ending.items second := by
  cases ending with
  | finished visited => exact List.map_append
  | failed e visited =>
      rw [items, items, List.map_append, List.append_assoc]

theorem items_eq_map_ok {triples triples' : List Triple} {ending : Ending}
    (h : ending.items triples = triples'.map .ok) :
    ending = .finished ending.visited ∧ triples = triples' := by
  cases ending with
  | finished visited => exact ⟨rfl, List.map_injective_iff.2 (fun _ _ => Except.ok.inj) h⟩
  | failed e visited =>
      have he : (.error e : Except Error Triple) ∈ triples'.map .ok :=
        h ▸ List.mem_append_right _ List.mem_cons_self
      simp at he

end Ending

/-- The walk over an agenda, given the paths visited so far: the nodes that it embeds, in order, the
triples that it comes to, and how it ends. -/
inductive Explores (v : View) : List (Task v) → List String → List (Reached v) → List Triple →
    Ending → Prop
  | done {visited} : Explores v [] visited [] [] (.finished visited)
  | broken {e agenda visited} :
      Explores v (.property (.error e) :: agenda) visited [] [] (.failed e visited)
  | refused {p agenda visited e visited'} (h : openings v p.values visited = (.error e, visited')) :
      Explores v (.property (.ok p) :: agenda) visited [] [] (.failed e visited')
  | follow {p agenda visited reached visited' embedded triples ending}
      (hreaches : Reaches v p.values visited reached visited')
      (h : Explores v (reached.map .node ++ agenda) visited' embedded triples ending) :
      Explores v (.property (.ok p) :: agenda) visited embedded triples ending
  | cut {b agenda visited own e} (hown : (Stream.drainFlow v b.opening.own).2 = (own, some e)) :
      Explores v (.node b :: agenda) visited [b] own (.failed e visited)
  | embed {b agenda visited own embedded triples ending} (hown : b.opening.own.Yields v own)
      (h : Explores v (b.opening.listing.map .property ++ agenda) visited embedded triples ending) :
      Explores v (.node b :: agenda) visited (b :: embedded) (own ++ triples) ending

namespace Explores

variable {agenda agenda' : List (Task v)} {visited visited' : List String}
  {embedded embedded' : List (Reached v)} {triples triples' : List Triple} {ending : Ending}

/-- The walk has one outcome. -/
theorem unique {ending' : Ending} (h : Explores v agenda visited embedded triples ending)
    (h' : Explores v agenda visited embedded' triples' ending') :
    embedded = embedded' ∧ triples = triples' ∧ ending = ending' := by
  induction h generalizing embedded' triples' with
  | done => cases h' with | done => exact ⟨rfl, rfl, rfl⟩
  | broken => cases h' with | broken => exact ⟨rfl, rfl, rfl⟩
  | refused hrefused =>
      cases h' with
      | refused hrefused' =>
          obtain ⟨he, rfl⟩ := Prod.mk.inj (hrefused.symm.trans hrefused')
          rw [Except.error.inj he]
          exact ⟨rfl, rfl, rfl⟩
      | follow hreaches =>
          cases (Prod.mk.inj (hrefused.symm.trans (openings_of_reaches hreaches))).1
  | follow hreaches _ ih =>
      cases h' with
      | refused hrefused =>
          cases (Prod.mk.inj (hrefused.symm.trans (openings_of_reaches hreaches))).1
      | follow hreaches' h' =>
          obtain ⟨rfl, rfl⟩ := hreaches.unique hreaches'
          exact ih h'
  | cut hown =>
      cases h' with
      | cut hown' =>
          obtain ⟨rfl, he⟩ := Prod.mk.inj (hown.symm.trans hown')
          rw [Option.some.inj he]
          exact ⟨rfl, rfl, rfl⟩
      | embed hown' =>
          cases (Prod.mk.inj (hown.symm.trans (Stream.drainFlow_eq_iff.2 hown'))).2
  | embed hown _ ih =>
      cases h' with
      | cut hown' => cases (Prod.mk.inj ((Stream.drainFlow_eq_iff.2 hown).symm.trans hown')).2
      | embed hown' h' =>
          have hsame := (Stream.drainFlow_eq_iff.2 hown).symm.trans
            (Stream.drainFlow_eq_iff.2 hown')
          obtain ⟨rfl, rfl, rfl⟩ := ih h'
          exact ⟨rfl, by rw [(Prod.mk.inj hsame).1], rfl⟩

/-- No path that has been visited is forgotten. -/
theorem subset (h : Explores v agenda visited embedded triples ending) :
    visited ⊆ ending.visited := by
  induction h with
  | done => exact List.Subset.refl _
  | broken => exact List.Subset.refl _
  | refused h => exact subset_of_openings h
  | follow hreaches _ ih => exact fun path hpath => ih (hreaches.mem_visited_iff.2 (.inr hpath))
  | cut _ => exact List.Subset.refl _
  | embed _ _ ih => exact ih

/-- A walk that has come to its end goes on with what comes next. -/
theorem append (h : Explores v agenda visited embedded triples (.finished visited'))
    (h' : Explores v agenda' visited' embedded' triples' ending) :
    Explores v (agenda ++ agenda') visited (embedded ++ embedded') (triples ++ triples')
      ending := by
  generalize hend : Ending.finished visited' = final at h
  induction h with
  | done =>
      obtain rfl := Ending.finished.inj hend
      exact h'
  | broken => cases hend
  | refused => cases hend
  | follow hreaches _ ih => exact .follow hreaches (List.append_assoc .. ▸ ih hend)
  | cut => cases hend
  | embed hown _ ih =>
      rw [List.append_assoc]
      exact .embed hown (List.append_assoc .. ▸ ih hend)

/-- A walk that has failed does not come to what comes next. -/
theorem append_of_failed {e : Error}
    (h : Explores v agenda visited embedded triples (.failed e visited'))
    (agenda' : List (Task v)) :
    Explores v (agenda ++ agenda') visited embedded triples (.failed e visited') := by
  generalize hend : Ending.failed e visited' = final at h ⊢
  induction h with
  | done => cases hend
  | broken => exact .broken
  | refused h => exact .refused h
  | follow hreaches _ ih => exact .follow hreaches (List.append_assoc .. ▸ ih hend)
  | cut hown => exact .cut hown
  | embed hown _ ih => exact .embed hown (List.append_assoc .. ▸ ih hend)

/-- An embedded node was on the agenda, or it had not been visited. -/
theorem origin (h : Explores v agenda visited embedded triples ending) {b : Reached v}
    (hb : b ∈ embedded) : b.path ∈ pending agenda ∨ b.path ∉ visited := by
  induction h with
  | done => cases hb
  | broken => cases hb
  | refused => cases hb
  | follow hreaches _ ih =>
      rcases ih hb with hpending | hvisited
      · rcases List.mem_append.1 (pending_nodes _ _ ▸ hpending) with hreached | hpending
        · obtain ⟨c, hc, hpath⟩ := List.mem_map.1 hreached
          exact .inr (hpath ▸ hreaches.notMem_visited hc)
        · exact .inl hpending
      · exact .inr fun hmem => hvisited (hreaches.mem_visited_iff.2 (.inr hmem))
  | cut => exact .inl (List.mem_singleton.1 hb ▸ List.mem_cons_self)
  | embed _ _ ih =>
      rcases List.mem_cons.1 hb with rfl | hb
      · exact .inl List.mem_cons_self
      · rw [pending_properties] at ih
        exact (ih hb).imp (List.mem_cons_of_mem _) id

/-- What holds of the nodes on the agenda, and of every node not visited yet that a property on the
agenda or of such a node points at, holds of every embedded node. -/
theorem forall_embedded (h : Explores v agenda visited embedded triples ending)
    {P : Reached v → Prop} {seen : List String} (hseen : seen ⊆ visited)
    (hnode : ∀ b, .node b ∈ agenda → P b)
    (hproperty : ∀ p, .property (.ok p) ∈ agenda → ∀ value ∈ p.values, ∀ b : Reached v,
      blankTarget? v value = .ok (some b.node) → b.path ∉ seen → P b)
    (hlisting : ∀ c, P c → ∀ p, .ok p ∈ c.opening.listing → ∀ value ∈ p.values, ∀ b : Reached v,
      blankTarget? v value = .ok (some b.node) → b.path ∉ seen → P b) :
    ∀ b ∈ embedded, P b := by
  induction h with
  | done => simp
  | broken => simp
  | refused => simp
  | follow hreaches _ ih =>
      refine ih (fun path hpath => hreaches.mem_visited_iff.2 (.inr (hseen hpath)))
        (fun b hb => ?_) fun p hp => hproperty p ?_
      · rcases List.mem_append.1 hb with hb | hb
        · obtain ⟨c, hc, heq⟩ := List.mem_map.1 hb
          obtain ⟨value, hvalue, htarget⟩ := hreaches.pointedAt hc
          exact Task.node.inj heq ▸ hproperty _ List.mem_cons_self value hvalue c htarget
            fun hpath => hreaches.notMem_visited hc (hseen hpath)
        · exact hnode b (List.mem_cons_of_mem _ hb)
      · exact List.mem_cons_of_mem _ ((List.mem_append.1 hp).resolve_left (by simp))
  | cut => exact List.forall_mem_singleton.2 (hnode _ List.mem_cons_self)
  | @embed b agenda visited own embedded triples ending _ _ ih =>
      have hb : P b := hnode b List.mem_cons_self
      refine List.forall_mem_cons.2 ⟨hb, ih hseen (fun c hc => hnode c ?_) fun p hp => ?_⟩
      · exact List.mem_cons_of_mem _ ((List.mem_append.1 hc).resolve_left (by simp))
      · rcases List.mem_append.1 hp with hp | hp
        · obtain ⟨item, hitem, heq⟩ := List.mem_map.1 hp
          exact hlisting b hb p (Task.property.inj heq ▸ hitem)
        · exact hproperty p (List.mem_cons_of_mem _ hp)

/-- Each node is embedded once. -/
theorem nodup (h : Explores v agenda visited embedded triples ending)
    (hnodup : (pending agenda).Nodup) (hvisited : ∀ path ∈ pending agenda, path ∈ visited) :
    (embedded.map Reached.path).Nodup := by
  induction h with
  | done => exact .nil
  | broken => exact .nil
  | refused => exact .nil
  | follow hreaches _ ih =>
      rw [pending_cons_property] at hnodup hvisited
      rw [pending_nodes] at ih
      refine ih (List.nodup_append'.2 ⟨hreaches.nodup, hnodup, fun path hreached hpending => ?_⟩)
        fun path hpath => ?_
      · obtain ⟨c, hc, rfl⟩ := List.mem_map.1 hreached
        exact hreaches.notMem_visited hc (hvisited _ hpending)
      · exact hreaches.mem_visited_iff.2
          ((List.mem_append.1 hpath).imp List.mem_map.1 (hvisited path))
  | cut => exact List.nodup_singleton _
  | embed _ h ih =>
      rw [pending_cons_node] at hnodup hvisited
      rw [pending_properties] at ih
      obtain ⟨hnot, hnodup⟩ := List.nodup_cons.1 hnodup
      refine List.nodup_cons.2 ⟨fun hmem => ?_,
        ih hnodup fun path hpath => hvisited path (List.mem_cons_of_mem _ hpath)⟩
      obtain ⟨c, hc, hpath⟩ := List.mem_map.1 hmem
      rcases h.origin hc with hpending | hnew
      · rw [pending_properties, hpath] at hpending
        exact hnot hpending
      · exact hnew (hpath ▸ hvisited _ List.mem_cons_self)

/-! ### Walks that do not fail -/

/-- Unless the walk fails, every node on the agenda is embedded. -/
theorem mem_of_node (h : Explores v agenda visited embedded triples (.finished visited'))
    {b : Reached v} (hb : .node b ∈ agenda) : b ∈ embedded := by
  generalize hend : Ending.finished visited' = final at h
  induction h with
  | done => cases hb
  | broken => cases hend
  | refused => cases hend
  | follow _ _ ih =>
      have hb := (List.mem_cons.1 hb).resolve_left (by simp)
      exact ih (List.mem_append_right _ hb) hend
  | cut => cases hend
  | embed _ _ ih =>
      rcases List.mem_cons.1 hb with heq | hb
      · exact Task.node.inj heq ▸ List.mem_cons_self
      · exact List.mem_cons_of_mem _ (ih (List.mem_append_right _ hb) hend)

/-- Unless the walk fails, its triples are what the embedded nodes yield, one after the other. -/
theorem yields (h : Explores v agenda visited embedded triples (.finished visited')) :
    ∃ parts, List.Forall₂ (fun b part => b.opening.own.Yields v part) embedded parts ∧
      triples = parts.flatten := by
  generalize hend : Ending.finished visited' = final at h
  induction h with
  | done => exact ⟨[], .nil, rfl⟩
  | broken => cases hend
  | refused => cases hend
  | follow _ _ ih => exact ih hend
  | cut => cases hend
  | @embed b agenda visited own embedded triples ending hown _ ih =>
      obtain ⟨parts, hparts, rfl⟩ := ih hend
      exact ⟨own :: parts, .cons hown hparts, rfl⟩

/-- Unless the walk fails, the embedded nodes have been visited since, and no others. -/
theorem mem_visited_iff (h : Explores v agenda visited embedded triples (.finished visited'))
    (hvisited : ∀ path ∈ pending agenda, path ∈ visited) {path : String} :
    path ∈ visited' ↔ (∃ b ∈ embedded, b.path = path) ∨ path ∈ visited := by
  generalize hend : Ending.finished visited' = final at h
  induction h with
  | done => simp [Ending.finished.inj hend]
  | broken => cases hend
  | refused => cases hend
  | @follow p agenda visited reached visited'' embedded triples ending hreaches h ih =>
      rw [pending_cons_property] at hvisited
      rw [pending_nodes] at ih
      rw [ih (fun path hpath => ?_) hend, hreaches.mem_visited_iff]
      · refine ⟨?_, fun h => h.imp id .inr⟩
        rintro (hembedded | ⟨b, hb, hpath⟩ | hmem)
        · exact .inl hembedded
        · have hagenda : .node b ∈ reached.map Task.node ++ agenda :=
            List.mem_append_left _ (List.mem_map_of_mem hb)
          exact .inl ⟨b, (hend ▸ h).mem_of_node hagenda, hpath⟩
        · exact .inr hmem
      · exact hreaches.mem_visited_iff.2
          ((List.mem_append.1 hpath).imp List.mem_map.1 (hvisited path))
  | cut => cases hend
  | @embed b agenda visited own embedded triples ending _ h ih =>
      rw [pending_cons_node] at hvisited
      rw [pending_properties] at ih
      rw [ih (fun path hpath => hvisited path (List.mem_cons_of_mem _ hpath)) hend]
      simp only [List.mem_cons, exists_eq_or_imp]
      refine ⟨fun h => h.imp .inr id, ?_⟩
      rintro ((rfl | hembedded) | hmem)
      · exact .inr (hvisited _ List.mem_cons_self)
      · exact .inl hembedded
      · exact .inr hmem

end Explores

/-- Whatever a property points at has been visited or is among given nodes. -/
def Covers (v : View) (visited : List String) (embedded : List (Reached v)) (p : Property) : Prop :=
  ∀ value ∈ p.values, ∀ x, blankTarget? v value = .ok (some x) →
    x.path ∈ visited ∨ ∃ b ∈ embedded, b.path = x.path

theorem Covers.cons {visited : List String} {embedded : List (Reached v)} {p : Property}
    (h : Covers v visited embedded p) (b : Reached v) : Covers v visited (b :: embedded) p := by
  intro value hvalue x htarget
  refine (h value hvalue x htarget).imp id ?_
  rintro ⟨c, hc, hpath⟩
  exact ⟨c, List.mem_cons_of_mem b hc, hpath⟩

/-- Unless the walk fails, it leaves out nothing that the agenda or an embedded node leads to. -/
theorem Explores.closed {agenda : List (Task v)} {visited visited' : List String}
    {embedded : List (Reached v)} {triples : List Triple}
    (h : Explores v agenda visited embedded triples (.finished visited')) :
    (∀ p, .property (.ok p) ∈ agenda → Covers v visited embedded p) ∧
      ∀ b ∈ embedded, ∀ p, .ok p ∈ b.opening.listing → Covers v visited embedded p := by
  generalize hend : Ending.finished visited' = final at h
  induction h with
  | done => exact ⟨by simp, by simp⟩
  | broken => cases hend
  | refused => cases hend
  | @follow p agenda visited reached visited'' embedded triples ending hreaches h ih =>
      -- what has been visited on the way has been embedded since
      have hback {q : Property} (hq : Covers v visited'' embedded q) :
          Covers v visited embedded q := by
        intro value hvalue x htarget
        rcases hq value hvalue x htarget with hvisited | hembedded
        · rcases hreaches.mem_visited_iff.1 hvisited with ⟨b, hb, hpath⟩ | hvisited
          · have hagenda : .node b ∈ reached.map Task.node ++ agenda :=
              List.mem_append_left _ (List.mem_map_of_mem hb)
            exact .inr ⟨b, (hend ▸ h).mem_of_node hagenda, hpath⟩
          · exact .inl hvisited
        · exact .inr hembedded
      obtain ⟨hagenda, hembedded⟩ := ih hend
      refine ⟨fun q hq => hback ?_, fun b hb q hq => hback (hembedded b hb q hq)⟩
      rcases List.mem_cons.1 hq with heq | hq
      · obtain rfl := Except.ok.inj (Task.property.inj heq)
        exact fun value hvalue x htarget => .inl (hreaches.complete hvalue htarget)
      · exact hagenda q (List.mem_append_right _ hq)
  | cut => cases hend
  | @embed b agenda visited own embedded triples ending _ _ ih =>
      obtain ⟨hagenda, hembedded⟩ := ih hend
      refine ⟨fun p hp => (hagenda p ?_).cons b, fun c hc p hp => ?_⟩
      · exact List.mem_append_right _ ((List.mem_cons.1 hp).resolve_left (by simp))
      · rcases List.mem_cons.1 hc with rfl | hc
        · exact (hagenda p (List.mem_append_left _ (List.mem_map_of_mem hp))).cons c
        · exact (hembedded c hc p hp).cons b

/-! ### One walk after the other -/

/-- The walks over the properties of a resource, given the paths visited so far: the nodes that they
embed and the items that they come to.  Each one goes on with the paths that the one before it has
left visited, also if that one has failed. -/
inductive Surveys (v : View) : List (Except Error Property) → List String → List (Reached v) →
    List (Except Error Triple) → Prop
  | done {visited} : Surveys v [] visited [] []
  | survey {item listing visited embedded triples ending embedded' items}
      (hexplores : Explores v [.property item] visited embedded triples ending)
      (h : Surveys v listing ending.visited embedded' items) :
      Surveys v (item :: listing) visited (embedded ++ embedded') (ending.items triples ++ items)

namespace Surveys

variable {listing : List (Except Error Property)} {visited : List String}
  {embedded embedded' : List (Reached v)} {items items' : List (Except Error Triple)}

/-- The walks have one outcome. -/
theorem unique (h : Surveys v listing visited embedded items)
    (h' : Surveys v listing visited embedded' items') : embedded = embedded' ∧ items = items' := by
  induction h generalizing embedded' items' with
  | done => cases h' with | done => exact ⟨rfl, rfl⟩
  | survey hexplores _ ih =>
      cases h' with
      | survey hexplores' h' =>
          obtain ⟨rfl, rfl, rfl⟩ := hexplores.unique hexplores'
          obtain ⟨rfl, rfl⟩ := ih h'
          exact ⟨rfl, rfl⟩

/-- If no walk fails, they are one walk over all the properties. -/
theorem explores (h : Surveys v listing visited embedded items) {triples : List Triple}
    (hitems : items = triples.map .ok) : ∃ visited',
      Explores v (listing.map .property) visited embedded triples (.finished visited') := by
  induction h generalizing triples with
  | done =>
      obtain rfl := List.map_eq_nil_iff.1 hitems.symm
      exact ⟨_, .done⟩
  | survey hexplores _ ih =>
      obtain ⟨first, rest, rfl, hfirst, hrest⟩ := List.map_eq_append_iff.1 hitems.symm
      obtain ⟨hending, rfl⟩ := Ending.items_eq_map_ok hfirst.symm
      obtain ⟨visited', hmore⟩ := ih hrest.symm
      exact ⟨visited', (hending ▸ hexplores).append hmore⟩

end Surveys

/-! ### The walk with a bound -/

/-- A part of a walk works an agenda off, wherever no more than a number of stored paths are left to
be visited, and hands the paths visited on to what comes next, or to the fallback. -/
def WorksOff (v : View) (stored : Finset String) (left : Nat) (part : Onward → Onward → Onward)
    (agenda : List (Task v)) : Prop :=
  ∀ visited : List String, (stored \ visited.toFinset).card ≤ left →
    ∃ embedded triples ending, Explores v agenda visited embedded triples ending ∧
      ∀ next fallback : Onward, (part next fallback visited).items v =
        ending.items triples ++ (ending.onward next fallback).items v

section Bound

variable {stored : Finset String} {left depth : Nat} {part part' : Onward → Onward → Onward}
  {agenda agenda' : List (Task v)}

theorem WorksOff.nil : WorksOff v stored left (fun next _ => next) [] :=
  fun visited _ => ⟨[], [], .finished visited, .done, fun _ _ => rfl⟩

/-- Parts of a walk work their agendas off one after the other. -/
theorem WorksOff.comp (h : WorksOff v stored left part agenda)
    (h' : WorksOff v stored left part' agenda') :
    WorksOff v stored left (fun next fallback => part (part' next fallback) fallback)
      (agenda ++ agenda') := by
  intro visited hcard
  obtain ⟨embedded, triples, ending, hexplores, hitems⟩ := h visited hcard
  cases ending with
  | failed e visited' =>
      exact ⟨embedded, triples, .failed e visited', hexplores.append_of_failed agenda',
        fun next fallback => hitems _ fallback⟩
  | finished visited' =>
      have hless : (stored \ visited'.toFinset).card ≤ (stored \ visited.toFinset).card :=
        Finset.card_le_card (Finset.sdiff_subset_sdiff subset_rfl fun path hpath =>
          List.mem_toFinset.2 (hexplores.subset (List.mem_toFinset.1 hpath)))
      obtain ⟨embedded', triples', ending', hexplores', hitems'⟩ := h' visited' (hless.trans hcard)
      refine ⟨embedded ++ embedded', triples ++ triples', ending', hexplores.append hexplores',
        fun next fallback => ?_⟩
      rw [hitems, Ending.onward, hitems', Ending.items_append, Ending.items, List.append_assoc]

/-- A node that has been reached is embedded. -/
theorem WorksOff.node (b : Reached v)
    (hwalk : WorksOff v stored left (walk depth b.opening.listing)
      (b.opening.listing.map .property)) :
    WorksOff v stored left
      (fun next fallback visited =>
        b.opening.own.followedBy (walk depth b.opening.listing next fallback visited)
          (fallback visited))
      [.node b] := by
  intro visited hcard
  rcases hown : (Stream.drainFlow v b.opening.own).2 with ⟨own, failure⟩
  cases failure with
  | some e =>
      refine ⟨[b], own, .failed e visited, .cut hown, fun next fallback => ?_⟩
      rw [Stream.items_followedBy_of_failed hown, Ending.items, Ending.onward, List.append_assoc,
        List.singleton_append]
  | none =>
      have hyields : b.opening.own.Yields v own := Stream.drainFlow_eq_iff.1 hown
      obtain ⟨embedded, triples, ending, hexplores, hitems⟩ := hwalk visited hcard
      refine ⟨b :: embedded, own ++ triples, ending,
        .embed hyields (by rwa [List.append_nil]), fun next fallback => ?_⟩
      rw [hyields.items_followedBy, hitems, Ending.items_append, List.append_assoc]

/-- The nodes that have been reached are embedded one after the other. -/
theorem WorksOff.reached
    (hwalk : ∀ listing, WorksOff v stored left (walk depth listing) (listing.map .property))
    (reached : List (Reached v)) :
    WorksOff v stored left
      (fun next fallback => (reached.map Reached.opening).foldr
        (fun opening next visited =>
          opening.own.followedBy (walk depth opening.listing next fallback visited)
            (fallback visited))
        next)
      (reached.map .node) := by
  induction reached with
  | nil => exact .nil
  | cons b reached ih => exact (WorksOff.node b (hwalk b.opening.listing)).comp ih

variable (hstored : ∀ value x, blankTarget? v value = .ok (some x) → x.path ∈ stored)

include hstored

/-- Reaching a node leaves fewer stored paths to be visited. -/
theorem Reaches.card_lt {values : List Value} {visited visited' : List String}
    {reached : List (Reached v)} (h : Reaches v values visited reached visited')
    (hne : reached ≠ []) :
    (stored \ visited'.toFinset).card < (stored \ visited.toFinset).card := by
  obtain ⟨b, hb⟩ := List.exists_mem_of_ne_nil _ hne
  obtain ⟨value, -, htarget⟩ := h.pointedAt hb
  refine Finset.card_lt_card (Finset.ssubset_iff_of_subset ?_ |>.2 ⟨b.path, ?_, ?_⟩)
  · intro path hpath
    rw [Finset.mem_sdiff, List.mem_toFinset] at hpath ⊢
    exact ⟨hpath.1, fun hmem => hpath.2 (h.mem_visited_iff.2 (.inr hmem))⟩
  · rw [Finset.mem_sdiff, List.mem_toFinset]
    exact ⟨hstored value b.node htarget, h.notMem_visited hb⟩
  · rw [Finset.mem_sdiff, List.mem_toFinset]
    exact fun hpath => hpath.2 (h.mem_visited_iff.2 (.inl ⟨b, hb, rfl⟩))

/-- A property is followed, given the levels of the walk below it. -/
theorem WorksOff.property
    (hwalk : ∀ left' < left, ∀ listing,
      WorksOff v stored left' (walk depth listing) (listing.map .property))
    (item : Except Error Property) :
    WorksOff v stored left (walk (depth + 1) [item]) [.property item] := by
  intro visited hcard
  cases item with
  | error e => exact ⟨[], [], .failed e visited, .broken, fun next fallback => rfl⟩
  | ok p =>
      rcases hopened : openings v p.values visited with ⟨opened, visited'⟩
      cases opened with
      | error e =>
          refine ⟨[], [], .failed e visited', .refused hopened, fun next fallback => ?_⟩
          simp [walk, Flow.items, hopened, Ending.items, Ending.onward]
      | ok opened =>
          obtain ⟨reached, rfl, hreaches⟩ := reaches_of_openings hopened
          have hitems (next fallback : Onward) :
              (walk (depth + 1) [.ok p] next fallback visited).items v =
                ((reached.map Reached.opening).foldr
                  (fun opening next visited =>
                    opening.own.followedBy (walk depth opening.listing next fallback visited)
                      (fallback visited))
                  next visited').items v := by
            simp [walk, Flow.items, hopened]
          by_cases hreached : reached = []
          · subst hreached
            obtain rfl : visited' = visited := hreaches.visited_eq
            exact ⟨[], [], .finished visited', .follow hreaches .done,
              fun next fallback => hitems next fallback⟩
          · have hlt := (hreaches.card_lt hstored hreached).trans_le hcard
            obtain ⟨embedded, triples, ending, hexplores, hrest⟩ :=
              WorksOff.reached (hwalk _ hlt) reached visited' le_rfl
            exact ⟨embedded, triples, ending, .follow hreaches (by rwa [List.append_nil]),
              fun next fallback => (hitems next fallback).trans (hrest next fallback)⟩

/-- One level of the walk, given the levels below it. -/
theorem WorksOff.walk_succ
    (hwalk : ∀ left' < left, ∀ listing,
      WorksOff v stored left' (walk depth listing) (listing.map .property))
    (listing : List (Except Error Property)) :
    WorksOff v stored left (walk (depth + 1) listing) (listing.map .property) := by
  induction listing with
  | nil => exact .nil
  | cons item listing ih => exact (WorksOff.property hstored hwalk item).comp ih

/-- The walk with a bound works a list of properties off, if the bound is greater than the number
of stored paths that are left to be visited. -/
theorem WorksOff.walk (hlt : left < depth) (listing : List (Except Error Property)) :
    WorksOff v stored left (Description.walk depth listing) (listing.map .property) := by
  induction depth generalizing left listing with
  | zero => exact absurd hlt (Nat.not_lt_zero _)
  | succ depth ih =>
      exact WorksOff.walk_succ hstored
        (fun left' hless => ih (hless.trans_le (Nat.le_of_lt_succ hlt))) listing

/-- **The walk comes to an end**: with a bound greater than the number of stored paths, it does what
the walk without a bound does, whatever comes after it. -/
theorem exists_explores (hdepth : stored.card < depth) (listing : List (Except Error Property))
    (visited : List String) :
    ∃ embedded triples ending, Explores v (listing.map .property) visited embedded triples ending ∧
      ∀ next fallback : Onward, (Description.walk depth listing next fallback visited).items v =
        ending.items triples ++ (ending.onward next fallback).items v :=
  WorksOff.walk hstored hdepth listing visited (Finset.card_le_card Finset.sdiff_subset)

/-- A node is embedded, and then the blank nodes that it leads to, whatever comes after them. -/
theorem exists_explores_node (hdepth : stored.card < depth) (b : Reached v)
    (visited : List String) :
    ∃ embedded triples ending, Explores v [.node b] visited embedded triples ending ∧
      ∀ next fallback : Onward,
        (b.opening.own.followedBy (Description.walk depth b.opening.listing next fallback visited)
          (fallback visited)).items v =
        ending.items triples ++ (ending.onward next fallback).items v :=
  WorksOff.node b (WorksOff.walk hstored hdepth b.opening.listing) visited
    (Finset.card_le_card Finset.sdiff_subset)

/-- The walks over the properties of a resource come to an end, one after the other. -/
theorem exists_surveys (hdepth : stored.card < depth) (listing : List (Except Error Property))
    (visited : List String) :
    ∃ embedded, Surveys v listing visited embedded ((walkEach depth listing visited).items v) := by
  induction listing generalizing visited with
  | nil => exact ⟨[], .done⟩
  | cons item listing ih =>
      obtain ⟨embedded, triples, ending, hexplores, hitems⟩ :=
        exists_explores hstored hdepth [item] visited
      obtain ⟨embedded', hsurveys⟩ := ih ending.visited
      have hwhole : (walkEach depth (item :: listing) visited).items v =
          ending.items triples ++ (walkEach depth listing ending.visited).items v := by
        have hstep := hitems (walkEach depth listing) (walkEach depth listing)
        rwa [Ending.onward_self] at hstep
      exact ⟨embedded ++ embedded', hwhole ▸ .survey hexplores hsurveys⟩

end Bound

end LinkedStore.Description
