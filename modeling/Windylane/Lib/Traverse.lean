import Mathlib.Logic.Relation
import Mathlib.Data.List.Basic
import Mathlib.Data.List.Nodup
import Mathlib.Data.List.Perm.Subperm
import Mathlib.Order.WellFounded
import Mathlib.Order.WellFoundedSet

/-! Two traversals of a finite directed graph given by its successor lists: the breadth-first marking of the
    vertices that some start reaches, and the three-colour depth-first search for a cycle. Both recurse on a
    fuel that the number of vertices bounds, so what they find is stated without it: the marked vertices are
    the reachable ones, and the search reports a cycle exactly when there is one. -/

namespace Graph

variable {V : Type} [DecidableEq V] (adj : V → List V)

/-- An edge of the graph. -/
def Edge (a b : V) : Prop := b ∈ adj a

instance (a b : V) : Decidable (Edge adj a b) := inferInstanceAs (Decidable (b ∈ adj a))

/-! ### Breadth-first marking -/

/-- Mark and queue the vertices of a successor list that are not marked yet. -/
def discover : List V → List V → List V → List V × List V
  | [], queue, marked => (queue, marked)
  | next :: rest, queue, marked =>
    if next ∈ marked then discover rest queue marked
    else discover rest (queue ++ [next]) (marked ++ [next])

/-- Take vertices from the queue and discover their successors until the queue is empty; the answer is the
    vertices marked then. -/
def bfs : Nat → List V → List V → List V
  | 0, _, marked => marked
  | _ + 1, [], marked => marked
  | fuel + 1, v :: queue, marked =>
    let (queue', marked') := discover (adj v) queue marked
    bfs fuel queue' marked'

theorem discover_spec (nexts queue marked : List V) (hn : marked.Nodup) :
    ∃ fresh, discover nexts queue marked = (queue ++ fresh, marked ++ fresh) ∧ (marked ++ fresh).Nodup ∧
      (∀ v ∈ fresh, v ∈ nexts) ∧ ∀ v ∈ nexts, v ∈ marked ++ fresh := by
  induction nexts generalizing queue marked with
  | nil => exact ⟨[], by simp [discover], by simpa using hn, by simp, by simp⟩
  | cons next rest ih =>
    simp only [discover]
    split
    · next hm =>
      obtain ⟨fresh, he, hn', hf, hr⟩ := ih queue marked hn
      refine ⟨fresh, he, hn', fun v hv => List.mem_cons_of_mem _ (hf v hv), ?_⟩
      rintro v (_ | ⟨_, hv⟩)
      · exact List.mem_append_left _ hm
      · exact hr v hv
    · next hm =>
      have hn1 : (marked ++ [next]).Nodup := by
        rw [List.nodup_append]
        refine ⟨hn, List.nodup_singleton next, ?_⟩
        rintro a ha b hb rfl
        exact hm (List.mem_singleton.1 hb ▸ ha)
      obtain ⟨fresh, he, hn', hf, hr⟩ := ih (queue ++ [next]) (marked ++ [next]) hn1
      refine ⟨next :: fresh, by simpa using he, by simpa using hn', ?_, ?_⟩
      · rintro v (_ | ⟨_, hv⟩)
        · exact List.mem_cons_self
        · exact List.mem_cons_of_mem _ (hf v hv)
      · rintro v (_ | ⟨_, hv⟩)
        · simp
        · simpa using hr v hv

/-- What the marking loop keeps: nothing is marked twice or out of the vertices, the queue is marked, every
    marked vertex is reachable, and a marked vertex that left the queue has all its successors marked. -/
structure Marking (vertices start queue marked : List V) : Prop where
  nodup : marked.Nodup
  bounded : marked ⊆ vertices
  queued : queue ⊆ marked
  started : start ⊆ marked
  reached : ∀ v ∈ marked, ∃ s ∈ start, Relation.ReflTransGen (Edge adj) s v
  closed : ∀ v ∈ marked, v ∉ queue → adj v ⊆ marked

variable {adj} {vertices start : List V}

theorem Marking.discover {v : V} {queue marked : List V} (hU : ∀ a, adj a ⊆ vertices)
    (h : Marking adj vertices start (v :: queue) marked) :
    ∃ fresh, Graph.discover (adj v) queue marked = (queue ++ fresh, marked ++ fresh) ∧
      Marking adj vertices start (queue ++ fresh) (marked ++ fresh) := by
  obtain ⟨fresh, he, hn, hf, hr⟩ := discover_spec (adj v) queue marked h.nodup
  refine ⟨fresh, he, hn, ?_, ?_, ?_, ?_, ?_⟩
  · intro x hx
    rcases List.mem_append.1 hx with hx | hx
    · exact h.bounded hx
    · exact hU v (hf x hx)
  · intro x hx
    rcases List.mem_append.1 hx with hx | hx
    · exact List.mem_append_left _ (h.queued (List.mem_cons_of_mem _ hx))
    · exact List.mem_append_right _ hx
  · exact fun x hx => List.mem_append_left _ (h.started hx)
  · intro x hx
    rcases List.mem_append.1 hx with hx | hx
    · exact h.reached x hx
    · obtain ⟨s, hs, path⟩ := h.reached v (h.queued List.mem_cons_self)
      exact ⟨s, hs, path.tail (hf x hx)⟩
  · intro x hx hq
    simp only [List.mem_append, not_or] at hq
    by_cases hxv : x = v
    · subst hxv
      exact hr
    · have hm : x ∈ marked := (List.mem_append.1 hx).resolve_right hq.2
      exact fun y hy => List.mem_append_left _
        (h.closed x hm (fun hmem => (List.mem_cons.1 hmem).elim hxv hq.1) hy)

/-- With fuel for the vertices still to be queued, the loop ends with an empty queue. -/
theorem Marking.bfs {fuel : Nat} {queue marked : List V} (hU : ∀ a, adj a ⊆ vertices)
    (h : Marking adj vertices start queue marked)
    (hfuel : vertices.length + queue.length ≤ fuel + marked.length) :
    Marking adj vertices start [] (bfs adj fuel queue marked) := by
  induction fuel generalizing queue marked with
  | zero =>
    have hle : marked.length ≤ vertices.length := (List.subperm_of_subset h.nodup h.bounded).length_le
    have hq : queue = [] := List.eq_nil_of_length_eq_zero (by omega)
    subst hq
    exact h
  | succ fuel ih =>
    cases queue with
    | nil => exact h
    | cons v queue =>
      obtain ⟨fresh, he, h'⟩ := h.discover hU
      simp only [Graph.bfs, he]
      refine ih h' ?_
      simp only [List.length_append, List.length_cons] at hfuel ⊢
      omega

/-- The breadth-first marking marks exactly the vertices that some start reaches. -/
theorem mem_bfs {fuel : Nat} (hU : ∀ a, adj a ⊆ vertices) (hs : start ⊆ vertices) (hn : start.Nodup)
    (hfuel : vertices.length ≤ fuel) {v : V} :
    v ∈ bfs adj fuel start start ↔ ∃ s ∈ start, Relation.ReflTransGen (Edge adj) s v := by
  have init : Marking adj vertices start start start := by
    refine ⟨hn, hs, fun _ h => h, fun _ h => h, fun x hx => ⟨x, hx, .refl⟩, fun x hx hq => absurd hx hq⟩
  have final : Marking adj vertices start [] (bfs adj fuel start start) := init.bfs hU (by omega)
  refine ⟨final.reached v, ?_⟩
  rintro ⟨s, hs, path⟩
  induction path with
  | refl => exact final.started hs
  | tail _ edge ih => exact final.closed _ ih List.not_mem_nil edge

/-! ### Depth-first search for a cycle -/

inductive Colour where
  | unvisited | visiting | visited
deriving DecidableEq

/-- The state of the search: the colour of each vertex, and whether a cycle was met. -/
structure Search (V : Type) where
  colour : V → Colour
  cycle : Bool

def Search.mark (s : Search V) (v : V) (c : Colour) : Search V := { s with colour := Function.update s.colour v c }

/-- Scan the successors of `v`. A successor being visited closes a cycle and ends the scan; an unvisited one
    is visited first. `v` is done when the scan is. -/
def scan (visit : V → Search V → Search V) (v : V) : List V → Search V → Search V
  | [], s => s.mark v .visited
  | next :: rest, s =>
    match s.colour next with
    | .visiting => { s with cycle := true }
    | .unvisited => scan visit v rest (visit next s)
    | .visited => scan visit v rest s

variable (adj) in
/-- Visit a vertex, and do nothing once a cycle was met. -/
def visit : Nat → V → Search V → Search V
  | 0, _, s => s
  | fuel + 1, v, s => if s.cycle then s else scan (visit fuel) v (adj v) (s.mark v .visiting)

variable (adj) in
/-- Visit every root that is still unvisited. -/
def search (fuel : Nat) : List V → Search V → Search V
  | [], s => s
  | root :: rest, s => search fuel rest (if s.colour root = .unvisited then visit adj fuel root s else s)

variable (adj) in
/-- A vertex is on a cycle. -/
def Cyclic : Prop := ∃ v, Relation.TransGen (Edge adj) v v

variable (adj) in
/-- What the search knows at any time: a reported cycle is there, and until one is met every visited vertex
    starts finite paths only. -/
structure Known (s : Search V) : Prop where
  cyclic : s.cycle = true → Cyclic adj
  grounded : s.cycle = false → ∀ v, s.colour v = .visited → Acc (fun b a => Edge adj a b) v

/-- What happens to the colours while no cycle is met: the vertices being visited are the same, and the
    visited ones stay so. -/
structure Grown (s s' : Search V) : Prop where
  before : s'.cycle = false → s.cycle = false
  visiting : s'.cycle = false → ∀ u, s'.colour u = .visiting ↔ s.colour u = .visiting
  visited : s'.cycle = false → ∀ u, s.colour u = .visited → s'.colour u = .visited

omit [DecidableEq V] in
theorem Grown.refl (s : Search V) : Grown s s := ⟨id, fun _ _ => Iff.rfl, fun _ _ => id⟩

omit [DecidableEq V] in
theorem Grown.trans {a b c : Search V} (h : Grown a b) (h' : Grown b c) : Grown a c where
  before hc := h.before (h'.before hc)
  visiting hc u := (h'.visiting hc u).trans (h.visiting (h'.before hc) u)
  visited hc u hu := h'.visited hc u (h.visited (h'.before hc) u hu)

/-- The vertices left to visit. -/
def Search.left (s : Search V) (vertices : List V) : Nat := vertices.countP fun v => s.colour v = .unvisited

omit [DecidableEq V] in
theorem Grown.left_le {s s' : Search V} (h : Grown s s') (hc : s'.cycle = false) (vertices : List V) :
    s'.left vertices ≤ s.left vertices := by
  refine List.countP_mono_left fun u _ hu => ?_
  simp only [decide_eq_true_eq] at hu ⊢
  cases hs : s.colour u with
  | unvisited => rfl
  | visiting => rw [(h.visiting hc u).2 hs] at hu; cases hu
  | visited => rw [h.visited hc u hs] at hu; cases hu

@[simp] theorem Search.mark_self (s : Search V) (v : V) (c : Colour) : (s.mark v c).colour v = c := by
  simp [Search.mark]

theorem Search.mark_of_ne (s : Search V) {v u : V} (c : Colour) (h : u ≠ v) : (s.mark v c).colour u = s.colour u := by
  simp [Search.mark, h]

@[simp] theorem Search.mark_cycle (s : Search V) (v : V) (c : Colour) : (s.mark v c).cycle = s.cycle := rfl

theorem Search.left_mark {s : Search V} {v : V} {vertices : List V} (hv : v ∈ vertices)
    (hs : s.colour v = .unvisited) : (s.mark v .visiting).left vertices < s.left vertices := by
  induction vertices with
  | nil => cases hv
  | cons u rest ih =>
    have hle : (s.mark v .visiting).left rest ≤ s.left rest := by
      refine List.countP_mono_left fun u _ hu => ?_
      simp only [decide_eq_true_eq] at hu ⊢
      by_cases huv : u = v
      · rw [huv, Search.mark_self] at hu; cases hu
      · rwa [Search.mark_of_ne _ _ huv] at hu
    simp only [Search.left, List.countP_cons] at hle ⊢
    by_cases huv : u = v
    · subst huv
      simp only [Search.mark_self, hs, reduceCtorEq, decide_false, decide_true, Bool.false_eq_true, if_false, if_true]
      omega
    · rw [Search.mark_of_ne _ _ huv]
      have := ih ((List.mem_cons.1 hv).resolve_left (Ne.symm huv))
      simp only [Search.left] at this
      omega

/-- What a visit of `v` guarantees. -/
structure Visits (adj : V → List V) (v : V) (s s' : Search V) : Prop where
  known : Known adj s'
  grown : Grown s s'
  done : s'.cycle = false → s'.colour v = .visited

/-- The scan of `v`, when visits of its unvisited successors do what they should. `s₀` is the state in which
    the visit of `v` began. -/
theorem scan_spec {visit : V → Search V → Search V} {v : V} {s₀ : Search V} (nexts : List V)
    (hadj : nexts ⊆ adj v)
    (hvisit : ∀ next ∈ adj v, ∀ s, Known adj s → s.colour next = .unvisited → s.cycle = true → visit next s = s)
    (hvisits : ∀ next ∈ adj v, ∀ s, Known adj s → Grown (s₀.mark v .visiting) s → s.colour next = .unvisited →
      s.cycle = false → Visits adj next s (visit next s))
    (hpath : ∀ u, s₀.colour u = .visiting → Relation.ReflTransGen (Edge adj) u v)
    (hfresh : s₀.colour v = .unvisited) (hc₀ : s₀.cycle = false)
    {s : Search V} (hs : Known adj s) (hg : Grown (s₀.mark v .visiting) s)
    (hbefore : s.cycle = false → ∀ next ∈ adj v, next ∉ nexts → s.colour next = .visited) :
    Visits adj v s₀ (scan visit v nexts s) := by
  induction nexts generalizing s with
  | nil =>
    simp only [scan]
    refine ⟨⟨hs.cyclic, ?_⟩, ⟨fun _ => hc₀, ?_, ?_⟩, fun _ => by simp⟩
    · -- every successor of `v` is visited, so `v` starts finite paths only
      intro hc u hu
      by_cases huv : u = v
      · subst huv
        exact ⟨_, fun next hnext => hs.grounded hc next (hbefore hc next hnext List.not_mem_nil)⟩
      · rw [Search.mark_of_ne _ _ huv] at hu
        exact hs.grounded hc u hu
    · intro hc u
      by_cases huv : u = v
      · subst huv; simp [hfresh]
      · rw [Search.mark_of_ne _ _ huv, hg.visiting hc u, Search.mark_of_ne _ _ huv]
    · intro hc u hu
      by_cases huv : u = v
      · subst huv; simp
      · rw [Search.mark_of_ne _ _ huv]
        exact hg.visited hc u (by rw [Search.mark_of_ne _ _ huv]; exact hu)
  | cons next rest ih =>
    have hnext : Edge adj v next := hadj List.mem_cons_self
    have hrest : rest ⊆ adj v := fun x hx => hadj (List.mem_cons_of_mem _ hx)
    simp only [scan]
    split
    · next hcol =>
      refine ⟨⟨fun _ => ?_, fun h => by cases h⟩, ⟨nofun, nofun, nofun⟩, nofun⟩
      cases hc : s.cycle with
      | true => exact hs.cyclic hc
      | false =>
        have hv : Relation.ReflTransGen (Edge adj) next v := by
          by_cases hnv : next = v
          · rw [hnv]
          · refine hpath next ?_
            rw [← Search.mark_of_ne s₀ .visiting hnv]
            exact (hg.visiting hc next).1 hcol
        exact ⟨v, Relation.TransGen.head' hnext hv⟩
    · next hcol =>
      cases hc : s.cycle with
      | true =>
        rw [hvisit next hnext s hs hcol hc]
        exact ih hrest hs hg (fun hc' => by rw [hc] at hc'; cases hc')
      | false =>
        have hvis := hvisits next hnext s hs hg hcol hc
        refine ih hrest hvis.known (hg.trans hvis.grown) fun hc' x hx hxr => ?_
        by_cases hxn : x = next
        · rw [hxn]; exact hvis.done hc'
        · exact hvis.grown.visited hc' x (hbefore hc x hx (by simp [hxn, hxr]))
    · next hcol =>
      refine ih hrest hs hg fun hc x hx hxr => ?_
      by_cases hxn : x = next
      · rw [hxn]; exact hcol
      · exact hbefore hc x hx (by simp [hxn, hxr])

theorem visit_of_cycle (fuel : Nat) (v : V) {s : Search V} (hc : s.cycle = true) : visit adj fuel v s = s := by
  cases fuel with
  | zero => rfl
  | succ fuel => simp [visit, hc]

/-- A visit with fuel for the vertices left. -/
theorem visit_spec {fuel : Nat} {v : V} {s : Search V} (hU : ∀ a, adj a ⊆ vertices) (hv : v ∈ vertices)
    (hs : Known adj s) (hfresh : s.colour v = .unvisited) (hc : s.cycle = false)
    (hpath : ∀ u, s.colour u = .visiting → Relation.ReflTransGen (Edge adj) u v)
    (hfuel : s.left vertices ≤ fuel) : Visits adj v s (visit adj fuel v s) := by
  induction fuel generalizing v s with
  | zero =>
    have := Search.left_mark hv hfresh
    omega
  | succ fuel ih =>
    simp only [visit, hc, Bool.false_eq_true, if_false]
    refine scan_spec (adj v) (fun _ h => h) ?_ ?_ hpath hfresh hc ?_ (.refl _) (fun _ x hx hn => absurd hx hn)
    · intro next _ s' _ _ hc'
      exact visit_of_cycle fuel next hc'
    · intro next hnext s' hs' hg hcol hc'
      refine ih (hU v hnext) hs' hcol hc' ?_ ?_
      · intro u hu
        by_cases huv : u = v
        · rw [huv]; exact .single hnext
        · refine (hpath u ?_).tail hnext
          rw [← Search.mark_of_ne s .visiting huv]
          exact (hg.visiting hc' u).1 hu
      · have h1 := hg.left_le hc' vertices
        have h2 := Search.left_mark hv hfresh
        omega
    · refine ⟨hs.cyclic, fun hc' u hu => hs.grounded hc' u ?_⟩
      by_cases huv : u = v
      · rw [huv, Search.mark_self] at hu; cases hu
      · rwa [Search.mark_of_ne _ _ huv] at hu

theorem search_of_cycle (fuel : Nat) (roots : List V) {s : Search V} (hc : s.cycle = true) :
    search adj fuel roots s = s := by
  induction roots with
  | nil => rfl
  | cons root rest ih =>
    simp only [search, visit_of_cycle fuel root hc, ite_self]
    exact ih

/-- Between two roots nothing is being visited. -/
theorem search_spec {fuel : Nat} {roots : List V} {s : Search V} (hU : ∀ a, adj a ⊆ vertices)
    (hr : roots ⊆ vertices) (hs : Known adj s) (hidle : s.cycle = false → ∀ u, s.colour u ≠ .visiting)
    (hfuel : vertices.length ≤ fuel) :
    Known adj (search adj fuel roots s) ∧ ((search adj fuel roots s).cycle = false →
      ∀ v, v ∈ roots ∨ s.colour v = .visited → (search adj fuel roots s).colour v = .visited) := by
  induction roots generalizing s with
  | nil => exact ⟨hs, fun _ v hv => hv.resolve_left List.not_mem_nil⟩
  | cons root rest ih =>
    have hroot : root ∈ vertices := hr List.mem_cons_self
    have step : ∃ s', search adj fuel (root :: rest) s = search adj fuel rest s' ∧ Known adj s' ∧ Grown s s' ∧
        (s'.cycle = false → s'.colour root = .visited) := by
      simp only [search]
      split
      · next hcol =>
        cases hc : s.cycle with
        | true => exact ⟨s, by rw [visit_of_cycle fuel root hc], hs, .refl s, fun h => by rw [hc] at h; cases h⟩
        | false =>
          have hvis : Visits adj root s (visit adj fuel root s) :=
            visit_spec hU hroot hs hcol hc (fun u hu => absurd hu (hidle hc u))
              (Nat.le_trans List.countP_le_length hfuel)
          exact ⟨_, rfl, hvis.known, hvis.grown, hvis.done⟩
      · next hcol =>
        refine ⟨s, rfl, hs, .refl s, fun hc => ?_⟩
        cases h : s.colour root with
        | unvisited => exact absurd h hcol
        | visiting => exact absurd h (hidle hc root)
        | visited => rfl
    obtain ⟨s', he, hs', hg, hdone⟩ := step
    rw [he]
    have hidle' : s'.cycle = false → ∀ u, s'.colour u ≠ .visiting := fun hc u hu =>
      hidle (hg.before hc) u ((hg.visiting hc u).1 hu)
    obtain ⟨hk, hrest⟩ := ih (fun x hx => hr (List.mem_cons_of_mem _ hx)) hs' hidle'
    have hstay : (search adj fuel rest s').cycle = false → s'.cycle = false := fun hc => by
      cases hc' : s'.cycle with
      | false => rfl
      | true => rw [search_of_cycle fuel rest hc'] at hc; exact hc.symm.trans hc' |>.symm
    refine ⟨hk, fun hc v hv => hrest hc v ?_⟩
    rcases hv with hv | hv
    · rcases List.mem_cons.1 hv with rfl | hv
      · exact .inr (hdone (hstay hc))
      · exact .inl hv
    · exact .inr (hg.visited (hstay hc) v hv)

omit [DecidableEq V] in
/-- A graph in which every vertex starts finite paths only has no cycle. -/
theorem not_cyclic_of_acc (h : ∀ v, Acc (fun b a => Edge adj a b) v) : ¬ Cyclic adj := by
  rintro ⟨v, hv⟩
  have wf : WellFounded (fun b a => Edge adj a b) := ⟨h⟩
  have hswap : Relation.TransGen (fun b a => Edge adj a b) v v := Relation.transGen_swap.2 hv
  exact wf.transGen.irrefl.irrefl v hswap

/-- The search from the blank state, with every vertex among the roots. -/
theorem search_acc {fuel : Nat} {roots : List V} (hU : ∀ a, adj a ⊆ roots) (hfuel : roots.length ≤ fuel)
    (hout : ∀ v, v ∉ roots → adj v = [])
    (hc : (search adj fuel roots ⟨fun _ => .unvisited, false⟩).cycle = false) :
    ∀ v, Acc (fun b a => Edge adj a b) v := by
  have blank : Known adj (⟨fun _ => .unvisited, false⟩ : Search V) := ⟨nofun, nofun⟩
  obtain ⟨hk, hall⟩ := search_spec hU (fun _ h => h) blank (fun _ _ => nofun) hfuel
  intro v
  by_cases hv : v ∈ roots
  · exact hk.grounded hc v (hall hc v (.inl hv))
  · exact ⟨_, fun b hb => by simp [Edge, hout v hv] at hb⟩

/-- The search reports a cycle exactly when the graph has one. -/
theorem search_cycle {fuel : Nat} {roots : List V} (hU : ∀ a, adj a ⊆ roots) (hfuel : roots.length ≤ fuel)
    (hout : ∀ v, v ∉ roots → adj v = []) :
    (search adj fuel roots ⟨fun _ => .unvisited, false⟩).cycle = true ↔ Cyclic adj := by
  have blank : Known adj (⟨fun _ => .unvisited, false⟩ : Search V) := ⟨nofun, nofun⟩
  refine ⟨(search_spec hU (fun _ h => h) blank (fun _ _ => nofun) hfuel).1.cyclic, fun hcyc => ?_⟩
  cases hc : (search adj fuel roots ⟨fun _ => .unvisited, false⟩).cycle with
  | true => rfl
  | false => exact absurd hcyc (not_cyclic_of_acc (search_acc hU hfuel hout hc))

/-! ### Finite relations -/

/-- A relation between finitely many points that has no cycle is well-founded. -/
theorem wellFounded_of_acyclic {V : Type} {r : V → V → Prop} {points : Set V} (finite : points.Finite)
    (within : ∀ a b, r a b → a ∈ points ∧ b ∈ points) (acyclic : ∀ v, ¬ Relation.TransGen r v v) : WellFounded r := by
  have order : IsStrictOrder V (Relation.TransGen r) :=
    { irrefl := acyclic
      trans := fun _ _ _ h h' => h.trans h' }
  have wf : points.WellFoundedOn (Relation.TransGen r) := finite.wellFoundedOn
  rw [Set.wellFoundedOn_iff] at wf
  exact Subrelation.wf (fun {a b} h => ⟨.single h, within a b h⟩) wf

end Graph
