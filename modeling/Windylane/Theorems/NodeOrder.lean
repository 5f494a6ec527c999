import Windylane.Dashboard.NodeOrder
import Windylane.Lib.Traverse

/-! The order of the nodes that the dashboard shows: each node once, the source of an edge before its target unless a cycle
    leads to the target, and the same whatever the order of the arrays. -/

namespace Windylane.Dashboard

variable {σ : Type} [LinearOrder σ]

/-! ### Sorting and sets -/

theorem sort_perm (ids : List σ) : (sort ids).Perm ids := List.perm_insertionSort _ ids

theorem sort_eq {a b : List σ} (perm : a.Perm b) : sort a = sort b :=
  List.Perm.eq_of_pairwise (fun _ _ _ _ => le_antisymm) (List.pairwise_insertionSort _ a) (List.pairwise_insertionSort _ b)
    ((sort_perm a).trans (perm.trans (sort_perm b).symm))

theorem setOf_foldl (ids set : List σ) (distinct : set.Nodup) :
    (ids.foldl (fun set id => if id ∈ set then set else set ++ [id]) set).Nodup ∧
      ∀ id, id ∈ ids.foldl (fun set id => if id ∈ set then set else set ++ [id]) set ↔ id ∈ set ∨ id ∈ ids := by
  induction ids generalizing set with
  | nil => exact ⟨distinct, fun id => by simp⟩
  | cons first rest ih =>
    rw [List.foldl_cons]
    split
    · rename_i known
      obtain ⟨distinct, mem⟩ := ih set distinct
      refine ⟨distinct, fun id => (mem id).trans ?_⟩
      rw [List.mem_cons]
      exact ⟨Or.imp_right Or.inr, Or.rec Or.inl (Or.rec (fun same => Or.inl (same ▸ known)) Or.inr)⟩
    · rename_i new
      obtain ⟨distinct, mem⟩ := ih (set ++ [first]) (List.nodup_append.2 ⟨distinct, List.nodup_singleton _, by
        rintro a ha b hb rfl
        exact new (List.mem_singleton.1 hb ▸ ha)⟩)
      refine ⟨distinct, fun id => (mem id).trans ?_⟩
      rw [List.mem_append, List.mem_singleton, List.mem_cons, or_assoc]

theorem nodup_setOf (ids : List σ) : (setOf ids).Nodup := (setOf_foldl ids [] List.nodup_nil).1

theorem mem_setOf {ids : List σ} {id : σ} : id ∈ setOf ids ↔ id ∈ ids :=
  ((setOf_foldl ids [] List.nodup_nil).2 id).trans (or_iff_right List.not_mem_nil)

namespace GraphOf
variable {g : GraphOf σ}

theorem links_foldl (nodeIDs : List σ) (edges : List (σ × σ)) (links : Links σ) (v : σ) :
    (edges.foldl (addEdge nodeIDs) links).incoming v =
        links.incoming v + (edges.filter fun e => e.1 ∈ nodeIDs ∧ e.2 ∈ nodeIDs).countP (·.2 = v) ∧
      (edges.foldl (addEdge nodeIDs) links).outgoing v =
        links.outgoing v ++ ((edges.filter fun e => e.1 ∈ nodeIDs ∧ e.2 ∈ nodeIDs).filter (·.1 = v)).map (·.2) := by
  induction edges generalizing links with
  | nil => simp
  | cons edge rest ih =>
    rw [List.foldl_cons]
    obtain ⟨incoming, outgoing⟩ := ih (addEdge nodeIDs links edge)
    rw [incoming, outgoing]
    by_cases within : edge.1 ∈ nodeIDs ∧ edge.2 ∈ nodeIDs
    · have step : ¬ (edge.1 ∉ nodeIDs ∨ edge.2 ∉ nodeIDs) := by simpa [not_or] using within
      rw [addEdge, if_neg step, List.filter_cons_of_pos (by simpa using within)]
      refine ⟨?_, ?_⟩
      · by_cases target : edge.2 = v
        · subst target
          simp
          omega
        · simp [Function.update_of_ne (Ne.symm target), target]
      · by_cases source : edge.1 = v
        · subst source
          simp
        · simp [Function.update_of_ne (Ne.symm source), source]
    · have step : edge.1 ∉ nodeIDs ∨ edge.2 ∉ nodeIDs := by
        by_contra both
        exact within (by simpa [not_or] using both)
      rw [addEdge, if_pos step, List.filter_cons_of_neg (by simpa using within)]
      exact ⟨rfl, rfl⟩

theorem links_incoming (v : σ) : g.links.incoming v = g.proper.countP (·.2 = v) :=
  (links_foldl g.nodeIDs g.edges ⟨fun _ => 0, fun _ => []⟩ v).1.trans (zero_add _)

theorem links_outgoing (v : σ) : g.links.outgoing v = (g.proper.filter (·.1 = v)).map (·.2) :=
  (links_foldl g.nodeIDs g.edges ⟨fun _ => 0, fun _ => []⟩ v).2

/-! ### One round -/

theorem release_incoming (walk : Walk σ) (target v : σ) :
    (walk.release target).incoming v = walk.incoming v - if v = target then 1 else 0 := by
  by_cases same : v = target
  · subst same
    simp [Walk.release]
  · simp [Walk.release, same]

theorem release_ready (walk : Walk σ) (target v : σ) : (walk.release target).ready.count v =
    walk.ready.count v + if v = target ∧ walk.incoming target = 1 then 1 else 0 := by
  unfold Walk.release
  dsimp only
  by_cases last : walk.incoming target = 1
  · rw [if_pos (show walk.incoming target - 1 = 0 by omega), (sort_perm _).count_eq, List.count_append]
    by_cases same : v = target
    · simp [same, last]
    · simp [same, Ne.symm same]
  · rw [if_neg (show ¬ walk.incoming target - 1 = 0 by omega)]
    simp [last]

/-- The targets of a node, one after the other: a target becomes ready at the last of the edges that still lead to it. -/
theorem release_foldl (targets : List σ) (walk : Walk σ) (enough : ∀ v, (targets.count v : Int) ≤ walk.incoming v) (v : σ) :
    (targets.foldl Walk.release walk).incoming v = walk.incoming v - targets.count v ∧
      (targets.foldl Walk.release walk).ready.count v =
        walk.ready.count v + if v ∈ targets ∧ walk.incoming v = targets.count v then 1 else 0 := by
  induction targets generalizing walk with
  | nil => simp
  | cons target rest ih =>
    have later : ∀ u, (rest.count u : Int) ≤ (walk.release target).incoming u := by
      intro u
      have := enough u
      rw [release_incoming]
      by_cases same : u = target
      · subst same
        rw [List.count_cons_self] at this
        rw [if_pos rfl]
        omega
      · rw [List.count_cons_of_ne (Ne.symm same)] at this
        rw [if_neg same]
        omega
    obtain ⟨counted, released⟩ := ih (walk.release target) later
    rw [List.foldl_cons, counted, released, release_incoming, release_ready]
    by_cases same : v = target
    · subst same
      have more := enough v
      rw [List.count_cons_self] at more
      have again : v ∈ rest ↔ 0 < rest.count v := List.count_pos_iff.symm
      rw [List.count_cons_self, if_pos rfl]
      simp only [List.mem_cons, true_or, true_and, again]
      refine ⟨by omega, ?_⟩
      split <;> split <;> split <;> omega
    · rw [List.count_cons_of_ne (Ne.symm same)]
      simp [same]

theorem release_ordered (targets : List σ) (walk : Walk σ) : (targets.foldl Walk.release walk).ordered = walk.ordered := by
  induction targets generalizing walk with
  | nil => rfl
  | cons target rest ih => exact ih (walk.release target)

/-- The state of the loop between two rounds. -/
structure Fits (g : GraphOf σ) (walk : Walk σ) : Prop where
  counts : ∀ v, walk.incoming v = g.proper.countP fun e => e.2 = v ∧ e.1 ∉ walk.ordered
  ready : ∀ v ∈ g.nodeIDs, v ∈ walk.ordered ++ walk.ready ↔ walk.incoming v = 0
  within : ∀ v ∈ walk.ordered ++ walk.ready, v ∈ g.nodeIDs
  distinct : (walk.ordered ++ walk.ready).Nodup
  sources : ∀ before v after, walk.ordered = before ++ v :: after → ∀ e ∈ g.proper, e.2 = v → e.1 ∈ before

theorem fits_init (g : GraphOf σ) : Fits g ⟨g.links.incoming, sort (g.nodeIDs.filter (g.links.incoming · = 0)), []⟩ where
  counts := fun v => by simp [links_incoming]
  ready := fun v hv => by simp [(sort_perm _).mem_iff, hv]
  within := fun v hv => by
    rw [List.nil_append, (sort_perm _).mem_iff] at hv
    exact (List.mem_filter.1 hv).1
  distinct := by
    rw [List.nil_append, (sort_perm _).nodup_iff]
    exact (nodup_setOf g.nodes).filter _
  sources := fun before v after none => by simp at none

/-- The edges that still lead to a node, when one more is ordered. -/
theorem countP_ordered {ordered : List σ} {id : σ} (new : id ∉ ordered) (v : σ) :
    (g.proper.countP fun e => e.2 = v ∧ e.1 ∉ ordered ++ [id]) + (g.links.outgoing id).count v =
      g.proper.countP fun e => e.2 = v ∧ e.1 ∉ ordered := by
  rw [links_outgoing]
  induction g.proper with
  | nil => rfl
  | cons e rest ih =>
    by_cases source : e.1 = id
    · have known : e.1 ∉ ordered := source ▸ new
      by_cases target : e.2 = v
      · simp [source, target, new] at ih ⊢
        omega
      · simpa [source, target] using ih
    · by_cases known : e.1 ∈ ordered
      · simpa [source, known] using ih
      · by_cases target : e.2 = v
        · simp [source, target, known] at ih ⊢
          omega
        · simpa [source, target] using ih

theorem Fits.round {walk : Walk σ} (fits : Fits g walk) {id : σ} {rest : List σ} (next : walk.ready = id :: rest) :
    Fits g ((sort (g.links.outgoing id)).foldl Walk.release { walk with ready := rest, ordered := walk.ordered ++ [id] }) := by
  have distinct := fits.distinct
  rw [next] at distinct
  have new : id ∉ walk.ordered := fun again => (List.nodup_append.1 distinct).2.2 id again id List.mem_cons_self rfl
  have targets : ∀ v, (sort (g.links.outgoing id)).count v = (g.links.outgoing id).count v := fun v => (sort_perm _).count_eq v
  have left := fun v => countP_ordered (g := g) new v
  have spec := release_foldl (sort (g.links.outgoing id)) { walk with ready := rest, ordered := walk.ordered ++ [id] } (fun v => by
    rw [targets]
    change _ ≤ walk.incoming v
    rw [fits.counts, ← left v]
    omega)
  have ordered := release_ordered (sort (g.links.outgoing id)) { walk with ready := rest, ordered := walk.ordered ++ [id] }
  generalize (sort (g.links.outgoing id)).foldl Walk.release { walk with ready := rest, ordered := walk.ordered ++ [id] } = after
    at spec ordered
  change after.ordered = walk.ordered ++ [id] at ordered
  have incoming : ∀ v, after.incoming v = walk.incoming v - (g.links.outgoing id).count v := fun v => by
    rw [(spec v).1, targets]
  have released : ∀ v, after.ready.count v = rest.count v +
      if v ∈ g.links.outgoing id ∧ walk.incoming v = (g.links.outgoing id).count v then 1 else 0 := fun v => by
    rw [(spec v).2, targets]
    simp only [(sort_perm (g.links.outgoing id)).mem_iff]
  have bound : ∀ v, ((g.links.outgoing id).count v : Int) ≤ walk.incoming v := fun v => by
    rw [fits.counts, ← left v]
    omega
  have inside : ∀ v ∈ g.links.outgoing id, v ∈ g.nodeIDs := by
    intro v hv
    rw [links_outgoing] at hv
    obtain ⟨e, he, rfl⟩ := List.mem_map.1 hv
    have := (List.mem_filter.1 (List.mem_filter.1 he).1).2
    simp only [decide_eq_true_eq] at this
    exact this.2
  have old : ∀ v ∈ g.nodeIDs, v ∈ walk.ordered ++ id :: rest ↔ walk.incoming v = 0 := fun v hv => next ▸ fits.ready v hv
  have mem : ∀ v, v ∈ after.ready ↔
      v ∈ rest ∨ v ∈ g.links.outgoing id ∧ walk.incoming v = (g.links.outgoing id).count v := by
    intro v
    rw [← List.count_pos_iff, released, ← List.count_pos_iff (l := rest)]
    split
    · simp [*]
    · simp [*]
  refine ⟨fun v => ?_, fun v hv => ?_, fun v hv => ?_, ?_, ?_⟩
  · rw [incoming, ordered, fits.counts, ← left v]
    omega
  · have := bound v
    have none : v ∉ g.links.outgoing id ↔ (g.links.outgoing id).count v = 0 := List.count_eq_zero.symm
    rw [ordered, List.append_assoc, List.mem_append, List.singleton_append, List.mem_cons, mem, incoming]
    have old := old v hv
    rw [List.mem_append, List.mem_cons] at old
    by_cases target : v ∈ g.links.outgoing id
    · have positive := List.count_pos_iff.2 target
      constructor
      · rintro (done | same | ready | ⟨-, last⟩)
        · have := old.1 (Or.inl done)
          omega
        · have := old.1 (Or.inr (Or.inl same))
          omega
        · have := old.1 (Or.inr (Or.inr ready))
          omega
        · omega
      · intro last
        exact Or.inr (Or.inr (Or.inr ⟨target, by omega⟩))
    · rw [none.1 target, Int.natCast_zero, Int.sub_zero, ← old]
      simp [target]
  · rw [ordered, List.append_assoc, List.mem_append, List.singleton_append, List.mem_cons, mem] at hv
    rcases hv with done | same | ready | ⟨target, -⟩
    · exact fits.within v (List.mem_append_left _ done)
    · exact fits.within v (List.mem_append_right _ (next ▸ same ▸ List.mem_cons_self))
    · exact fits.within v (List.mem_append_right _ (next ▸ List.mem_cons_of_mem _ ready))
    · exact inside v target
  · rw [List.nodup_iff_count_le_one] at distinct ⊢
    intro v
    have once := distinct v
    rw [ordered, List.append_assoc, List.count_append, List.singleton_append, List.count_cons, released]
    rw [List.count_append, List.count_cons] at once
    split
    · rename_i last
      have positive := List.count_pos_iff.2 last.1
      have absent : v ∉ walk.ordered ++ id :: rest := fun known => by
        have := (old v (inside v last.1)).1 known
        omega
      have := List.count_eq_zero.2 absent
      rw [List.count_append, List.count_cons] at this
      omega
    · omega
  · intro before v tail split e he target
    rw [ordered] at split
    rcases List.eq_nil_or_concat tail with rfl | ⟨front, last, rfl⟩
    · obtain ⟨rfl, same⟩ := List.append_inj' split rfl
      cases same
      have done : walk.incoming id = 0 := by
        have hv : id ∈ g.nodeIDs := fits.within id (List.mem_append_right _ (next ▸ List.mem_cons_self))
        exact (old id hv).1 (List.mem_append_right _ List.mem_cons_self)
      rw [fits.counts, Int.natCast_eq_zero, List.countP_eq_zero] at done
      have := done e he
      simpa [target] using this
    · rw [List.concat_eq_append, ← List.cons_append, ← List.append_assoc] at split
      exact fits.sources before v front (List.append_inj' split rfl).1 e he target

theorem Fits.length_le {walk : Walk σ} (fits : Fits g walk) : (walk.ordered ++ walk.ready).length ≤ g.nodeIDs.length :=
  (List.subperm_of_subset fits.distinct fits.within).length_le

/-- With a round for each node that is not ordered, the loop ends because nothing is ready any more. -/
theorem Fits.loop {walk : Walk σ} (fits : Fits g walk) {fuel : Nat} (enough : g.nodeIDs.length ≤ fuel + walk.ordered.length) :
    Fits g (Walk.loop (fun id => sort (g.links.outgoing id)) fuel walk) ∧
      (Walk.loop (fun id => sort (g.links.outgoing id)) fuel walk).ready = [] := by
  induction fuel generalizing walk with
  | zero =>
    have := fits.length_le
    rw [List.length_append] at this
    exact ⟨fits, List.length_eq_zero_iff.1 (show walk.ready.length = 0 by omega)⟩
  | succ fuel ih =>
    unfold Walk.loop
    split
    · exact ⟨fits, ‹_›⟩
    · rename_i id rest next
      refine ih (fits.round next) ?_
      rw [release_ordered, List.length_append, List.length_singleton]
      omega

/-! ### The whole order -/

theorem walk_fits (g : GraphOf σ) : Fits g g.walk ∧ g.walk.ready = [] := (fits_init g).loop (by simp)

/-- An edge between nodes that exist. -/
def Linked (g : GraphOf σ) (a b : σ) : Prop := (a, b) ∈ g.edges ∧ a ∈ g.nodes ∧ b ∈ g.nodes

/-- On a cycle, or downstream of one. -/
def Cyclic (g : GraphOf σ) (v : σ) : Prop := ∃ w, Relation.TransGen g.Linked w w ∧ Relation.ReflTransGen g.Linked w v

theorem mem_proper {a b : σ} : (a, b) ∈ g.proper ↔ g.Linked a b := by
  simp [proper, Linked, nodeIDs, mem_setOf]

/-- A node that no cycle leads to is ordered: all that leads to it is, by induction along the edges. -/
theorem ordered_of_not_cyclic {v : σ} (given : v ∈ g.nodes) (free : ¬ g.Cyclic v) : v ∈ g.walk.ordered := by
  obtain ⟨fits, idle⟩ := walk_fits g
  have acyclic : ∀ w, ¬ Relation.TransGen (fun a b => g.Linked a b ∧ Relation.ReflTransGen g.Linked b v) w w := by
    intro w cycle
    obtain ⟨last, -, -, leads⟩ := Relation.TransGen.tail'_iff.1 cycle
    exact free ⟨w, Relation.TransGen.mono (fun _ _ => And.left) w w cycle, leads⟩
  have wf := Graph.wellFounded_of_acyclic (List.finite_toSet g.nodes) (fun a b step => step.1.2) acyclic
  have each : ∀ u, u ∈ g.nodes → Relation.ReflTransGen g.Linked u v → u ∈ g.walk.ordered := by
    intro u
    induction u using wf.induction with
    | _ u ih =>
      intro known leads
      have ready := fits.ready u (mem_setOf.2 known)
      rw [idle, List.append_nil] at ready
      rw [ready, fits.counts, Int.natCast_eq_zero, List.countP_eq_zero]
      rintro ⟨a, b⟩ he waiting
      simp only [decide_eq_true_eq] at waiting
      obtain ⟨rfl, unordered⟩ := waiting
      have link := mem_proper.1 he
      exact unordered (ih a ⟨link, leads⟩ link.2.1 (.head link leads))
  exact each v given .refl

/-- The order depends on the arrays only up to a permutation. -/
theorem topologicalNodeIDs_perm {g' : GraphOf σ} (nodes : g'.nodes.Perm g.nodes) (edges : g'.edges.Perm g.edges) :
    g'.topologicalNodeIDs = g.topologicalNodeIDs := by
  have ids : g'.nodeIDs.Perm g.nodeIDs := by
    refine (List.perm_ext_iff_of_nodup (nodup_setOf _) (nodup_setOf _)).2 fun id => ?_
    rw [mem_setOf, mem_setOf, nodes.mem_iff]
  have proper : g'.proper.Perm g.proper := by
    unfold GraphOf.proper
    refine (edges.filter _).trans (.of_eq (List.filter_congr fun e _ => ?_))
    simp only [ids.mem_iff]
  have incoming : g'.links.incoming = g.links.incoming := by
    funext v
    rw [links_incoming, links_incoming, proper.countP_eq]
  have outgoing : (fun id => sort (g'.links.outgoing id)) = fun id => sort (g.links.outgoing id) := by
    funext id
    rw [links_outgoing, links_outgoing]
    exact sort_eq ((proper.filter _).map _)
  have walk : g'.walk = g.walk := by
    unfold GraphOf.walk
    rw [outgoing, incoming, ids.length_eq, sort_eq (ids.filter _)]
  unfold topologicalNodeIDs
  rw [walk, sort_eq (ids.filter _)]

/-- Each node once, the source of an edge before its target unless a cycle leads there, whatever the order of the arrays;
    and the loop has come to its end. -/
theorem topologicalNodeIDs_spec (g : GraphOf σ) : g.walk.ready = [] ∧ g.topologicalNodeIDs.Nodup ∧
    (∀ id, id ∈ g.topologicalNodeIDs ↔ id ∈ g.nodes) ∧
    (∀ a b, g.Linked a b → ¬ g.Cyclic b → g.topologicalNodeIDs.idxOf a < g.topologicalNodeIDs.idxOf b) ∧
    ∀ g' : GraphOf σ, g'.nodes.Perm g.nodes → g'.edges.Perm g.edges → g'.topologicalNodeIDs = g.topologicalNodeIDs := by
  obtain ⟨fits, idle⟩ := walk_fits g
  have within := fits.within
  have distinct := fits.distinct
  rw [idle, List.append_nil] at within distinct
  have rest : ∀ id, id ∈ sort (g.nodeIDs.filter (· ∉ g.walk.ordered)) ↔ id ∈ g.nodes ∧ id ∉ g.walk.ordered := fun id => by
    rw [(sort_perm _).mem_iff, List.mem_filter, nodeIDs, mem_setOf, decide_eq_true_eq]
  refine ⟨idle, ?_, fun id => ?_, fun a b link free => ?_, fun g' nodes edges => topologicalNodeIDs_perm nodes edges⟩
  · refine List.nodup_append.2 ⟨distinct, ?_, ?_⟩
    · exact (sort_perm _).nodup_iff.2 ((nodup_setOf g.nodes).filter _)
    · rintro x hx y hy rfl
      exact ((rest x).1 hy).2 hx
  · rw [topologicalNodeIDs, List.mem_append, rest]
    constructor
    · rintro (done | known)
      · exact mem_setOf.1 (within id done)
      · exact known.1
    · intro known
      by_cases done : id ∈ g.walk.ordered
      · exact Or.inl done
      · exact Or.inr ⟨known, done⟩
  · obtain ⟨before, after, split⟩ := List.append_of_mem (ordered_of_not_cyclic link.2.2 free)
    have source := fits.sources before b after split (a, b) (mem_proper.2 link) rfl
    have target : b ∉ before := fun again => by
      rw [split] at distinct
      exact (List.nodup_append.1 distinct).2.2 b again b List.mem_cons_self rfl
    rw [topologicalNodeIDs, split, List.append_assoc, List.idxOf_append_of_mem source,
      List.idxOf_append_of_notMem target]
    exact (List.idxOf_lt_length_of_mem source).trans_le (Nat.le_add_right _ _)

-- a repeated node, a repeated edge, an edge to nowhere and a cycle of two
example : (GraphOf.mk [[5], [2], [4], [2], [3], [1]] [([1], [3]), ([1], [3]), ([3], [2]), ([1], [9]), ([4], [5]), ([5], [4])] :
    GraphOf JSString).topologicalNodeIDs = [[1], [3], [2], [4], [5]] := by decide +kernel

end GraphOf

end Windylane.Dashboard
