import Windylane.Lib.Keyset
import Windylane.Service.Lists
import Windylane.Theorems.Deliveries
import Windylane.Theorems.Keys
import Windylane.Theorems.Tasks
import Windylane.Theorems.Edits
import Windylane.Theorems.Idempotency
import Mathlib.Data.Prod.Lex

/-! The lists of the repository as keyset pagination. A page is cut from the rows that match and come after the cursor,
    newest first, and the text of a cursor stands for the key of the last row of its page; so following the cursors is a
    walk in the sense of `Keyset`, over whatever the table holds at each fetch. -/

namespace Windylane

open Conc

variable {ρ : Type} {h : Host} {f : CursorFormat} {key : ρ → Time × UUID} {matching : ρ → Bool} {limit : Nat}

/-! ### The order of the keys -/

/-- Keys are compared by time first, and by id among equal times. -/
def rank (k : Time × UUID) : ℤ ×ₗ ℕ := toLex (k.1, k.2.bits.toNat)

theorem rank_lt {a b : Time × UUID} : rank a < rank b ↔ a.1 < b.1 ∨ a.1 = b.1 ∧ a.2 < b.2 := by
  rw [rank, rank, Prod.Lex.toLex_lt_toLex]
  exact Iff.rfl

theorem UUID.eq_of_toNat {u v : UUID} (same : u.bits.toNat = v.bits.toNat) : u = v := by
  obtain ⟨a⟩ := u
  obtain ⟨b⟩ := v
  exact congrArg UUID.mk (BitVec.eq_of_toNat_eq same)

theorem rank_injective {a b : Time × UUID} (same : rank a = rank b) : a = b := by
  have parts := Prod.mk.inj (toLex_inj.1 same)
  exact Prod.ext parts.1 (UUID.eq_of_toNat parts.2)

theorem newestFirst_iff {a b : ρ} : newestFirst key a b = true ↔ rank (key b) < rank (key a) := by
  rw [rank_lt]
  simp only [newestFirst, Bool.or_eq_true, Bool.and_eq_true, decide_eq_true_eq]
  exact or_congr_right (and_congr_left fun _ => eq_comm)

theorem passed_iff {after : Cursor} {k : Time × UUID} :
    after.passed k = (after.map rank).all fun c => decide (rank k < c) := by
  cases after with
  | none => rfl
  | some c =>
    rw [Bool.eq_iff_iff]
    simp [Cursor.passed, rank_lt]

/-! ### The text of a cursor -/

theorem CursorFormat.decode_encode (f : CursorFormat) (k : Time × UUID) : f.decodeCursor (f.encodeCursor k) = some k := by
  have plain : ∀ c ∈ (f.formatTime k.1).toList, decide (c ≠ '|') = true := fun c hc =>
    decide_eq_true fun bar => f.formatTime_plain k.1 (bar ▸ hc)
  have split : (f.formatTime k.1 ++ "|" ++ k.2.text).toList = (f.formatTime k.1).toList ++ '|' :: k.2.text.toList := by
    simp
  simp only [decodeCursor, encodeCursor, f.decodeString_encodeToString, split, Option.bind_eq_bind, Option.bind_some]
  rw [List.dropWhile_append_of_pos plain, List.takeWhile_append_of_pos plain]
  simp [f.parseTime_formatTime, f.uuidParse_text]

theorem CursorFormat.encode_ne (f : CursorFormat) (k : Time × UUID) : f.encodeCursor k ≠ "" := by
  refine f.encodeToString_ne _ fun empty => ?_
  have := congrArg String.toList empty
  simp at this

/-- The row after which a page with this cursor starts. -/
def Host.reads (h : Host) (cursor : String) : Option Cursor :=
  if cursor = "" then some none else (h.decodeCursor cursor).map some

theorem Host.Formats.reads (formats : h.Formats f) (k : Time × UUID) : h.reads (h.encodeCursor k) = some (some k) := by
  rw [Host.reads, formats.encode, formats.decode, if_neg (f.encode_ne k), f.decode_encode]
  rfl

/-! ### One page -/

/-- The page of a table after a cursor. -/
def Host.pageOf (h : Host) (key : ρ → Time × UUID) (matching : ρ → Bool) (limit : Nat) (rows : List ρ) (cursor : String) :
    Except Err (Page ρ) :=
  match h.reads cursor with
  | none => .error .invalidInput
  | some after =>
    .ok (h.cut limit key (Table.firstBy (newestFirst key) (limit + 1)
      (rows.filter fun r => matching r && after.passed (key r))))

theorem Host.cut_eq (h : Host) (limit : Nat) (rows : List ρ) :
    h.cut limit key rows = ⟨(Keyset.cut limit rows).1, match (Keyset.cut limit rows).2 with
      | some last => h.encodeCursor (key last)
      | none => ""⟩ := by
  unfold Host.cut Keyset.cut
  split <;> rfl

theorem after_eq (after : Cursor) (rows : List ρ) :
    (rows.filter fun r => matching r && after.passed (key r)) =
      Keyset.after (fun r => rank (key r)) (after.map rank) (rows.filter matching) := by
  rw [Keyset.after, List.filter_filter]
  refine List.filter_congr fun r _ => ?_
  rw [passed_iff, Bool.and_comm]

theorem distinct_keys {rows : List ρ} (ids : (rows.map fun r => (key r).2).Nodup) :
    (rows.map fun r => rank (key r)).Nodup := by
  refine List.Nodup.of_map (fun k : ℤ ×ₗ ℕ => (ofLex k).2) ?_
  rw [List.map_map]
  have numbers : ((rows.map fun r => (key r).2).map fun id => id.bits.toNat).Nodup :=
    ids.map fun _ _ same => UUID.eq_of_toNat same
  rwa [List.map_map] at numbers

/-- A page is a page of the rows that match and come after its cursor, and its own cursor is read as where it ends. -/
theorem pageOf_isPage (matching : ρ → Bool) (formats : h.Formats f) (pos : 0 < limit) {rows : List ρ}
    (ids : (rows.map fun r => (key r).2).Nodup) {cursor : String} {after : Cursor} (read : h.reads cursor = some after) :
    ∃ page next, h.pageOf key matching limit rows cursor = .ok page ∧
      Keyset.IsPage (fun r => rank (key r))
        (Keyset.after (fun r => rank (key r)) (after.map rank) (rows.filter matching)) page.items (next.map rank) ∧
      (next = none → page.nextCursor = "") ∧
      ∀ k, next = some k → page.nextCursor ≠ "" ∧ h.reads page.nextCursor = some (some k) := by
  have distinct : ((Keyset.after (fun r => rank (key r)) (after.map rank) (rows.filter matching)).map
      fun r => rank (key r)).Nodup :=
    (distinct_keys ids).sublist ((List.filter_sublist.trans List.filter_sublist).map _)
  have isPage := Keyset.cut_isPage (fun _ _ => newestFirst_iff) pos distinct
  rw [Host.pageOf, read]
  simp only [after_eq, Host.cut_eq]
  generalize Keyset.cut limit _ = out at isPage ⊢
  obtain ⟨items, last⟩ := out
  refine ⟨_, last.map key, rfl, ?_, ?_, ?_⟩
  · rwa [Option.map_map]
  · intro none
    rw [Option.map_eq_none_iff.1 none]
  · intro k hk
    obtain ⟨row, rfl, rfl⟩ := Option.map_eq_some_iff.1 hk
    refine ⟨?_, formats.reads (key row)⟩
    simp only [formats.encode]
    exact f.encode_ne _

/-! ### Following the cursors -/

/-- The last page has no cursor. -/
def finished (pages : List (Page ρ)) : Bool := pages.getLast?.any (·.nextCursor = "")

theorem finished_cons {page : Page ρ} (more : page.nextCursor ≠ "") (pages : List (Page ρ)) :
    finished (page :: pages) = finished pages := by
  cases pages with
  | nil => simp [finished, more]
  | cons next rest => simp [finished]

/-- The contents of a table at one fetch after the other: ids are told apart in each, and a row that is in two of them
    has the same time there. -/
structure Kept (key : ρ → Time × UUID) (rows : Nat → List ρ) : Prop where
  primaryKey : ∀ n, ((rows n).map fun r => (key r).2).Nodup
  time : ∀ m n, ∀ r ∈ rows m, ∀ q ∈ rows n, (key r).2 = (key q).2 → (key r).1 = (key q).1

/-- Following the cursors never fails, and it walks through what the table holds at each fetch. -/
theorem follow_walk (matching : ρ → Bool) (formats : h.Formats f) (pos : 0 < limit) {rows : Nat → List ρ} (kept : Kept key rows)
    (count n : Nat) {cursor : String} {after : Cursor} (read : h.reads cursor = some after) :
    ∃ pages, follow (fun n cursor => h.pageOf key matching limit (rows n) cursor) count n cursor = .ok pages ∧
      Keyset.Walk (fun r => rank (key r)) (fun n => (rows n).filter matching) n (after.map rank)
        (pages.map (·.items)) (finished pages) ∧
      (finished pages = false → pages.length = count) := by
  induction count generalizing n cursor after with
  | zero => exact ⟨[], rfl, .stop n _, fun _ => rfl⟩
  | succ count ih =>
    obtain ⟨page, next, fetched, isPage, none, some⟩ := pageOf_isPage matching formats pos
      (kept.primaryKey n) read
    simp only [follow, fetched]
    cases next with
    | none =>
      rw [if_pos (none rfl)]
      refine ⟨[page], rfl, ?_, fun unfinished => ?_⟩
      · rw [show finished [page] = true by simp [finished, none rfl]]
        exact .last isPage
      · simp [finished, none rfl] at unfinished
    | some k =>
      obtain ⟨more, read⟩ := some k rfl
      obtain ⟨pages, followed, walk, length⟩ := ih (n + 1) read
      rw [if_neg more, followed]
      refine ⟨page :: pages, rfl, ?_, ?_⟩
      · rw [finished_cons more]
        exact .more isPage walk
      · rw [finished_cons more]
        intro unfinished
        rw [List.length_cons, length unfinished]

/-- What a client gets that follows the cursors of a list, when the `n`-th page is fetched from `rows n`. -/
structure Paginates (key : ρ → Time × UUID) (matching : ρ → Bool) (rows : Nat → List ρ)
    (fetch : Nat → String → Except Err (Page ρ)) : Prop where
  /-- No fetch fails. -/
  returns : ∀ count, ∃ pages, follow fetch count 0 "" = .ok pages
  /-- What is returned was there, and matched, when it was fetched. -/
  matched : ∀ count pages, follow fetch count 0 "" = .ok pages → ∀ n page, pages[n]? = some page →
    ∀ r ∈ page.items, r ∈ rows n ∧ matching r = true
  descending : ∀ count pages, follow fetch count 0 "" = .ok pages →
    (pages.flatMap (·.items)).Pairwise fun a b => newestFirst key a b = true
  /-- No row is returned twice. -/
  once : ∀ count pages, follow fetch count 0 "" = .ok pages → ((pages.flatMap (·.items)).map fun r => (key r).2).Nodup
  /-- A row that is there and matches at every fetch is returned, once the cursor is empty. -/
  complete : ∀ count pages, follow fetch count 0 "" = .ok pages → finished pages = true → ∀ id,
    (∀ n < pages.length, ∃ r ∈ rows n, (key r).2 = id ∧ matching r = true) →
    ((pages.flatMap (·.items)).map fun r => (key r).2).count id = 1
  /-- The cursor becomes empty if the table stops changing. -/
  finishes : ∀ settled, (∀ n, settled ≤ n → rows n = rows settled) →
    ∃ count pages, follow fetch count 0 "" = .ok pages ∧ finished pages = true

theorem pageOf_paginates (formats : h.Formats f) (pos : 0 < limit) {rows : Nat → List ρ} (kept : Kept key rows)
    {fetch : Nat → String → Except Err (Page ρ)} (fetches : ∀ n cursor, fetch n cursor = h.pageOf key matching limit (rows n) cursor) :
    Paginates key matching rows fetch := by
  obtain rfl : fetch = fun n cursor => h.pageOf key matching limit (rows n) cursor := by
    funext n cursor
    exact fetches n cursor
  have start : h.reads "" = some none := rfl
  have walked : ∀ count pages, follow (fun n cursor => h.pageOf key matching limit (rows n) cursor) count 0 "" = .ok pages →
      Keyset.Walk (fun r => rank (key r)) (fun n => (rows n).filter matching) 0 none (pages.map (·.items))
        (finished pages) ∧ (finished pages = false → pages.length = count) := by
    intro count pages followed
    obtain ⟨pages', followed', walk, length⟩ := follow_walk matching formats pos kept count 0 start
    rw [followed] at followed'
    cases followed'
    exact ⟨walk, length⟩
  have nodup : ∀ count pages, follow (fun n cursor => h.pageOf key matching limit (rows n) cursor) count 0 "" = .ok pages →
      ((pages.flatMap (·.items)).map fun r => (key r).2).Nodup := by
    intro count pages followed
    obtain ⟨walk, -⟩ := walked count pages followed
    refine List.pairwise_map.2 (walk.descending.imp_of_mem fun {a b} ha hb lt same => ?_)
    obtain ⟨m, ha⟩ := walk.mem_rows ha
    obtain ⟨n, hb⟩ := walk.mem_rows hb
    have time := kept.time m n a (List.mem_of_mem_filter ha) b (List.mem_of_mem_filter hb) same
    exact lt_irrefl _ (by rwa [Prod.ext time same] at lt)
  refine ⟨fun count => ?_, fun count pages followed n page found r hr => ?_, fun count pages followed => ?_, nodup,
    fun count pages followed done id there => ?_, fun settled same => ?_⟩
  · obtain ⟨pages, followed, -⟩ := follow_walk matching formats pos kept count 0 start
    exact ⟨pages, followed⟩
  · have := (walked count pages followed).1.among n page.items (by simp [found]) r hr
    simpa using List.mem_filter.1 this
  · exact (walked count pages followed).1.descending.imp fun lt => newestFirst_iff.2 lt
  · obtain ⟨walk, -⟩ := walked count pages followed
    have mem : id ∈ (pages.flatMap (·.items)).map fun r => (key r).2 := by
      obtain ⟨last, hlast⟩ : ∃ last, pages.getLast? = some last := by
        cases found : pages.getLast? with
        | none => simp [finished, found] at done
        | some last => exact ⟨last, rfl⟩
      have some : 0 < pages.length := List.length_pos_of_mem (List.mem_of_getLast? hlast)
      obtain ⟨r, hr, rfl, -⟩ := there 0 some
      obtain ⟨q, hq, same⟩ := walk.complete done (k := rank (key r)) (fun c hc => by cases hc) fun i hi => by
        obtain ⟨q, hq, id, matched⟩ := there i (by simpa using hi)
        have time := kept.time i 0 q hq r hr id
        exact ⟨q, List.mem_filter.2 ⟨by rwa [Nat.zero_add], matched⟩, by rw [Prod.ext time id]⟩
      refine List.mem_map.2 ⟨q, hq, ?_⟩
      rw [rank_injective same]
    exact List.count_eq_one_of_mem (nodup count pages followed) mem
  · obtain ⟨pages, followed, walk, length⟩ := follow_walk matching formats pos kept
      (settled + (rows settled).length + 1) 0 start
    refine ⟨_, pages, followed, ?_⟩
    by_contra unfinished
    have unfinished : finished pages = false := Bool.eq_false_iff.2 unfinished
    have bound := (walk.length_le unfinished fun m (le : settled ≤ m) => by rw [same m le]).1
    have := length unfinished
    have := List.length_filter_le matching (rows settled)
    simp only [List.length_map] at bound
    omega

/-! ### The lists -/

/-- A fetch that meets no fault reads the page from the table as it is. -/
theorem page_alone {env : Nat → Env} {w : World} {limit : Int} {rows : List ρ} {select : Cursor → Nat → Script (List ρ)}
    (asked : ∀ after n, ∃ o k, select after n = Prog.call o k ∧
      k (Op.exec (env 0) o w).1 = .ret (Table.firstBy (newestFirst key) n
        (rows.filter fun r => matching r && after.passed (key r)))) (cursor : String) :
    (Prog.alone (M := machine) env (h.page key cursor limit select) w).1 =
      h.pageOf key matching (pageLimit limit) rows cursor := by
  unfold Host.page Host.pageOf Host.reads
  generalize (if cursor = "" then some none else (h.decodeCursor cursor).map some) = read
  cases read with
  | none => rfl
  | some after =>
    obtain ⟨o, k, called, answered⟩ := asked after (pageLimit limit + 1)
    simp only [called, Prog.call_bind, Prog.alone]
    rw [answered]
    rfl

theorem listTasks_alone {env : Nat → Env} (quiet : (env 0).fault = none) (orgID : UUID) (filter : TaskFilter) (w : World)
    (cursor : String) :
    (Prog.alone (M := machine) env (listTasks h orgID { filter with cursor := cursor }) w).1 =
      h.pageOf (fun t => (t.createdAt, t.id)) (filter.matching orgID) (pageLimit filter.limit) w.tasks cursor :=
  page_alone (fun after n => ⟨.task (.listTasks orgID filter.queue filter.status after n), _, rfl, by
    rw [Op.exec_calm quiet]
    rfl⟩) cursor

theorem listWorkflows_alone {env : Nat → Env} (quiet : (env 0).fault = none) (orgID : UUID) (filter : WorkflowFilter)
    (w : World) (cursor : String) :
    (Prog.alone (M := machine) env (Postgres.listWorkflows h orgID { filter with cursor := cursor }) w).1 =
      h.pageOf (fun r => (r.createdAt, r.id)) (filter.matching orgID) (pageLimit filter.limit) w.canvas.workflows
        cursor :=
  page_alone (fun after n => ⟨.canvas (.listWorkflows orgID filter.status after n), _, rfl, by
    rw [Op.exec_calm quiet]
    rfl⟩) cursor

theorem listWorkflowExecutions_alone {env : Nat → Env} (quiet : (env 0).fault = none) (orgID workflowID : UUID)
    (filter : WorkflowExecutionFilter) (w : World) (cursor : String) :
    (Prog.alone (M := machine) env
      (Postgres.listWorkflowExecutions h orgID workflowID { filter with cursor := cursor }) w).1 =
      h.pageOf (fun x => (x.createdAt, x.id)) (filter.matching orgID workflowID) (pageLimit filter.limit)
        w.canvas.executions cursor :=
  page_alone (fun after n => ⟨.canvas (.listWorkflowExecutions orgID workflowID filter.status after n), _, rfl, by
    rw [Op.exec_calm quiet]
    rfl⟩) cursor

theorem listWebhookDeliveries_alone {env : Nat → Env} (quiet : (env 0).fault = none) (orgID : UUID)
    (filter : WebhookDeliveryFilter) (w : World) (cursor : String) :
    (Prog.alone (M := machine) env (Postgres.listWebhookDeliveries h orgID { filter with cursor := cursor }) w).1 =
      h.pageOf (fun d => (d.createdAt, d.id)) (filter.matching orgID) (pageLimit filter.limit) w.hooks.deliveries
        cursor :=
  page_alone (fun after n => ⟨.hook (.listWebhookDeliveries orgID filter.endpointID filter.status filter.eventType after n),
    _, rfl, by
    rw [Op.exec_calm quiet]
    rfl⟩) cursor

/-- A filter that is rejected does not depend on the cursor. -/
theorem listMetricEvents_eq {orgID : UUID} (org : orgID ≠ .nil) {filter : MetricEventFilter}
    (valid : filter.validate = .ok ()) (rows : List MetricEvent) (cursor : String) :
    listMetricEvents h orgID { filter with cursor := cursor } rows =
      h.pageOf (fun e => (e.occurredAt, e.id)) (filter.matching orgID) filter.limit.toNat rows cursor := by
  have valid : MetricEventFilter.validate { filter with cursor := cursor } = .ok () := valid
  rw [listMetricEvents, if_neg org, valid]
  rfl

theorem pageLimit_pos (limit : Int) : 0 < pageLimit limit := by
  unfold pageLimit
  split <;> omega

theorem MetricEventFilter.limit_pos {filter : MetricEventFilter} (valid : filter.validate = .ok ()) :
    0 < filter.limit.toNat := by
  unfold MetricEventFilter.validate at valid
  split at valid
  · cases valid
  · omega

/-! ### What a run does to the tables -/

/-- A table and what it is later: rows stay under their id and their time, and ids stay distinct. -/
structure Grows (key : ρ → Time × UUID) (rows rows' : List ρ) : Prop where
  stays : ∀ r ∈ rows, ∃ q ∈ rows', key q = key r
  ids : (rows.map fun r => (key r).2).Nodup → (rows'.map fun r => (key r).2).Nodup

namespace Grows

theorem refl (rows : List ρ) : Grows key rows rows := ⟨fun r hr => ⟨r, hr, rfl⟩, fun ids => ids⟩

theorem trans {rows rows' rows'' : List ρ} (first : Grows key rows rows') (second : Grows key rows' rows'') :
    Grows key rows rows'' := by
  refine ⟨fun r hr => ?_, fun ids => second.ids (first.ids ids)⟩
  obtain ⟨q, hq, same⟩ := first.stays r hr
  obtain ⟨q', hq', same'⟩ := second.stays q hq
  exact ⟨q', hq', same'.trans same⟩

/-- The keys are the same. -/
theorem of_keys {rows rows' : List ρ} (keys : rows'.map key = rows.map key) : Grows key rows rows' := by
  refine ⟨fun r hr => ?_, fun ids => ?_⟩
  · obtain ⟨q, hq, same⟩ := List.mem_map.1 (keys ▸ List.mem_map_of_mem hr : key r ∈ rows'.map key)
    exact ⟨q, hq, same⟩
  · have := congrArg (List.map Prod.snd) keys
    rw [List.map_map, List.map_map] at this
    exact this ▸ ids

theorem update {p : ρ → Bool} {set : ρ → ρ} (keeps : ∀ r, key (set r) = key r) (rows : List ρ) :
    Grows key rows (Table.update p set rows) := of_keys (Table.map_update key keeps rows)

theorem insert {rows : List ρ} {r : ρ} (fresh : ∀ q ∈ rows, (key q).2 ≠ (key r).2) : Grows key rows (rows ++ [r]) := by
  refine ⟨fun q hq => ⟨q, List.mem_append_left _ hq, rfl⟩, fun ids => ?_⟩
  rw [List.map_append]
  refine List.Nodup.append ids (List.nodup_singleton _) fun id hid same => ?_
  obtain ⟨q, hq, rfl⟩ := List.mem_map.1 hid
  exact fresh q hq (List.mem_singleton.1 same)

end Grows

/-- Tables that grow from one fetch to the next keep their rows. -/
theorem kept_of_grows {rows : Nat → List ρ} (ids : ((rows 0).map fun r => (key r).2).Nodup)
    (grows : ∀ n, Grows key (rows n) (rows (n + 1))) : Kept key rows := by
  have later : ∀ m k, Grows key (rows m) (rows (m + k)) := by
    intro m k
    induction k with
    | zero => exact .refl _
    | succ k ih => exact ih.trans (grows (m + k))
  have primaryKey : ∀ n, ((rows n).map fun r => (key r).2).Nodup := fun n => by
    have := (later 0 n).ids ids
    rwa [Nat.zero_add] at this
  have ordered : ∀ m k, ∀ r ∈ rows m, ∀ q ∈ rows (m + k), (key r).2 = (key q).2 → (key r).1 = (key q).1 := by
    intro m k r hr q hq same
    obtain ⟨r', hr', stayed⟩ := (later m k).stays r hr
    have := Table.eq_of_key (primaryKey (m + k)) hr' hq (by rw [stayed, same])
    rw [← stayed, this]
  refine ⟨primaryKey, fun m n r hr q hq same => ?_⟩
  rcases Nat.le_total m n with le | le
  · obtain ⟨k, rfl⟩ := Nat.exists_eq_add_of_le le
    exact ordered m k r hr q hq same
  · obtain ⟨k, rfl⟩ := Nat.exists_eq_add_of_le le
    exact (ordered n k q hq r hr same.symm).symm

abbrev taskKey (t : Task) : Time × UUID := (t.createdAt, t.id)
abbrev workflowKey (r : Workflow) : Time × UUID := (r.createdAt, r.id)
abbrev executionKey (x : WorkflowExecution) : Time × UUID := (x.createdAt, x.id)
abbrev deliveryKey (d : WebhookDelivery) : Time × UUID := (d.createdAt, d.id)
abbrev eventKey (e : MetricEvent) : Time × UUID := (e.occurredAt, e.id)

theorem TaskOp.grows {rows : List Task} (ids : (rows.map (·.id)).Nodup) (env : Env) (o : TaskOp) :
    Grows taskKey rows (o.run env rows).2 := by
  rcases TaskOp.run_cases ids env o with ⟨t, -, fresh, ran⟩ | ⟨change, ran, changes⟩
  · rw [ran]
    exact .insert fun q hq same => fresh (List.mem_map.2 ⟨q, hq, same⟩)
  · rw [ran]
    refine .of_keys ?_
    rw [List.map_map]
    refine List.map_congr_left fun r hr => ?_
    rcases changes r hr with same | changed
    · rw [Function.comp, same]
    · exact Prod.ext changed.createdAt changed.id

theorem HookOp.grows (env : Env) (o : HookOp) (s : Webhooks.Store) :
    Grows deliveryKey s.deliveries (o.run env s).2.deliveries := by
  cases o with
  | createWebhookDelivery d =>
    simp only [HookOp.run, Webhooks.createWebhookDelivery]
    split
    · exact .refl _
    rename_i free
    repeat' split
    all_goals try exact .refl _
    refine .insert fun q hq same => free (List.any_eq_true.2 ⟨q, hq, by simpa using same⟩)
  | claimDueWebhookDeliveries now limit => exact .update (by intro _; rfl) _
  | updateWebhookDelivery d =>
    simp only [HookOp.run, Webhooks.updateWebhookDelivery]
    repeat' split
    all_goals try exact .refl _
    exact .update (by intro _; rfl) _
  | retryWebhookDelivery orgID id now =>
    simp only [HookOp.run, Webhooks.retryWebhookDelivery]
    split
    · exact .update (by intro _; rfl) _
    · exact .refl _
  | createWebhookEndpoint | updateWebhookEndpoint | softDeleteWebhookEndpoint => 
    rw [HookOp.run_endpoint _ _ rfl]
    exact .refl _
  | _ => exact .refl _

theorem WorkflowRows.grows {rows rows' : List Workflow} {o : Op} (moved : WorkflowRows rows o rows') :
    Grows workflowKey rows rows' := by
  cases moved with
  | same => exact .refl _
  | created x fresh => exact .insert fresh
  | edited x => exact .update (by intro _; rfl) _
  | marked p mark key created _ => exact .update (fun r => Prod.ext (created r) (key r).2) _

theorem CanvasOp.executions_grow (o : CanvasOp) (s : Canvas.Store) :
    Grows executionKey s.executions (o.run s).2.executions := by
  rcases o.run_executions executionKey (fun _ _ => rfl) (fun _ _ => rfl) s with keys | ⟨x, nodes, -, fresh, ran⟩
  · exact .of_keys keys
  · rw [ran]
    exact .insert fun y hy => (fresh y hy).2

/-- The tables that are listed, and what they are later. -/
structure TablesGrow (w w' : World) : Prop where
  tasks : Grows taskKey w.tasks w'.tasks
  workflows : Grows workflowKey w.canvas.workflows w'.canvas.workflows
  executions : Grows executionKey w.canvas.executions w'.canvas.executions
  deliveries : Grows deliveryKey w.hooks.deliveries w'.hooks.deliveries

theorem Op.tables_grow {w : World} (ids : (w.tasks.map (·.id)).Nodup) (env : Env) (o : Op) :
    TablesGrow w (o.exec env w).2 := by
  have workflows := (Op.workflow_rows env o w).grows
  rcases o.exec_world env w with lost | done
  · rw [lost]
    exact ⟨.refl _, .refl _, .refl _, .refl _⟩
  · rw [done] at workflows ⊢
    cases o with
    | sys o | worker o | broker o => exact ⟨.refl _, .refl _, .refl _, .refl _⟩
    | task o => exact ⟨TaskOp.grows ids env o, .refl _, .refl _, .refl _⟩
    | hook o => exact ⟨.refl _, .refl _, .refl _, HookOp.grows env o w.hooks⟩
    | canvas o => exact ⟨.refl _, workflows, CanvasOp.executions_grow o w.canvas, .refl _⟩

/-- No request, in whatever order the calls of the processes come, changes the id or the time of a row. -/
theorem reach_tables_grow {allow : State → Action machine Request → Prop} {s t : State}
    (reach : System.Reach (body h) allow s t) (ids : (s.config.world.tasks.map (·.id)).Nodup) :
    TablesGrow s.config.world t.config.world := by
  induction reach with
  | refl => exact ⟨.refl _, .refl _, .refl _, .refl _⟩
  | next a _ _ taken ih =>
    rcases System.next_cases taken with ⟨_, -, rfl⟩ | ⟨pid, env, _, o, _, -, -, rfl⟩ | ⟨_, _, -, -, rfl⟩
    · exact ih
    · have step := Op.tables_grow (ih.tasks.ids ids) env o
      exact ⟨ih.tasks.trans step.tasks, ih.workflows.trans step.workflows, ih.executions.trans step.executions,
        ih.deliveries.trans step.deliveries⟩
    · exact ih

theorem Metrics.insert_grows (event : MetricEvent) (rows : List MetricEvent) :
    Grows eventKey rows (Metrics.insert event rows) := by
  unfold Metrics.insert
  split
  · exact .refl rows
  · rename_i fresh
    exact .insert fun q hq same => fresh (List.any_eq_true.2 ⟨q, hq, by simpa using same⟩)

theorem Metrics.appendMetricEvents_grows (h : Host) (events rows : List MetricEvent) :
    Grows eventKey rows (Metrics.appendMetricEvents h events rows).2 := by
  have inserted : ∀ (events rows : List MetricEvent),
      Grows eventKey rows (events.foldl (fun rows event => Metrics.insert event rows) rows) := by
    intro events
    induction events with
    | nil => exact fun rows => .refl rows
    | cons event rest ih => exact fun rows => (Metrics.insert_grows event rows).trans (ih _)
  unfold Metrics.appendMetricEvents
  repeat' split
  all_goals try exact .refl rows
  exact inserted events rows

/-- The ids of the tables that are listed are told apart. -/
structure World.Identified (w : World) : Prop where
  tasks : (w.tasks.map (·.id)).Nodup
  workflows : (w.canvas.workflows.map (·.id)).Nodup
  executions : (w.canvas.executions.map (·.id)).Nodup
  deliveries : (w.hooks.deliveries.map (·.id)).Nodup

/-- The tables at one point of a run after the other keep their rows. -/
theorem run_kept {allow : State → Action machine Request → Prop} {states : Nat → State}
    (ids : (states 0).config.world.Identified)
    (run : ∀ n, System.Reach (body h) allow (states n) (states (n + 1))) :
    Kept taskKey (fun n => (states n).config.world.tasks) ∧
      Kept workflowKey (fun n => (states n).config.world.canvas.workflows) ∧
      Kept executionKey (fun n => (states n).config.world.canvas.executions) ∧
      Kept deliveryKey (fun n => (states n).config.world.hooks.deliveries) := by
  have taskIDs : ∀ n, ((states n).config.world.tasks.map (·.id)).Nodup := by
    intro n
    induction n with
    | zero => exact ids.tasks
    | succ n ih => exact (reach_tables_grow (run n) ih).tasks.ids ih
  have grows := fun n => reach_tables_grow (run n) (taskIDs n)
  exact ⟨kept_of_grows ids.tasks fun n => (grows n).tasks, kept_of_grows ids.workflows fun n => (grows n).workflows,
    kept_of_grows ids.executions fun n => (grows n).executions,
    kept_of_grows ids.deliveries fun n => (grows n).deliveries⟩

/-! ### Pagination -/

/-- The page that a list function returns at fetch `n`, from the world as it is then. -/
def fetched (envs : Nat → Env) (worlds : Nat → World) (list : String → Script (Page ρ)) (n : Nat) (cursor : String) :
    Except Err (Page ρ) :=
  (Prog.alone (M := machine) (fun _ => envs n) (list cursor) (worlds n)).1

theorem lists_paginate (formats : h.Formats f) {envs : Nat → Env} (quiet : ∀ n, (envs n).fault = none)
    (worlds : Nat → World) (events : Nat → List MetricEvent) :
    (Kept taskKey (fun n => (worlds n).tasks) → ∀ (orgID : UUID) (filter : TaskFilter),
      Paginates taskKey (filter.matching orgID) (fun n => (worlds n).tasks)
        (fetched envs worlds fun cursor => listTasks h orgID { filter with cursor := cursor })) ∧
    (Kept workflowKey (fun n => (worlds n).canvas.workflows) → ∀ (orgID : UUID) (filter : WorkflowFilter),
      Paginates workflowKey (filter.matching orgID) (fun n => (worlds n).canvas.workflows)
        (fetched envs worlds fun cursor => Postgres.listWorkflows h orgID { filter with cursor := cursor })) ∧
    (Kept executionKey (fun n => (worlds n).canvas.executions) →
      ∀ (orgID workflowID : UUID) (filter : WorkflowExecutionFilter),
      Paginates executionKey (filter.matching orgID workflowID) (fun n => (worlds n).canvas.executions)
        (fetched envs worlds fun cursor =>
          Postgres.listWorkflowExecutions h orgID workflowID { filter with cursor := cursor })) ∧
    (Kept deliveryKey (fun n => (worlds n).hooks.deliveries) → ∀ (orgID : UUID) (filter : WebhookDeliveryFilter),
      Paginates deliveryKey (filter.matching orgID) (fun n => (worlds n).hooks.deliveries)
        (fetched envs worlds fun cursor => Postgres.listWebhookDeliveries h orgID { filter with cursor := cursor })) ∧
    (Kept eventKey events → ∀ (orgID : UUID) (filter : MetricEventFilter), orgID ≠ .nil → filter.validate = .ok () →
      Paginates eventKey (filter.matching orgID) events
        fun n cursor => listMetricEvents h orgID { filter with cursor := cursor } (events n)) := by
  refine ⟨fun kept orgID filter => ?_, fun kept orgID filter => ?_, fun kept orgID workflowID filter => ?_,
    fun kept orgID filter => ?_, fun kept orgID filter org valid => ?_⟩
  · exact pageOf_paginates formats (pageLimit_pos _) kept fun n cursor =>
      listTasks_alone (quiet n) orgID filter (worlds n) cursor
  · exact pageOf_paginates formats (pageLimit_pos _) kept fun n cursor =>
      listWorkflows_alone (quiet n) orgID filter (worlds n) cursor
  · exact pageOf_paginates formats (pageLimit_pos _) kept fun n cursor =>
      listWorkflowExecutions_alone (quiet n) orgID workflowID filter (worlds n) cursor
  · exact pageOf_paginates formats (pageLimit_pos _) kept fun n cursor =>
      listWebhookDeliveries_alone (quiet n) orgID filter (worlds n) cursor
  · exact pageOf_paginates formats (MetricEventFilter.limit_pos valid) kept fun n cursor =>
      listMetricEvents_eq org valid (events n) cursor

/-- A format in which times are written in unary and nothing is escaped. -/
noncomputable def plainFormat : CursorFormat where
  formatTime t := String.ofList ((if t < 0 then '-' else '+') :: List.replicate t.natAbs '1')
  parseTime s := match s.toList with
    | '-' :: digits => some (-(digits.length : Int))
    | _ :: digits => some digits.length
    | [] => none
  uuidParse s := open Classical in if found : ∃ id : UUID, id.text = s then some found.choose else none
  encodeToString s := s
  decodeString s := some s
  parseTime_formatTime t := by
    by_cases neg : t < 0
    · simp only [neg, if_true, String.toList_ofList, List.length_replicate, Option.some.injEq]
      exact (Int.eq_neg_natAbs_of_nonpos (Int.le_of_lt neg)).symm
    · simp only [neg, if_false, String.toList_ofList]
      show some ((List.replicate t.natAbs '1').length : Int) = some t
      rw [List.length_replicate, Int.natAbs_of_nonneg (Int.not_lt.1 neg)]
  formatTime_plain t := by
    rw [String.toList_ofList, List.mem_cons, List.mem_replicate]
    split <;> simp
  uuidParse_text id := by
    have found : ∃ other : UUID, other.text = id.text := ⟨id, rfl⟩
    rw [dif_pos found, UUID.text_injective found.choose_spec]
  decodeString_encodeToString _ := rfl
  encodeToString_ne _ ne := ne

noncomputable def plainHost : Host :=
  { sampleHost with encodeCursor := plainFormat.encodeCursor, decodeCursor := plainFormat.decodeCursor }

/-- Two workflows that were created at one time. -/
def twoWorkflows : World := sampleWorld [sampleWorkflow, { sampleWorkflow with id := ⟨5⟩, slug := "other" }] []

theorem twoWorkflows_listed : ∃ count pages,
    follow (fetched (fun _ => sampleEnv 1 ⟨0⟩) (fun _ => twoWorkflows) fun cursor =>
      Postgres.listWorkflows plainHost ⟨1⟩ ⟨"published", cursor, 1⟩) count 0 "" = .ok pages ∧
    finished pages = true ∧
    ((pages.flatMap (·.items)).map fun r => r.id).count ⟨2⟩ = 1 ∧
    ((pages.flatMap (·.items)).map fun r => r.id).count ⟨5⟩ = 1 := by
  have kept : Kept workflowKey fun _ : Nat => twoWorkflows.canvas.workflows := by
    refine kept_of_grows ?_ fun _ => .refl _
    decide
  have quiet : ∀ _ : Nat, (sampleEnv 1 ⟨0⟩).fault = none := fun _ => rfl
  have lists := (lists_paginate (h := plainHost) (f := plainFormat) ⟨rfl, rfl⟩ quiet (fun _ => twoWorkflows)
    (fun _ => [])).2.1 kept ⟨1⟩ ⟨"published", "", 1⟩
  obtain ⟨count, pages, followed, done⟩ := lists.finishes 0 fun _ _ => rfl
  refine ⟨count, pages, followed, done, ?_, ?_⟩
  · exact lists.complete count pages followed done ⟨2⟩ fun n _ => ⟨sampleWorkflow, by simp [twoWorkflows, sampleWorld], rfl, rfl⟩
  · exact lists.complete count pages followed done ⟨5⟩ fun n _ =>
      ⟨{ sampleWorkflow with id := ⟨5⟩, slug := "other" }, by simp [twoWorkflows, sampleWorld], rfl, rfl⟩

end Windylane
