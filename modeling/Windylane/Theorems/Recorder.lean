import Windylane.Lib.System
import Windylane.Recorder

/-! Conservation of metric events. What is sent is written, collected or in the channel, in the order in which it was
    sent. When the flusher leaves its loop only while no call is between its check and its send, nothing is in the
    channel when `Close` returns. -/

namespace Windylane.Recorder

open Conc

variable {ε : Type} {config : Config} {s t : State ε} {a : Step ε}

/-! ### Steps -/

/-- What a step does, with its conditions. -/
inductive Changes (config : Config) (s : State ε) : Step ε → State ε → Prop
  | record (event : ε) : Changes config s (.record event) { s with records := s.records ++ [⟨event, .entered⟩] }
  | check (i : Nat) (event : ε) (call : s.records[i]? = some ⟨event, .entered⟩) :
      Changes config s (.check i) (s.setRecord i ⟨event, if s.closed then .refused else .checked⟩)
  | send (i : Nat) (event : ε) (call : s.records[i]? = some ⟨event, .checked⟩)
      (room : s.events.length < config.capacity) :
      Changes config s (.send i) { s.setRecord i ⟨event, .sent⟩ with events := s.events ++ [event] }
  | drop (i : Nat) (event : ε) (call : s.records[i]? = some ⟨event, .checked⟩)
      (full : ¬ s.events.length < config.capacity) :
      Changes config s (.send i) { s.setRecord i ⟨event, .dropped⟩ with dropped := s.dropped + 1 }
  | close : Changes config s .close { s with closes := s.closes ++ [.entered] }
  | store (i : Nat) (first : s.once = .fresh) : Changes config s (.store i) { s with closed := true, once := .stored i }
  | stop (i : Nat) (stored : s.once = .stored i) :
      Changes config s (.stop i) { s.setClose i .waiting with once := .done }
  | enter (i : Nat) : Changes config s (.enter i) (s.setClose i .waiting)
  | finish (i : Nat) (returned : s.phase = .returned) : Changes config s (.finish i) (s.setClose i .returned)
  | expire (i : Nat) : Changes config s (.expire i) (s.setClose i .expired)
  | receive (event : ε) (rest : List ε) (phase : s.phase = .looping ∨ s.phase = .draining)
      (ready : s.events = event :: rest) : Changes config s .receive (s.collect config event rest)
  | tick (phase : s.phase = .looping) : Changes config s .tick (s.flush .looping)
  | stopped (phase : s.phase = .looping) (stop : s.once = .done) :
      Changes config s .stopped { s with phase := .draining }
  | drained (phase : s.phase = .draining) (empty : s.events = []) : Changes config s .drained (s.flush .returned)
  | write (andThen : RunPhase) (phase : s.phase = .flushing andThen) :
      Changes config s .write { s with written := s.written ++ [s.batch], batch := [], phase := andThen }

theorem changes_of_next (taken : next config s a = some t) : Changes config s a t := by
  cases a with
  | record event =>
    cases taken
    exact .record event
  | check i =>
    simp only [next] at taken
    split at taken
    · cases taken
      exact .check i _ ‹_›
    · cases taken
  | send i =>
    simp only [next] at taken
    split at taken
    · split at taken
      · cases taken
        exact .send i _ ‹_› ‹_›
      · cases taken
        exact .drop i _ ‹_› ‹_›
    · cases taken
  | close =>
    cases taken
    exact .close
  | store i =>
    simp only [next] at taken
    split at taken
    · rename_i guard
      cases taken
      exact .store i guard.2
    · cases taken
  | stop i =>
    simp only [next] at taken
    split at taken
    · rename_i guard
      cases taken
      exact .stop i guard.2
    · cases taken
  | enter i =>
    simp only [next] at taken
    split at taken
    · cases taken
      exact .enter i
    · cases taken
  | finish i =>
    simp only [next] at taken
    split at taken
    · rename_i guard
      cases taken
      exact .finish i guard.2
    · cases taken
  | expire i =>
    simp only [next] at taken
    split at taken
    · cases taken
      exact .expire i
    · cases taken
  | receive =>
    simp only [next] at taken
    split at taken
    · rename_i phase ready
      cases taken
      exact .receive _ _ (Or.inl phase) ready
    · rename_i phase ready
      cases taken
      exact .receive _ _ (Or.inr phase) ready
    · cases taken
  | tick =>
    simp only [next] at taken
    split at taken
    · cases taken
      exact .tick ‹_›
    · cases taken
  | stopped =>
    simp only [next] at taken
    split at taken
    · rename_i guard
      cases taken
      exact .stopped guard.1 guard.2
    · cases taken
  | drained =>
    simp only [next] at taken
    split at taken
    · rename_i guard
      cases taken
      exact .drained guard.1 guard.2
    · cases taken
  | write =>
    simp only [next] at taken
    split at taken
    · cases taken
      exact .write _ ‹_›
    · cases taken

section Collect
variable (config : Config) (s : State ε) (event : ε) (rest : List ε)

/-- Collecting an event moves it to the batch. -/
theorem collect_eq : ∃ phase, s.collect config event rest =
      { s with events := rest, batch := s.batch ++ [event], phase := phase } ∧
    (phase = s.phase ∧ s.batch.length + 1 < config.batchSize ∨ phase = .flushing s.phase) := by
  unfold State.collect
  simp only [List.length_append, List.length_singleton]
  split
  · refine ⟨.flushing s.phase, ?_, Or.inr rfl⟩
    simp [State.flush]
  · rename_i room
    exact ⟨s.phase, rfl, Or.inl ⟨rfl, by omega⟩⟩

end Collect

/-! ### Conservation -/

/-- The events of the calls that are in a phase. -/
def recorded (phase : RecordPhase) (records : List (RecordCall ε)) : List ε :=
  records.filterMap fun call => if call.phase = phase then some call.event else none

/-- The event that a step puts into the channel. -/
def sending (config : Config) : State ε × Step ε → Option ε
  | (s, .send i) =>
    match s.records[i]? with
    | some ⟨event, .checked⟩ => if s.events.length < config.capacity then some event else none
    | _ => none
  | _ => none

theorem recorded_append (phase : RecordPhase) (records : List (RecordCall ε)) (event : ε) (ne : phase ≠ .entered) :
    recorded phase (records ++ [⟨event, .entered⟩]) = recorded phase records := by
  simp [recorded, List.filterMap_append, Ne.symm ne]

/-- A call that moves to a phase is counted there. -/
theorem recorded_set (phase : RecordPhase) {records : List (RecordCall ε)} {i : Nat} {call : RecordCall ε}
    (h : records[i]? = some call) (elsewhere : call.phase ≠ phase) (moved : RecordCall ε) :
    (recorded phase (records.set i moved)).Perm (recorded phase records ++ recorded phase [moved]) := by
  induction records generalizing i with
  | nil => cases h
  | cons head rest ih =>
    cases i with
    | zero =>
      cases h
      have here : recorded phase (call :: rest) = recorded phase rest := by simp [recorded, elsewhere]
      rw [here, List.set_cons_zero, show moved :: rest = [moved] ++ rest from rfl, recorded, List.filterMap_append]
      exact List.perm_append_comm
    | succ i =>
      rw [List.set_cons_succ, show head :: rest.set i moved = [head] ++ rest.set i moved from rfl,
        show head :: rest = [head] ++ rest from rfl, recorded, recorded, List.filterMap_append, List.filterMap_append,
        List.append_assoc]
      exact (ih h).append_left _

/-- Everything that was sent is written, collected or in the channel, in this order, and everything else is dropped and
    counted, or refused. -/
structure Conserved (s : State ε) (sent : List ε) : Prop where
  order : s.written.flatten ++ s.batch ++ s.events = sent
  calls : (recorded .sent s.records).Perm sent
  dropped : s.dropped = (recorded .dropped s.records).length
  refused : ∀ call ∈ s.records, call.phase = .refused → s.closed = true

/-- Events move on in their order, and the calls stay. -/
theorem Conserved.passed {sent : List ε} (inv : Conserved s sent) (records : t.records = s.records)
    (dropped : t.dropped = s.dropped) (closed : s.closed = true → t.closed = true)
    (order : t.written.flatten ++ t.batch ++ t.events = s.written.flatten ++ s.batch ++ s.events) :
    Conserved t sent where
  order := order.trans inv.order
  calls := records ▸ inv.calls
  dropped := by rw [dropped, records, inv.dropped]
  refused := fun call hc refused => closed (inv.refused call (records ▸ hc) refused)

theorem Conserved.refused_set {sent : List ε} (inv : Conserved s sent) {i : Nat} {moved : RecordCall ε}
    (closed : moved.phase = .refused → s.closed = true) :
    ∀ call ∈ s.records.set i moved, call.phase = .refused → s.closed = true := by
  intro call hc refused
  rcases List.mem_or_eq_of_mem_set hc with before | rfl
  · exact inv.refused call before refused
  · exact closed refused

theorem Conserved.step {sent : List ε} (inv : Conserved s sent) (changes : Changes config s a t) :
    Conserved t (sent ++ (sending config (s, a)).toList) := by
  cases changes with
  | send i event call room =>
    have sends : sending config (s, .send i) = some event := by simp [sending, call, room]
    rw [sends, Option.toList_some]
    refine ⟨?_, ?_, ?_, ?_⟩
    · rw [← inv.order, List.append_assoc _ s.events]
      rfl
    · exact (recorded_set .sent call (by simp) _).trans (inv.calls.append_right _)
    · have counted := (recorded_set .dropped call (by simp) ⟨event, .sent⟩).length_eq
      exact inv.dropped.trans (counted.trans (by simp [recorded])).symm
    · exact inv.refused_set fun refused => by cases refused
  | drop i event call full =>
    have drops : sending config (s, .send i) = none := by simp [sending, call, full]
    rw [drops, Option.toList_none, List.append_nil]
    refine ⟨inv.order, ?_, ?_, ?_⟩
    · refine (recorded_set .sent call (by simp) _).trans ?_
      simpa [recorded] using inv.calls
    · have counted := (recorded_set .dropped call (by simp) ⟨event, .dropped⟩).length_eq
      rw [List.length_append, ← inv.dropped] at counted
      exact counted.symm
    · exact inv.refused_set fun refused => by cases refused
  | record event =>
    rw [show sending config (s, .record event) = none from rfl, Option.toList_none, List.append_nil]
    refine ⟨inv.order, ?_, ?_, ?_⟩
    · rw [recorded_append _ _ _ (by simp)]
      exact inv.calls
    · rw [recorded_append _ _ _ (by simp)]
      exact inv.dropped
    · intro call hc refused
      rcases List.mem_append.1 hc with before | last
      · exact inv.refused call before refused
      · cases List.mem_singleton.1 last
        cases refused
  | check i event call =>
    rw [show sending config (s, .check i) = none from rfl, Option.toList_none, List.append_nil]
    have nowhere : ∀ phase, phase ≠ .refused → phase ≠ .checked →
        recorded phase [(⟨event, if s.closed then .refused else .checked⟩ : RecordCall ε)] = [] := by
      intro phase refused checked
      cases s.closed <;> simp [recorded, Ne.symm refused, Ne.symm checked]
    refine ⟨inv.order, ?_, ?_, ?_⟩
    · refine (recorded_set .sent call (by simp) _).trans ?_
      rw [nowhere _ (by simp) (by simp), List.append_nil]
      exact inv.calls
    · have counted := (recorded_set .dropped call (by simp)
        ⟨event, if s.closed then .refused else .checked⟩).length_eq
      rw [nowhere _ (by simp) (by simp), List.append_nil] at counted
      exact inv.dropped.trans counted.symm
    · refine inv.refused_set fun refused => ?_
      by_contra opened
      simp [opened] at refused
  | receive event rest phase ready =>
    rw [show sending config (s, .receive) = none from rfl, Option.toList_none, List.append_nil]
    obtain ⟨phase', same, -⟩ := collect_eq config s event rest
    rw [same]
    exact inv.passed rfl rfl id (by simp [ready])
  | write andThen phase =>
    rw [show sending config (s, .write) = none from rfl, Option.toList_none, List.append_nil]
    exact inv.passed rfl rfl id (by simp)
  | store i =>
    rw [show sending config (s, .store i) = none from rfl, Option.toList_none, List.append_nil]
    exact inv.passed rfl rfl (fun _ => rfl) rfl
  | close | stop | enter | finish | expire | tick | stopped | drained =>
    exact (List.append_nil sent).symm ▸ inv.passed rfl rfl id rfl

theorem conserved_run {allow : State ε → Step ε → Prop} {steps : List (State ε × Step ε)}
    (ran : Steps.Trace (next config) allow init steps s) : Conserved s (steps.filterMap (sending config)) := by
  induction ran with
  | nil => exact ⟨rfl, .refl _, rfl, fun _ hc => by cases hc⟩
  | @snoc steps s t a _ _ taken ih =>
    have last : [(s, a)].filterMap (sending config) = (sending config (s, a)).toList := by
      cases h : sending config (s, a) <;> simp [h]
    rw [List.filterMap_append, last]
    exact ih.step (changes_of_next taken)

/-! ### Batches -/

/-- The batch is written before it is more than full. -/
structure Bounded (config : Config) (s : State ε) : Prop where
  written : ∀ batch ∈ s.written, batch.length ≤ config.batchSize
  batch : s.batch.length ≤ config.batchSize
  room : s.phase = .looping ∨ s.phase = .draining → s.batch.length < config.batchSize

theorem Bounded.flush (inv : Bounded config s) (andThen : RunPhase) (room : s.batch.length < config.batchSize) :
    Bounded config (s.flush andThen) := ⟨inv.written, inv.batch, fun _ => room⟩

theorem Bounded.step (positive : 0 < config.batchSize) (inv : Bounded config s) (changes : Changes config s a t) :
    Bounded config t := by
  cases changes with
  | receive event rest phase ready =>
    obtain ⟨phase', same, next⟩ := collect_eq config s event rest
    have room := inv.room phase
    rw [same]
    refine ⟨inv.written, by simp; omega, fun goes => ?_⟩
    rcases next with ⟨-, room⟩ | flushes
    · simpa using room
    · rw [show phase' = .flushing s.phase from flushes] at goes
      simp at goes
  | tick phase => exact inv.flush _ (inv.room (Or.inl phase))
  | drained phase => exact inv.flush _ (inv.room (Or.inr phase))
  | stopped phase => exact ⟨inv.written, inv.batch, fun _ => inv.room (Or.inl phase)⟩
  | write andThen phase =>
    refine ⟨fun batch hb => ?_, Nat.zero_le _, fun _ => positive⟩
    rcases List.mem_append.1 hb with before | last
    · exact inv.written batch before
    · cases List.mem_singleton.1 last
      exact inv.batch
  | record | check | send | drop | close | store | stop | enter | finish | expire =>
    exact ⟨inv.written, inv.batch, inv.room⟩

/-! ### Shutdown -/

/-- The flusher leaves its loop only while no call is between its check and its send. -/
def Attended (s : State ε) (a : Step ε) : Prop := a = .drained → ∀ call ∈ s.records, call.phase ≠ .checked

/-- The flusher has left its loop. -/
def RunPhase.left : RunPhase → Bool
  | .returned | .flushing .returned => true
  | _ => false

/-- The flusher was told to stop. -/
def RunPhase.stopping : RunPhase → Bool
  | .draining | .flushing .draining => true
  | _ => false

/-- After the flusher has left, nothing is sent. -/
structure Shut (s : State ε) : Prop where
  closed : s.once ≠ .fresh → s.closed = true
  stopping : s.phase.stopping = true → s.once = .done
  left : s.phase.left = true → s.closed = true ∧ s.events = [] ∧ ∀ call ∈ s.records, call.phase ≠ .checked
  flushed : s.phase = .returned → s.batch = []
  flushing : ∀ andThen, s.phase = .flushing andThen → andThen = .looping ∨ andThen = .draining ∨ andThen = .returned
  returned : ∀ i : Nat, s.closes[i]? = some .returned → s.phase = .returned

/-- A step of a call of `RecordMetric`. -/
theorem Shut.recorded (inv : Shut s) {records : List (RecordCall ε)} {events : List ε} {dropped : Nat}
    (quiet : s.phase.left = true → events = [] ∧ ∀ call ∈ records, call.phase ≠ .checked) :
    Shut { s with records := records, events := events, dropped := dropped } where
  closed := inv.closed
  stopping := inv.stopping
  left := fun left => ⟨(inv.left left).1, quiet left⟩
  flushed := inv.flushed
  flushing := inv.flushing
  returned := inv.returned

/-- A step of a call of `Close`. -/
theorem Shut.closing (inv : Shut s) {closes : List ClosePhase} {once : Once} {closed : Bool}
    (stored : once ≠ .fresh → closed = true) (kept : s.closed = true → closed = true) (done : s.once = .done → once = .done)
    (returned : ∀ i : Nat, closes[i]? = some .returned → s.phase = .returned) :
    Shut { s with closes := closes, once := once, closed := closed } where
  closed := stored
  stopping := fun stopping => done (inv.stopping stopping)
  left := fun left => ⟨kept (inv.left left).1, (inv.left left).2⟩
  flushed := inv.flushed
  flushing := inv.flushing
  returned := returned

theorem Shut.close_set (inv : Shut s) {i : Nat} {phase : ClosePhase} (ne : phase ≠ .returned) :
    ∀ j : Nat, (s.closes.set i phase)[j]? = some .returned → s.phase = .returned := by
  intro j hj
  rcases lookup_set hj with ⟨-, same⟩ | ⟨-, before⟩
  · exact (ne same.symm).elim
  · exact inv.returned j before

/-- A step of the flusher before it leaves. -/
theorem Shut.runs (inv : Shut s) {phase : RunPhase} {events batch : List ε} {written : List (List ε)}
    (running : s.phase ≠ .returned) (stays : phase.left = false) (stopping : phase.stopping = true → s.once = .done)
    (flushing : ∀ andThen, phase = .flushing andThen → andThen = .looping ∨ andThen = .draining ∨ andThen = .returned) :
    Shut { s with phase := phase, events := events, batch := batch, written := written } where
  closed := inv.closed
  stopping := stopping
  left := fun left => by
    rw [show phase.left = true from left] at stays
    cases stays
  flushed := fun returned => by
    rw [show phase = .returned from returned] at stays
    cases stays
  flushing := flushing
  returned := fun i hi => (running (inv.returned i hi)).elim

theorem Shut.step (inv : Shut s) (attended : Attended s a) (changes : Changes config s a t) : Shut t := by
  cases changes with
  | record event =>
    refine inv.recorded fun left => ⟨(inv.left left).2.1, fun call hc => ?_⟩
    rcases List.mem_append.1 hc with before | last
    · exact (inv.left left).2.2 call before
    · cases List.mem_singleton.1 last
      exact RecordPhase.noConfusion
  | check i event call =>
    refine inv.recorded fun left => ⟨(inv.left left).2.1, fun call hc => ?_⟩
    rcases List.mem_or_eq_of_mem_set hc with before | rfl
    · exact (inv.left left).2.2 call before
    · rw [(inv.left left).1, if_pos rfl]
      exact RecordPhase.noConfusion
  | send i event call room =>
    exact inv.recorded fun left => ((inv.left left).2.2 _ (List.mem_of_getElem? call) rfl).elim
  | drop i event call full =>
    exact inv.recorded fun left => ((inv.left left).2.2 _ (List.mem_of_getElem? call) rfl).elim
  | close =>
    refine inv.closing inv.closed id id fun i hi => ?_
    rcases lookup_append hi with before | ⟨-, last⟩
    · exact inv.returned i before
    · cases last
  | store i first =>
    exact inv.closing (fun _ => rfl) (fun _ => rfl) (fun done => by rw [first] at done; cases done) inv.returned
  | stop i stored =>
    have closed : s.closed = true := inv.closed (by rw [stored]; exact Once.noConfusion)
    exact inv.closing (fun _ => closed) id (fun _ => rfl) (inv.close_set ClosePhase.noConfusion)
  | enter i => exact inv.closing inv.closed id id (inv.close_set ClosePhase.noConfusion)
  | expire i => exact inv.closing inv.closed id id (inv.close_set ClosePhase.noConfusion)
  | finish i returned => exact inv.closing inv.closed id id fun _ _ => returned
  | receive event rest phase ready =>
    obtain ⟨phase', same, next⟩ := collect_eq config s event rest
    rw [same]
    have forward : phase' = s.phase ∨ phase' = .flushing s.phase := next.imp And.left id
    have stopping := inv.stopping
    rcases phase with phase | phase
    all_goals
      rw [phase] at forward stopping
      refine inv.runs (by rw [phase]; exact RunPhase.noConfusion) ?_ ?_ ?_
      all_goals rcases forward with rfl | rfl <;> simp_all [RunPhase.left, RunPhase.stopping]
  | tick phase =>
    refine inv.runs (by rw [phase]; exact RunPhase.noConfusion) ?_ ?_ ?_
    all_goals cases s.batch.isEmpty <;> simp [RunPhase.left, RunPhase.stopping]
  | stopped phase stop =>
    refine inv.runs (by rw [phase]; exact RunPhase.noConfusion) rfl (fun _ => stop) fun _ h => by cases h
  | drained phase empty =>
    have closed : s.closed = true := by
      have stop := inv.stopping (by rw [phase]; rfl)
      exact inv.closed (by rw [stop]; exact Once.noConfusion)
    refine ⟨inv.closed, ?_, fun _ => ⟨closed, empty, attended rfl⟩, ?_, ?_, ?_⟩
    all_goals simp only [State.flush]
    · intro stopping
      cases h : s.batch.isEmpty <;> simp [h, RunPhase.stopping] at stopping
    · intro returned
      cases h : s.batch.isEmpty <;> simp_all
    · intro andThen flushing
      cases h : s.batch.isEmpty <;> simp_all
    · intro i hi
      have returned := inv.returned i hi
      rw [phase] at returned
      cases returned
  | write andThen phase =>
    have running : s.phase ≠ .returned := by
      rw [phase]
      exact RunPhase.noConfusion
    rcases inv.flushing andThen phase with rfl | rfl | rfl
    · exact inv.runs running rfl (fun h => by cases h) fun _ h => by cases h
    · exact inv.runs running rfl (fun _ => inv.stopping (by rw [phase]; rfl)) fun _ h => by cases h
    · exact ⟨inv.closed, fun h => (by cases h), fun _ => inv.left (by rw [phase]; rfl), fun _ => rfl,
        fun _ h => (by cases h), fun _ _ => rfl⟩

/-! ### Runs -/

theorem bounded_run {allow : State ε → Step ε → Prop} (positive : 0 < config.batchSize)
    (reach : Steps.Reach (next config) allow init s) : Bounded config s :=
  reach.invariant (Bounded config) ⟨fun _ hb => (by cases hb), Nat.zero_le _, fun _ => positive⟩
    fun _ _ _ _ inv _ taken => inv.step positive (changes_of_next taken)

theorem shut_run (reach : Steps.Reach (next config) Attended init s) : Shut s := by
  refine reach.invariant Shut ?_ fun _ _ _ _ inv attended taken => inv.step attended (changes_of_next taken)
  exact ⟨fun h => (h rfl).elim, fun h => (by cases h), fun h => (by cases h), fun h => (by cases h),
    fun _ h => (by cases h), fun _ h => (by simp [init] at h)⟩

/-- What was sent is written in batches in the order of the channel, and what was not sent was dropped and counted or
    came after `closed`. When a call of `Close` has returned without an error, all of it is written. -/
theorem recorder_conserves (positive : 0 < config.batchSize) {steps : List (State ε × Step ε)}
    (ran : Steps.Trace (next config) Attended init steps s) :
    s.written.flatten ++ s.batch ++ s.events = steps.filterMap (sending config) ∧
    (recorded .sent s.records).Perm (steps.filterMap (sending config)) ∧
    s.dropped = (recorded .dropped s.records).length ∧
    (∀ call ∈ s.records, call.phase = .refused → s.closed = true) ∧
    (∀ batch ∈ s.written, batch.length ≤ config.batchSize) ∧
    (.returned ∈ s.closes → s.written.flatten = steps.filterMap (sending config)) := by
  have conserved := conserved_run ran
  have shut := shut_run ran.reach
  refine ⟨conserved.order, conserved.calls, conserved.dropped, conserved.refused, (bounded_run positive ran.reach).written,
    fun returned => ?_⟩
  obtain ⟨i, hi⟩ := List.getElem?_of_mem returned
  have left := shut.returned i hi
  obtain ⟨-, empty, -⟩ := shut.left (by rw [left]; rfl)
  rw [← conserved.order, shut.flushed left, empty, List.append_nil, List.append_nil]

/-! ### A call beside the shutdown -/

def smallConfig : Config := ⟨1, 1⟩

/-- The call checks `closed` before `Close`, and sends when the flusher has left. -/
theorem late_send_lost : ∃ s : State Nat,
    Steps.run (next smallConfig) init [.record 7, .check 0, .close, .store 0, .stop 0, .stopped, .drained, .finish 0,
      .send 0] = some s ∧
    s.closes = [.returned] ∧ s.records = [⟨7, .sent⟩] ∧ s.dropped = 0 ∧ s.phase = .returned ∧ s.written = [] ∧
    s.events = [7] :=
  ⟨_, rfl, rfl, rfl, rfl, rfl, rfl, rfl⟩

/-- The condition on a step of a run. -/
def attendedStep (s : State Nat) : Step Nat → Bool
  | .drained => s.records.all fun call => call.phase ≠ .checked
  | _ => true

theorem attended_of_attendedStep {s : State Nat} {a : Step Nat} (ok : attendedStep s a = true) : Attended s a := by
  rintro rfl call hc
  simp only [attendedStep, List.all_eq_true] at ok
  exact of_decide_eq_true (ok call hc)

/-- The call sends before the flusher leaves, a second one is dropped, and a third one finds the recorder closed. -/
theorem early_send_written : ∃ s : State Nat,
    Steps.runChecked (next smallConfig) attendedStep init [.record 7, .record 8, .record 9, .check 0, .check 1, .send 0,
      .send 1, .close, .store 0, .check 2, .stop 0, .stopped, .receive, .write, .drained, .finish 0] = some s ∧
    s.records = [⟨7, .sent⟩, ⟨8, .dropped⟩, ⟨9, .refused⟩] ∧ s.dropped = 1 ∧
    (recorded .sent s.records).Perm s.written.flatten := by
  obtain ⟨s, ran, records, dropped, returned⟩ : ∃ s : State Nat,
      Steps.runChecked (next smallConfig) attendedStep init [.record 7, .record 8, .record 9, .check 0, .check 1, .send 0,
        .send 1, .close, .store 0, .check 2, .stop 0, .stopped, .receive, .write, .drained, .finish 0] = some s ∧
      s.records = [⟨7, .sent⟩, ⟨8, .dropped⟩, ⟨9, .refused⟩] ∧ s.dropped = 1 ∧ s.closes = [.returned] :=
    ⟨_, rfl, rfl, rfl, rfl⟩
  have reach : Steps.Reach (next smallConfig) Attended init s :=
    Steps.reach_of_checked (fun _ _ => attended_of_attendedStep) ran
  obtain ⟨steps, trace⟩ := reach.trace
  obtain ⟨-, calls, -, -, -, all⟩ := recorder_conserves (by decide) trace
  refine ⟨s, ran, records, dropped, ?_⟩
  rw [all (returned ▸ List.mem_singleton_self _)]
  exact calls

end Windylane.Recorder
