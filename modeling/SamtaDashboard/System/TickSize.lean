import SamtaDashboard.Application.TickRecords
import SamtaDashboard.System.Partitions
import SamtaDashboard.System.Stuck
import SamtaDashboard.System.TickReplay

/-!
# One large tick and many small ones

A tick that may execute `m` items against `m` ticks of one item each, on a run that nobody else writes
to. The large tick decides once which items it executes, and goes on after a failure, which only blocks
the run for the ticks after it. The small ones replay the log each time, and the first failure, or a cost
that cannot be read back, is the last that they execute. So both leave the same stream exactly if nothing
of that kind happens before the last item (`tick_size_iff`).
-/

namespace SamtaDashboard

open EventFold Transition

/-! ### Lists up to a failure -/

section lists

variable {α : Type} {p q : α → Bool} {xs : List α}

/-- The elements up to and with the first one that fails the test. -/
def takeThrough (p : α → Bool) : List α → List α
  | [] => []
  | x :: xs => x :: if p x then takeThrough p xs else []

theorem takeThrough_isPrefix (p : α → Bool) (xs : List α) : takeThrough p xs <+: xs := by
  induction xs with
  | nil => exact List.prefix_rfl
  | cons x xs ih =>
    unfold takeThrough
    split
    · exact List.prefix_cons_inj x |>.mpr ih
    · exact List.prefix_cons_inj x |>.mpr List.nil_prefix

theorem takeThrough_congr (h : ∀ x ∈ xs, p x = q x) : takeThrough p xs = takeThrough q xs := by
  induction xs with
  | nil => rfl
  | cons x xs ih =>
    rw [List.forall_mem_cons] at h
    rw [takeThrough, takeThrough, h.1, ih h.2]

theorem takeThrough_eq_self_iff : takeThrough p xs = xs ↔ ∀ x ∈ xs.dropLast, p x := by
  induction xs with
  | nil => simp [takeThrough]
  | cons x xs ih =>
    rw [takeThrough]
    cases xs with
    | nil => simp [takeThrough]
    | cons y ys =>
      rw [List.dropLast_cons_cons, List.forall_mem_cons, ← ih]
      split
      · next hx => simp [hx]
      · next hx => simp [hx]

end lists

/-! ### Ticks on one run -/

/-- Whatever order `load_all` gives the rows of the log in, the worker reads run `r` as `state`. -/
structure ReadsAs (r : Uuid) (log : EventLog) (state : RunState) : Prop where
  wellFormed : WellFormed log
  grouped : LoopConfig.skips state = false → ∀ e ∈ stream log r, e.payload.isGrouped
  replays : ∀ events, InTimeOrder log events → (runStatesFromEvents events).lookup r = some state

/-- What a tick does to the log as far as run `r` is concerned, when nobody else writes. -/
inductive TickOn (input : TickInput) (r : Uuid) (log : EventLog) : EventLog → Prop
  | unreadable {error : String} : LoadAll log (.error error) → TickOn input r log log
  | visited {events : List EventEnvelope} : LoadAll log (.ok events) →
      TickOn input r log (input.visitRun (runStatesFromEvents events) ⟨log, .empty⟩ r).log

/-- A tick makes events of run `r` with new and different ids, and its clock does not run backwards. -/
structure TickInput.Timely (input : TickInput) (r : Uuid) (log : EventLog) : Prop where
  fresh : ∀ events, LoadAll log (.ok events) →
    ∀ b ∈ input.batch (runStatesFromEvents events) r, ∀ e ∈ log, e.id ≠ b.id
  distinct : ∀ events, LoadAll log (.ok events) →
    ((input.batch (runStatesFromEvents events) r).map (·.id)).Nodup
  monotone : Monotone fun k => (input.stamp r k).now
  later : ∀ e ∈ stream log r, ∀ k, e.occurredAt ≤ (input.stamp r k).now

/-- A tick picks the item of run `r` that `order` has first. -/
def TickInput.PicksBy (input : TickInput) (order : List Uuid) (r : Uuid) (log : EventLog) : Prop :=
  ∀ events, LoadAll log (.ok events) → ∀ state, (runStatesFromEvents events).lookup r = some state →
    input.config.nextItem (input.itemOrder r) state = input.config.nextItem order state

/-- So many ticks of a single item, one after the other, that pick the items by `order`. -/
inductive OneByOne (config : LoopConfig) (order : List Uuid) (r : Uuid) :
    Nat → EventLog → EventLog → Prop
  | none {log : EventLog} : OneByOne config order r 0 log log
  | tick {n : Nat} {input : TickInput} {log log' log'' : EventLog} :
      input.config = { config with maxItemsPerLoop := 1 } → input.PicksBy order r log →
      input.Timely r log → TickOn input r log log' → OneByOne config order r n log' log'' →
      OneByOne config order r (n + 1) log log''

/-- The streams of the run are the same up to ids, times and free text. -/
def SameStream (r : Uuid) (log log' : EventLog) : Prop :=
  (stream log r).map (fun e => (e.revision, e.content)) =
    (stream log' r).map fun e => (e.revision, e.content)

/-- Wherever both logs can be read, the run has the same status. -/
def SameStatus (r : Uuid) (log log' : EventLog) : Prop :=
  ∀ events events', LoadAll log (.ok events) → LoadAll log' (.ok events') →
    ((runStatesFromEvents events).lookup r).map (·.status) =
      ((runStatesFromEvents events').lookup r).map (·.status)

section ticks

variable {r : Uuid} {log log' : EventLog} {state : RunState} {input : TickInput}

theorem TickOn.eq_of_not_finite (h : TickOn input r log log')
    (hbad : ¬ ∀ e ∈ log, e.payload.costIsFinite = true) : log' = log := by
  cases h with
  | unreadable => rfl
  | visited hload => exact absurd (loadAll_eq_ok.mp hload).2 hbad

theorem not_unreadable {error : String} (hfinite : ∀ e ∈ log, e.payload.costIsFinite = true) :
    ¬ LoadAll log (.error error) := by
  rintro ⟨rows, hrows, hread⟩
  rw [mapM_readBack.mpr ⟨rfl, fun e he => hfinite e (hrows.perm.subset he)⟩] at hread
  cases hread

theorem ReadsAs.append {rows : List EventEnvelope} (h : ReadsAs r log state)
    (hskips : LoopConfig.skips state = false) (hwf : WellFormed (log ++ rows)) (hrun : ∀ e ∈ rows, e.resourceId = r)
    (hgrouped : ∀ e ∈ rows, e.payload.isGrouped)
    (hsorted : rows.Pairwise (·.occurredAt ≤ ·.occurredAt))
    (hlater : ∀ e ∈ stream log r, ∀ b ∈ rows, e.occurredAt ≤ b.occurredAt) :
    ReadsAs r (log ++ rows) (rows.foldl RunState.apply state) := by
  have hall : ∀ e ∈ stream log r ++ rows, e.payload.isGrouped := fun e he =>
    (List.mem_append.mp he).elim (h.grouped hskips e) (hgrouped e)
  refine ⟨hwf, fun _ => ?_, fun events' hread' => ?_⟩
  · rwa [stream_append, stream_rows hrun, if_pos rfl]
  · have hread := inTimeOrder_insertionSort log
    have hstate := h.replays _ hread
    rw [lookup_runStatesFromEvents] at hstate
    rw [lookup_runStatesFromEvents,
      hread.runEvents_append hread' h.wellFormed hwf rfl hrun hall hsorted hlater]
    exact replayRun_append hstate rows

theorem TickOn.appends (h : TickOn input r log log') (hreads : ReadsAs r log state)
    (hfinite : ∀ e ∈ log, e.payload.costIsFinite = true) (htimely : input.Timely r log) :
    ∃ rows, log' = log ++ rows ∧ (∀ e ∈ rows, e.resourceId = r) ∧
      payloads rows =
        payloads (input.config.advanceRun (input.stamp r) (input.itemOrder r) r state).2 ∧
      rows.map (·.content) =
        (input.config.advanceRun (input.stamp r) (input.itemOrder r) r state).2.map (·.content) ∧
      ReadsAs r log' (rows.foldl RunState.apply state) := by
  cases h with
  | unreadable hload => exact absurd hload (not_unreadable hfinite)
  | @visited events hload =>
    have hread := (loadAll_eq_ok.mp hload).1
    have hlookup := hreads.replays events hread
    have hwf := hreads.wellFormed
    obtain ⟨⟨hi, hstamped⟩, -⟩ :=
      input.config.advanceRun_stamped (input.stamp r) (input.itemOrder r) r state
    by_cases hbatch : (input.config.advanceRun (input.stamp r) (input.itemOrder r) r state).2 = []
    · have hsame : (input.visitRun (runStatesFromEvents events) ⟨log, .empty⟩ r).log = log := by
        simp only [TickInput.visitRun, hlookup, hbatch, List.isEmpty_nil, if_true]
      rw [hsame, hbatch]
      exact ⟨[], (List.append_nil log).symm, fun _ he => absurd he List.not_mem_nil, rfl, rfl, hreads⟩
    · have hgrown : (input.visitRun (runStatesFromEvents events) ⟨log, .empty⟩ r).log =
          log ++ appendedRows log r
            (input.config.advanceRun (input.stamp r) (input.itemOrder r) r state).2 :=
        TickInput.batch_eq hlookup ▸ TickInput.visitRun_log hwf.gapFree hlookup
          (TickInput.batch_eq hlookup ▸ hbatch) (fun e he => hfinite e (mem_stream.mp he).1)
          (htimely.fresh events hload) (htimely.distinct events hload)
      have hskips : LoopConfig.skips state = false := by
        rw [← Bool.not_eq_true]
        exact fun hskips => hbatch (by rw [LoopConfig.advanceRun_of_skips hskips])
      obtain ⟨summary, hadv⟩ :=
        input.config.advanceRun_spec (input.stamp r) (input.itemOrder r) r hskips
      rw [hgrown]
      generalize (input.config.advanceRun (input.stamp r) (input.itemOrder r) r state).2 = batch
        at hstamped hadv ⊢
      have hstampedRows : StampedBy (input.stamp r) 0 hi (appendedRows log r batch) :=
        hstamped.appendedRows
      have hitems : ∀ x ∈ input.config.executions (input.stamp r) (input.itemOrder r) r
          input.config.maxItemsPerLoop (LoopConfig.enterRun state), AssignedIn log r x.1 := by
        rw [lookup_runStatesFromEvents] at hlookup
        exact hadv.assignedIn hwf (fun e he => hread.perm.subset he) hlookup
      have happ : Appended log (log ++ appendedRows log r batch) r (appendedRows log r batch) :=
        appended_rows (admissible_batch hadv hitems) rfl
      refine ⟨_, rfl, happ.run, payloads_appendedRows .., ?_, hreads.append hskips
        (happ.wellFormed hwf) happ.run (fun e he => ?_) (hstampedRows.sorted htimely.monotone) fun e he b hb => ?_⟩
      · rw [appendedRows, List.map_map]
        exact map_withRebasedRevisions _ fun _ _ => rfl
      · exact isGrouped_appendedRows hadv log e he
      · obtain ⟨k, -, htime⟩ := hstampedRows.exists_stamp hb
        rw [htime]
        exact htimely.later e he k

theorem OneByOne.eq_of_stopped {config : LoopConfig} {order : List Uuid} {n : Nat}
    (h : OneByOne config order r n log log') (hreads : ReadsAs r log state)
    (hstopped : LoopConfig.skips state ∨ ¬ ∀ e ∈ log, e.payload.costIsFinite = true) : log' = log := by
  induction h with
  | none => rfl
  | @tick n input log log₁ log' hconfig hpicks htimely htick hrest ih =>
    have hsame : log₁ = log := by
      by_cases hfinite : ∀ e ∈ log, e.payload.costIsFinite = true
      · have hskips := hstopped.resolve_right fun hbad => hbad hfinite
        obtain ⟨rows, rfl, -, hrows, -⟩ := htick.appends hreads hfinite htimely
        rw [LoopConfig.advanceRun_of_skips hskips] at hrows
        have hnil : rows = [] := List.map_eq_nil_iff.mp hrows
        rw [hnil, List.append_nil]
      · exact htick.eq_of_not_finite hfinite
    subst hsame
    exact ih hreads hstopped

end ticks

/-! ### What the small ticks leave -/

section onebyone

variable {config : LoopConfig} {order : List Uuid} {r : Uuid} {log log' : EventLog}
  {state : RunState}

theorem LoopConfig.selected_eq (remaining : Nat) :
    config.selected order remaining state = (config.eligibleItems order state).take remaining := rfl

theorem LoopConfig.advanceRun_one_congr {stamp : Nat → Stamp} {order' : List Uuid}
    (hone : config.maxItemsPerLoop = 1)
    (hpicks : config.nextItem order' state = config.nextItem order state) :
    config.advanceRun stamp order' r state = config.advanceRun stamp order r state := by
  have hloop : config.itemLoop stamp order' r 1 (enterRun state) =
      config.itemLoop stamp order r 1 (enterRun state) := by
    rw [itemLoop, itemLoop, show (enterRun state).state = state from rfl, hpicks]
    rfl
  rw [advanceRun, advanceRun, hone, hloop]

theorem LoopConfig.finished_eq_false {items : List Uuid} {i : Uuid}
    (hi : i ∈ config.eligibleItems order state) (hnot : i ∉ items) :
    config.finished r state items = false := by
  rw [← Bool.not_eq_true, finished_iff]
  intro hall
  obtain ⟨item, hitem, heligible⟩ := Option.any_eq_true _ _ |>.mp (List.mem_filter.mp hi).2
  have hstatus : state.itemStatus i = some .assigned := by
    rw [RunState.itemStatus, hitem, Option.map_some, (eligible_iff.mp heligible).1]
  have hcompleted := hall i (by rw [hstatus]; exact Option.some_ne_none _)
  rw [if_neg hnot, hstatus] at hcompleted
  cases hcompleted

/-- Whether the ticks go on after the execution of an item. -/
def LoopConfig.goesOn (config : LoopConfig) (r : Uuid) (state : RunState) (i : Uuid) : Bool :=
  (config.outcome r state i).goesOn

theorem OneByOne.first {n : Nat} (h : OneByOne config order r (n + 1) log log')
    (horder : order.Nodup) (hreads : ReadsAs r log state)
    (hfinite : ∀ e ∈ log, e.payload.costIsFinite = true) (hskips : LoopConfig.skips state = false) :
    ∃ rows, OneByOne config order r n (log ++ rows) log' ∧ (∀ e ∈ rows, e.resourceId = r) ∧
      rows.map (·.content) = config.recorded r state (config.selected order 1 state) ∧
      config.AfterItems r state (config.selected order 1 state) (rows.foldl RunState.apply state) ∧
      ReadsAs r (log ++ rows) (rows.foldl RunState.apply state) := by
  cases h with
  | @tick _ input _ log₁ _ hconfig hpicks htimely htick hrest =>
    obtain ⟨rows, rfl, hrun, hpayloads, hcontents, hreads'⟩ := htick.appends hreads hfinite htimely
    have hread := inTimeOrder_insertionSort log
    have hpick := hpicks _ (loadAll_eq_ok.mpr ⟨hread, hfinite⟩) state (hreads.replays _ hread)
    rw [hconfig] at hpayloads hcontents hpick
    rw [LoopConfig.advanceRun_one_congr rfl hpick] at hpayloads hcontents
    refine ⟨rows, hrest, hrun, ?_, ?_, hreads'⟩
    · rw [hcontents]
      exact (LoopConfig.recorded_advanceRun { config with maxItemsPerLoop := 1 } _ horder r hskips).1
    · obtain ⟨hworkspace, hstatus, hitemStatus, hitemAgent⟩ :=
        LoopConfig.afterItems_replay { config with maxItemsPerLoop := 1 } _ horder r hskips hpayloads
      exact ⟨hworkspace, hstatus, hitemStatus, hitemAgent⟩

theorem finite_of_recorded {rows : List EventEnvelope} {i : Uuid}
    (hcontents : rows.map (·.content) = config.recorded r state [i])
    (hsucceeded : (config.outcome r state i).succeeded) :
    (∀ e ∈ rows, e.payload.costIsFinite = true) ↔ config.goesOn r state i := by
  have hrows : (∀ e ∈ rows, e.payload.costIsFinite = true) ↔
      ∀ x ∈ config.recorded r state [i], x.2.costIsFinite = true := by
    rw [← hcontents, List.forall_mem_map]
    simp only [EventEnvelope.content, EventPayload.costIsFinite_untexted]
  rw [hrows, LoopConfig.goesOn, ← Outcome.costIsFinite_contents config.worker r i
    (config.context r state i).agentId _ hsucceeded, LoopConfig.recorded, List.flatMap_singleton]
  refine List.forall_mem_append.trans (and_iff_left fun x hx => ?_)
  split at hx
  · rw [List.mem_singleton.mp hx]
    rfl
  · cases hx

theorem LoopConfig.succeeded_of_goesOn {i : Uuid} (h : config.goesOn r state i) :
    (config.outcome r state i).succeeded := by
  unfold goesOn at h
  cases houtcome : config.outcome r state i with
  | error message => rw [houtcome] at h; cases h
  | ok result =>
    rw [houtcome] at h
    exact (Bool.and_eq_true_iff.mp h).1

section first

variable {state' : RunState} {i : Uuid} {rest : List Uuid}

theorem LoopConfig.eq_nil_of_finished (heligible : config.eligibleItems order state = i :: rest)
    (hnodup : i ∉ rest) (hfinished : config.finished r state [i] = true) : rest = [] := by
  by_contra hne
  obtain ⟨j, hj⟩ := List.exists_mem_of_ne_nil _ hne
  have hopen : config.finished r state [i] = false :=
    finished_eq_false (heligible ▸ List.mem_cons_of_mem _ hj)
      fun hmem => hnodup (List.mem_singleton.mp hmem ▸ hj)
  rw [hfinished] at hopen
  cases hopen

/-- The ticks after the first one execute what is left of the items of the first one. -/
theorem LoopConfig.AfterItems.takeThrough_selected (hafter : config.AfterItems r state [i] state')
    (heligible : config.eligibleItems order state = i :: rest) (hnodup : i ∉ rest) (k : Nat) :
    takeThrough (config.goesOn r state') (config.selected order k state') =
      takeThrough (config.goesOn r state) (rest.take k) := by
  have hother : ∀ j ∈ rest, j ∉ [i] := fun j hj hmem => hnodup (List.mem_singleton.mp hmem ▸ hj)
  have hnext : config.selected order k state' = rest.take k := by
    rw [selected_eq, hafter.eligibleItems_eq, heligible, List.filter_cons_of_neg (by simp),
      List.filter_eq_self.mpr]
    exact fun j hj => decide_eq_true (hother j hj)
  rw [hnext]
  refine takeThrough_congr fun j hj => ?_
  rw [goesOn, hafter.outcome_eq (hother j (List.mem_of_mem_take hj)), goesOn]

theorem LoopConfig.AfterItems.stopped {rows : List EventEnvelope}
    (hafter : config.AfterItems r state [i] state')
    (hcontents : rows.map (·.content) = config.recorded r state [i])
    (hnot : ¬ config.goesOn r state i) :
    LoopConfig.skips state' ∨ ¬ ∀ e ∈ log ++ rows, e.payload.costIsFinite = true := by
  cases hsucceeded : (config.outcome r state i).succeeded with
  | false => exact Or.inl (hafter.skips_of_failed List.mem_cons_self hsucceeded)
  | true =>
    refine Or.inr fun hall => hnot ((finite_of_recorded hcontents hsucceeded).mp fun e he => ?_)
    exact hall e (List.mem_append_right _ he)

end first

/-- Small ticks on a readable log execute the eligible items up to the first that does not go on. -/
theorem OneByOne.appends {n : Nat} (h : OneByOne config order r (n + 1) log log')
    (horder : order.Nodup) (hreads : ReadsAs r log state)
    (hfinite : ∀ e ∈ log, e.payload.costIsFinite = true) (hskips : LoopConfig.skips state = false) :
    ∃ rows, log' = log ++ rows ∧ (∀ e ∈ rows, e.resourceId = r) ∧
      rows.map (·.content) = config.recorded r state
        (takeThrough (config.goesOn r state) (config.selected order (n + 1) state)) ∧
      ReadsAs r log' (rows.foldl RunState.apply state) := by
  induction n generalizing log state with
  | zero =>
    obtain ⟨rows, hrest, hrun, hcontents, -, hreads'⟩ := h.first horder hreads hfinite hskips
    cases hrest
    refine ⟨rows, rfl, hrun, ?_, hreads'⟩
    rw [hcontents, takeThrough_eq_self_iff.mpr]
    rw [LoopConfig.selected_eq]
    cases config.eligibleItems order state <;> simp
  | succ n ih =>
    obtain ⟨rows, hrest, hrun, hcontents, hafter, hreads'⟩ := h.first horder hreads hfinite hskips
    -- the first tick may be the last one that does anything
    have hstop : (LoopConfig.skips (rows.foldl RunState.apply state) ∨
        ¬ ∀ e ∈ log ++ rows, e.payload.costIsFinite = true) →
        takeThrough (config.goesOn r state) (config.selected order (n + 2) state) =
          config.selected order 1 state →
        ∃ rows, log' = log ++ rows ∧ (∀ e ∈ rows, e.resourceId = r) ∧
          rows.map (·.content) = config.recorded r state
            (takeThrough (config.goesOn r state) (config.selected order (n + 2) state)) ∧
          ReadsAs r log' (rows.foldl RunState.apply state) := by
      intro hstopped hthrough
      obtain rfl := hrest.eq_of_stopped hreads' hstopped
      exact ⟨rows, rfl, hrun, by rw [hthrough, hcontents], hreads'⟩
    cases heligible : config.eligibleItems order state with
    | nil =>
      have hnil : ∀ k, config.selected order k state = [] := fun k => by
        rw [LoopConfig.selected_eq, heligible, List.take_nil]
      rw [hnil] at hcontents hafter
      cases hfinished : config.finished r state [] with
      | true => exact hstop (Or.inl (hafter.skips_of_finished hfinished)) (by rw [hnil, hnil]; rfl)
      | false =>
        have hrows : rows = [] := by
          rw [LoopConfig.recorded, hfinished] at hcontents
          exact List.map_eq_nil_iff.mp hcontents
        subst hrows
        rw [List.append_nil] at hrest
        have hsame := ih hrest hreads hfinite hskips
        rw [hnil] at hsame ⊢
        exact hsame
    | cons i rest =>
      have hselected : ∀ k, config.selected order (k + 1) state = i :: rest.take k := fun k => by
        rw [LoopConfig.selected_eq, heligible, List.take_succ_cons]
      have hnodup : i ∉ rest := (List.nodup_cons.mp (heligible ▸ horder.filter _)).1
      have hone : config.selected order 1 state = [i] := hselected 0
      rw [hone] at hcontents hafter
      by_cases hgoes : config.goesOn r state i
      · have hsucceeded := LoopConfig.succeeded_of_goesOn hgoes
        have hsingle : ∀ j ∈ [i], (config.outcome r state j).succeeded :=
          List.forall_mem_singleton.mpr hsucceeded
        cases hfinished : config.finished r state [i] with
        | true =>
          refine hstop (Or.inl (hafter.skips_of_finished hfinished)) ?_
          rw [hselected, hone, LoopConfig.eq_nil_of_finished heligible hnodup hfinished,
            List.take_nil, takeThrough, takeThrough, ite_self]
        | false =>
          have hfinite' : ∀ e ∈ log ++ rows, e.payload.costIsFinite = true := fun e he =>
            (List.mem_append.mp he).elim (hfinite e)
              ((finite_of_recorded hcontents hsucceeded).mpr hgoes e)
          obtain ⟨rows', rfl, hrun', hcontents', hreads''⟩ :=
            ih hrest hreads' hfinite' (hafter.skips_eq hskips hfinished hsingle)
          rw [hafter.takeThrough_selected heligible hnodup] at hcontents'
          refine ⟨rows ++ rows', List.append_assoc .., fun e he =>
            (List.mem_append.mp he).elim (hrun e) (hrun' e), ?_, ?_⟩
          · have hother : ∀ j ∈ takeThrough (config.goesOn r state) (rest.take (n + 1)), j ∉ [i] :=
              fun j hj hmem => hnodup (List.mem_singleton.mp hmem ▸
                List.mem_of_mem_take ((takeThrough_isPrefix _ _).subset hj))
            rw [List.map_append, hcontents, hcontents', hselected, takeThrough, if_pos hgoes]
            exact (hafter.recorded_append hfinished hsingle hother).symm
          · rw [List.foldl_append]
            exact hreads''
      · exact hstop (hafter.stopped hcontents hgoes) (by rw [hselected, hone, takeThrough, if_neg hgoes])

theorem LoopConfig.recorded_injective {items more : List Uuid}
    (heligible : ∀ i ∈ items ++ more, i ∈ config.eligibleItems order state)
    (hnodup : (items ++ more).Nodup)
    (h : config.recorded r state items = config.recorded r state (items ++ more)) : more = [] := by
  cases more with
  | nil => rfl
  | cons i more =>
    have hopen : config.finished r state items = false :=
      finished_eq_false (heligible i (by simp)) fun hi =>
        (List.nodup_append.mp hnodup).2.2 i hi i List.mem_cons_self rfl
    have hlength := congrArg List.length h
    have hpos : 0 < (config.itemContents r state i).length := length_contents_pos ..
    rw [recorded, recorded, hopen, List.flatMap_append, List.flatMap_cons] at hlength
    simp only [List.length_append, Bool.false_eq_true, if_false, List.length_nil] at hlength
    omega

end onebyone

/-! ### The comparison -/

section comparison

variable {r : Uuid} {log : EventLog} {state : RunState} {rows rows' : List EventEnvelope}

theorem sameStream_iff (hrun : ∀ e ∈ rows, e.resourceId = r) (hrun' : ∀ e ∈ rows', e.resourceId = r)
    (hgap : GapFree (log ++ rows)) (hgap' : GapFree (log ++ rows')) :
    SameStream r (log ++ rows) (log ++ rows') ↔ rows.map (·.content) = rows'.map (·.content) := by
  have hzip : ∀ {rows : List EventEnvelope}, GapFree (log ++ rows) →
      (stream (log ++ rows) r).map (fun e => (e.revision, e.content)) =
        ((List.range (stream (log ++ rows) r).length).map fun k : Nat => (k : Int) + 1).zip
          ((stream (log ++ rows) r).map (·.content)) := by
    intro rows hgap
    rw [← (hgap r).map_revision, List.zip_map']
  have hstream : ∀ {rows : List EventEnvelope}, (∀ e ∈ rows, e.resourceId = r) →
      stream (log ++ rows) r = stream log r ++ rows := fun hrun => by
    rw [stream_append, stream_rows hrun, if_pos rfl]
  rw [SameStream]
  constructor
  · intro h
    have hcontents := congrArg (List.map Prod.snd) h
    rw [List.map_map, List.map_map, hstream hrun, hstream hrun', List.map_append,
      List.map_append] at hcontents
    exact List.append_cancel_left hcontents
  · intro h
    have hlength : rows.length = rows'.length := by simpa using congrArg List.length h
    rw [hzip hgap, hzip hgap', hstream hrun, hstream hrun', List.length_append, List.length_append,
      hlength, List.map_append, List.map_append, h]

theorem status_foldl_of_contents (h : rows.map (·.content) = rows'.map (·.content)) :
    (rows.foldl RunState.apply state).status = (rows'.foldl RunState.apply state).status := by
  have hlast : ∀ rows : List EventEnvelope, lastWrite EventPayload.workerStatus? (payloads rows) =
      lastWrite (fun x : Uuid × EventPayload => x.2.workerStatus?) (rows.map (·.content)) := by
    intro rows
    rw [← lastWrite_payloads, ← lastWrite_comap]
    exact lastWrite_congr fun e _ => (EventPayload.workerStatus?_untexted e.payload).symm
  rw [RunState.status_foldl_apply, RunState.status_foldl_apply, hlast, hlast, h]

end comparison

theorem readsAs_of_reach {d : Deployment} {s : World} (hreach : Reachable (interleaving d) s)
    {events : List EventEnvelope} (hread : InTimeOrder s.log events) {r : Uuid} {state : RunState}
    (hstate : (runStatesFromEvents events).lookup r = some state) : ReadsAs r s.log state := by
  have hwf : WellFormed s.log := (World.Inv.of_reach hreach).sound.wellFormed
  have hgrouped : ∀ e ∈ s.log, decide (runIdForEvent e = some r) → e.resourceId = r :=
    fun e he hrun => hwf.resourceId_eq he (by simpa using hrun)
  rw [lookup_runStatesFromEvents] at hstate
  refine ⟨hwf, fun hskips => ?_, fun events' hread' => ?_⟩
  · obtain ⟨e, he, hstarted⟩ :=
      exists_runStarted_of_workspaceId hstate (LoopConfig.skips_eq_false.mp hskips).1
    obtain ⟨he, hrun⟩ := List.mem_filter.mp he
    have hmem := hread.perm.subset he
    exact (World.Grouped.of_reach hreach).tails.stream hwf
      (mem_stream.mpr ⟨hmem, hgrouped e hmem hrun⟩) hstarted
  · have hsame : runEvents events' r = runEvents events r :=
      hread.filter_eq_of_stream hread' (hwf.gapFree r) rfl hgrouped hgrouped
    rw [lookup_runStatesFromEvents, hsame, hstate]

/-- On a run that nobody else writes to, a tick of up to `m` items and `m` ticks of one item each, that
pick the items in the same order, leave the same stream and the same status, exactly if the run is left
alone or all items that the large tick executes before the last one are successes whose costs can be
read back. -/
theorem tick_size_iff {d : Deployment} {s : World} (hreach : Reachable (interleaving d) s)
    {events : List EventEnvelope} (hload : LoadAll s.log (.ok events)) {r : Uuid} {state : RunState}
    (hstate : (runStatesFromEvents events).lookup r = some state) {input : TickInput}
    (hmax : 1 ≤ input.config.maxItemsPerLoop) (horder : state.items.IsOrder (input.itemOrder r))
    (htimely : input.Timely r s.log) {log₁ log₂ : EventLog} (htick : TickOn input r s.log log₁)
    (hticks : OneByOne input.config (input.itemOrder r) r input.config.maxItemsPerLoop s.log log₂) :
    SameStream r log₁ log₂ ∧ SameStatus r log₁ log₂ ↔
      LoopConfig.skips state ∨
        ∀ i ∈ (input.config.selected (input.itemOrder r) input.config.maxItemsPerLoop state).dropLast,
          input.config.goesOn r state i := by
  obtain ⟨hread, hfinite⟩ := loadAll_eq_ok.mp hload
  have hreads := readsAs_of_reach hreach hread hstate
  obtain ⟨rows₁, rfl, hrun₁, hpayloads₁, hcontents₁, hreads₁⟩ := htick.appends hreads hfinite htimely
  have hstatus : ∀ {rows₂ : List EventEnvelope},
      ReadsAs r (s.log ++ rows₂) (rows₂.foldl RunState.apply state) →
      rows₁.map (·.content) = rows₂.map (·.content) →
        SameStatus r (s.log ++ rows₁) (s.log ++ rows₂) := by
    intro rows₂ hreads₂ hcontents events₁ events₂ hload₁ hload₂
    rw [hreads₁.replays _ (loadAll_eq_ok.mp hload₁).1, hreads₂.replays _ (loadAll_eq_ok.mp hload₂).1,
      Option.map_some, Option.map_some, status_foldl_of_contents hcontents]
  cases hskips : LoopConfig.skips state with
  | true =>
    obtain rfl := hticks.eq_of_stopped hreads (Or.inl hskips)
    rw [LoopConfig.advanceRun_of_skips hskips] at hpayloads₁
    obtain rfl : rows₁ = [] := List.map_eq_nil_iff.mp hpayloads₁
    have hsame : SameStatus r (s.log ++ []) (s.log ++ []) := hstatus hreads₁ rfl
    rw [List.append_nil] at hsame ⊢
    exact iff_of_true ⟨rfl, hsame⟩ (Or.inl rfl)
  | false =>
    obtain ⟨n, hn⟩ := Nat.exists_eq_add_of_le' hmax
    rw [hn] at hticks ⊢
    obtain ⟨rows₂, rfl, hrun₂, hcontents₂, hreads₂⟩ := hticks.appends horder.1 hreads hfinite hskips
    rw [(LoopConfig.recorded_advanceRun _ _ horder.1 r hskips).1, hn] at hcontents₁
    rw [sameStream_iff hrun₁ hrun₂ hreads₁.wellFormed.gapFree hreads₂.wellFormed.gapFree,
      and_iff_left_of_imp (hstatus hreads₂), hcontents₁, hcontents₂, or_iff_right Bool.false_ne_true,
      ← takeThrough_eq_self_iff]
    constructor
    · intro heq
      obtain ⟨more, hmore⟩ := takeThrough_isPrefix (input.config.goesOn r state)
        (input.config.selected (input.itemOrder r) (n + 1) state)
      have hnodup : (input.config.selected (input.itemOrder r) (n + 1) state).Nodup :=
        (horder.1.filter _).sublist (List.take_sublist ..)
      have heligible : ∀ i ∈ input.config.selected (input.itemOrder r) (n + 1) state,
          i ∈ input.config.eligibleItems (input.itemOrder r) state := fun i => List.mem_of_mem_take
      rw [← hmore] at hnodup heligible
      have hnil : more = [] := LoopConfig.recorded_injective heligible hnodup (by rw [hmore, heq])
      rwa [hnil, List.append_nil] at hmore
    · exact fun heq => by rw [heq]

/-! ### A run with two items -/

def twoItemWorld : World := World.init.after sampleDeployment
  (requestActions 0 (.startRun sampleWorkspace "" (some 2) (some 1)) (.at sampleRun 100 0))

theorem twoItemWorld_reachable : Reachable (interleaving sampleDeployment) twoItemWorld :=
  World.reach_after (.init rfl) (by decide +kernel)

/-- A tick of up to `max` items that takes ids and times from `base` on. -/
def sizedInput (executor : AgentExecutor) (max base : Nat) : TickInput where
  config := ⟨⟨⟨60⟩⟩, executor, max, false⟩
  appendMaxAttempts := 4
  runOrder := [sampleRun]
  itemOrder _ := [⟨10⟩, ⟨11⟩]
  stamp _ := countingStamp base

def sizedLog (executor : AgentExecutor) (max base : Nat) (log : EventLog) : EventLog :=
  ((sizedInput executor max base).visitRun (runStatesFromEvents log) ⟨log, .empty⟩ sampleRun).log

/-- The log can be read in one order only, and the tick comes after it with ids of its own. -/
@[mk_iff] structure Precedes (log : EventLog) (input : TickInput) (base : Nat) : Prop where
  sorted : log.Pairwise fun e e' => e.occurredAt ≤ e'.occurredAt ∧ e.revision < e'.revision
  finite : ∀ e ∈ log, e.payload.costIsFinite = true
  early : ∀ e ∈ log, e.occurredAt ≤ base
  fresh : ∀ b ∈ input.batch (runStatesFromEvents log) sampleRun, ∀ e ∈ log, e.id ≠ b.id
  distinct : ((input.batch (runStatesFromEvents log) sampleRun).map (·.id)).Nodup

section sized

variable {log : EventLog} {executor : AgentExecutor} {max base : Nat}

theorem Precedes.loadAll {input : TickInput} (h : Precedes log input base) : LoadAll log (.ok log) :=
  loadAll_eq_ok.mpr ⟨⟨.refl _, h.sorted.imp fun hlt => timeLe_of_lt hlt.1 hlt.2⟩, h.finite⟩

theorem Precedes.eq_of_loadAll {input : TickInput} (h : Precedes log input base)
    {events : List EventEnvelope} (hload : LoadAll log (.ok events)) : events = log := by
  obtain ⟨hperm, hsorted⟩ := (loadAll_eq_ok.mp hload).1
  have hnot : log.Pairwise fun a b => ¬ timeLe b a := by
    refine h.sorted.imp fun hlt hba => ?_
    rcases hba with hbefore | ⟨-, hle⟩
    · exact absurd hlt.1 (not_le_of_gt hbefore)
    · exact absurd hlt.2 (not_lt_of_ge hle)
  have hunique : ∀ ⦃a⦄, a ∈ log → ∀ ⦃b⦄, b ∈ log → timeLe a b → timeLe b a → a = b :=
    List.Pairwise.forall_of_forall_of_flip (fun _ _ _ _ => rfl)
      (hnot.imp fun hba _ hab => absurd hab hba) (hnot.imp fun hba hab _ => absurd hab hba)
  exact hperm.eq_of_pairwise (fun a b ha hb => hunique (hperm.subset ha) hb) hsorted
    (h.sorted.imp fun hlt => timeLe_of_lt hlt.1 hlt.2)

theorem Precedes.timely (h : Precedes log (sizedInput executor max base) base) :
    (sizedInput executor max base).Timely sampleRun log where
  fresh := fun _ hload => h.eq_of_loadAll hload ▸ h.fresh
  distinct := fun _ hload => h.eq_of_loadAll hload ▸ h.distinct
  monotone := countingStamp_monotone base
  later := fun e he k =>
    le_trans (h.early e (mem_stream.mp he).1) (countingStamp_monotone base (Nat.zero_le k))

theorem Precedes.tickOn (h : Precedes log (sizedInput executor max base) base) :
    TickOn (sizedInput executor max base) sampleRun log (sizedLog executor max base log) :=
  .visited h.loadAll

theorem Precedes.oneByOne {log' : EventLog} {n m : Nat}
    (h : Precedes log (sizedInput executor 1 base) base)
    (hrest : OneByOne (sizedInput executor m base).config [⟨10⟩, ⟨11⟩] sampleRun n
      (sizedLog executor 1 base log) log') :
    OneByOne (sizedInput executor m base).config [⟨10⟩, ⟨11⟩] sampleRun (n + 1) log log' :=
  .tick rfl (fun _ _ _ _ => rfl) h.timely h.tickOn hrest

end sized

theorem tick_size_iff_two :
    SameStream sampleRun (sizedLog (sampleExecutor [⟨11⟩]) 2 200 twoItemWorld.log)
      (sizedLog (sampleExecutor [⟨11⟩]) 1 300
        (sizedLog (sampleExecutor [⟨11⟩]) 1 200 twoItemWorld.log)) ∧
    SameStatus sampleRun (sizedLog (sampleExecutor [⟨11⟩]) 2 200 twoItemWorld.log)
      (sizedLog (sampleExecutor [⟨11⟩]) 1 300
        (sizedLog (sampleExecutor [⟨11⟩]) 1 200 twoItemWorld.log)) := by
  have hbefore : Precedes twoItemWorld.log (sizedInput (sampleExecutor [⟨11⟩]) 2 200) 200 :=
    (precedes_iff ..).mpr (by decide +kernel)
  have hfirst : Precedes twoItemWorld.log (sizedInput (sampleExecutor [⟨11⟩]) 1 200) 200 :=
    (precedes_iff ..).mpr (by decide +kernel)
  have hsecond : Precedes (sizedLog (sampleExecutor [⟨11⟩]) 1 200 twoItemWorld.log)
      (sizedInput (sampleExecutor [⟨11⟩]) 1 300) 300 :=
    (precedes_iff ..).mpr (by decide +kernel)
  obtain ⟨state, hstate⟩ :
      ∃ state, (runStatesFromEvents twoItemWorld.log).lookup sampleRun = some state :=
    Option.isSome_iff_exists.mp (by decide +kernel)
  have hstate' : ∀ state ∈ (runStatesFromEvents twoItemWorld.log).lookup sampleRun,
      state.items.IsOrder [⟨10⟩, ⟨11⟩] ∧
      ∀ i ∈ ((sizedInput (sampleExecutor [⟨11⟩]) 2 200).config.selected [⟨10⟩, ⟨11⟩] 2 state).dropLast,
        (sizedInput (sampleExecutor [⟨11⟩]) 2 200).config.goesOn sampleRun state i := by decide +kernel
  obtain ⟨horder, hgoes⟩ := hstate' state hstate
  exact (tick_size_iff twoItemWorld_reachable hbefore.loadAll hstate (by decide) horder hbefore.timely
    hbefore.tickOn (hfirst.oneByOne (hsecond.oneByOne .none))).mpr (Or.inr hgoes)

/-- The executor fails on the first of two items: the large tick executes the other one as well, and
the second of the small ticks finds the run blocked. -/
theorem tick_size_failed :
    Reachable (interleaving sampleDeployment) twoItemWorld ∧
    LoadAll twoItemWorld.log (.ok twoItemWorld.log) ∧
    (∃ state, (runStatesFromEvents twoItemWorld.log).lookup sampleRun = some state ∧
      state.items.IsOrder [⟨10⟩, ⟨11⟩]) ∧
    (sizedInput (sampleExecutor [⟨10⟩]) 2 200).Timely sampleRun twoItemWorld.log ∧
    ∃ log₁ log₂,
      TickOn (sizedInput (sampleExecutor [⟨10⟩]) 2 200) sampleRun twoItemWorld.log log₁ ∧
      OneByOne (sizedInput (sampleExecutor [⟨10⟩]) 2 200).config [⟨10⟩, ⟨11⟩] sampleRun 2
        twoItemWorld.log log₂ ∧
      ¬ SameStream sampleRun log₁ log₂ := by
  have hbefore : Precedes twoItemWorld.log (sizedInput (sampleExecutor [⟨10⟩]) 2 200) 200 :=
    (precedes_iff ..).mpr (by decide +kernel)
  have hfirst : Precedes twoItemWorld.log (sizedInput (sampleExecutor [⟨10⟩]) 1 200) 200 :=
    (precedes_iff ..).mpr (by decide +kernel)
  have hsecond : Precedes (sizedLog (sampleExecutor [⟨10⟩]) 1 200 twoItemWorld.log)
      (sizedInput (sampleExecutor [⟨10⟩]) 1 300) 300 :=
    (precedes_iff ..).mpr (by decide +kernel)
  have horder : ∀ state ∈ (runStatesFromEvents twoItemWorld.log).lookup sampleRun,
      state.items.IsOrder [⟨10⟩, ⟨11⟩] := by decide +kernel
  obtain ⟨state, hstate⟩ :
      ∃ state, (runStatesFromEvents twoItemWorld.log).lookup sampleRun = some state :=
    Option.isSome_iff_exists.mp (by decide +kernel)
  refine ⟨twoItemWorld_reachable, hbefore.loadAll, ⟨state, hstate, horder state hstate⟩,
    hbefore.timely, _, _, hbefore.tickOn, hfirst.oneByOne (hsecond.oneByOne .none), fun hsame => ?_⟩
  have hlarge : (stream (sizedLog (sampleExecutor [⟨10⟩]) 2 200 twoItemWorld.log) sampleRun).length =
      7 := by decide +kernel
  have hsmall : (stream (sizedLog (sampleExecutor [⟨10⟩]) 1 300
      (sizedLog (sampleExecutor [⟨10⟩]) 1 200 twoItemWorld.log)) sampleRun).length = 4 := by
    decide +kernel
  have hlength := congrArg List.length hsame
  rw [List.length_map, List.length_map, hlarge, hsmall] at hlength
  exact absurd hlength (by decide)

end SamtaDashboard
