import SamtaDashboard.System.Board

/-!
# Who writes the row of a run

No statement on `agent_runs_projection` compares what it replaces with what it writes. `goesBack_iff`
says when a write puts an older value in the place of a newer one: when the row takes account of events
of the run that came after the writer's read.
-/

namespace SamtaDashboard

open EventFold Transition

/-! ### Writes that go back -/

/-- Some value that stood in a run's row is replaced by one that is not computed from all that the old
value was computed from. -/
def Board.GoesBack (s s' : Board) : Prop :=
  ∃ r, (s.store.runs r).isSome ∧ (s'.store.runs r).isSome ∧
    (¬ (s.basis r).status ⊆ (s'.basis r).status ∨ ¬ (s.basis r).totals ⊆ (s'.basis r).totals)

/-- The source of what an action writes to a run's row, and whether it sets the totals of a row that
exists. -/
def Board.writer? (s : Board) : BoardAction → Option (Source × Bool)
  | .write p _ =>
    match s.pending p with
    | some ⟨.insert _, source⟩ => some (source, true)
    | some ⟨.sync .., source⟩ => some (source, false)
    | some ⟨.update state _, source⟩ => if state.workspaceId.isNil then none else some (source, true)
    | _ => none
  | .rebuildRun j =>
    match s.rebuilds j with
    | .writing read events (row :: _) _ => some (⟨row.runId, read, events, []⟩, true)
    | _ => none
  | _ => none

/-- The events that a writer replaces the account of: those of the status, and of the totals if it sets
them. -/
def Basis.replaced (basis : Basis) (totals : Bool) : List EventEnvelope :=
  basis.status ++ if totals then basis.totals else []

/-- The row that is written takes account of an event of the run beyond the revision that the writer
has read, and the writer has not appended it itself. -/
def Overtaken (s : Board) (a : BoardAction) : Prop :=
  ∃ x ∈ s.writer? a, (s.store.runs x.1.runId).isSome ∧
    ∃ e ∈ (s.basis x.1.runId).replaced x.2, x.1.revision < e.revision ∧ e ∉ x.1.own

/-! ### When a write goes back -/

section goesBack

variable {d : Deployment} {s s' : Board} {a : BoardAction}

/-- What a write loses of a basis in the log: the events beyond the revision that its source has read,
its own apart. -/
theorem Source.Inv.replaced_iff {log : EventLog} {x : Source} (h : x.Inv log) (hwf : WellFormed log)
    {basis : Basis} (hbasis : basis.Inv log x.runId) (totals : Bool) :
    (∃ e ∈ basis.replaced totals, x.revision < e.revision ∧ e ∉ x.own) ↔
      ¬ basis.status ⊆ x.basis ∨ totals ∧ ¬ basis.totals ⊆ x.basis := by
  have hlost : ∀ events : List EventEnvelope, (∀ e ∈ events, e ∈ log ∧ runIdForEvent e = some x.runId) →
      ((∃ e ∈ events, x.revision < e.revision ∧ e ∉ x.own) ↔ ¬ events ⊆ x.basis) := by
    intro events hevents
    rw [List.subset_def, not_forall₂]
    constructor
    · rintro ⟨e, he, hnews⟩
      exact ⟨e, he, (h.not_mem_basis_iff hwf (hevents e he).1 (hevents e he).2).mpr hnews⟩
    · rintro ⟨e, he, hnot⟩
      exact ⟨e, he, (h.not_mem_basis_iff hwf (hevents e he).1 (hevents e he).2).mp hnot⟩
  rw [← hlost _ hbasis.status, ← hlost _ hbasis.totals]
  cases totals with
  | true => simp [Basis.replaced, or_and_right, exists_or]
  | false => simp [Basis.replaced]

theorem not_goesBack (h : s'.basis = s.basis ∨ s'.store = .empty) : ¬ s.GoesBack s' := by
  rintro ⟨r, -, hrow, hback⟩
  rcases h with h | h
  · rw [h] at hback
    simp at hback
  · rw [h] at hrow
    cases hrow

theorem goesBack_setRow_iff {store : ProjectionStore} {r : Uuid} {basis : Basis}
    (hstore : (s.store.runs r).isSome → (store.runs r).isSome) :
    s.GoesBack (s.setRow store r basis) ↔ (s.store.runs r).isSome ∧
      (¬ (s.basis r).status ⊆ basis.status ∨ ¬ (s.basis r).totals ⊆ basis.totals) := by
  constructor
  · rintro ⟨r', hrow, -, hback⟩
    rw [Board.basis_setRow] at hback
    split at hback
    · next hr => exact hr ▸ ⟨hrow, hback⟩
    · simp at hback
  · rintro ⟨hrow, hback⟩
    refine ⟨r, hrow, hstore hrow, ?_⟩
    rwa [Board.basis_setRow, if_pos rfl]

theorem not_overtaken (h : s.writer? a = none) : ¬ Overtaken s a := by
  rintro ⟨x, hx, -⟩
  rw [h] at hx
  cases hx

theorem overtaken_iff {x : Source × Bool} (h : s.writer? a = some x) :
    Overtaken s a ↔ (s.store.runs x.1.runId).isSome ∧
      ∃ e ∈ (s.basis x.1.runId).replaced x.2, x.1.revision < e.revision ∧ e ∉ x.1.own := by
  simp only [Overtaken, h, Option.mem_some_iff, exists_eq_left']

/-- In every interleaving, a write to a run's row replaces a value by one that is not computed from all
that the old one was computed from exactly if it is overtaken. -/
theorem goesBack_iff (h : Reachable (projecting d) s) (hstep : s.Step d a s') :
    s.GoesBack s' ↔ Overtaken s a := by
  have hinv := Board.Inv.of_reach h
  have hwf := hinv.world.sound.wellFormed
  cases hstep with
  | @act a =>
    refine iff_of_false (not_goesBack (Or.inl ?_)) (not_overtaken rfl)
    cases a <;> rfl
  | execute | fetch | giveUp | rebuildLoad | rebuildItem | rebuildStop =>
    exact iff_of_false (not_goesBack (Or.inl rfl)) (not_overtaken rfl)
  | rebuildClear => exact iff_of_false (not_goesBack (Or.inr rfl)) (not_overtaken rfl)
  | @write p now x store hpending hperform =>
    obtain ⟨write, source⟩ := x
    have hsource : source.Inv s.world.log := hinv.pending p _ hpending
    have hlost := hsource.replaced_iff hwf (hinv.basis source.runId)
    show s.GoesBack (s.setRow store source.runId _) ↔ _
    rw [goesBack_setRow_iff (RowWrite.perform_spec hinv.keyed hperform).2]
    cases write with
    | fetch => cases hperform
    | insert workspaceId =>
      have hwriter : s.writer? (.write p now) = some (source, true) := by
        simp only [Board.writer?, hpending]
      rw [overtaken_iff hwriter, hlost true]
      simp only [RowWrite.account, true_and]
    | sync workspaceId status =>
      have hwriter : s.writer? (.write p now) = some (source, false) := by
        simp only [Board.writer?, hpending]
      rw [overtaken_iff hwriter, hlost false]
      -- on an existing row only the status is set
      refine and_congr_right fun hrow => ?_
      simp [RowWrite.account, hrow]
    | update state batch =>
      cases hnil : state.workspaceId.isNil with
      | true =>
        have hwriter : s.writer? (.write p now) = none := by
          simp only [Board.writer?, hpending, hnil, if_true]
        refine iff_of_false ?_ (not_overtaken hwriter)
        simp [RowWrite.account, hnil]
      | false =>
        have hwriter : s.writer? (.write p now) = some (source, true) := by
          simp only [Board.writer?, hpending, hnil, Bool.false_eq_true, if_false]
        rw [overtaken_iff hwriter, hlost true]
        simp only [RowWrite.account, hnil, Bool.false_eq_true, if_false, true_and]
  | @rebuildRun j read events row runs items hphase =>
    have hj := hinv.rebuilds j
    rw [hphase] at hj
    have hsource : Source.Inv s.world.log ⟨row.runId, read, events, []⟩ :=
      .of_read hj.1 hj.2 (List.nil_subset _) _
    have hwriter : s.writer? (.rebuildRun j) = some (⟨row.runId, read, events, []⟩, true) := by
      simp only [Board.writer?, hphase]
    have hstore : (s.store.runs row.runId).isSome →
        ((s.store.upsertRunProjection row).runs row.runId).isSome := by
      intro _
      rw [runs_upsert, if_pos rfl]
      rfl
    show s.GoesBack (s.setRow (s.store.upsertRunProjection row) row.runId _) ↔ _
    rw [goesBack_setRow_iff hstore, overtaken_iff hwriter,
      hsource.replaced_iff hwf (hinv.basis row.runId) true]
    simp only [true_and]

end goesBack

/-! ### Sample runs -/

/-- One outcome of a step of a request or a worker or of a write; `none` if it is not enabled. -/
def Board.play (d : Deployment) (s : Board) : BoardAction → Option Board
  | .act (.execute w executor) =>
    match s.pending (.worker w), s.world.workers w with
    | none, .ticking snapshot (r :: runs) =>
      match (runStatesFromEvents snapshot.events).lookup r with
      | some state =>
        if snapshot.now ≤ s.world.now then
          let x := ((d.worker w).config executor).advanceRun
            (playStamp w s.world.log (d.clock (.worker w) s.world.now)) state.items.keys r state
          some { s with
            world := s.world.setWorker w (afterIteration (d.worker w) snapshot runs r x.2)
            memory := Function.update s.memory w (some x.1) }
        else none
      | none => none
    | _, _ => none
  | .act a =>
    if ∀ p ∈ a.process?, s.pending p = none then (s.world.play d a).map (s.advance · a) else none
  | .write p now =>
    (s.pending p).bind fun x => (x.write.perform x.source.runId now s.store).map fun store =>
      (s.write x store).setPending p none
  | _ => none

theorem Board.step_of_play {d : Deployment} {s : Board} {a : BoardAction} {s' : Board}
    (h : s.play d a = some s') : s.Step d a s' := by
  have hact : ∀ a : Action, a.isExecute = false →
      (if ∀ p ∈ a.process?, s.pending p = none then (s.world.play d a).map (s.advance · a)
        else none) = some s' → s.Step d (.act a) s' := by
    intro a ha h
    obtain ⟨hidle, h⟩ := Option.ite_none_right_eq_some.mp h
    obtain ⟨world, hworld, rfl⟩ := Option.map_eq_some_iff.mp h
    exact .act ha hidle (World.step_of_play hworld)
  cases a with
  | act a =>
    cases a with
    | execute w executor =>
      simp only [play] at h
      split at h
      · next snapshot r runs hidle hphase =>
        split at h
        · next state hlookup =>
          obtain ⟨hle, h⟩ := Option.ite_none_right_eq_some.mp h
          obtain rfl := Option.some.inj h
          refine .execute hidle hphase hlookup (HashMap.isOrder_keys _) rfl
            (Deployment.stampedBetween_of_now hle fun e he => ?_)
          obtain ⟨⟨hi, hstamped⟩, -⟩ := ((d.worker w).config executor).advanceRun_stamped
            (playStamp w s.world.log (d.clock (.worker w) s.world.now)) state.items.keys r state
          obtain ⟨k, -, hk⟩ := hstamped.exists_stamp he
          exact hk
        · cases h
      · cases h
    | _ => exact hact _ rfl h
  | write p now =>
    obtain ⟨x, hx, h⟩ := Option.bind_eq_some_iff.mp h
    obtain ⟨store, hstore, rfl⟩ := Option.map_eq_some_iff.mp h
    exact .write hx hstore
  | _ => cases h

def boardAfter (actions : List BoardAction) : Board :=
  (actions.foldlM (Board.play sampleDeployment) .init).getD .init

theorem boardAfter_reachable (actions : List BoardAction) :
    Reachable (projecting sampleDeployment) (boardAfter actions) := by
  have hinit : Reachable (projecting sampleDeployment) Board.init := .init rfl
  unfold boardAfter
  cases h : actions.foldlM (Board.play sampleDeployment) .init with
  | none => exact hinit
  | some s => exact hinit.foldlM (fun _ _ _ => Board.step_of_play) h

/-- A worker has appended a batch that it executed before a cancel, and the handlers have written. -/
def cancelledActions : List BoardAction :=
  startActions.map .act ++ [.write (.request 0) 0] ++ (executeActions 0).map .act ++
    (requestActions 1 (.cancelRun sampleRun) (.at sampleRun 200 0)).map .act ++
    [.write (.request 1) 0] ++ (appendActions 0).map .act

/-- A run is started and its row written by the handler; the worker's first write comes next. -/
def promptWriteActions : List BoardAction :=
  startActions.map .act ++ [.write (.request 0) 0] ++ (executeActions 0).map .act ++
    (appendActions 0).map .act

theorem goesBack_iff_promptWrite : ∃ s',
    (boardAfter promptWriteActions).Step sampleDeployment (.write (.worker 0) 0) s' ∧
      ((boardAfter promptWriteActions).GoesBack s' ↔
        Overtaken (boardAfter promptWriteActions) (.write (.worker 0) 0)) := by
  obtain ⟨s', hplay⟩ : ∃ s', (boardAfter promptWriteActions).play sampleDeployment
      (.write (.worker 0) 0) = some s' := Option.isSome_iff_exists.mp (by decide +kernel)
  have hstep := Board.step_of_play hplay
  exact ⟨s', hstep, goesBack_iff (boardAfter_reachable _) hstep⟩

/-- The worker overwrites the cancelled row. -/
theorem goesBack_cancelled : ∃ s',
    Reachable (projecting sampleDeployment) (boardAfter cancelledActions) ∧
      (boardAfter cancelledActions).Step sampleDeployment (.write (.worker 0) 0) s' ∧
      (boardAfter cancelledActions).GoesBack s' ∧
      ((boardAfter cancelledActions).store.runs sampleRun).map (·.status) = some "cancelled" ∧
      (s'.store.runs sampleRun).map (·.status) = some "completed" := by
  have hrun : ((boardAfter cancelledActions).play sampleDeployment (.write (.worker 0) 0)).map
      (fun s' => ((s'.store.runs sampleRun).map (·.status),
        (s'.basis sampleRun).status.all (·.revision ≠ 3))) = some (some "completed", true) := by
    decide +kernel
  obtain ⟨s', hplay, heq⟩ := Option.map_eq_some_iff.mp hrun
  obtain ⟨hcompleted, hlost⟩ := Prod.mk.inj heq
  have hcancelled : ((boardAfter cancelledActions).store.runs sampleRun).map (·.status) =
      some "cancelled" := by decide +kernel
  have hrow : ∀ {row : Option AgentRunProjection} {status : String},
      row.map (·.status) = some status → row.isSome := by
    rintro (_ | row) status h
    · cases h
    · rfl
  refine ⟨s', boardAfter_reachable _, Board.step_of_play hplay,
    ⟨sampleRun, hrow hcancelled, hrow hcompleted, Or.inl fun hsub => ?_⟩, hcancelled, hcompleted⟩
  -- the cancel has revision 3
  have hmem : ((boardAfter cancelledActions).basis sampleRun).status.any (·.revision = 3) := by
    decide +kernel
  obtain ⟨e, he, hrevision⟩ := List.any_eq_true.mp hmem
  have hne := List.all_eq_true.mp hlost e (hsub he)
  simp_all

end SamtaDashboard
