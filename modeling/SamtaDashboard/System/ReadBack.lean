import SamtaDashboard.Application.Executors
import SamtaDashboard.System.Schedule

/-!
# What is appended can be read back

An event is read back unless it carries a cost that is not a number, and one such event makes
`load_all` fail from then on. The orchestrator writes none. A worker writes the costs that its
executor reports, so all depends on what the executor is told (`appended_readBack`).
-/

namespace SamtaDashboard

open EventFold Transition

/-! ### The costs of a batch -/

theorem costIsFinite_outcome {worker : Worker} {r itemId : Uuid} {outcome : Outcome}
    (h : ∀ result, outcome = .ok result → result.cost.isFinite) :
    ∀ p ∈ outcome.payloads worker r itemId, p.costIsFinite := by
  intro p hp
  unfold Outcome.payloads at hp
  split at hp
  · obtain rfl := List.mem_singleton.mp hp
    rfl
  · next result =>
    have hcost := h result rfl
    split at hp <;> simp only [List.mem_cons, List.not_mem_nil, or_false] at hp
    · rcases hp with rfl | rfl | rfl
      · rfl
      · exact hcost
      · exact (F64.isFinite_half _).trans hcost
    · rcases hp with rfl | rfl <;> rfl

theorem costIsFinite_batch {config : LoopConfig} {r : Uuid} {state state' : RunState}
    {batch : List EventEnvelope} {executed : List (Uuid × Outcome)} {summary : Option String}
    (h : Advanced config r state state' batch executed summary)
    (hexecutor : ∀ ctx result, config.executor ctx = .ok result → result.cost.isFinite) :
    ∀ p ∈ payloads batch, p.costIsFinite := by
  intro p hp
  rw [h.payloads] at hp
  rcases List.mem_append.mp hp with hp | hp
  · obtain ⟨x, hx, hp⟩ := mem_executedPayloads hp
    obtain ⟨ctx, hctx⟩ := h.outcome x hx
    exact costIsFinite_outcome (fun result hok => hexecutor ctx result (hctx.trans hok)) p hp
  · obtain ⟨text, -, rfl⟩ := List.mem_map.mp hp
    rfl

/-! ### The batches that wait for their append -/

section steps

variable {d : Deployment} {s s' : World} {a : Action}

theorem batch_afterIteration {settings : WorkerSettings} {executor : AgentExecutor}
    {snapshot : Snapshot} {runs : List Uuid} {r : Uuid} {stamp : Nat → Stamp} {order : List Uuid}
    {state : RunState} :
    let batch := ((settings.config executor).advanceRun stamp order r state).2
    (afterIteration settings snapshot runs r batch).batch = [] ∨
      ∃ state' executed summary, Advanced (settings.config executor) r state state'
        (afterIteration settings snapshot runs r batch).batch executed summary := by
  intro batch
  unfold afterIteration
  split
  · exact Or.inl rfl
  · next hne =>
    cases hskips : LoopConfig.skips state with
    | true => exact Or.inl (congrArg Prod.snd (LoopConfig.advanceRun_of_skips hskips))
    | false =>
      obtain ⟨summary, hadv⟩ :=
        (settings.config executor).advanceRun_spec stamp order r hskips
      exact Or.inr ⟨_, _, summary, hadv⟩

theorem World.Step.batch (h : s.Step d a s') (w : Nat) :
    (s'.workers w).batch = [] ∨ (s'.workers w).batch = (s.workers w).batch ∨
      ∃ executor r state state' executed summary, a = .execute w executor ∧
        Advanced ((d.worker w).config executor) r state state' (s'.workers w).batch executed
          summary := by
  rcases h.worker w with hsame | hmove
  · exact Or.inr (Or.inl (congrArg WorkerPhase.batch hsame))
  · revert hmove
    generalize s'.workers w = phase
    intro hmove
    cases hmove with
    | load | stop | done => exact Or.inl rfl
    | again hphase => exact Or.inr (Or.inl (by rw [hphase]; rfl))
    | @execute executor snapshot r runs state order stamp =>
      refine batch_afterIteration.imp id fun ⟨state', executed, summary, hadv⟩ => Or.inr ?_
      exact ⟨executor, r, state, state', executed, summary, rfl, hadv⟩

end steps

/-! ### Costs that are numbers -/

/-- A worker runs with the executor that its environment gives it, and what this executor is told
states no other cost than numbers. -/
def ToldNumbers (unicode : Unicode) (parseJson : String → Option Json) (_ : World) (a : Action) :
    Prop :=
  ∀ w executor, a = .execute w executor → ∃ env network,
    executor = (createExecutorFromEnv unicode env).execute unicode parseJson network ∧
      CostsAreNumbers unicode parseJson env network

/-- No cost in the log or in a batch that waits is infinite or not a number. -/
structure CostsFinite (s : World) : Prop where
  log : ∀ e ∈ s.log, e.payload.costIsFinite
  batch : ∀ w, ∀ p ∈ payloads (s.workers w).batch, p.costIsFinite

section costs

variable {d : Deployment} {s s' : World} {a : Action} {unicode : Unicode}
  {parseJson : String → Option Json}

theorem forall_mem_append_of_payloads {log rows : EventLog}
    (hlog : ∀ e ∈ log, e.payload.costIsFinite) (hrows : ∀ p ∈ payloads rows, p.costIsFinite) :
    ∀ e ∈ log ++ rows, e.payload.costIsFinite := by
  intro e he
  rcases List.mem_append.mp he with he | he
  · exact hlog e he
  · exact hrows e.payload (List.mem_map_of_mem he)

theorem batch_of_batchOf {snapshot : Snapshot} {r : Uuid} {batch : List EventEnvelope}
    (h : s.batchOf a = some (snapshot, r, batch)) : ∃ w, (s.workers w).batch = batch := by
  unfold World.batchOf at h
  split at h
  · next w =>
    split at h
    · next hphase =>
      cases h
      exact ⟨w, by rw [hphase]; rfl⟩
    · cases h
  · cases h

theorem CostsFinite.init : CostsFinite World.init :=
  ⟨by simp [World.init], fun _ => by simp [World.init, WorkerPhase.batch]⟩

theorem CostsFinite.step (h : CostsFinite s) (hinv : s.Inv d) (hstep : s.Step d a s')
    (htold : ToldNumbers unicode parseJson s a) : CostsFinite s' := by
  constructor
  · cases hstep.commit hinv with
    | nothing _ hlog =>
      rw [hlog]
      exact h.log
    | request _ hcommit =>
      rw [hcommit.appended.log_eq]
      exact forall_mem_append_of_payloads h.log hcommit.decided.finite
    | batch hbatch hcommit =>
      obtain ⟨w, hw⟩ := batch_of_batchOf hbatch
      rw [hcommit.appended.log_eq]
      refine forall_mem_append_of_payloads h.log ?_
      rw [hcommit.payloads, ← hw]
      exact h.batch w
  · intro w
    rcases hstep.batch w with hnone | hold | ⟨executor, r, state, state', executed, summary, ha, hadv⟩
    · rw [hnone]
      simp
    · rw [hold]
      exact h.batch w
    · obtain ⟨env, network, hexecutor, hnumbers⟩ := htold w executor ha
      refine costIsFinite_batch hadv fun ctx result hok => ?_
      refine (costsAreNumbers_iff unicode parseJson).mp hnumbers ctx result ?_
      rw [← hexecutor]
      exact hok

theorem costsFinite_of_reach (h : Reach (interleaving d) (ToldNumbers unicode parseJson) s) :
    CostsFinite s :=
  h.invariant_of (K := World.Inv d) (fun _ => World.Inv.of_reach)
    (by rintro s rfl; exact .init) fun _ _ _ hinv hI hstep htold => hI.step hinv hstep htold

end costs

/-! ### Reading -/

/-- What is read contains the event, with the same payload. -/
def Returns (result : Except String (List EventEnvelope)) (e : EventEnvelope) : Prop :=
  ∃ events, result = .ok events ∧ ∃ x ∈ events, x.id = e.id ∧ x.payload = e.payload

section reading

variable {d : Deployment} {s s' : World} {guard : World → Action → Prop}

theorem log_mono_of_reach (h : Reach (interleaving d) guard s)
    (hlater : Reach ((interleaving d).startingAt s) guard s') : s.log <+: s'.log := by
  refine hlater.invariant_of (K := World.Inv d) (I := fun x : World => s.log <+: x.log)
    (fun _ hx => World.Inv.of_reach (h.trans hx)) ?_ ?_
  · rintro _ rfl
    exact List.prefix_rfl
  · exact fun _ _ _ hinv hread hstep _ => hread.trans (hstep.log_mono hinv)

theorem load_of_finite {log : EventLog} (hgap : GapFree log)
    (hfinite : ∀ e ∈ log, e.payload.costIsFinite) (r : Uuid) : load log r = .ok (stream log r) :=
  hgap.load_eq_ok.mpr ⟨rfl, fun e he => hfinite e (mem_stream.mp he).1⟩

theorem loadAll_of_finite {log : EventLog} (hfinite : ∀ e ∈ log, e.payload.costIsFinite)
    {result : Except String (List EventEnvelope)} (h : LoadAll log result) :
    ∃ events, result = .ok events ∧ InTimeOrder log events := by
  obtain ⟨rows, horder, rfl⟩ := h
  exact ⟨rows, mapM_readBack.mpr ⟨rfl, fun e he => hfinite e (horder.perm.subset he)⟩, horder⟩

end reading

/-! ### Whatever is appended is read back -/

/-- As long as the executors are told no costs but numbers, both read paths always succeed, and give
back every event whose append has succeeded, at any later time. -/
theorem appended_readBack {unicode : Unicode} {parseJson : String → Option Json} {d : Deployment}
    {s s' : World} (h : Reach (interleaving d) (ToldNumbers unicode parseJson) s)
    (hlater : Reach ((interleaving d).startingAt s) (ToldNumbers unicode parseJson) s') :
    (∀ r, ∃ events, load s'.log r = .ok events) ∧
      (∀ result, LoadAll s'.log result → ∃ events, result = .ok events) ∧
      ∀ log r events, append log r events = .ok s.log → ∀ e ∈ events,
        Returns (load s'.log r) e ∧ ∀ result, LoadAll s'.log result → Returns result e := by
  have hfinite := (costsFinite_of_reach (h.trans hlater)).log
  have hgap := (World.Inv.of_reach (h.trans hlater)).sound.wellFormed.gapFree
  have hload := load_of_finite hgap hfinite
  refine ⟨fun r => ⟨_, hload r⟩, fun result hresult => ?_, fun log r events happ e he => ?_⟩
  · obtain ⟨rows, hok, -⟩ := loadAll_of_finite hfinite hresult
    exact ⟨rows, hok⟩
  · have hrow : bindTo r e ∈ s.log := by
      rw [(append_eq_ok.mp happ).1]
      exact List.mem_append_right _ (List.mem_map_of_mem he)
    have hmem := (log_mono_of_reach h hlater).subset hrow
    refine ⟨⟨_, hload r, bindTo r e, mem_stream.mpr ⟨hmem, rfl⟩, rfl, rfl⟩, fun result hresult => ?_⟩
    obtain ⟨rows, hok, horder⟩ := loadAll_of_finite hfinite hresult
    exact ⟨rows, hok, bindTo r e, horder.perm.mem_iff.mpr hmem, rfl, rfl⟩

/-! ### Sample runs -/

/-- An environment with a setting of `WORKER_COST_PER_ITEM`. -/
def costEnv (cost : String) : Env := fun name =>
  if name = "WORKER_COST_PER_ITEM" then some cost else none

def costExecutor (cost : String) : AgentExecutor :=
  (createExecutorFromEnv asciiUnicode (costEnv cost)).execute asciiUnicode (fun _ => none)
    fun _ => .failed ""

def costActions (cost : String) : List Action :=
  startActions ++ [.loadAll 0, .execute 0 (costExecutor cost)] ++ appendActions 0

theorem createExecutorFromEnv_costEnv (cost : String) :
    createExecutorFromEnv asciiUnicode (costEnv cost) = .simulated (.fromEnv (costEnv cost)) := by
  have hcontroller : costEnv cost "HARNESS_CONTROLLER" = none := if_neg (by decide)
  rw [createExecutorFromEnv, hcontroller, if_neg (by decide), if_neg (by decide)]

theorem costActions_toldNumbers {cost : String}
    (h : Text.parseF64 cost.toList ≠ some (.infinite false)) :
    ∀ a ∈ costActions cost, ∀ s, ToldNumbers asciiUnicode (fun _ => none) s a := by
  intro a ha s w executor hexecute
  subst hexecute
  obtain ⟨rfl, rfl⟩ : w = 0 ∧ executor = costExecutor cost := by
    simpa [costActions, startActions, requestActions, appendActions] using ha
  refine ⟨costEnv cost, _, rfl, ?_⟩
  rw [CostsAreNumbers, createExecutorFromEnv_costEnv]
  intro text htext
  obtain rfl := Option.some.inj htext
  exact h

theorem appended_readBack_half :
    ∃ events, load (logAfterActions (costActions "0.5")) sampleRun = .ok events :=
  (appended_readBack (World.reach_after (.init rfl) (.guarded (by decide)
    (costActions_toldNumbers (by decide +kernel)))) (.init rfl)).1 sampleRun

/-- With an infinite `WORKER_COST_PER_ITEM` nothing can be read any more. -/
theorem not_readBack :
    Reachable (interleaving sampleDeployment)
        (World.init.after sampleDeployment (costActions "inf")) ∧
      (∀ events, load (logAfterActions (costActions "inf")) sampleRun ≠ .ok events) ∧
      ∀ events, ¬ LoadAll (logAfterActions (costActions "inf")) (.ok events) := by
  have hreach : Reachable (interleaving sampleDeployment)
      (World.init.after sampleDeployment (costActions "inf")) :=
    World.reach_after (.init rfl) (by decide)
  have hgap := (World.Inv.of_reach hreach).sound.wellFormed.gapFree
  have hinfinite : ∃ e ∈ stream (logAfterActions (costActions "inf")) sampleRun,
      e.payload.costIsFinite = false := by decide
  obtain ⟨e, he, hcost⟩ := hinfinite
  refine ⟨hreach, fun events hload => ?_, fun events hload => ?_⟩
  · rw [(hgap.load_eq_ok.mp hload).2 e he] at hcost
    cases hcost
  · rw [(loadAll_eq_ok.mp hload).2 e (mem_stream.mp he).1] at hcost
    cases hcost

end SamtaDashboard
