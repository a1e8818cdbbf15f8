import SamtaDashboard.Api.ReadRoutes
import SamtaDashboard.Lib.Watch
import SamtaDashboard.System.TickReplay

/-!
# `list_workspaces` while the processes go on

A workspace is an event with a resource of its own. Only the first event of a stream may be one that no
run is named in, so a resource has at most one `WorkspaceCreated`: `DISTINCT ON` drops no row, and the
order by time within a resource never decides. The list at a later time is the earlier one with new
entries put in between.
-/

namespace SamtaDashboard

open EventFold Transition

/-! ### The order of the rows -/

section order

variable {a b c : EventRow}

theorem Uuid.eq_of_toNat {a b : Uuid} (h : a.bits.toNat = b.bits.toNat) : a = b := by
  cases a
  cases b
  exact congrArg Uuid.mk (BitVec.eq_of_toNat_eq h)

instance : Std.Total workspaceLe where
  total a b := by
    rcases lt_trichotomy a.resourceId.bits.toNat b.resourceId.bits.toNat with hlt | heq | hgt
    · exact Or.inl (Or.inl hlt)
    · have hid := Uuid.eq_of_toNat heq
      exact (le_total b.occurredAt a.occurredAt).imp (fun h => Or.inr ⟨hid, h⟩)
        fun h => Or.inr ⟨hid.symm, h⟩
    · exact Or.inr (Or.inl hgt)

instance : IsTrans EventRow workspaceLe where
  trans a b c hab hbc := by
    rcases hab with hlt | ⟨heq, hle⟩ <;> rcases hbc with hlt' | ⟨heq', hle'⟩
    · exact Or.inl (lt_trans hlt hlt')
    · exact Or.inl (heq' ▸ hlt)
    · exact Or.inl (heq ▸ hlt')
    · exact Or.inr ⟨heq.trans heq', le_trans hle' hle⟩

theorem distinctOnResource_eq {rows : List EventRow}
    (h : rows.Pairwise fun a b => a.resourceId ≠ b.resourceId) : distinctOnResource rows = rows := by
  induction rows with
  | nil => rfl
  | cons row rows ih =>
    rw [List.pairwise_cons] at h
    rw [distinctOnResource, ih h.2, List.filter_eq_self.mpr]
    exact fun x hx => decide_eq_true (h.1 x hx).symm

end order

/-! ### The workspaces of a log -/

/-- The workspace that an event creates. -/
def EventEnvelope.workspace? (e : EventEnvelope) : Option WorkspaceResponse :=
  match e.payload with
  | .workspaceCreated name => some ⟨e.resourceId, name⟩
  | _ => none

theorem workspace?_eq_some {e : EventEnvelope} {w : WorkspaceResponse} :
    e.workspace? = some w ↔ e.resourceId = w.id ∧ e.payload = .workspaceCreated w.name := by
  obtain ⟨id, name⟩ := w
  unfold EventEnvelope.workspace?
  split
  · next p hp => simp [hp]
  · next hp =>
    refine iff_of_false (Option.some_ne_none _).symm fun h => ?_
    exact hp name h.2

theorem eventType_eq_workspaceCreated {e : EventEnvelope} :
    (EventRow.ofEnvelope e).eventType = "workspace_created" ↔ e.workspace?.isSome := by
  unfold EventRow.ofEnvelope EventEnvelope.eventType EventEnvelope.workspace?
  cases e.payload <;> simp [EventPayload.eventType, EventType.asStr]

theorem workspace_event_unique {log : EventLog} (h : GroupedTails log) {a b : EventEnvelope}
    (ha : a ∈ log) (hb : b ∈ log) (hwa : a.workspace?.isSome) (hwb : b.workspace?.isSome)
    (hid : a.resourceId = b.resourceId) : a = b := by
  have hhead : ∀ e ∈ log, e.workspace?.isSome → (stream log e.resourceId).head? = some e := by
    intro e he hw
    obtain ⟨w, hw⟩ := Option.isSome_iff_exists.mp hw
    have hmem : e ∈ stream log e.resourceId := mem_stream.mpr ⟨he, rfl⟩
    cases hstream : stream log e.resourceId with
    | nil =>
      rw [hstream] at hmem
      cases hmem
    | cons x rest =>
      rw [hstream] at hmem
      rcases List.mem_cons.mp hmem with rfl | hrest
      · rfl
      · have hgrouped := h e.resourceId e (by rw [hstream]; exact hrest)
        rw [(workspace?_eq_some.mp hw).2] at hgrouped
        cases hgrouped
  have hfirst := hhead a ha hwa
  rw [hid, hhead b hb hwb] at hfirst
  exact (Option.some.inj hfirst).symm

/-- A list of the workspaces of a log: in the order of the ids, with the name from the event. -/
structure Lists (log : EventLog) (workspaces : List WorkspaceResponse) : Prop where
  sorted : workspaces.Pairwise fun a b => a.id.bits.toNat < b.id.bits.toNat
  mem : ∀ w, w ∈ workspaces ↔
    ∃ e ∈ log, e.resourceId = w.id ∧ e.payload = .workspaceCreated w.name

def namedRow (row : EventRow) : WorkspaceResponse :=
  ⟨row.resourceId, ((row.payload.get "name").bind Json.asStr).getD ""⟩

theorem workspaceRow_of_workspace? {e : EventEnvelope} {w : WorkspaceResponse}
    (h : e.workspace? = some w) :
    workspaceRow (.ofEnvelope e) = .ok (namedRow (.ofEnvelope e)) ∧ namedRow (.ofEnvelope e) = w := by
  obtain ⟨hid, hp⟩ := workspace?_eq_some.mp h
  have hname : ((EventRow.ofEnvelope e).payload.get "name").bind Json.asStr = some w.name := by
    simp only [EventRow.ofEnvelope, hp]
    rfl
  have hrow : namedRow (.ofEnvelope e) = w := by
    rw [namedRow, hname, Option.getD_some, EventRow.ofEnvelope, hid]
  refine ⟨?_, hrow⟩
  rw [workspaceRow, workspaceName, hname, hrow]
  exact congrArg Except.ok (congrArg (WorkspaceResponse.mk · w.name) hid)

theorem mapM_workspaceRow {rows : List EventRow} (h : ∀ row ∈ rows, workspaceRow row = .ok (namedRow row)) :
    rows.mapM workspaceRow = .ok (rows.map namedRow) := by
  induction rows with
  | nil => rfl
  | cons row rows ih =>
    rw [List.forall_mem_cons] at h
    rw [List.mapM_cons, h.1, ih h.2]
    rfl

theorem workspaceRows_spec {log : EventLog} (h : GroupedTails log) (hgap : GapFree log) :
    let rows := ((log.map EventRow.ofEnvelope).filter
      (·.eventType = "workspace_created")).insertionSort workspaceLe
    distinctOnResource rows = rows ∧
      rows.Pairwise (fun a b => a.resourceId.bits.toNat < b.resourceId.bits.toNat) ∧
      ∀ row, row ∈ rows ↔ ∃ e ∈ log, e.workspace?.isSome ∧ EventRow.ofEnvelope e = row := by
  intro rows
  have hperm : rows.Perm ((log.filter (·.workspace?.isSome)).map EventRow.ofEnvelope) := by
    refine (List.perm_insertionSort _ _).trans (List.Perm.of_eq ?_)
    rw [List.filter_map]
    refine congrArg _ (List.filter_congr fun e _ => ?_)
    simp [eventType_eq_workspaceCreated]
  have hdistinct : rows.Pairwise fun a b => a.resourceId ≠ b.resourceId := by
    rw [hperm.pairwise_iff fun hne => hne.symm, List.pairwise_map]
    refine (hgap.nodup.filter _).pairwise_of_forall_ne fun a ha b hb hne hid => hne ?_
    obtain ⟨ha, hwa⟩ := List.mem_filter.mp ha
    obtain ⟨hb, hwb⟩ := List.mem_filter.mp hb
    exact workspace_event_unique h ha hb hwa hwb hid
  refine ⟨distinctOnResource_eq hdistinct, ?_, fun row => ?_⟩
  · refine (hdistinct.and (List.pairwise_insertionSort workspaceLe _)).imp ?_
    rintro a b ⟨hne, hlt | ⟨heq, -⟩⟩
    · exact hlt
    · exact absurd heq hne
  · rw [hperm.mem_iff, List.mem_map]
    simp only [List.mem_filter, and_assoc]

theorem listWorkspaces_lists {log : EventLog} (h : GroupedTails log) (hgap : GapFree log)
    {seen : Statements} {view : DbView} (hseen : seen 0 = .ok view) (hview : view.log = log) :
    ∃ workspaces, listWorkspaces seen = .ok workspaces ∧ Lists log workspaces := by
  subst hview
  obtain ⟨hdistinct, hsorted, hmem⟩ := workspaceRows_spec h hgap
  generalize hrows : ((view.log.map EventRow.ofEnvelope).filter
    (·.eventType = "workspace_created")).insertionSort workspaceLe = rows at *
  have hnamed : rows.mapM workspaceRow = .ok (rows.map namedRow) := by
    refine mapM_workspaceRow fun row hrow => ?_
    obtain ⟨e, -, hw, rfl⟩ := (hmem row).mp hrow
    obtain ⟨w, hw⟩ := Option.isSome_iff_exists.mp hw
    exact (workspaceRow_of_workspace? hw).1
  refine ⟨rows.map namedRow, ?_, ?_, fun w => ?_⟩
  · rw [listWorkspaces, Statements.query_of_ok hseen, hrows, hdistinct]
    show (rows.mapM workspaceRow).mapError _ = _
    rw [hnamed]
    rfl
  · exact List.pairwise_map.mpr hsorted
  · rw [List.mem_map]
    constructor
    · rintro ⟨row, hrow, rfl⟩
      obtain ⟨e, he, hw, rfl⟩ := (hmem row).mp hrow
      obtain ⟨w, hw⟩ := Option.isSome_iff_exists.mp hw
      rw [(workspaceRow_of_workspace? hw).2]
      exact ⟨e, he, workspace?_eq_some.mp hw⟩
    · rintro ⟨e, he, hworkspace⟩
      have hw := workspace?_eq_some.mpr hworkspace
      exact ⟨_, (hmem _).mpr ⟨e, he, by rw [hw]; rfl, rfl⟩, (workspaceRow_of_workspace? hw).2⟩

/-- In every interleaving `list_workspaces` succeeds and lists every workspace once, under its name and in
the order of the ids; a later list is the earlier one with new workspaces put in between. -/
theorem listWorkspaces_grows {d : Deployment} {worlds : Nat → World}
    (hwatch : Watches (interleaving d) worlds) {seen : Nat → Statements} {views : Nat → DbView}
    (hseen : ∀ k, seen k 0 = .ok (views k)) (hviews : ∀ k, (views k).log = (worlds k).log) :
    ∃ lists : Nat → List WorkspaceResponse,
      (∀ k, listWorkspaces (seen k) = .ok (lists k) ∧ Lists (worlds k).log (lists k)) ∧
        ∀ j k, j ≤ k → (lists j).Sublist (lists k) := by
  have hlists : ∀ k, ∃ workspaces, listWorkspaces (seen k) = .ok workspaces ∧
      Lists (worlds k).log workspaces := fun k =>
    have hreach := hwatch.reachable k
    listWorkspaces_lists (World.Grouped.of_reach hreach).tails
      (World.Inv.of_reach hreach).sound.wellFormed.gapFree (hseen k) (hviews k)
  choose lists hlists using hlists
  refine ⟨lists, hlists, fun j k hle => ?_⟩
  have hlog := hwatch.mono (R := fun s s' => s.log <+: s'.log) (fun _ => List.prefix_rfl)
    (fun _ _ _ => List.IsPrefix.trans)
    (fun _ _ _ hs hstep => hstep.log_mono (World.Inv.of_reach hs)) hle
  have hsubset : lists j ⊆ lists k := by
    intro w hw
    obtain ⟨e, he, hworkspace⟩ := ((hlists j).2.mem w).mp hw
    exact ((hlists k).2.mem w).mpr ⟨e, hlog.subset he, hworkspace⟩
  have hantisymm : Std.Antisymm fun a b : WorkspaceResponse =>
      a.id.bits.toNat < b.id.bits.toNat := ⟨fun a b hab hba => absurd hab (lt_asymm hba)⟩
  refine List.sublist_of_subperm_of_pairwise (List.subperm_of_subset ?_ hsubset)
    (hlists j).2.sorted (hlists k).2.sorted
  exact (hlists j).2.sorted.imp fun hlt heq => absurd (heq ▸ hlt) (lt_irrefl _)

/-- Two workspaces, the one with the smaller id later, and a run between them. -/
def workspaceActions : List Action :=
  requestActions 1 (.createWorkspace "second") (.at ⟨8⟩ 300 0) ++ startActions ++
    requestActions 2 (.createWorkspace "first") (.at ⟨7⟩ 400 0)

def workspaceWorlds (k : Nat) : World :=
  ((workspaceActions.take (3 + 6 * k)).foldlM (World.play sampleDeployment) .init).getD .init

theorem workspaceWorlds_watched : Watches (interleaving sampleDeployment) workspaceWorlds :=
  .of_play (fun _ _ _ => World.step_of_play) rfl (by decide +kernel)
    fun k => show 3 + 6 * k ≤ 3 + 6 * (k + 1) by omega

/-- The new workspace comes first. -/
theorem listWorkspaces_grows_workspaceWorlds :
    ∃ lists : Nat → List WorkspaceResponse,
      (∀ k, Lists (workspaceWorlds k).log (lists k)) ∧ (lists 0).Sublist (lists 1) ∧
        lists 0 = [⟨⟨8⟩, "second"⟩] ∧ lists 1 = [⟨⟨7⟩, "first"⟩, ⟨⟨8⟩, "second"⟩] := by
  have hvalues : (listWorkspaces fun _ => .ok ⟨(workspaceWorlds 0).log, [], []⟩).toOption =
        some [⟨⟨8⟩, "second"⟩] ∧
      (listWorkspaces fun _ => .ok ⟨(workspaceWorlds 1).log, [], []⟩).toOption =
        some [⟨⟨7⟩, "first"⟩, ⟨⟨8⟩, "second"⟩] := by decide +kernel
  obtain ⟨lists, hlists, hgrows⟩ := @listWorkspaces_grows _ _ workspaceWorlds_watched
    (fun k _ => .ok ⟨(workspaceWorlds k).log, [], []⟩) _ (fun _ => rfl) fun _ => rfl
  rw [(hlists 0).1, (hlists 1).1] at hvalues
  exact ⟨lists, fun k => (hlists k).2, hgrows 0 1 (Nat.zero_le 1), Option.some.inj hvalues.1,
    Option.some.inj hvalues.2⟩

end SamtaDashboard
