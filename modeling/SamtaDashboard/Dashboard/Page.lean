import SamtaDashboard.Api.ReadRoutes

/-!
# `dashboard/frontend/index.html`: the turns of the page

The script runs in turns: a click, a timer, a message of the socket or the answer to a fetch is handled up
to the next `await` before anything else happens, and `Page.step` takes one turn. Any number of calls of
`refreshAll` may be under way, and the answers to their fetches come in any order. The handlers of the
buttons are modelled from where their POST has been answered: all of them refresh the page then.

A cost that is not a number comes as `null`, and `toFixed` throws on it. A list with such a total is not
shown and fails the refresh that has fetched it, before a run is selected; a detail with such a total, or
with one in its history, is shown as an error (`renderRuns`, `Panel.ofRun`).

The formats of what is shown, the counts over the lists, the log of messages and the fields of the forms are
left out.
-/

namespace SamtaDashboard

/-! ### What is shown and what is under way -/

/-- The message of a fetch that has failed, or the `TypeError` of `toFixed` on `null`. -/
inductive PageError where
  | fetch (message : String)
  | notANumber

/-- What `run-summary` shows; the errors of `refreshAll` and `refreshRunDetail` are told apart. -/
inductive Summary where
  | noRunSelected
  /-- `select a run to inspect` -/
  | selectRun
  | run (run : RunStatusResponse)
  /-- `polling error: ..` -/
  | pollingError (error : PageError)
  /-- `Error loading run detail: ..` -/
  | detailError (error : PageError)

/-- The panel with the detail of a run: the run that is named over it, the summary, and the answer whose
work items, history and timeline are shown. -/
structure Panel where
  runDetailId : Option Uuid
  summary : Summary
  run : Option RunStatusResponse

/-- `total_cost.toFixed(2)` finds a number in the summary and in every point of the history. -/
def RunStatusResponse.costsAreNumbers (run : RunStatusResponse) : Bool :=
  run.totalCost.isFinite && (run.costEffortHistory.getD []).all (·.totalCost.isFinite)

/-- What `refreshRunDetail` makes of an answer. `renderRunSummary` or `renderRunHistory` may throw, once the
run is named over the panel; the `catch` replaces all the rest. -/
def Panel.ofRun (run : RunStatusResponse) : Panel where
  runDetailId := some run.runId
  summary := if run.costsAreNumbers then .run run else .detailError .notANumber
  run := if run.costsAreNumbers then some run else none

/-- The three fetches of `refreshAll`. -/
inductive Part where
  | metrics
  | workspaces
  | runs
  deriving DecidableEq

/-- The answer to one of them, or the message of its error. -/
inductive Answer where
  | metrics (answer : Except String OverviewMetricsResponse)
  | workspaces (answer : Except String (List WorkspaceResponse))
  | runs (answer : Except String (List RunSummaryResponse))

def Answer.part : Answer → Part
  | .metrics _ => .metrics
  | .workspaces _ => .workspaces
  | .runs _ => .runs

/-- The fetch has not failed, and the totals of a list are numbers. -/
def Answer.fits : Answer → Bool
  | .metrics answer => answer.isOk
  | .workspaces answer => answer.isOk
  | .runs (.ok rows) => rows.all (·.totalCost.isFinite)
  | .runs (.error _) => false

/-- A call of `refreshAll` in `Promise.all`: the fetches that are not answered, the metrics that it has got,
and whether it has gone on in its `catch`. -/
structure Refresh where
  waiting : List Part
  metrics : Option OverviewMetricsResponse
  failed : Bool

def Refresh.begun : Refresh := ⟨[.metrics, .workspaces, .runs], none, false⟩

def Refresh.receive (call : Refresh) (answer : Answer) (failed : Bool) : Refresh where
  waiting := call.waiting.erase answer.part
  metrics := match answer with
    | .metrics (.ok metrics) => some metrics
    | _ => call.metrics
  failed := call.failed || failed

/-- The variables of the script, the timers and fetches that are under way, and what is shown. -/
structure Page where
  selectedRunId : Option Uuid
  wsRefreshInFlight : Bool
  timers : Nat
  refreshes : Nat → Option Refresh
  calls : Nat
  /-- the requests for the detail of a run, and how many there have been -/
  details : Nat → Option Uuid
  requests : Nat
  /-- the fetches of `handleCreateWorkspace` -/
  workspaceFetches : Nat
  metrics : Option OverviewMetricsResponse
  workspaces : List WorkspaceResponse
  runs : List RunSummaryResponse
  panel : Panel

/-! ### The functions of the script -/

namespace Page

/-- The page before its first turn; `localStorage` may know a run. -/
def blank (stored : Option Uuid) : Page where
  selectedRunId := stored
  wsRefreshInFlight := false
  timers := 0
  refreshes := fun _ => none
  calls := 0
  details := fun _ => none
  requests := 0
  workspaceFetches := 0
  metrics := none
  workspaces := []
  runs := []
  panel := ⟨none, .noRunSelected, none⟩

variable (page : Page)

def setRefresh (k : Nat) (call : Option Refresh) : Page :=
  { page with refreshes := Function.update page.refreshes k call }

def setDetail (j : Nat) (request : Option Uuid) : Page :=
  { page with details := Function.update page.details j request }

def refreshAll : Page :=
  { page.setRefresh page.calls (some .begun) with calls := page.calls + 1 }

def refreshRunDetail : Page :=
  match page.selectedRunId with
  | none => { page with panel := { page.panel with summary := .selectRun, run := none } }
  | some runId =>
    { page.setDetail page.requests (some runId) with requests := page.requests + 1 }

/-- The run that is selected once `runs` are listed. -/
def selectAmong (first : RunSummaryResponse) (runs : List RunSummaryResponse) : Uuid :=
  match page.selectedRunId with
  | none => first.runId
  | some runId => if runs.any (·.runId = runId) then runId else first.runId

def renderRuns : List RunSummaryResponse → Except PageError Page
  | [] => .ok { page with runs := [] }
  | first :: runs =>
    -- the rows are formatted before anything is shown or selected
    if (first :: runs).all (·.totalCost.isFinite) then
      let selected := page.selectAmong first (first :: runs)
      .ok { page with
        runs := first :: runs
        selectedRunId := some selected
        panel := { page.panel with runDetailId := some selected } }
    else .error .notANumber

/-- How `fetchJson`, `refreshWorkspaces` and `refreshRuns` go on with their answer. -/
def render : Answer → Except PageError Page
  | .metrics (.ok _) => .ok page
  | .workspaces (.ok workspaces) => .ok { page with workspaces := workspaces }
  | .runs (.ok runs) => page.renderRuns runs
  | .metrics (.error message) | .workspaces (.error message) | .runs (.error message) =>
    .error (.fetch message)

/-- The `catch` of `refreshAll`, which the first error leads to. -/
def catchError (call : Refresh) (error : PageError) : Page :=
  if call.failed then page
  else { page with panel := { page.panel with summary := .pollingError error } }

/-- A fetch of call `k` of `refreshAll` is answered; the last answer takes the call out of `Promise.all`. -/
def answered (k : Nat) (answer : Answer) : Option Page := do
  let call ← page.refreshes k
  guard (answer.part ∈ call.waiting)
  let (shown, failed) := match page.render answer with
    | .ok shown => (shown, false)
    | .error error => (page.catchError call error, true)
  let call := call.receive answer failed
  if call.waiting = [] then
    let left := shown.setRefresh k none
    return if call.failed then left else { left with metrics := call.metrics }.refreshRunDetail
  else
    return shown.setRefresh k (some call)

/-- Request `j` for the detail of a run is answered. -/
def detailAnswered (j : Nat) (answer : Except String RunStatusResponse) : Option Page := do
  let _ ← page.details j
  let left := page.setDetail j none
  match answer with
  | .ok run => return { left with panel := .ofRun run }
  | .error message =>
    return { left with panel := { left.panel with summary := .detailError (.fetch message), run := none } }

def scheduleRefresh : Page :=
  if page.wsRefreshInFlight then page
  else { page with wsRefreshInFlight := true, timers := page.timers + 1 }

/-- The callback of `setTimeout` in `scheduleRefresh`. -/
def timeout : Option Page := do
  guard (0 < page.timers)
  return { page with wsRefreshInFlight := false, timers := page.timers - 1 }.refreshAll

end Page

/-! ### Turns -/

/-- What begins a turn. -/
inductive PageAction where
  /-- the interval, the refresh button, or the answer to a POST that controls a run or rebuilds the
  projections -/
  | refresh
  /-- a message of the socket that carries an event; the greeting is only logged -/
  | message (event : EventEnvelope)
  | timeout
  | answer (k : Nat) (answer : Answer)
  | detail (j : Nat) (answer : Except String RunStatusResponse)
  /-- a click on the row of a run -/
  | select (runId : Uuid)
  /-- the answer to the POST of `handleCreateRun`, and to the one of `handleCreateWorkspace` -/
  | runCreated (runId : Uuid)
  | workspaceCreated
  | workspacesFetched (answer : Except String (List WorkspaceResponse))

/-- The next state, if the action is possible. -/
def Page.step (page : Page) : PageAction → Option Page
  | .refresh => some page.refreshAll
  | .message _ => some page.scheduleRefresh
  | .timeout => page.timeout
  | .answer k answer => page.answered k answer
  | .detail j answer => page.detailAnswered j answer
  | .select runId =>
    if page.runs.any (·.runId = runId) then
      some { page with selectedRunId := some runId }.refreshRunDetail
    else none
  | .runCreated runId => some { page with selectedRunId := some runId }.refreshAll
  | .workspaceCreated => some { page with workspaceFetches := page.workspaceFetches + 1 }
  | .workspacesFetched answer =>
    if page.workspaceFetches = 0 then none
    else
      let left := { page with workspaceFetches := page.workspaceFetches - 1 }
      match answer with
      | .ok workspaces => some { left with workspaces := workspaces }
      | .error _ => some left

/-! ### What turns keep -/

/-- A page that its functions leave as sound as it was: a timer is set exactly if the flag says so, no call
of `refreshAll` has failed, and only a request that has been made, for a run, is under way. -/
structure Page.Sound (page : Page) : Prop where
  timers : page.timers = if page.wsRefreshInFlight then 1 else 0
  refreshes : ∀ k, ∀ call ∈ page.refreshes k, call.failed = false
  details : ∀ j ≥ page.requests, page.details j = none
  selected : page.selectedRunId = none → ∀ j, page.details j = none

/-- What is under way is the same, and a run is selected if one was. -/
structure Page.SameWork (page page' : Page) : Prop where
  flag : page'.wsRefreshInFlight = page.wsRefreshInFlight
  timers : page'.timers = page.timers
  refreshes : page'.refreshes = page.refreshes
  details : page'.details = page.details
  requests : page'.requests = page.requests
  selected : page'.selectedRunId = none → page.selectedRunId = none

namespace Page

variable {page page' : Page} {k j : Nat} {answer : Answer}

theorem refreshes_setRefresh (page : Page) (k k' : Nat) (call : Option Refresh) :
    (page.setRefresh k call).refreshes k' = if k' = k then call else page.refreshes k' :=
  Function.update_apply ..

theorem details_setDetail (page : Page) (j j' : Nat) (request : Option Uuid) :
    (page.setDetail j request).details j' = if j' = j then request else page.details j' :=
  Function.update_apply ..

theorem SameWork.refl (page : Page) : page.SameWork page := ⟨rfl, rfl, rfl, rfl, rfl, id⟩

theorem render_of_fits (page : Page) (h : answer.fits) :
    ∃ shown, page.render answer = .ok shown ∧ page.SameWork shown := by
  cases answer with
  | metrics answer =>
    cases answer with
    | ok => exact ⟨page, rfl, .refl page⟩
    | error => cases h
  | workspaces answer =>
    cases answer with
    | ok => exact ⟨_, rfl, rfl, rfl, rfl, rfl, rfl, id⟩
    | error => cases h
  | runs answer =>
    cases answer with
    | ok runs =>
      cases runs with
      | nil => exact ⟨_, rfl, rfl, rfl, rfl, rfl, rfl, id⟩
      | cons first runs =>
        have hnumbers : (first :: runs).all (·.totalCost.isFinite) := h
        refine ⟨_, if_pos hnumbers, rfl, rfl, rfl, rfl, rfl, fun hnone => ?_⟩
        exact absurd hnone (Option.some_ne_none _)
    | error => cases h

theorem Sound.sameWork (h : page.Sound) (hsame : page.SameWork page') : page'.Sound where
  timers := by rw [hsame.timers, hsame.flag, h.timers]
  refreshes := by rw [hsame.refreshes]; exact h.refreshes
  details := by rw [hsame.details, hsame.requests]; exact h.details
  selected := fun hnone => by rw [hsame.details]; exact h.selected (hsame.selected hnone)

theorem Sound.setRefresh (h : page.Sound) {call : Option Refresh} (hcall : ∀ c ∈ call, c.failed = false) :
    (page.setRefresh k call).Sound where
  timers := h.timers
  refreshes := fun k' c hc => by
    rw [refreshes_setRefresh] at hc
    split at hc
    · exact hcall c hc
    · exact h.refreshes k' c hc
  details := h.details
  selected := h.selected

theorem Sound.refreshAll (h : page.Sound) : page.refreshAll.Sound := by
  have hset : (page.setRefresh page.calls (some .begun)).Sound := h.setRefresh fun c hc => by
    obtain rfl := Option.some.inj hc
    rfl
  exact ⟨hset.timers, hset.refreshes, hset.details, hset.selected⟩

theorem Sound.refreshRunDetail (h : page.Sound) : page.refreshRunDetail.Sound := by
  unfold Page.refreshRunDetail
  split
  · exact ⟨h.timers, h.refreshes, h.details, h.selected⟩
  · next r hr =>
    refine ⟨h.timers, h.refreshes, fun j hj => ?_, fun hnone => ?_⟩
    · have hlater : page.requests + 1 ≤ j := hj
      show (page.setDetail page.requests (some r)).details j = none
      rw [details_setDetail, if_neg (by omega)]
      exact h.details j (by omega)
    · exact absurd (hr.symm.trans hnone) (Option.some_ne_none _)

theorem Sound.setDetail_none (h : page.Sound) : (page.setDetail j none).Sound where
  timers := h.timers
  refreshes := h.refreshes
  details := fun j' hj => by
    rw [details_setDetail]
    split
    · rfl
    · exact h.details j' hj
  selected := fun hnone j' => by
    rw [details_setDetail]
    split
    · rfl
    · exact h.selected hnone j'

theorem Sound.select (h : page.Sound) (r : Uuid) : { page with selectedRunId := some r }.Sound :=
  ⟨h.timers, h.refreshes, h.details, fun hnone => absurd hnone (Option.some_ne_none r)⟩

theorem answered_spec (h : page.answered k answer = some page') (hfits : answer.fits) :
    ∃ call shown, page.refreshes k = some call ∧ page.SameWork shown ∧
      (page' = shown.setRefresh k (some (call.receive answer false)) ∨
        page' = shown.setRefresh k none ∧ call.failed ∨
        page' = (shown.setRefresh k none).refreshRunDetail ∧ call.failed = false) := by
  obtain ⟨call, hcall, h⟩ := Option.bind_eq_some_iff.mp h
  obtain ⟨-, -, h⟩ := Option.bind_eq_some_iff.mp h
  obtain ⟨shown, hshown, hsame⟩ := render_of_fits page hfits
  have hfailed : (call.receive answer false).failed = call.failed := Bool.or_false _
  simp only [hshown, hfailed] at h
  split at h
  · obtain rfl := Option.some.inj h
    cases hend : call.failed with
    | true => exact ⟨call, _, hcall, hsame, Or.inr (Or.inl ⟨rfl, hend⟩)⟩
    | false =>
      refine ⟨call, { shown with metrics := (call.receive answer false).metrics }, hcall, ?_,
        Or.inr (Or.inr ⟨rfl, hend⟩)⟩
      exact ⟨hsame.flag, hsame.timers, hsame.refreshes, hsame.details, hsame.requests, hsame.selected⟩
  · obtain rfl := Option.some.inj h
    exact ⟨call, _, hcall, hsame, Or.inl rfl⟩

theorem render_of_unfit (page : Page) (h : answer.fits = false) :
    ∃ error, page.render answer = .error error := by
  cases answer with
  | metrics answer | workspaces answer =>
    cases answer with
    | ok => cases h
    | error message => exact ⟨.fetch message, rfl⟩
  | runs answer =>
    cases answer with
    | ok runs =>
      cases runs with
      | nil => cases h
      | cons first runs =>
        have hnumbers : ¬ (first :: runs).all (·.totalCost.isFinite) = true := Bool.eq_false_iff.mp h
        exact ⟨.notANumber, if_neg hnumbers⟩
    | error message => exact ⟨.fetch message, rfl⟩

/-- An answer that has failed or cannot be shown leads to the `catch`: no run is selected, and the call will
not ask for a detail. -/
theorem answered_of_unfit (h : page.answered k answer = some page') (hunfit : answer.fits = false) :
    ∃ call error left, page.refreshes k = some call ∧ page.render answer = .error error ∧
      page' = (page.catchError call error).setRefresh k left ∧ ∀ c ∈ left, c.failed := by
  obtain ⟨call, hcall, h⟩ := Option.bind_eq_some_iff.mp h
  obtain ⟨-, -, h⟩ := Option.bind_eq_some_iff.mp h
  obtain ⟨error, herror⟩ := render_of_unfit page hunfit
  have hfailed : (call.receive answer true).failed = true := Bool.or_true _
  simp only [herror, hfailed] at h
  split at h
  · obtain rfl := Option.some.inj h
    exact ⟨call, error, none, hcall, herror, if_pos trivial, fun c hc => absurd hc (Option.not_mem_none c)⟩
  · obtain rfl := Option.some.inj h
    refine ⟨call, error, _, hcall, herror, rfl, fun c hc => ?_⟩
    obtain rfl := Option.some.inj hc
    exact hfailed

end Page

/-- No fetch fails, the totals of the lists are numbers, and the details come in the order in which they were
asked for. -/
def Page.Calm (page : Page) : PageAction → Prop
  | .answer _ answer => answer.fits
  | .detail j answer => answer.isOk ∧ ∀ i < j, page.details i = none
  | _ => True

section turns

variable {page page' : Page}

theorem Page.Sound.blank (stored : Option Uuid) : (Page.blank stored).Sound :=
  ⟨rfl, fun _ _ hc => absurd hc (Option.not_mem_none _), fun _ _ => rfl, fun _ _ => rfl⟩

theorem Page.Sound.scheduleRefresh (h : page.Sound) : page.scheduleRefresh.Sound := by
  unfold Page.scheduleRefresh
  split
  · exact h
  · next hflag =>
    refine ⟨?_, h.refreshes, h.details, h.selected⟩
    show page.timers + 1 = 1
    rw [h.timers, if_neg hflag]

theorem Page.Sound.timeout (h : page.Sound) (htimeout : page.timeout = some page') : page'.Sound := by
  obtain ⟨_, -, hpage⟩ := Option.bind_eq_some_iff.mp htimeout
  obtain rfl := Option.some.inj hpage
  have hoff : { page with wsRefreshInFlight := false, timers := page.timers - 1 }.Sound := by
    refine ⟨?_, h.refreshes, h.details, h.selected⟩
    show page.timers - 1 = 0
    rw [h.timers]
    split <;> rfl
  exact hoff.refreshAll

theorem Page.Sound.answered {k : Nat} {answer : Answer} (h : page.Sound)
    (hanswered : page.answered k answer = some page') (hfits : answer.fits) : page'.Sound := by
  obtain ⟨call, shown, hcall, hsame, rfl | ⟨rfl, -⟩ | ⟨rfl, -⟩⟩ := Page.answered_spec hanswered hfits
  · refine (h.sameWork hsame).setRefresh fun c hc => ?_
    obtain rfl := Option.some.inj hc
    simp [Refresh.receive, h.refreshes k call hcall]
  · exact (h.sameWork hsame).setRefresh fun c hc => absurd hc (Option.not_mem_none c)
  · exact ((h.sameWork hsame).setRefresh fun c hc => absurd hc (Option.not_mem_none c)).refreshRunDetail

theorem Page.Sound.step {action : PageAction} (h : page.Sound) (hstep : page.step action = some page')
    (hcalm : page.Calm action) : page'.Sound := by
  cases action with
  | refresh =>
    obtain rfl := Option.some.inj hstep
    exact h.refreshAll
  | message event =>
    obtain rfl := Option.some.inj hstep
    exact h.scheduleRefresh
  | timeout => exact h.timeout hstep
  | answer k answer => exact h.answered hstep hcalm
  | detail j answer =>
    obtain ⟨r, -, hpage⟩ := Option.bind_eq_some_iff.mp hstep
    have hleft := h.setDetail_none (j := j)
    split at hpage <;>
    · obtain rfl := Option.some.inj hpage
      exact ⟨hleft.timers, hleft.refreshes, hleft.details, hleft.selected⟩
  | select r =>
    obtain ⟨-, hpage⟩ := Option.ite_none_right_eq_some.mp hstep
    obtain rfl := Option.some.inj hpage
    exact (h.select r).refreshRunDetail
  | runCreated r =>
    obtain rfl := Option.some.inj hstep
    exact (h.select r).refreshAll
  | workspaceCreated =>
    obtain rfl := Option.some.inj hstep
    exact ⟨h.timers, h.refreshes, h.details, h.selected⟩
  | workspacesFetched answer =>
    obtain ⟨-, hpage⟩ := Option.ite_none_left_eq_some.mp hstep
    cases answer <;>
    · obtain rfl := Option.some.inj hpage
      exact ⟨h.timers, h.refreshes, h.details, h.selected⟩

end turns

end SamtaDashboard
