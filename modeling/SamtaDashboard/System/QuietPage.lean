import SamtaDashboard.Dashboard.Page
import SamtaDashboard.System.LiveFeed
import SamtaDashboard.System.ReadCut

/-!
# What a quiet page shows

A page looks at a running service: it gets messages of the live stream and asks for the detail of a run,
while requests, workers, rebuilds and other clients go on. A message only sets a timer, and not even that
while one is set; refreshes overlap, and a list that is out of date may change the selected run under way.

As long as no fetch fails, the totals of the lists are numbers and the details come in the order in which
they were asked for, nothing is lost in that: once nothing is under way, the panel shows the selected run with
every event of it that a message has told of, or says that a cost in its detail is not a number
(`quietPage_upToDate`). Where a detail is overtaken by a later one, a quiet page can show
another run than the selected one (`overtakenDetail`).
-/

namespace SamtaDashboard

open EventFold Transition

/-! ### A page at a service -/

/-- A service at the times `0`, `1`, ..: its feed and its database, with the same requests and workers. -/
structure Service (d : Deployment) (capacity : Nat) where
  feeds : Nat → Feed
  boards : Nat → Board
  feeding : Watches (feeding d capacity) feeds
  projecting : Watches (projecting d) boards
  world : ∀ time, (feeds time).world = (boards time).world

/-- The page at time `now`, when the requests for a detail were made, the events that messages have told
of, and the time of the latest one. -/
structure Session where
  page : Page
  now : Nat
  asked : Nat → Nat
  heard : List EventEnvelope
  noted : Nat

namespace Session

def init (stored : Option Uuid) : Session where
  page := (Page.blank stored).refreshAll
  now := 0
  asked := fun _ => 0
  heard := []
  noted := 0

def turn (s : Session) (page : Page) (action : PageAction) : Session where
  page := page
  now := s.now
  asked := fun j => if j < s.page.requests then s.asked j else s.now
  heard := match action with
    | .message event => s.heard ++ [event]
    | _ => s.heard
  noted := match action with
    | .message _ => s.now
    | _ => s.noted

end Session

inductive SessionAction where
  | pass
  | turn (action : PageAction)

section sessions

variable {d : Deployment} {capacity : Nat} (service : Service d capacity)

/-- The response is one of `run_status` whose statements were executed at times from `asked` to `now`. -/
def Service.Gives (r : Uuid) (asked now : Nat) (response : RunStatusResponse) : Prop :=
  ∃ times : Nat → Nat, asked ≤ times 0 ∧ (∀ k, times k ≤ times (k + 1)) ∧ (∀ k < 5, times k ≤ now) ∧
    ∃ (views : Nat → DbView) (fuel : Nat),
      (∀ k < 5, (views k).Shows (service.boards (times k)).world.log (service.boards (times k)).store) ∧
        runStatus (fuel + 1) (fun k => .ok (views k)) r = .ok response

/-- A message carries what the task of some client has sent or is sending; a detail that is not an error is
an answer of the service. The other answers may be anything. -/
def Service.Allows (s : Session) : PageAction → Prop
  | .message event => ∃ j, ∃ c ∈ (service.feeds s.now).clients j, event ∈ c.sent ++ c.task.pending
  | .detail j (.ok response) => ∀ r ∈ s.page.details j, service.Gives r (s.asked j) s.now response
  | _ => True

inductive Session.Step (s : Session) : SessionAction → Session → Prop
  | pass : Step s .pass { s with now := s.now + 1 }
  | turn {action : PageAction} {page : Page} :
      s.page.step action = some page → service.Allows s action → Step s (.turn action) (s.turn page action)

/-- A page from its first refresh on, with what `localStorage` knows. -/
def visiting (stored : Option Uuid) : System Session SessionAction where
  init := (· = Session.init stored)
  step s a s' := s.Step service a s'

end sessions

/-- No fetch fails, the totals of the lists are numbers, and the details come in the order in which they were
asked for. -/
def Session.Calm (s : Session) : SessionAction → Prop
  | .pass => True
  | .turn action => s.page.Calm action

/-- No fetch fails, and the totals of the lists are numbers. -/
def SessionAction.Succeeds : SessionAction → Prop
  | .turn (.answer _ answer) => answer.fits
  | .turn (.detail _ answer) => answer.isOk
  | _ => True

theorem Session.Calm.succeeds {s : Session} {a : SessionAction} (h : s.Calm a) : a.Succeeds := by
  cases a with
  | pass => trivial
  | turn action =>
    cases action with
    | answer => exact h
    | detail => exact h.1
    | _ => trivial

/-- No timer is set and no answer is awaited. -/
structure Page.Quiet (page : Page) : Prop where
  timers : page.timers = 0
  refreshes : ∀ k, page.refreshes k = none
  details : ∀ j, page.details j = none

/-! ### What the service gives -/

section gives

variable {d : Deployment} {capacity : Nat} {service : Service d capacity} {r : Uuid}
  {asked asked' now now' : Nat} {response : RunStatusResponse}

theorem Service.Gives.mono (h : service.Gives r asked now response) (hasked : asked' ≤ asked)
    (hnow : now ≤ now') : service.Gives r asked' now' response := by
  obtain ⟨times, hfirst, hmono, hlast, hviews⟩ := h
  exact ⟨times, hasked.trans hfirst, hmono, fun k hk => (hlast k hk).trans hnow, hviews⟩

theorem Service.log_mono (service : Service d capacity) (hle : now ≤ now') :
    (service.boards now).world.log <+: (service.boards now').world.log :=
  service.projecting.mono (R := fun s s' => s.world.log <+: s'.world.log) (fun _ => List.prefix_rfl)
    (fun _ _ _ => List.IsPrefix.trans)
    (fun _ _ _ hs hstep => hstep.log_mono (Board.Inv.of_reach hs)) hle

theorem Service.committed {j : Nat} {c : Connection} {event : EventEnvelope}
    (hc : c ∈ (service.feeds now).clients j) (he : event ∈ c.sent ++ c.task.pending) :
    event ∈ (service.boards now).world.log := by
  have hinv := Feed.Inv.of_reach (service.feeding.reachable now)
  obtain ⟨hgateway, hkept⟩ := hinv.clients j c hc
  have hsent := hkept.received.sublist_sent.subset he
  rw [hgateway] at hsent
  rw [← service.world now]
  exact hinv.outbox.sent (List.mem_of_mem_drop hsent)

theorem Service.Gives.cut (h : service.Gives r asked now response) :
    ∃ times : Nat → Nat, asked ≤ times 0 ∧ CutOf (fun k => service.boards (times k)) r response ∧
      (service.boards asked).world.log <+: (service.boards (times 4)).world.log := by
  obtain ⟨times, hfirst, hmono, -, views, fuel, hviews, hresponse⟩ := h
  have hfourth : times 0 ≤ times 4 := monotone_nat_of_le_succ hmono (Nat.zero_le 4)
  refine ⟨times, hfirst, ?_, service.log_mono (hfirst.trans hfourth)⟩
  have hseen : ∀ k < 5, (fun k => .ok (views k) : Statements) k = .ok (views k) := fun _ _ => rfl
  rcases runStatus_cut (service.projecting.select hmono) hseen hviews fuel r with
    ⟨-, herror⟩ | ⟨response', hresponse', hcut⟩
  · rw [hresponse] at herror
    cases herror
  · obtain rfl := Except.ok.inj (hresponse.symm.trans hresponse')
    exact hcut

end gives

/-! ### What a session keeps -/

section fresh

variable {d : Deployment} {capacity : Nat} (service : Service d capacity)

/-- The panel shows run `r` as it was after the last message. -/
def Session.Shows (s : Session) (r : Uuid) : Prop :=
  ∃ response, s.page.panel = .ofRun response ∧ service.Gives r s.noted s.now response

/-- The last detail that was asked for is one of the selected run, after the last message; it is under way,
or it is shown and no other one is under way. -/
def Session.Current (s : Session) : Prop :=
  match s.page.selectedRunId with
  | none => s.page.panel.summary = .selectRun ∧ s.page.panel.run = none
  | some r => ∃ last, s.page.requests = last + 1 ∧ s.noted ≤ s.asked last ∧
      (s.page.details last = some r ∨ (∀ j, s.page.details j = none) ∧ s.Shows service r)

/-- What is still to come will show what messages have told of. -/
structure Session.Fresh (s : Session) : Prop where
  page : s.page.Sound
  noted : s.noted ≤ s.now
  heard : ∀ e ∈ s.heard, e ∈ (service.boards s.noted).world.log
  owed : 0 < s.page.timers ∨ (∃ k, s.page.refreshes k ≠ none) ∨ s.Current service

variable {service} {s s' : Session} {action : PageAction} {page : Page}

theorem Page.refreshes_refreshAll (page : Page) : ∃ k, page.refreshAll.refreshes k ≠ none := by
  refine ⟨page.calls, ?_⟩
  show (page.setRefresh page.calls (some .begun)).refreshes page.calls ≠ none
  rw [Page.refreshes_setRefresh, if_pos rfl]
  exact Option.some_ne_none _

theorem Session.Fresh.init (stored : Option Uuid) : (Session.init stored).Fresh service where
  page := (Page.Sound.blank stored).refreshAll
  noted := Nat.le_refl 0
  heard := fun _ he => absurd he List.not_mem_nil
  owed := Or.inr (Or.inl (Page.refreshes_refreshAll _))

theorem Session.Fresh.asks (h : s.Fresh service) {shown : Page} (hrequests : shown.requests = s.page.requests)
    (hnoted : (s.turn shown.refreshRunDetail action).noted = s.noted) :
    (s.turn shown.refreshRunDetail action).Current service := by
  unfold Session.Current
  cases hselected : shown.selectedRunId with
  | none =>
    have hpage : shown.refreshRunDetail =
        { shown with panel := { shown.panel with summary := .selectRun, run := none } } := by
      rw [Page.refreshRunDetail, hselected]
    simp only [Session.turn, hpage, hselected]
    exact ⟨trivial, trivial⟩
  | some r =>
    have hpage : shown.refreshRunDetail =
        { shown.setDetail shown.requests (some r) with requests := shown.requests + 1 } := by
      rw [Page.refreshRunDetail, hselected]
    rw [hnoted]
    simp only [Session.turn, hpage, Page.setDetail, hselected]
    refine ⟨s.page.requests, by rw [hrequests], ?_, Or.inl ?_⟩
    · rw [if_neg (Nat.lt_irrefl _)]
      exact h.noted
    · rw [hrequests, Function.update_self]

theorem Session.Current.of_same (h : s.Current service) (hselected : page.selectedRunId = s.page.selectedRunId)
    (hdetails : page.details = s.page.details) (hrequests : page.requests = s.page.requests)
    (hpanel : page.panel = s.page.panel) (hnoted : (s.turn page action).noted = s.noted) :
    (s.turn page action).Current service := by
  unfold Session.Current Session.Shows at h ⊢
  rw [hnoted]
  simp only [Session.turn, hselected, hdetails, hrequests, hpanel]
  cases hr : s.page.selectedRunId with
  | none =>
    rw [hr] at h
    exact h
  | some r =>
    rw [hr] at h
    obtain ⟨last, hlast, hasked, hshown⟩ := h
    exact ⟨last, hlast, by rw [if_pos (by omega)]; exact hasked, hshown⟩

/-- The detail that comes is the last one that was asked for, or another one is still under way. -/
theorem Session.Fresh.detail (h : s.Fresh service) (hcurrent : s.Current service) {j : Nat}
    {answer : Except String RunStatusResponse} (hstep : s.page.step (.detail j answer) = some page)
    (hallowed : service.Allows s (.detail j answer)) (hcalm : s.page.Calm (.detail j answer)) :
    (s.turn page (.detail j answer)).Current service := by
  obtain ⟨hok, horder⟩ := hcalm
  obtain ⟨r', hr', hpage⟩ := Option.bind_eq_some_iff.mp hstep
  cases answer with
  | error => cases hok
  | ok response =>
    obtain rfl := Option.some.inj hpage
    unfold Session.Current at hcurrent ⊢
    simp only [Session.turn, Page.setDetail]
    cases hr : s.page.selectedRunId with
    | none =>
      rw [h.page.selected hr j] at hr'
      cases hr'
    | some r =>
      rw [hr] at hcurrent
      obtain ⟨last, hlast, hasked, hway | ⟨hnone, -⟩⟩ := hcurrent
      · refine ⟨last, hlast, by rw [if_pos (by omega)]; exact hasked, ?_⟩
        by_cases hj : last = j
        · subst hj
          obtain rfl : r' = r := Option.some.inj (hr'.symm.trans hway)
          refine Or.inr ⟨fun i => ?_, response, rfl, (hallowed r' hr').mono hasked (Nat.le_refl _)⟩
          rw [Function.update_apply]
          split
          · rfl
          · next hne =>
            rcases Nat.lt_or_ge i last with hlt | hge
            · exact horder i hlt
            · exact h.page.details i (by omega)
        · rw [Function.update_of_ne hj]
          exact Or.inl hway
      · rw [hnone j] at hr'
        cases hr'

theorem Session.Fresh.owed_turn (h : s.Fresh service) (hstep : s.page.step action = some page)
    (hallowed : service.Allows s action) (hcalm : s.page.Calm action) :
    0 < page.timers ∨ (∃ k, page.refreshes k ≠ none) ∨ (s.turn page action).Current service := by
  cases action with
  | refresh =>
    obtain rfl := Option.some.inj hstep
    exact Or.inr (Or.inl (Page.refreshes_refreshAll _))
  | runCreated r =>
    obtain rfl := Option.some.inj hstep
    exact Or.inr (Or.inl (Page.refreshes_refreshAll _))
  | timeout =>
    obtain ⟨_, -, hpage⟩ := Option.bind_eq_some_iff.mp hstep
    obtain rfl := Option.some.inj hpage
    exact Or.inr (Or.inl (Page.refreshes_refreshAll _))
  | message event =>
    obtain rfl := Option.some.inj hstep
    refine Or.inl ?_
    unfold Page.scheduleRefresh
    split
    · next hflag =>
      rw [h.page.timers, if_pos hflag]
      exact Nat.one_pos
    · exact Nat.succ_pos _
  | answer k answer =>
    obtain ⟨call, shown, hcall, hsame, rfl | ⟨rfl, hfailed⟩ | ⟨rfl, -⟩⟩ := Page.answered_spec hstep hcalm
    · refine Or.inr (Or.inl ⟨k, ?_⟩)
      rw [Page.refreshes_setRefresh, if_pos rfl]
      exact Option.some_ne_none _
    · rw [h.page.refreshes k call hcall] at hfailed
      cases hfailed
    · exact Or.inr (Or.inr (h.asks hsame.requests rfl))
  | detail j answer =>
    obtain ⟨r', hr', hpage⟩ := Option.bind_eq_some_iff.mp hstep
    have hkept : page.timers = s.page.timers ∧ page.refreshes = s.page.refreshes := by
      split at hpage <;>
      · obtain rfl := Option.some.inj hpage
        exact ⟨rfl, rfl⟩
    rw [hkept.1, hkept.2]
    exact h.owed.imp_right (Or.imp_right fun hcurrent => h.detail hcurrent hstep hallowed hcalm)
  | select r =>
    obtain ⟨-, hpage⟩ := Option.ite_none_right_eq_some.mp hstep
    obtain rfl := Option.some.inj hpage
    exact Or.inr (Or.inr (h.asks rfl rfl))
  | workspaceCreated =>
    obtain rfl := Option.some.inj hstep
    exact h.owed.imp_right (Or.imp_right fun hcurrent => hcurrent.of_same rfl rfl rfl rfl rfl)
  | workspacesFetched answer =>
    obtain ⟨-, hpage⟩ := Option.ite_none_left_eq_some.mp hstep
    cases answer <;>
    · obtain rfl := Option.some.inj hpage
      exact h.owed.imp_right (Or.imp_right fun hcurrent => hcurrent.of_same rfl rfl rfl rfl rfl)

theorem Session.Fresh.step {a : SessionAction} (h : s.Fresh service) (hstep : s.Step service a s')
    (hcalm : s.Calm a) : s'.Fresh service := by
  cases hstep with
  | pass =>
    refine ⟨h.page, Nat.le_succ_of_le h.noted, h.heard, h.owed.imp_right (Or.imp_right fun hcurrent => ?_)⟩
    unfold Session.Current at hcurrent ⊢
    cases hr : s.page.selectedRunId with
    | none =>
      rw [hr] at hcurrent
      exact hcurrent
    | some r =>
      rw [hr] at hcurrent
      obtain ⟨last, hlast, hasked, hway | ⟨hnone, response, hpanel, hgives⟩⟩ := hcurrent
      · exact ⟨last, hlast, hasked, Or.inl hway⟩
      · exact ⟨last, hlast, hasked, Or.inr ⟨hnone, response, hpanel,
          hgives.mono (Nat.le_refl _) (Nat.le_succ _)⟩⟩
  | @turn action page hpage hallowed =>
    refine ⟨h.page.step hpage hcalm, ?_, ?_, h.owed_turn hpage hallowed hcalm⟩
    · unfold Session.turn
      split
      · exact Nat.le_refl _
      · exact h.noted
    · unfold Session.turn
      cases action with
      | message event =>
        obtain ⟨j, c, hc, he⟩ := hallowed
        refine List.forall_mem_append.mpr ⟨fun e he => ?_, fun e he => ?_⟩
        · exact (service.log_mono h.noted).subset (h.heard e he)
        · obtain rfl := List.mem_singleton.mp he
          exact Service.committed hc ‹_›
      | _ => exact h.heard

theorem Session.Fresh.of_reach {stored : Option Uuid}
    (h : Reach (visiting service stored) Session.Calm s) : s.Fresh service :=
  h.invariant (fun _ hs => hs ▸ .init stored) fun _ _ _ hs hstep hcalm => hs.step hstep hcalm

/-- In every session in which no fetch fails, the totals of the lists are numbers and the details come in
order: once the page is quiet, its panel is that of the selected run, made from an answer of `run_status` that
was asked for after the last message; the parts of the answer fit together, and every event of the run that a
message has told of is in its timeline. The panel shows the answer if its costs are numbers, and says else that
they are not. If no run is selected, it asks for one. -/
theorem quietPage_upToDate {stored : Option Uuid} (h : Reach (visiting service stored) Session.Calm s)
    (hquiet : s.page.Quiet) :
    match s.page.selectedRunId with
    | none => s.page.panel.summary = .selectRun ∧ s.page.panel.run = none
    | some r => ∃ response, s.page.panel = (if response.costsAreNumbers then
            ⟨some r, .run response, some response⟩ else ⟨some r, .detailError .notANumber, none⟩) ∧
        (∃ times : Nat → Nat, s.noted ≤ times 0 ∧ CutOf (fun k => service.boards (times k)) r response) ∧
        ∀ e ∈ s.heard, e.resourceId = r → .ofRow (.ofEnvelope e) ∈ response.timeline := by
  have hfresh := Session.Fresh.of_reach h
  have hcurrent : s.Current service := by
    rcases hfresh.owed with htimers | ⟨k, hk⟩ | hcurrent
    · rw [hquiet.timers] at htimers
      exact absurd htimers (Nat.lt_irrefl 0)
    · exact absurd (hquiet.refreshes k) hk
    · exact hcurrent
  unfold Session.Current at hcurrent
  cases hr : s.page.selectedRunId with
  | none =>
    rw [hr] at hcurrent
    exact hcurrent
  | some r =>
    rw [hr] at hcurrent
    obtain ⟨last, -, -, hway | ⟨-, response, hpanel, hgives⟩⟩ := hcurrent
    · rw [hquiet.details last] at hway
      cases hway
    · obtain ⟨times, hasked, hcut, hlog⟩ := hgives.cut
      obtain ⟨row, -, hrun, -⟩ := hcut.row
      refine ⟨response, ?_, ⟨times, hasked, hcut⟩, fun e he hresource => ?_⟩
      · rw [hpanel, Panel.ofRun, hrun]
        split <;> rfl
      · rw [hcut.timeline]
        exact List.mem_map_of_mem (mem_stream.mpr ⟨hlog.subset (hfresh.heard e he), hresource⟩)

end fresh

/-! ### A detail that comes late -/

def pausedFeed : List FeedAction :=
  [.connect 0, .client 0 (.sendReturns false)] ++ startActions.map .act ++ [.broadcast 0] ++
    takeUp 0 ++ [.broadcast 0] ++ takeUp 0 ++
    (requestActions 1 (.pauseRun sampleRun) (.at sampleRun 200 0)).map .act ++ [.broadcast 1] ++ takeUp 0

def pausedBoard : List BoardAction :=
  startActions.map .act ++ [.write (.request 0) 0] ++
    (requestActions 1 (.pauseRun sampleRun) (.at sampleRun 200 0)).map .act ++ [.write (.request 1) 0]

/-- At time `0` the run is started, from time `1` on it is paused. -/
def pausedService : Service sampleDeployment 128 where
  feeds := fun time => ((pausedFeed.take (if time = 0 then 11 else 17)).foldlM
    (Feed.play sampleDeployment) (.init 128)).getD (.init 128)
  boards := fun time => ((pausedBoard.take (if time = 0 then 4 else 8)).foldlM
    (Board.play sampleDeployment) .init).getD .init
  feeding := .of_play (fun _ _ _ => Feed.step_of_play) rfl (by decide +kernel)
    fun k => by split <;> simp
  projecting := .of_play (fun _ _ _ => Board.step_of_play) rfl (by decide +kernel)
    fun k => by split <;> simp
  world := fun
    | 0 => rfl
    | _ + 1 => rfl

namespace Session

def next (s : Session) : SessionAction → Session
  | .pass => { s with now := s.now + 1 }
  | .turn action =>
    match s.page.step action with
    | some page => s.turn page action
    | none => s

def Enabled (service : Service sampleDeployment 128) (guard : Session → SessionAction → Prop) (s : Session) :
    List SessionAction → Prop
  | [] => True
  | .pass :: actions => guard s .pass ∧ (s.next .pass).Enabled service guard actions
  | .turn action :: actions =>
    ((s.page.step action).isSome ∧ service.Allows s action ∧ guard s (.turn action)) ∧
      (s.next (.turn action)).Enabled service guard actions

theorem reach_after {service : Service sampleDeployment 128} {guard : Session → SessionAction → Prop}
    {stored : Option Uuid} {s : Session} {actions : List SessionAction}
    (h : Reach (visiting service stored) guard s) (henabled : s.Enabled service guard actions) :
    Reach (visiting service stored) guard (actions.foldl next s) := by
  induction actions generalizing s with
  | nil => exact h
  | cons a actions ih =>
    cases a with
    | pass => exact ih (.step .pass h .pass henabled.1) henabled.2
    | turn action =>
      obtain ⟨⟨hpossible, hallowed, hguard⟩, hrest⟩ := henabled
      obtain ⟨page, hpage⟩ := Option.isSome_iff_exists.mp hpossible
      have hnext : s.next (.turn action) = s.turn page action := by rw [next, hpage]
      rw [hnext] at hrest
      rw [List.foldl_cons, hnext]
      exact ih (.step _ h (.turn hpage hallowed) hguard) hrest

end Session

/-- The answers to a call of `refreshAll`, without the totals and the workspaces. -/
def listActions (k : Nat) (status : String) : List SessionAction :=
  [.turn (.answer k (.metrics (.ok ⟨0, 0, 0, 0, 0, 0, 0, 0, none⟩))),
    .turn (.answer k (.workspaces (.ok []))),
    .turn (.answer k (.runs (.ok [⟨sampleRun, sampleWorkspace, status, .zero, 0, 0⟩])))]

/-- The first detail is asked for, a message tells of the pause, and the second detail is asked for. -/
def pausedActions (event : EventEnvelope) : List SessionAction :=
  listActions 0 "running" ++ [.pass, .turn (.message event), .turn .timeout] ++ listActions 1 "paused"

theorem pausedService_gives {time : Nat} {response : RunStatusResponse}
    (h : runStatus 1 (fun _ => .ok (.of (pausedService.boards time).world.log
      (pausedService.boards time).store)) sampleRun = .ok response) {now : Nat} (hnow : time ≤ now) :
    pausedService.Gives sampleRun time now response := by
  have hreach := pausedService.projecting.reachable time
  exact ⟨fun _ => time, Nat.le_refl _, fun _ => Nat.le_refl _, fun _ _ => hnow, fun _ => .of _ _, 0,
    fun _ _ => (Board.Backed.of_reach hreach).store.shows (Board.Inv.of_reach hreach).keyed, h⟩

theorem pausedActions_enabled {event : EventEnvelope} {c : Connection} {guard : Session → SessionAction → Prop}
    (hc : c ∈ (pausedService.feeds 1).clients 0) (he : event ∈ c.sent) {actions : List SessionAction}
    (hrest : (pausedActions event |>.foldl Session.next (.init none)).Enabled pausedService guard actions)
    (hguard : ∀ s a, s.Calm a → guard s a) :
    (Session.init none).Enabled pausedService guard (pausedActions event ++ actions) := by
  refine ⟨⟨rfl, trivial, hguard _ _ rfl⟩, ⟨rfl, trivial, hguard _ _ rfl⟩, ⟨rfl, trivial, hguard _ _ rfl⟩,
    hguard _ _ trivial, ⟨rfl, ⟨0, c, hc, List.mem_append_left _ he⟩, hguard _ _ trivial⟩,
    ⟨rfl, trivial, hguard _ _ trivial⟩, ⟨rfl, trivial, hguard _ _ rfl⟩, ⟨rfl, trivial, hguard _ _ rfl⟩,
    ⟨rfl, trivial, hguard _ _ rfl⟩, hrest⟩

theorem pausedService_answers (time : Nat) (revisions : List Int)
    (h : (runStatus 1 (fun _ => .ok (.of (pausedService.boards time).world.log
      (pausedService.boards time).store)) sampleRun).toOption.map
        (fun response => (response.timeline.map (·.revision), response.costsAreNumbers)) =
          some (revisions, true)) (hnow : time ≤ 1) :
    ∃ response, pausedService.Gives sampleRun time 1 response ∧
      response.timeline.map (·.revision) = revisions ∧ response.costsAreNumbers := by
  obtain ⟨response, hanswer, hvalues⟩ := Option.map_eq_some_iff.mp h
  cases hresponse : runStatus 1 (fun _ => .ok (.of (pausedService.boards time).world.log
      (pausedService.boards time).store)) sampleRun with
  | error =>
    rw [hresponse] at hanswer
    cases hanswer
  | ok =>
    rw [hresponse] at hanswer
    obtain rfl := Option.some.inj hanswer
    exact ⟨_, pausedService_gives hresponse hnow, Prod.mk.inj hvalues⟩

theorem pausedService_sent : ∃ c ∈ (pausedService.feeds 1).clients 0, ∃ event ∈ c.sent,
    event.resourceId = sampleRun ∧ event.revision = 3 := by
  have hsent : (((pausedService.feeds 1).clients 0).bind fun c => c.sent.getLast?.map fun e =>
      (e.resourceId, e.revision)) = some (sampleRun, 3) := by decide +kernel
  obtain ⟨c, hc, hlast⟩ := Option.bind_eq_some_iff.mp hsent
  obtain ⟨event, hevent, hvalues⟩ := Option.map_eq_some_iff.mp hlast
  obtain ⟨hresource, hrevision⟩ := Prod.mk.inj hvalues
  exact ⟨c, hc, event, List.mem_of_getLast? hevent, hresource, hrevision⟩

/-- Where the details come in order, the quiet page shows the pause. -/
theorem quietPage_upToDate_paused : ∃ s : Session, s.page.Quiet ∧ s.page.selectedRunId = some sampleRun ∧
    s.heard.map (·.revision) = [3] ∧
      ∃ response, s.page.panel = ⟨some sampleRun, .run response, some response⟩ ∧
        ∀ e ∈ s.heard, .ofRow (.ofEnvelope e) ∈ response.timeline := by
  obtain ⟨c, hc, event, he, hresource, hrevision⟩ := pausedService_sent
  obtain ⟨early, hearly, -⟩ := pausedService_answers 0 [1, 2] (by decide +kernel) (by decide)
  obtain ⟨late, hlate, -, hnumbers⟩ := pausedService_answers 1 [1, 2, 3] (by decide +kernel) (by decide)
  let details : List SessionAction := [.turn (.detail 0 (.ok early)), .turn (.detail 1 (.ok late))]
  have henabled : (Session.init none).Enabled pausedService Session.Calm
      (pausedActions event ++ details) := by
    refine pausedActions_enabled hc he ⟨⟨rfl, ?_, rfl, fun i hi => absurd hi (Nat.not_lt_zero i)⟩,
      ⟨rfl, ?_, rfl, fun i hi => ?_⟩, trivial⟩ fun _ _ h => h
    · intro r hr
      obtain rfl := Option.some.inj hr
      exact hearly
    · intro r hr
      obtain rfl := Option.some.inj hr
      exact hlate
    · obtain rfl : i = 0 := by omega
      rfl
  have hinit : Reach (visiting pausedService none) Session.Calm (Session.init none) := .init rfl
  have hreach := Session.reach_after hinit henabled
  have hquiet : ((pausedActions event ++ details).foldl Session.next (Session.init none)).page.Quiet :=
    ⟨rfl, fun k => by rcases k with _ | _ | _ <;> rfl, fun j => by rcases j with _ | _ | _ <;> rfl⟩
  obtain ⟨response, hpanel, -, htold⟩ := quietPage_upToDate hreach hquiet
  have hlast : ((pausedActions event ++ details).foldl Session.next (Session.init none)).page.panel =
      .ofRun late := rfl
  rw [Panel.ofRun, if_pos hnumbers, if_pos hnumbers] at hlast
  split at hpanel
  case isFalse =>
    rw [hlast] at hpanel
    obtain ⟨-, hsummary, -⟩ := Panel.mk.inj hpanel
    cases hsummary
  exact ⟨_, hquiet, rfl, by rw [← hrevision]; rfl, response, hpanel, fun e hheard => htold e hheard (by
    obtain rfl := List.mem_singleton.mp hheard
    exact hresource)⟩

/-- Where the first detail comes after the second one, the quiet page does not know of the pause. -/
theorem overtakenDetail : ∃ s : Session,
    Reach (visiting pausedService none) (fun _ a => a.Succeeds) s ∧ s.page.Quiet ∧
      s.page.selectedRunId = some sampleRun ∧
      ∃ e ∈ s.heard, e.resourceId = sampleRun ∧
        ∃ response, s.page.panel.run = some response ∧ .ofRow (.ofEnvelope e) ∉ response.timeline := by
  obtain ⟨c, hc, event, he, hresource, hrevision⟩ := pausedService_sent
  obtain ⟨early, hearly, hrevisions, hnumbers⟩ :=
    pausedService_answers 0 [1, 2] (by decide +kernel) (by decide)
  obtain ⟨late, hlate, -⟩ := pausedService_answers 1 [1, 2, 3] (by decide +kernel) (by decide)
  let details : List SessionAction := [.turn (.detail 1 (.ok late)), .turn (.detail 0 (.ok early))]
  have henabled : (Session.init none).Enabled pausedService (fun _ a => a.Succeeds)
      (pausedActions event ++ details) := by
    refine pausedActions_enabled hc he ⟨⟨rfl, ?_, rfl⟩, ⟨rfl, ?_, rfl⟩, trivial⟩
      fun _ _ hcalm => hcalm.succeeds
    · intro r hr
      obtain rfl := Option.some.inj hr
      exact hlate
    · intro r hr
      obtain rfl := Option.some.inj hr
      exact hearly
  have hinit : Reach (visiting pausedService none) (fun _ a => a.Succeeds) (Session.init none) := .init rfl
  have hreach := Session.reach_after hinit henabled
  have hquiet : ((pausedActions event ++ details).foldl Session.next (Session.init none)).page.Quiet :=
    ⟨rfl, fun k => by rcases k with _ | _ | _ <;> rfl, fun j => by rcases j with _ | _ | _ <;> rfl⟩
  refine ⟨_, hreach, hquiet, rfl, event, List.mem_singleton_self event, hresource, early,
    if_pos hnumbers, fun hmem => ?_⟩
  have hthree : (3 : Int) ∈ early.timeline.map (·.revision) :=
    hrevision ▸ List.mem_map_of_mem (f := TimelineEventResponse.revision) hmem
  rw [hrevisions] at hthree
  exact absurd hthree (by decide)

end SamtaDashboard
