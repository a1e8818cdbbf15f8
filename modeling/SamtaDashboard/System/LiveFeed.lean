import SamtaDashboard.Api.LiveStream
import SamtaDashboard.Lib.Outbox
import SamtaDashboard.System.Schedule

/-!
# The live stream of a running system

A request broadcasts the events that it has appended, one after the other, once `append` has returned;
in the meantime other requests, the workers and the connections of the clients go on. The workers have no
gateway. `Feed` adds the gateway, what the requests have still to broadcast and the clients to the
interleaving of the requests and the workers.

Its log and its gateway make an `Outbox`: what a client gets is committed and comes once, and it comes from
a request. Requests on one run that overlap may broadcast in another order than that of the revisions.
-/

namespace SamtaDashboard

open EventFold Transition

/-! ### States and steps -/

structure Feed where
  world : World
  gateway : WsGateway
  /-- what a request has appended and not broadcast yet -/
  unsent : Nat → List EventEnvelope
  clients : Nat → Option Connection

/-- The events that request `k` is about to append, and to broadcast then. -/
def World.made (s : World) (k : Nat) : List EventEnvelope :=
  match s.requests k with
  | .numbered request draws ps revision _ => newEvents draws (request.resource draws) revision ps
  | _ => []

namespace Feed

def init (capacity : Nat) : Feed := ⟨.init, ⟨capacity, []⟩, fun _ => [], fun _ => none⟩

def advance (s : Feed) (world : World) : Action → Feed
  | .submit k => { s with world := world, unsent := Function.update s.unsent k (s.world.made k) }
  | _ => { s with world := world }

/-- `WsGateway::broadcast`: the receivers of all clients share the channel. -/
def broadcast (s : Feed) (event : EventEnvelope) : Feed :=
  { s with
    gateway := s.gateway.broadcast event
    clients := fun j => (s.clients j).bind (·.step (.broadcast event)) }

def setUnsent (s : Feed) (k : Nat) (events : List EventEnvelope) : Feed :=
  { s with unsent := Function.update s.unsent k events }

def setClient (s : Feed) (j : Nat) (client : Connection) : Feed :=
  { s with clients := Function.update s.clients j (some client) }

end Feed

def Action.request? : Action → Option Nat
  | .decide k .. | .number k | .submit k | .drop k => some k
  | _ => none

def SocketAction.ofClient : SocketAction → Bool
  | .broadcast _ => false
  | _ => true

inductive FeedAction where
  | act (a : Action)
  /-- a request broadcasts its next event, or ends without broadcasting the rest -/
  | broadcast (k : Nat)
  | giveUp (k : Nat)
  | connect (j : Nat)
  | client (j : Nat) (action : SocketAction)

inductive Feed.Step (d : Deployment) (s : Feed) : FeedAction → Feed → Prop
  | act {a : Action} {world : World} :
      (∀ k ∈ a.request?, s.unsent k = []) → s.world.Step d a world →
      Step d s (.act a) (s.advance world a)
  | broadcast {k : Nat} {event : EventEnvelope} {rest : List EventEnvelope} :
      s.unsent k = event :: rest →
      Step d s (.broadcast k) ((s.broadcast event).setUnsent k rest)
  | giveUp {k : Nat} : Step d s (.giveUp k) (s.setUnsent k [])
  | connect {j : Nat} : s.clients j = none →
      Step d s (.connect j) (s.setClient j (.opened s.gateway))
  | client {j : Nat} {action : SocketAction} {c c' : Connection} :
      s.clients j = some c → action.ofClient → c.step action = some c' →
      Step d s (.client j action) (s.setClient j c')

/-- The processes of a deployment and the clients, on an empty log with a gateway that keeps `capacity`
events. -/
def feeding (d : Deployment) (capacity : Nat) : System Feed FeedAction where
  init := (· = Feed.init capacity)
  step s a s' := s.Step d a s'

/-! ### What a step appends -/

section appends

variable {d : Deployment} {s s' : World} {a : Action}

theorem World.Step.submitted {k : Nat} (h : s.Step d (.submit k) s') (hinv : s.Inv d) :
    s'.log = s.log ++ s.made k ∧ (∀ e ∈ s.made k, e.payload.isOrchestrated) ∧
      ∃ r, ∀ e ∈ s.made k, e.resourceId = r := by
  cases h with
  | @submit _ request draws ps revision seen log' hphase hnew hstamped happ =>
    have hdecided := hinv.requests k
    rw [hphase] at hdecided
    have hmade : s.made k = newEvents draws (request.resource draws) revision ps := by
      rw [made, hphase]
    obtain ⟨rfl, -⟩ := append_eq_ok.mp happ
    rw [hmade]
    refine ⟨?_, fun e he => ?_, request.resource draws, fun e => resourceId_newEvents⟩
    · rw [map_bindTo_newEvents]
    · have hmem : e.payload ∈ payloads _ := List.mem_map_of_mem he
      rw [payloads_newEvents] at hmem
      exact hdecided.1.orchestrated _ hmem

theorem World.Step.unsubmitted (h : s.Step d a s') (hinv : s.Inv d) (ha : ∀ k, a ≠ .submit k) :
    ∃ rows, s'.log = s.log ++ rows ∧ ∀ e ∈ rows, e.payload.isOrchestrated = false := by
  cases h.commit hinv with
  | nothing _ hlog => exact ⟨[], by rw [hlog, List.append_nil], fun _ he => nomatch he⟩
  | request hsubmit => exact absurd hsubmit (ha _)
  | batch _ hcommit =>
    refine ⟨_, hcommit.appended.log_eq, fun e he => hcommit.prepared.not_orchestrated _ ?_⟩
    rw [← hcommit.payloads]
    exact List.mem_map_of_mem he

end appends

/-! ### The outbox of a feed -/

/-- The log, the gateway and what the requests have still to broadcast. -/
def Feed.outbox (s : Feed) : Outbox Nat EventEnvelope := ⟨s.world.log, s.gateway.sent, s.unsent⟩

structure Feed.Inv (d : Deployment) (capacity : Nat) (s : Feed) : Prop where
  world : s.world.Inv d
  outbox : s.outbox.Sound
  sent : ∀ e ∈ s.gateway.sent, e.payload.isOrchestrated
  unsent : ∀ k, ∀ e ∈ s.unsent k, e.payload.isOrchestrated
  clients : ∀ j, ∀ c ∈ s.clients j, c.gateway = s.gateway ∧ c.Kept capacity
  keeps : s.gateway.capacity = capacity

section invariant

variable {d : Deployment} {capacity : Nat} {s s' : Feed} {a : FeedAction}

theorem Feed.unsent_setUnsent (s : Feed) (k k' : Nat) (events : List EventEnvelope) :
    (s.setUnsent k events).unsent k' = if k' = k then events else s.unsent k' :=
  Function.update_apply ..

theorem Feed.clients_setClient (s : Feed) (j j' : Nat) (client : Connection) :
    (s.setClient j client).clients j' = if j' = j then some client else s.clients j' :=
  Function.update_apply ..

theorem Feed.Inv.init (d : Deployment) (capacity : Nat) : (Feed.init capacity).Inv d capacity where
  world := .init d
  outbox := .empty
  sent := fun _ he => absurd he List.not_mem_nil
  unsent := fun _ _ he => absurd he List.not_mem_nil
  clients := fun _ _ hc => absurd hc (Option.not_mem_none _)
  keeps := rfl

theorem Feed.Inv.outbox_submit (h : s.Inv d capacity) {world : World} {k : Nat}
    (hstep : s.world.Step d (.submit k) world) :
    (s.advance world (.submit k)).outbox = s.outbox.post k (s.world.made k) := by
  rw [Feed.outbox, Feed.advance, (hstep.submitted h.world).1]
  rfl

theorem Feed.Inv.outbox_unsubmitted (h : s.Inv d capacity) {world : World} {a : Action}
    (hstep : s.world.Step d a world) (ha : ∀ k, a ≠ .submit k) :
    ∃ rows, (s.advance world a).outbox = s.outbox.append rows ∧
      ∀ e ∈ rows, e.payload.isOrchestrated = false := by
  obtain ⟨rows, hlog, hrows⟩ := hstep.unsubmitted h.world ha
  refine ⟨rows, ?_, hrows⟩
  have hsame : s.advance world a = { s with world := world } := by
    unfold Feed.advance
    split
    · exact absurd rfl (ha _)
    · rfl
  rw [hsame, Feed.outbox, hlog]
  rfl

theorem Feed.Inv.advance (h : s.Inv d capacity) {world : World} {a : Action}
    (hstep : s.world.Step d a world) : (s.advance world a).Inv d capacity := by
  have hworld := hstep.inv h.world
  by_cases hsubmit : ∃ k, a = .submit k
  · obtain ⟨k, rfl⟩ := hsubmit
    obtain ⟨hlog, horchestrated, -⟩ := hstep.submitted h.world
    refine ⟨hworld, ?_, h.sent, fun k' e he => ?_, h.clients, h.keeps⟩
    · rw [h.outbox_submit hstep]
      have hnodup : world.log.Nodup := hworld.sound.wellFormed.gapFree.nodup
      exact h.outbox.post (hlog ▸ hnodup) k
    · have hunsent : (s.advance world (.submit k)).unsent k' =
          if k' = k then s.world.made k else s.unsent k' := Function.update_apply ..
      rw [hunsent] at he
      split at he
      · exact horchestrated e he
      · exact h.unsent k' e he
  · obtain ⟨rows, houtbox, -⟩ := h.outbox_unsubmitted hstep fun k hk => hsubmit ⟨k, hk⟩
    have hsound : (s.advance world a).outbox.Sound := houtbox ▸ h.outbox.append rows
    unfold Feed.advance at hsound ⊢
    split at hsound
    · exact absurd ⟨_, rfl⟩ hsubmit
    · exact ⟨hworld, hsound, h.sent, h.unsent, h.clients, h.keeps⟩

theorem Feed.Inv.setClient (h : s.Inv d capacity) (j : Nat) {client : Connection}
    (hclient : client.gateway = s.gateway ∧ client.Kept capacity) :
    (s.setClient j client).Inv d capacity := by
  refine ⟨h.world, h.outbox, h.sent, h.unsent, fun j' c hc => ?_, h.keeps⟩
  rw [Feed.clients_setClient] at hc
  split at hc
  · obtain rfl := Option.some.inj hc
    exact hclient
  · exact h.clients j' c hc

theorem Connection.gateway_step {c c' : Connection} {action : SocketAction}
    (h : c.step action = some c') (haction : action.ofClient) :
    c'.gateway = c.gateway := by
  cases action with
  | broadcast event => cases haction
  | frame frame =>
    rw [Connection.step] at h
    split at h
    · cases h
    · obtain rfl := Option.some.inj h
      rfl
  | hangUp =>
    obtain rfl := Option.some.inj h
    rfl
  | sendReturns isErr =>
    rcases sendReturns_cases h with rfl | rfl <;> rfl
  | pollSocket =>
    rcases pollSocket_cases h with rfl | ⟨frame, inbox, task, -, -, rfl⟩ | ⟨rx, -, -, -, rfl⟩ <;> rfl
  | pollRx =>
    obtain ⟨socket, -, ⟨-, rfl | ⟨event, -, rfl⟩⟩ | ⟨-, rfl⟩⟩ := pollRx_cases h <;> rfl

theorem Feed.Inv.broadcast (h : s.Inv d capacity) {k : Nat} {event : EventEnvelope}
    {rest : List EventEnvelope} (hk : s.unsent k = event :: rest) :
    ((s.broadcast event).setUnsent k rest).Inv d capacity := by
  have hunsent := h.unsent k
  rw [hk, List.forall_mem_cons] at hunsent
  refine ⟨h.world, h.outbox.forward hk, fun e he => ?_, fun k' e he => ?_, fun j c hc => ?_,
    h.keeps⟩
  · rcases List.mem_append.mp he with he | he
    · exact h.sent e he
    · rw [List.mem_singleton.mp he]
      exact hunsent.1
  · rw [Feed.unsent_setUnsent] at he
    split at he
    · exact hunsent.2 e he
    · exact h.unsent k' e he
  · obtain ⟨c₀, hc₀, hstep⟩ := Option.bind_eq_some_iff.mp hc
    obtain ⟨hgateway, hkept⟩ := h.clients j c₀ hc₀
    refine ⟨?_, hkept.step hstep⟩
    obtain rfl := Option.some.inj hstep
    exact congrArg (·.broadcast event) hgateway

theorem Feed.Step.inv (h : s.Step d a s') (hinv : s.Inv d capacity) : s'.Inv d capacity := by
  cases h with
  | act _ hstep => exact hinv.advance hstep
  | broadcast hk => exact hinv.broadcast hk
  | @giveUp k =>
    refine ⟨hinv.world, hinv.outbox.giveUp k, hinv.sent, fun k' e he => ?_, hinv.clients,
      hinv.keeps⟩
    rw [Feed.unsent_setUnsent] at he
    split at he
    · cases he
    · exact hinv.unsent k' e he
  | connect =>
    exact hinv.setClient _ ⟨rfl, hinv.keeps ▸ Connection.kept_opened s.gateway⟩
  | @client j action c c' hc haction hstep =>
    obtain ⟨hgateway, hkept⟩ := hinv.clients j c hc
    exact hinv.setClient j ⟨(Connection.gateway_step hstep haction).trans hgateway, hkept.step hstep⟩

theorem Feed.Inv.of_reach (h : Reachable (feeding d capacity) s) : s.Inv d capacity :=
  h.invariant (by rintro s rfl; exact .init d capacity) fun _ _ _ hinv hstep _ =>
    Feed.Step.inv hstep hinv

end invariant

/-! ### Every client -/

/-- In every run, whatever requests, workers and clients do and whoever gives up: what a client has got
is committed and comes from a request, and came in the order of the broadcasts, nothing twice. -/
theorem feed_sound {d : Deployment} {capacity : Nat} {s : Feed}
    (h : Reachable (feeding d capacity) s) {j : Nat} {c : Connection} (hc : s.clients j = some c) :
    c.sent.Sublist (s.gateway.sent.drop c.start) ∧ c.sent.Nodup ∧
      ∀ e ∈ c.sent, e ∈ s.world.log ∧ e.payload.isOrchestrated := by
  have hinv := Feed.Inv.of_reach h
  obtain ⟨hgateway, hkept⟩ := hinv.clients j c hc
  have hsub : c.sent.Sublist (s.gateway.sent.drop c.start) := hgateway ▸ hkept.sent.sublist_sent
  have hsent := hsub.trans (List.drop_sublist _ _)
  exact ⟨hsub, hinv.outbox.nodup_sent.sublist hsent, fun e he =>
    ⟨hinv.outbox.sent (hsent.subset he), hinv.sent e (hsent.subset he)⟩⟩

/-! ### All events -/

/-- No request ends before it has broadcast its events. -/
def FeedAction.Finishes : FeedAction → Prop
  | .giveUp _ => False
  | _ => True

section complete

variable {d : Deployment} {capacity : Nat} {s s' : Feed} {a : FeedAction}

theorem Feed.Step.complete (h : s.Step d a s') (hinv : s.Inv d capacity) (ha : a.Finishes)
    (hcomplete : s.outbox.Complete (·.payload.isOrchestrated)) :
    s'.outbox.Complete (·.payload.isOrchestrated) := by
  cases h with
  | @act a world hidle hstep =>
    by_cases hsubmit : ∃ k, a = .submit k
    · obtain ⟨k, rfl⟩ := hsubmit
      rw [Feed.Inv.outbox_submit hinv hstep]
      exact hcomplete.post (hidle k rfl) _
    · obtain ⟨rows, houtbox, hrows⟩ := hinv.outbox_unsubmitted hstep fun k hk => hsubmit ⟨k, hk⟩
      rw [houtbox]
      exact hcomplete.append fun e he => by simp [hrows e he]
  | broadcast hk => exact hcomplete.forward hk
  | giveUp => exact absurd ha not_false
  | connect | client => exact hcomplete

/-- If every request broadcasts all its events, then in every state the events of requests in the log are
those that have been broadcast, each once, and those that one request has still to broadcast. Nothing else
is broadcast. -/
theorem feed_exactly_once (h : Reach (feeding d capacity) (fun _ a => a.Finishes) s) :
    s.gateway.sent.Nodup ∧
      (∀ e ∈ s.gateway.sent, e ∈ s.world.log ∧ e.payload.isOrchestrated) ∧
      ∀ e, e ∈ s.world.log ∧ e.payload.isOrchestrated ↔
        (e ∈ s.gateway.sent ∧ ∀ k, e ∉ s.unsent k) ∨
          (e ∉ s.gateway.sent ∧ ∃! k, e ∈ s.unsent k) := by
  have hcomplete : s.outbox.Complete (·.payload.isOrchestrated) := by
    refine h.invariant_of (I := fun s => s.outbox.Complete (·.payload.isOrchestrated))
      (fun s hreach => Feed.Inv.of_reach hreach.reachable) ?_ ?_
    · rintro s rfl
      exact .empty
    · exact fun s a s' hinv hcomplete hstep ha => hstep.complete hinv ha hcomplete
  have hinv := Feed.Inv.of_reach h.reachable
  exact ⟨hinv.outbox.nodup_sent, fun e he => ⟨hinv.outbox.sent he, hinv.sent e he⟩,
    hcomplete.mem_iff hinv.outbox hinv.sent hinv.unsent⟩

end complete

/-! ### Requests that do not overlap -/

/-- A request appends to a stream when all events of requests in it have been broadcast. -/
def Feed.Serial (s : Feed) : FeedAction → Prop
  | .act (.submit k) => ∀ x ∈ s.world.made k, ∀ e ∈ s.world.log, e.resourceId = x.resourceId →
      e.payload.isOrchestrated → e ∈ s.gateway.sent
  | _ => True

/-- An event of a request in stream `r`. -/
def requestedIn (r : Uuid) (e : EventEnvelope) : Bool :=
  e.resourceId = r && e.payload.isOrchestrated

section serial

variable {d : Deployment} {capacity : Nat} {s s' : Feed} {a : FeedAction} {r : Uuid}

theorem filter_requestedIn (log : EventLog) (r : Uuid) :
    log.filter (requestedIn r) = (stream log r).filter (·.payload.isOrchestrated) := by
  rw [stream, List.filter_filter]
  refine List.filter_congr fun e _ => ?_
  rw [requestedIn, Bool.and_comm]

theorem Feed.Step.inOrder (h : s.Step d a s') (hinv : s.Inv d capacity) (ha : s.Serial a)
    (horder : s.outbox.InOrder (requestedIn r)) : s'.outbox.InOrder (requestedIn r) := by
  cases h with
  | @act a world _ hstep =>
    by_cases hsubmit : ∃ k, a = .submit k
    · obtain ⟨k, rfl⟩ := hsubmit
      rw [hinv.outbox_submit hstep]
      by_cases hr : ∃ x ∈ s.world.made k, x.resourceId = r
      · obtain ⟨x, hx, rfl⟩ := hr
        refine horder.post_idle hinv.outbox hinv.world.sound.wellFormed.gapFree.nodup
          (fun e he hrequested => ?_) k _
        rw [requestedIn, Bool.and_eq_true, decide_eq_true_eq] at hrequested
        exact ha x hx e he hrequested.1 hrequested.2
      · refine horder.post_other fun x hx hrequested => hr ⟨x, hx, ?_⟩
        rw [requestedIn, Bool.and_eq_true, decide_eq_true_eq] at hrequested
        exact hrequested.1
    · obtain ⟨rows, houtbox, -⟩ := hinv.outbox_unsubmitted hstep fun k hk => hsubmit ⟨k, hk⟩
      rw [houtbox]
      exact horder.append rows
  | broadcast hk => exact horder.forward hk
  | giveUp => exact horder.setUnsent List.nil_prefix
  | connect | client => exact horder

/-- If a request appends to a run only when the earlier requests on the run have broadcast their events,
then what has been broadcast of a run is the beginning of what requests have appended to it, and every
client gets a part of that in the order of the revisions. -/
theorem feed_in_order (h : Reach (feeding d capacity) Feed.Serial s) (r : Uuid) :
    s.gateway.sent.filter (·.resourceId = r) <+:
        (stream s.world.log r).filter (·.payload.isOrchestrated) ∧
      ∀ j c, s.clients j = some c →
        (c.sent.filter (·.resourceId = r)).Pairwise (·.revision < ·.revision) := by
  have hinv := Feed.Inv.of_reach h.reachable
  have horder : s.outbox.InOrder (requestedIn r) := by
    refine h.invariant_of (I := fun s => s.outbox.InOrder (requestedIn r))
      (fun s hreach => Feed.Inv.of_reach hreach.reachable) ?_ ?_
    · rintro s rfl
      exact .empty
    · exact fun s a s' hinv horder hstep ha => hstep.inOrder hinv ha horder
  have hbegins : s.gateway.sent.filter (·.resourceId = r) <+:
      (stream s.world.log r).filter (·.payload.isOrchestrated) := by
    rw [← filter_requestedIn]
    have hsame : s.gateway.sent.filter (·.resourceId = r) = s.gateway.sent.filter (requestedIn r) :=
      List.filter_congr fun e he => by rw [requestedIn, hinv.sent e he, Bool.and_true]
    rw [hsame]
    exact horder.sent_prefix
  refine ⟨hbegins, fun j c hc => ?_⟩
  have hsent := (feed_sound h.reachable hc).1.trans (List.drop_sublist _ _)
  have hstream : (c.sent.filter (·.resourceId = r)).Sublist (stream s.world.log r) :=
    (hsent.filter _).trans (hbegins.sublist.trans List.filter_sublist)
  exact (hinv.world.sound.wellFormed.gapFree r).pairwise.sublist hstream

end serial

/-! ### Computed runs -/

/-- One outcome of an action; `none` if the action is not enabled. -/
def Feed.play (d : Deployment) (s : Feed) : FeedAction → Option Feed
  | .act a =>
    if ∀ k ∈ a.request?, s.unsent k = [] then (s.world.play d a).map (s.advance · a) else none
  | .broadcast k =>
    match s.unsent k with
    | event :: rest => some ((s.broadcast event).setUnsent k rest)
    | [] => none
  | .giveUp k => some (s.setUnsent k [])
  | .connect j => if (s.clients j).isNone then some (s.setClient j (.opened s.gateway)) else none
  | .client j action =>
    if action.ofClient then (s.clients j).bind fun c => (c.step action).map (s.setClient j) else none

theorem Feed.step_of_play {d : Deployment} {s s' : Feed} {a : FeedAction}
    (h : s.play d a = some s') : s.Step d a s' := by
  cases a with
  | act a =>
    obtain ⟨hidle, h⟩ := Option.ite_none_right_eq_some.mp h
    obtain ⟨world, hworld, rfl⟩ := Option.map_eq_some_iff.mp h
    exact .act hidle (World.step_of_play hworld)
  | broadcast k =>
    simp only [play] at h
    split at h
    · next event rest hk =>
      obtain rfl := Option.some.inj h
      exact .broadcast hk
    · cases h
  | giveUp k =>
    obtain rfl := Option.some.inj h
    exact .giveUp
  | connect j =>
    obtain ⟨hnone, h⟩ := Option.ite_none_right_eq_some.mp h
    obtain rfl := Option.some.inj h
    exact .connect (Option.isNone_iff_eq_none.mp hnone)
  | client j action =>
    obtain ⟨haction, h⟩ := Option.ite_none_right_eq_some.mp h
    obtain ⟨c, hc, h⟩ := Option.bind_eq_some_iff.mp h
    obtain ⟨c', hc', rfl⟩ := Option.map_eq_some_iff.mp h
    exact .client hc haction hc'

def takeUp (j : Nat) : List FeedAction := [.client j .pollRx, .client j (.sendReturns false)]

/-- A run is started while a client connects; a worker executes an item before the assignment is
broadcast. -/
def startFeed : List FeedAction :=
  [.connect 0, .client 0 (.sendReturns false)] ++ startActions.map .act ++ [.broadcast 0] ++
    takeUp 0 ++ (executeActions 0 ++ appendActions 0).map .act ++ [.broadcast 0] ++ takeUp 0

/-- After the start a pause and a resumption overlap, and the later one broadcasts first. -/
def crossedFeed : List FeedAction :=
  startFeed ++ ((requestActions 1 (.pauseRun sampleRun) (.at sampleRun 200 0)) ++
    (requestActions 2 (.resumeRun sampleRun) (.at sampleRun 300 0))).map .act ++
    [.broadcast 2] ++ takeUp 0 ++ [.broadcast 1] ++ takeUp 0

def Feed.got (s : Feed) : Option (List Int) := (s.clients 0).map fun c => c.sent.map (·.revision)

/-- The client gets the resumption before the pause. -/
theorem feed_sound_crossedFeed : ∃ s c, Reachable (feeding sampleDeployment 128) s ∧
    s.clients 0 = some c ∧ c.sent.map (·.revision) = [1, 2, 8, 7] ∧ c.sent.Nodup ∧
      ∀ e ∈ c.sent, e ∈ s.world.log ∧ e.payload.isOrchestrated := by
  have hgot : (crossedFeed.foldlM (Feed.play sampleDeployment) (.init 128)).bind Feed.got =
      some [1, 2, 8, 7] := by decide +kernel
  obtain ⟨s, hs, hgot⟩ := Option.bind_eq_some_iff.mp hgot
  obtain ⟨c, hc, hgot⟩ := Option.map_eq_some_iff.mp hgot
  have hinit : Reachable (feeding sampleDeployment 128) (.init 128) := .init rfl
  have hreach := hinit.foldlM (fun _ _ _ => Feed.step_of_play) hs
  obtain ⟨-, hnodup, hcommitted⟩ := feed_sound hreach hc
  exact ⟨s, c, hreach, hc, hgot, hnodup, hcommitted⟩

def Feed.playOne (d : Deployment) (s : Feed) : FeedAction → Option Feed
  | .giveUp _ => none
  | .act (.submit k) => if s.world.log = [] then s.play d (.act (.submit k)) else none
  | a => s.play d a

theorem Feed.step_of_playOne {d : Deployment} {s s' : Feed} {a : FeedAction}
    (h : s.playOne d a = some s') : s.Step d a s' ∧ a.Finishes ∧ s.Serial a := by
  unfold playOne at h
  split at h
  · cases h
  · next k =>
    obtain ⟨hempty, h⟩ := Option.ite_none_right_eq_some.mp h
    refine ⟨Feed.step_of_play h, trivial, fun x _ e he => ?_⟩
    rw [hempty] at he
    cases he
  · next a hgiveUp hsubmit =>
    refine ⟨Feed.step_of_play h, ?_, ?_⟩
    · unfold FeedAction.Finishes
      split
      · exact hgiveUp _ rfl
      · trivial
    · unfold Serial
      split
      · exact (hsubmit _ rfl).elim
      · trivial

theorem startFeed_reach {n : Nat} {s : Feed}
    (h : (startFeed.take n).foldlM (Feed.playOne sampleDeployment) (.init 128) = some s) :
    Reach (feeding sampleDeployment 128) (fun s a => a.Finishes ∧ s.Serial a) s := by
  have hinit : Reach (feeding sampleDeployment 128) (fun s a => a.Finishes ∧ s.Serial a)
      (.init 128) := .init rfl
  exact hinit.foldlM_guarded (fun _ _ _ => Feed.step_of_playOne) h

/-- The worker has appended before the second event of the start is broadcast. -/
theorem feed_exactly_once_startFeed : ∃ s : Feed, s.world.log.length = 6 ∧
    s.gateway.sent.map (·.revision) = [1] ∧ (s.unsent 0).map (·.revision) = [2] ∧
      ∀ e, e ∈ s.world.log ∧ e.payload.isOrchestrated ↔
        (e ∈ s.gateway.sent ∧ ∀ k, e ∉ s.unsent k) ∨
          (e ∉ s.gateway.sent ∧ ∃! k, e ∈ s.unsent k) := by
  have hvalues : ((startFeed.take 12).foldlM (Feed.playOne sampleDeployment) (.init 128)).map
      (fun s => (s.world.log.length, s.gateway.sent.map (·.revision),
        (s.unsent 0).map (·.revision))) = some (6, [1], [2]) := by decide +kernel
  obtain ⟨s, hs, hvalues⟩ := Option.map_eq_some_iff.mp hvalues
  obtain ⟨hlog, hsent, hunsent⟩ := Prod.mk.inj hvalues |>.imp_right Prod.mk.inj
  have hreach := (startFeed_reach hs).mono fun s a h => h.1
  exact ⟨s, hlog, hsent, hunsent, (feed_exactly_once hreach).2.2⟩

theorem feed_in_order_startFeed : ∃ (s : Feed) (c : Connection), s.clients 0 = some c ∧
    s.gateway.sent.filter (·.resourceId = sampleRun) <+:
        (stream s.world.log sampleRun).filter (·.payload.isOrchestrated) ∧
      (c.sent.filter (·.resourceId = sampleRun)).Pairwise (·.revision < ·.revision) ∧
      c.sent.map (·.revision) = [1, 2] := by
  have hgot : ((startFeed.take 15).foldlM (Feed.playOne sampleDeployment) (.init 128)).bind
      Feed.got = some [1, 2] := by decide +kernel
  obtain ⟨s, hs, hgot⟩ := Option.bind_eq_some_iff.mp hgot
  obtain ⟨c, hc, hgot⟩ := Option.map_eq_some_iff.mp hgot
  have hreach := (startFeed_reach hs).mono fun s a h => h.2
  obtain ⟨hbegins, hclients⟩ := feed_in_order hreach sampleRun
  exact ⟨s, c, hc, hbegins, hclients 0 c hc, hgot⟩

end SamtaDashboard
