import SamtaDashboard.Events.Envelope
import SamtaDashboard.Lib.Broadcast
import SamtaDashboard.Lib.Transition

/-!
# The live stream

`handle_socket` subscribes to the gateway, greets the client and then waits for whatever comes first: a
frame of the client or an event. A branch of `select!` whose pattern does not match is out for the rest of
that `select!`, and `Ok(event) = rx.recv()` does not match when the receiver has been overtaken: from then
on the task waits for the client alone, and panics if the client is gone.

Only polls that find the receiver overtaken do this, unless a frame of the client is there to be read
(`served_of_timely`).
-/

namespace SamtaDashboard

open Transition

abbrev WsGateway := Broadcast.Channel EventEnvelope

/-- `WsGateway::broadcast`. -/
def WsGateway.broadcast (gateway : WsGateway) (event : EventEnvelope) : WsGateway :=
  gateway.send event

/-- The `buffer_size` that `main` asks for; the channel may keep more. -/
def eventBuffer : Nat := 100

/-- What `socket.next()` finds: `Some(Ok(_))` or `Some(Err(_))`. -/
inductive Frame where
  | ok
  | err

/-- Where `handle_socket` is. -/
inductive SocketTask where
  /-- in `send` of the greeting -/
  | greeting
  /-- in `select!`, with the branches that are not disabled -/
  | selecting (socket rx : Bool)
  /-- in `send` of an event -/
  | sending (event : EventEnvelope)
  /-- returned -/
  | closed
  | panicked

/-- A `select!` without an `else` panics when all its branches are disabled. -/
def SocketTask.select (socket rx : Bool) : SocketTask :=
  if socket || rx then .selecting socket rx else .panicked

def SocketTask.pending : SocketTask → List EventEnvelope
  | .sending event => [event]
  | _ => []

theorem SocketTask.pending_select (socket rx : Bool) : (select socket rx).pending = [] := by
  cases socket <;> cases rx <;> rfl

/-- A connection of a client: the gateway, the position of `rx` at first and now, the frames that the
client has sent and that were not read, whether it has hung up after them, and the events sent to it. -/
structure Connection where
  gateway : WsGateway
  start : Nat
  rx : Nat
  inbox : List Frame
  hungUp : Bool
  task : SocketTask
  sent : List EventEnvelope

inductive SocketAction where
  | broadcast (event : EventEnvelope)
  | frame (frame : Frame)
  | hangUp
  | sendReturns (isErr : Bool)
  | pollSocket
  | pollRx

namespace Connection

/-- `let mut rx = state.ws_gateway.subscribe()`. -/
def opened (gateway : WsGateway) : Connection where
  gateway := gateway
  start := gateway.subscribe
  rx := gateway.subscribe
  inbox := []
  hungUp := false
  task := .greeting
  sent := []

variable (c : Connection)

/-- `socket.send(..).await` returns. -/
def sendReturns (isErr : Bool) : Option Connection :=
  match c.task with
  | .greeting => some { c with task := if isErr then .closed else .selecting true true }
  | .sending event =>
    some (if isErr then { c with task := .closed }
      else { c with task := .selecting true true, sent := c.sent ++ [event] })
  | _ => none

/-- The branch `Some(msg) = socket.next()` is polled. -/
def pollSocket : Option Connection :=
  match c.task with
  | .selecting true rx =>
    match c.inbox with
    | .ok :: inbox => some { c with inbox := inbox, task := .selecting true true }
    | .err :: inbox => some { c with inbox := inbox, task := .closed }
    -- `None` does not match the pattern
    | [] => some (if c.hungUp then { c with task := .select false rx } else c)
  | _ => none

/-- The branch `Ok(event) = rx.recv()` is polled. The sender lives as long as `state`, so `rx` is never
closed. -/
def pollRx : Option Connection :=
  match c.task with
  | .selecting socket true =>
    match c.gateway.recv c.rx with
    | (.value event, rx) => some { c with rx := rx, task := .sending event }
    -- `Err(Lagged(_))` does not match the pattern
    | (.lagged, rx) => some { c with rx := rx, task := .select socket false }
    | (.empty, _) => some c
  | _ => none

/-- The next state, if the action is possible. -/
def step : SocketAction → Option Connection
  | .broadcast event => some { c with gateway := c.gateway.broadcast event }
  | .frame frame => if c.hungUp then none else some { c with inbox := c.inbox ++ [frame] }
  | .hangUp => some { c with hungUp := true }
  | .sendReturns isErr => c.sendReturns isErr
  | .pollSocket => c.pollSocket
  | .pollRx => c.pollRx

/-- The connection is open and an event is kept for its receiver, but the task waits for a frame of the
client and for nothing else. -/
def Stalled : Prop :=
  c.task = .selecting true false ∧ c.inbox = [] ∧ c.hungUp = false ∧ c.gateway.kept c.rx ≠ []

structure Served : Prop where
  notStalled : ¬ c.Stalled
  enabled : c.task ≠ .panicked
  inOrder : c.sent.Sublist (c.gateway.sent.drop c.start)

/-- A poll of `rx` is in time unless it finds the receiver overtaken while no frame is there to be read. -/
def Timely : SocketAction → Prop
  | .pollRx => c.gateway.Overtaken c.rx → c.inbox ≠ []
  | _ => True

end Connection

/-- One connection to a gateway that keeps `capacity` events. -/
def handleSocket (capacity : Nat) : System Connection SocketAction where
  init c := ∃ gateway : WsGateway, gateway.capacity = capacity ∧ c = .opened gateway
  step c action c' := c.step action = some c'

namespace Connection

variable {capacity : Nat} {c c' : Connection} {action : SocketAction}

/-! ### What a step does -/

theorem sendReturns_cases {isErr : Bool} (h : c.sendReturns isErr = some c') :
    c' = { c with task := .closed } ∨
      c' = { c with task := .selecting true true, sent := c.sent ++ c.task.pending } := by
  unfold sendReturns at h
  split at h
  · next htask =>
    obtain rfl := Option.some.inj h
    cases isErr
    · exact Or.inr (by simp [htask, SocketTask.pending])
    · exact Or.inl rfl
  · next event htask =>
    obtain rfl := Option.some.inj h
    cases isErr
    · exact Or.inr (by simp [htask, SocketTask.pending])
    · exact Or.inl rfl
  · cases h

/-- Reading a frame ends the `select!`; the end of the stream disables the branch. -/
theorem pollSocket_cases (h : c.pollSocket = some c') :
    c' = c ∨ (∃ frame inbox task, c.inbox = frame :: inbox ∧
        (task = .selecting true true ∨ task = .closed) ∧
        c' = { c with inbox := inbox, task := task }) ∨
      ∃ rx, c.task = .selecting true rx ∧ c.inbox = [] ∧ c.hungUp = true ∧
        c' = { c with task := .select false rx } := by
  unfold pollSocket at h
  split at h
  · next rx htask =>
    split at h
    · next inbox hinbox =>
      exact Or.inr (Or.inl ⟨.ok, inbox, _, hinbox, Or.inl rfl, (Option.some.inj h).symm⟩)
    · next inbox hinbox =>
      exact Or.inr (Or.inl ⟨.err, inbox, _, hinbox, Or.inr rfl, (Option.some.inj h).symm⟩)
    · next hinbox =>
      split at h
      · next hgone =>
        exact Or.inr (Or.inr ⟨rx, htask, hinbox, hgone, (Option.some.inj h).symm⟩)
      · exact Or.inl (Option.some.inj h).symm
  · cases h

/-- An event is taken up; a receiver that has been overtaken disables the branch. -/
theorem pollRx_cases (h : c.pollRx = some c') :
    ∃ socket, c.task = .selecting socket true ∧
      (¬ c.gateway.Overtaken c.rx ∧ (c' = c ∨ ∃ event, c.gateway.sent[c.rx]? = some event ∧
          c' = { c with rx := c.rx + 1, task := .sending event }) ∨
        c.gateway.Overtaken c.rx ∧
          c' = { c with
            rx := c.gateway.sent.length - c.gateway.capacity, task := .select socket false }) := by
  unfold pollRx at h
  split at h
  · next socket htask =>
    refine ⟨socket, htask, ?_⟩
    by_cases hlag : c.gateway.Overtaken c.rx
    · rw [Broadcast.Channel.recv_of_overtaken hlag] at h
      exact Or.inr ⟨hlag, (Option.some.inj h).symm⟩
    · refine Or.inl ⟨hlag, ?_⟩
      rcases Broadcast.Channel.recv_of_not_overtaken hlag with ⟨event, hevent, hrecv⟩ | hrecv
      · rw [hrecv] at h
        exact Or.inr ⟨event, hevent, (Option.some.inj h).symm⟩
      · rw [hrecv] at h
        exact Or.inl (Option.some.inj h).symm
  · cases h

theorem pollRx_of_overtaken {socket : Bool} (htask : c.task = .selecting socket true)
    (hlag : c.gateway.Overtaken c.rx) :
    c.pollRx = some { c with
      rx := c.gateway.sent.length - c.gateway.capacity, task := .select socket false } := by
  rw [pollRx, htask, Broadcast.Channel.recv_of_overtaken hlag]

/-! ### Every run -/

/-- What holds in every run: what is sent or being sent are events of the gateway in order, and the
branch of the socket is disabled only when the client is gone. -/
structure Kept (capacity : Nat) (c : Connection) : Prop where
  capacity : c.gateway.capacity = capacity
  received : Broadcast.Received c.gateway c.start c.rx (c.sent ++ c.task.pending)
  gone : ∀ rx, c.task = .selecting false rx → c.inbox = [] ∧ c.hungUp = true

theorem Kept.sent (h : Kept capacity c) : Broadcast.Received c.gateway c.start c.rx c.sent :=
  h.received.of_sublist (List.sublist_append_left _ _)

theorem Kept.of_sent {task : SocketTask} {inbox : List Frame} (h : Kept capacity c)
    (hpending : task.pending = [])
    (hgone : ∀ rx, task = .selecting false rx → inbox = [] ∧ c.hungUp = true) :
    Kept capacity { c with inbox := inbox, task := task } where
  capacity := h.capacity
  received := by
    rw [hpending, List.append_nil]
    exact h.sent
  gone := hgone

theorem kept_opened (gateway : WsGateway) : Kept gateway.capacity (opened gateway) where
  capacity := rfl
  received := .subscribe
  gone _ h := by cases h

theorem Kept.sendReturns {isErr : Bool} (h : Kept capacity c)
    (hstep : c.sendReturns isErr = some c') : Kept capacity c' := by
  rcases sendReturns_cases hstep with rfl | rfl
  · exact h.of_sent rfl (fun _ => nofun)
  · exact ⟨h.capacity, (List.append_nil (c.sent ++ _)).symm ▸ h.received, fun _ => nofun⟩

theorem Kept.pollSocket (h : Kept capacity c) (hstep : c.pollSocket = some c') :
    Kept capacity c' := by
  rcases pollSocket_cases hstep with rfl | ⟨frame, inbox, task, -, htask, rfl⟩ |
    ⟨rx, -, hinbox, hgone, rfl⟩
  · exact h
  · rcases htask with rfl | rfl
    · exact h.of_sent rfl (fun _ => nofun)
    · exact h.of_sent rfl (fun _ => nofun)
  · exact h.of_sent (SocketTask.pending_select false rx) (fun _ _ => ⟨hinbox, hgone⟩)

theorem Kept.pollRx (h : Kept capacity c) (hstep : c.pollRx = some c') : Kept capacity c' := by
  obtain ⟨socket, htask, ⟨-, rfl | ⟨event, hevent, rfl⟩⟩ | ⟨hlag, rfl⟩⟩ := pollRx_cases hstep
  · exact h
  · exact ⟨h.capacity, h.sent.next hevent, fun _ => nofun⟩
  · refine ⟨h.capacity, ?_, fun rx hselect => ?_⟩
    · rw [SocketTask.pending_select, List.append_nil]
      exact h.sent.lagged hlag
    · cases socket with
      | true => cases hselect
      | false => cases hselect

theorem Kept.step (h : Kept capacity c) (hstep : c.step action = some c') : Kept capacity c' := by
  cases action with
  | broadcast event =>
    obtain rfl := Option.some.inj hstep
    exact ⟨h.capacity, h.received.send event, h.gone⟩
  | frame frame =>
    rw [Connection.step] at hstep
    split at hstep
    · cases hstep
    · next hopen =>
      obtain rfl := Option.some.inj hstep
      exact ⟨h.capacity, h.received, fun rx hrx => absurd (h.gone rx hrx).2 hopen⟩
  | hangUp =>
    obtain rfl := Option.some.inj hstep
    exact ⟨h.capacity, h.received, fun rx hrx => ⟨(h.gone rx hrx).1, rfl⟩⟩
  | sendReturns isErr => exact h.sendReturns hstep
  | pollSocket => exact h.pollSocket hstep
  | pollRx => exact h.pollRx hstep

end Connection

theorem kept_of_reachable {capacity : Nat} {c : Connection}
    (h : Reachable (handleSocket capacity) c) : c.Kept capacity := by
  refine h.invariant ?_ fun _ _ _ hkept hstep _ => hkept.step hstep
  rintro _ ⟨gateway, rfl, rfl⟩
  exact Connection.kept_opened gateway

namespace Connection

variable {capacity : Nat} {c c' : Connection} {action : SocketAction}

/-! ### Runs in time -/

/-- Where the branch of the receiver is disabled, a frame of the client will end the `select!`. -/
structure Flowing (c : Connection) : Prop where
  readable : ∀ socket, c.task = .selecting socket false → c.inbox ≠ []
  enabled : c.task ≠ .panicked

theorem Flowing.of_busy {task : SocketTask} (c : Connection) (hbusy : ∀ socket,
    task ≠ .selecting socket false) (henabled : task ≠ .panicked) :
    Flowing { c with task := task } :=
  ⟨fun socket h => absurd h (hbusy socket), henabled⟩

theorem Flowing.pollSocket (h : Flowing c) (hstep : c.pollSocket = some c') : Flowing c' := by
  rcases pollSocket_cases hstep with rfl | ⟨frame, inbox, task, -, htask, rfl⟩ |
    ⟨rx, hselect, hinbox, -, rfl⟩
  · exact h
  · rcases htask with rfl | rfl
    · exact of_busy { c with inbox := inbox } (fun _ => nofun) nofun
    · exact of_busy { c with inbox := inbox } (fun _ => nofun) nofun
  · cases rx with
    | true => exact of_busy c (fun _ => nofun) nofun
    | false => exact absurd hinbox (h.readable true hselect)

theorem Flowing.pollRx (h : Flowing c) (hkept : Kept capacity c) (htimely : c.Timely .pollRx)
    (hstep : c.pollRx = some c') : Flowing c' := by
  obtain ⟨socket, htask, ⟨-, rfl | ⟨event, -, rfl⟩⟩ | ⟨hlag, rfl⟩⟩ := pollRx_cases hstep
  · exact h
  · exact of_busy { c with rx := c.rx + 1 } (fun _ => nofun) nofun
  · have hinbox : c.inbox ≠ [] := htimely hlag
    cases socket with
    | true => exact ⟨fun _ _ => hinbox, nofun⟩
    | false => exact absurd (hkept.gone true htask).1 hinbox

theorem Flowing.step (h : Flowing c) (hkept : Kept capacity c) (htimely : c.Timely action)
    (hstep : c.step action = some c') : Flowing c' := by
  cases action with
  | broadcast event =>
    obtain rfl := Option.some.inj hstep
    exact ⟨h.readable, h.enabled⟩
  | frame frame =>
    rw [Connection.step] at hstep
    split at hstep
    · cases hstep
    · obtain rfl := Option.some.inj hstep
      exact ⟨fun _ _ => by simp, h.enabled⟩
  | hangUp =>
    obtain rfl := Option.some.inj hstep
    exact ⟨h.readable, h.enabled⟩
  | sendReturns isErr =>
    rcases sendReturns_cases hstep with rfl | rfl
    · exact of_busy c (fun _ => nofun) nofun
    · exact of_busy { c with sent := c.sent ++ c.task.pending } (fun _ => nofun) nofun
  | pollSocket => exact h.pollSocket hstep
  | pollRx => exact h.pollRx hkept htimely hstep

theorem Flowing.served (h : Flowing c) (hkept : Kept capacity c) : c.Served where
  notStalled := fun ⟨htask, hinbox, _⟩ => h.readable true htask hinbox
  enabled := h.enabled
  inOrder := hkept.sent.sublist_sent

/-- After a poll that is not in time the client is not served, or else it has hung up and the next poll
of the socket panics. -/
theorem not_served_of_not_timely (hkept : Kept capacity c) (hcapacity : 0 < capacity)
    (hstep : c.step action = some c') (h : ¬ c.Timely action) :
    ¬ c'.Served ∨ ∃ c'', c'.step .pollSocket = some c'' ∧ ¬ c''.Served := by
  cases action with
  | pollRx =>
    obtain ⟨hlag, hinbox⟩ := Classical.not_imp.mp h
    rw [ne_eq, not_not] at hinbox
    obtain ⟨socket, -, ⟨hnot, -⟩ | ⟨-, rfl⟩⟩ := pollRx_cases hstep
    · exact absurd hlag hnot
    · cases socket with
      | false => exact Or.inl fun hserved => hserved.enabled rfl
      | true =>
        by_cases hgone : c.hungUp = true
        · have hpanic : ({ c with
              rx := c.gateway.sent.length - c.gateway.capacity
              task := .selecting true false } : Connection).step .pollSocket =
              some { c with
                rx := c.gateway.sent.length - c.gateway.capacity, task := .panicked } := by
            simp [Connection.step, pollSocket, SocketTask.select, hinbox, hgone]
          exact Or.inr ⟨_, hpanic, fun hserved => hserved.enabled rfl⟩
        · have hwaiting : c.gateway.kept (c.gateway.sent.length - c.gateway.capacity) ≠ [] :=
            Broadcast.Channel.kept_ne_nil (hkept.capacity ▸ hcapacity) hlag
          exact Or.inl fun hserved =>
            hserved.notStalled ⟨rfl, hinbox, Bool.eq_false_iff.mpr hgone, hwaiting⟩
  | _ => exact absurd trivial h

end Connection

theorem flowing_of_reach {capacity : Nat} {c : Connection}
    (h : Reach (handleSocket capacity) Connection.Timely c) : c.Flowing := by
  refine h.invariant_of (fun c hreach => kept_of_reachable hreach.reachable) ?_ ?_
  · rintro _ ⟨gateway, -, rfl⟩
    exact ⟨fun _ => nofun, nofun⟩
  · exact fun c action c' hkept hflowing hstep htimely => hflowing.step hkept htimely hstep

/-- As long as every poll of `rx` is in time the client is served, whatever is broadcast and whatever the
client does; the first poll that is not in time ends this. -/
theorem served_of_timely {capacity : Nat} (hcapacity : eventBuffer ≤ capacity) :
    (∀ c, Reach (handleSocket capacity) Connection.Timely c → c.Served) ∧
      ∀ c action c', Reachable (handleSocket capacity) c → c.step action = some c' →
        ¬ c.Timely action →
          ¬ c'.Served ∨ ∃ c'', c'.step .pollSocket = some c'' ∧ ¬ c''.Served := by
  constructor
  · intro c h
    exact (flowing_of_reach h).served (kept_of_reachable h.reachable)
  · intro c action c' h hstep htimely
    have hpos : 0 < capacity := Nat.lt_of_lt_of_le (by decide) hcapacity
    exact Connection.not_served_of_not_timely (kept_of_reachable h) hpos hstep htimely

/-- The creation of workspace `k`. -/
def workspaceEvent (k : Nat) : EventEnvelope where
  id := ⟨BitVec.ofNat 128 k⟩
  occurredAt := k
  actorId := .nil
  resourceId := ⟨BitVec.ofNat 128 k⟩
  correlationId := none
  causationId := none
  revision := 1
  metadata := .null
  payload := .workspaceCreated "w"

/-- A connection that is still greeting its client when `n` workspaces have been created. -/
def slowGreeting (capacity n : Nat) : Connection :=
  { Connection.opened ⟨capacity, []⟩ with
    gateway := ⟨capacity, (List.range n).map workspaceEvent⟩ }

theorem reach_slowGreeting (capacity n : Nat) :
    Reach (handleSocket capacity) Connection.Timely (slowGreeting capacity n) := by
  induction n with
  | zero => exact .init ⟨⟨capacity, []⟩, rfl, rfl⟩
  | succ n ih =>
    refine .step (.broadcast (workspaceEvent n)) ih (congrArg some ?_) trivial
    simp [slowGreeting, WsGateway.broadcast, Broadcast.Channel.send, List.range_succ]

/-- The greeting has returned. -/
def slowlyGreeted (capacity n : Nat) : Connection :=
  { slowGreeting capacity n with task := .selecting true true }

/-- More events than the channel keeps were broadcast during the greeting, and `rx` has been polled. -/
def overtakenClient (capacity n : Nat) : Connection :=
  { slowGreeting capacity n with rx := n - capacity, task := .selecting true false }

theorem overtaken_slowlyGreeted {capacity n : Nat} (h : capacity < n) :
    (slowlyGreeted capacity n).gateway.Overtaken (slowlyGreeted capacity n).rx := by
  show capacity < ((List.range n).map workspaceEvent).length - 0
  rwa [List.length_map, List.length_range]

theorem reach_slowlyGreeted (capacity n : Nat) :
    Reach (handleSocket capacity) Connection.Timely (slowlyGreeted capacity n) :=
  .step (.sendReturns false) (reach_slowGreeting capacity n) rfl trivial

theorem step_slowlyGreeted {capacity n : Nat} (h : capacity < n) :
    (slowlyGreeted capacity n).step .pollRx = some (overtakenClient capacity n) := by
  refine (Connection.pollRx_of_overtaken rfl (overtaken_slowlyGreeted h)).trans (congrArg some ?_)
  simp [overtakenClient, slowlyGreeted, slowGreeting, SocketTask.select]

/-- Events are kept for it, but without a frame it gets none of them. -/
theorem stalled_overtakenClient {capacity n : Nat} (hcapacity : 0 < capacity) (h : capacity < n) :
    (overtakenClient capacity n).Stalled := by
  have hkept := Broadcast.Channel.kept_ne_nil hcapacity (overtaken_slowlyGreeted h)
  refine ⟨rfl, rfl, rfl, ?_⟩
  simpa [overtakenClient, slowlyGreeted, slowGreeting] using hkept

/-- The 129th event of a slow greeting is one too many for a channel that keeps 128. -/
theorem not_served_slowGreeting : ¬ ∀ c, Reachable (handleSocket 128) c → c.Served := by
  intro hserved
  have hreach : Reachable (handleSocket 128) (overtakenClient 128 129) :=
    .step .pollRx (reach_slowlyGreeted 128 129).reachable (step_slowlyGreeted (by decide)) trivial
  exact (hserved _ hreach).notStalled (stalled_overtakenClient (by decide) (by decide))

theorem served_of_timely_slowGreeting :
    (slowlyGreeted 128 128).Served ∧
      (¬ (overtakenClient 128 129).Served ∨ ∃ c'',
        (overtakenClient 128 129).step .pollSocket = some c'' ∧ ¬ c''.Served) := by
  obtain ⟨hserved, hlost⟩ := served_of_timely (by decide : eventBuffer ≤ 128)
  refine ⟨hserved _ (reach_slowlyGreeted 128 128), ?_⟩
  refine hlost _ .pollRx _ (reach_slowlyGreeted 128 129).reachable (step_slowlyGreeted (by decide)) ?_
  exact fun htimely => htimely (overtaken_slowlyGreeted (by decide)) rfl

end SamtaDashboard
