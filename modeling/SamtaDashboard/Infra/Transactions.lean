import SamtaDashboard.Infra.Persistence
import SamtaDashboard.Lib.Transition

/-!
# `infra::persistence`: the transactions of `append`

`append` is a transaction: it takes the advisory lock of the aggregate, reads `MAX(revision)`, checks
and inserts one event after the other and commits. Here these are single steps of any number of
transactions side by side. A statement sees the committed rows and those of its own transaction; an
insert waits while another open transaction has inserted the same primary key. A lock is held to the
end of the transaction, two aggregates may have the same lock, and a transaction may fail at any step.

Whatever the interleaving, the committed log is the one that the committed appends leave when they run
one after the other (`committed_serial`); so the rest of the development takes `append` for one step.
-/

namespace SamtaDashboard

open Transition

/-- A call of `append` by what its transaction has done so far. -/
inductive Transaction where
  | idle
  /-- `pool.begin()` -/
  | begun (aggregateId : Uuid) (events : List EventEnvelope)
  /-- `pg_advisory_xact_lock` -/
  | locked (aggregateId : Uuid) (events : List EventEnvelope)
  /-- `SELECT COALESCE(MAX(revision), 0)` and some inserts: `expected` is the local variable, `rows`
  are the rows inserted and `rest` are the events still to insert -/
  | inserting (aggregateId : Uuid) (events : List EventEnvelope) (expected : Int)
    (rows rest : List EventEnvelope)

namespace Transaction

def rows : Transaction → List EventEnvelope
  | inserting _ _ _ rows _ => rows
  | _ => []

def locks : Transaction → Option Uuid
  | locked aggregateId _ | inserting aggregateId .. => some aggregateId
  | _ => none

end Transaction

/-- The committed rows, the committed appends in the order of their commits, and the transactions. -/
structure Database where
  log : EventLog
  commits : List (Uuid × List EventEnvelope)
  transactions : Nat → Transaction

namespace Database

def init : Database := ⟨[], [], fun _ => .idle⟩

/-- The rows that a statement of transaction `t` sees. -/
def visible (s : Database) (t : Nat) : EventLog := s.log ++ (s.transactions t).rows

def setTransaction (s : Database) (t : Nat) (transaction : Transaction) : Database :=
  { s with transactions := Function.update s.transactions t transaction }

def LockFree {H : Type} (hashtext : Uuid → H) (s : Database) (aggregateId : Uuid) : Prop :=
  ∀ t, ∀ a ∈ (s.transactions t).locks, hashtext a ≠ hashtext aggregateId

end Database

inductive TransactionStep where
  | begin (t : Nat) (aggregateId : Uuid) (events : List EventEnvelope)
  | lock (t : Nat)
  | readMax (t : Nat)
  | insert (t : Nat)
  | commit (t : Nat)
  /-- an error of `append` or of the database -/
  | rollback (t : Nat)

open Database in
inductive Database.Step {H : Type} (hashtext : Uuid → H) (s : Database) :
    TransactionStep → Database → Prop
  | begin {t : Nat} {aggregateId : Uuid} {events : List EventEnvelope} :
      s.transactions t = .idle → events.isEmpty = false →
      Step hashtext s (.begin t aggregateId events) (s.setTransaction t (.begun aggregateId events))
  | lock {t : Nat} {aggregateId : Uuid} {events : List EventEnvelope} :
      s.transactions t = .begun aggregateId events → s.LockFree hashtext aggregateId →
      Step hashtext s (.lock t) (s.setTransaction t (.locked aggregateId events))
  | readMax {t : Nat} {aggregateId : Uuid} {events : List EventEnvelope} :
      s.transactions t = .locked aggregateId events →
      Step hashtext s (.readMax t) (s.setTransaction t
        (.inserting aggregateId events (latestRevision (s.visible t) aggregateId) [] events))
  | insert {t : Nat} {aggregateId : Uuid} {events rows rest : List EventEnvelope} {expected : Int}
      {event : EventEnvelope} :
      s.transactions t = .inserting aggregateId events expected rows (event :: rest) →
      event.revision = expected + 1 →
      (∀ x ∈ s.visible t, x.id ≠ event.id) →
      -- the primary key is also compared with rows that are not committed yet
      (∀ t' ≠ t, ∀ x ∈ (s.transactions t').rows, x.id ≠ event.id) →
      Step hashtext s (.insert t) (s.setTransaction t
        (.inserting aggregateId events (expected + 1) (rows ++ [bindTo aggregateId event]) rest))
  | commit {t : Nat} {aggregateId : Uuid} {events rows : List EventEnvelope} {expected : Int} :
      s.transactions t = .inserting aggregateId events expected rows [] →
      Step hashtext s (.commit t)
        { s.setTransaction t .idle with
          log := s.log ++ rows
          commits := s.commits ++ [(aggregateId, events)] }
  | rollback {t : Nat} : Step hashtext s (.rollback t) (s.setTransaction t .idle)

/-- Appends side by side on an empty log. -/
def transactions {H : Type} (hashtext : Uuid → H) : System Database TransactionStep where
  init := (· = Database.init)
  step := Database.Step hashtext

/-- The appends run one after the other. -/
def runAppends (appends : List (Uuid × List EventEnvelope)) (log : EventLog) :
    Except String EventLog :=
  appends.foldlM (fun log x => append log x.1 x.2) log

/-! ### The invariant -/

/-- The events `done` have been checked and can be inserted into the log as they are. -/
structure Inserted (log : EventLog) (aggregateId : Uuid) (expected : Int)
    (done : List EventEnvelope) : Prop where
  consecutive : Consecutive (latestRevision log aggregateId) done
  expected_eq : expected = latestRevision log aggregateId + done.length
  nodup : (done.map (·.id)).Nodup
  fresh : ∀ e ∈ done, ∀ x ∈ log, x.id ≠ e.id

/-- What holds of an open transaction. -/
def Transaction.Inv (log : EventLog) : Transaction → Prop
  | inserting aggregateId events expected rows rest => ∃ done, events = done ++ rest ∧
      rows = done.map (bindTo aggregateId) ∧ Inserted log aggregateId expected done
  | _ => True

structure Database.Inv {H : Type} (hashtext : Uuid → H) (s : Database) : Prop where
  serial : runAppends s.commits [] = .ok s.log
  gapFree : GapFree s.log
  transactions : ∀ t, (s.transactions t).Inv s.log
  exclusive : ∀ t t', t ≠ t' → ∀ a ∈ (s.transactions t).locks, ∀ a' ∈ (s.transactions t').locks,
    hashtext a ≠ hashtext a'
  disjoint : ∀ t t', t ≠ t' → ∀ x ∈ (s.transactions t).rows, ∀ y ∈ (s.transactions t').rows,
    x.id ≠ y.id

section inserted

variable {log rows : EventLog} {aggregateId : Uuid} {expected : Int} {done : List EventEnvelope}

theorem Inserted.nil : Inserted log aggregateId (latestRevision log aggregateId) [] where
  consecutive := trivial
  expected_eq := by simp
  nodup := List.nodup_nil
  fresh := by simp

theorem Inserted.insert (h : Inserted log aggregateId expected done) {event : EventEnvelope}
    (hrevision : event.revision = expected + 1) (hlog : ∀ x ∈ log, x.id ≠ event.id)
    (hdone : ∀ x ∈ done, x.id ≠ event.id) :
    Inserted log aggregateId (expected + 1) (done ++ [event]) where
  consecutive := by
    refine consecutive_append.mpr ⟨h.consecutive, ?_, trivial⟩
    rw [hrevision, h.expected_eq]
  expected_eq := by
    rw [h.expected_eq, List.length_append, List.length_singleton, Nat.cast_add, Nat.cast_one,
      add_assoc]
  nodup := by
    rw [List.map_append, List.nodup_append']
    refine ⟨h.nodup, List.nodup_singleton _, fun id hid hevent => ?_⟩
    obtain ⟨x, hx, rfl⟩ := List.mem_map.mp hid
    exact hdone x hx (List.mem_singleton.mp hevent)
  fresh := by
    rw [List.forall_mem_append, List.forall_mem_singleton]
    exact ⟨h.fresh, hlog⟩

theorem Inserted.mono (h : Inserted log aggregateId expected done)
    (hstream : stream rows aggregateId = []) (hids : ∀ e ∈ done, ∀ x ∈ rows, x.id ≠ e.id) :
    Inserted (log ++ rows) aggregateId expected done := by
  have hlatest : latestRevision (log ++ rows) aggregateId = latestRevision log aggregateId := by
    rw [latestRevision, stream_append, hstream, List.append_nil, latestRevision]
  refine ⟨hlatest ▸ h.consecutive, hlatest ▸ h.expected_eq, h.nodup, fun e he x hx => ?_⟩
  rcases List.mem_append.mp hx with hx | hx
  · exact h.fresh e he x hx
  · exact hids e he x hx

theorem Inserted.append_eq_ok (h : Inserted log aggregateId expected done) :
    append log aggregateId done = .ok (log ++ done.map (bindTo aggregateId)) :=
  SamtaDashboard.append_eq_ok.mpr ⟨rfl, h.consecutive, h.nodup, h.fresh⟩

end inserted

/-! ### The steps keep the invariant -/

section steps

variable {H : Type} {hashtext : Uuid → H} {s s' : Database} {t : Nat}

theorem Database.transactions_setTransaction (s : Database) (t t' : Nat) (p : Transaction) :
    (s.setTransaction t p).transactions t' = if t' = t then p else s.transactions t' :=
  Function.update_apply ..

theorem Database.Inv.init : Database.init.Inv hashtext where
  serial := rfl
  gapFree := fun _ => trivial
  transactions := fun _ => trivial
  exclusive := by simp [Database.init, Transaction.locks]
  disjoint := by simp [Database.init, Transaction.rows]

theorem Database.Inv.setTransaction (h : s.Inv hashtext) {p : Transaction} (hp : p.Inv s.log)
    (hlocks : ∀ t' ≠ t, ∀ a ∈ p.locks, ∀ a' ∈ (s.transactions t').locks, hashtext a' ≠ hashtext a)
    (hrows : ∀ t' ≠ t, ∀ x ∈ p.rows, ∀ y ∈ (s.transactions t').rows, y.id ≠ x.id) :
    (s.setTransaction t p).Inv hashtext where
  serial := h.serial
  gapFree := h.gapFree
  transactions := fun t' => by
    rw [transactions_setTransaction]
    split
    · exact hp
    · exact h.transactions t'
  exclusive := fun t₁ t₂ hne => by
    rw [transactions_setTransaction, transactions_setTransaction]
    split
    · next h₁ =>
      rw [if_neg fun h₂ => hne (h₁.trans h₂.symm)]
      exact fun a ha a' ha' => (hlocks t₂ (h₁ ▸ hne.symm) a ha a' ha').symm
    · next h₁ =>
      split
      · exact fun a ha a' ha' => hlocks t₁ h₁ a' ha' a ha
      · exact h.exclusive t₁ t₂ hne
  disjoint := fun t₁ t₂ hne => by
    rw [transactions_setTransaction, transactions_setTransaction]
    split
    · next h₁ =>
      rw [if_neg fun h₂ => hne (h₁.trans h₂.symm)]
      exact fun x hx y hy => (hrows t₂ (h₁ ▸ hne.symm) x hx y hy).symm
    · next h₁ =>
      split
      · exact fun x hx y hy => hrows t₁ h₁ y hy x hx
      · exact h.disjoint t₁ t₂ hne

/-- A commit: the others hold other locks, so they have read other streams. -/
theorem Database.Inv.commit (h : s.Inv hashtext) {aggregateId : Uuid} {expected : Int}
    {events rows : List EventEnvelope}
    (hphase : s.transactions t = .inserting aggregateId events expected rows []) :
    Database.Inv hashtext { s.setTransaction t .idle with
      log := s.log ++ rows
      commits := s.commits ++ [(aggregateId, events)] } := by
  have hknown := h.transactions t
  rw [hphase] at hknown
  obtain ⟨done, hevents, hrows, hinserted⟩ := hknown
  rw [List.append_nil] at hevents
  subst hevents hrows
  have hidle : (s.setTransaction t .idle).Inv hashtext :=
    h.setTransaction trivial (by simp [Transaction.locks]) (by simp [Transaction.rows])
  refine ⟨?_, h.gapFree.of_append hinserted.append_eq_ok, fun t' => ?_, hidle.exclusive,
    hidle.disjoint⟩
  · rw [runAppends, List.foldlM_append, ← runAppends, h.serial]
    show append s.log aggregateId events >>= pure = _
    rw [hinserted.append_eq_ok]
    rfl
  · show ((s.setTransaction t .idle).transactions t').Inv (s.log ++ events.map (bindTo aggregateId))
    rw [transactions_setTransaction]
    split
    · trivial
    · next hne =>
      have hother := h.transactions t'
      have hexclusive := h.exclusive t t' (Ne.symm hne)
      have hdisjoint := h.disjoint t t' (Ne.symm hne)
      rw [hphase] at hexclusive hdisjoint
      cases hp : s.transactions t' with
      | idle | begun _ _ | locked _ _ => trivial
      | inserting aggregateId' events' expected' rows' rest' =>
        rw [hp] at hother hexclusive hdisjoint
        obtain ⟨done', rfl, rfl, hinserted'⟩ := hother
        refine ⟨done', rfl, rfl, hinserted'.mono ?_ fun e he x hx => ?_⟩
        · rw [stream_map_bindTo, if_neg]
          rintro rfl
          exact hexclusive _ rfl _ rfl rfl
        · exact hdisjoint x hx (bindTo aggregateId' e) (List.mem_map_of_mem he)

theorem Database.Step.inv {a : TransactionStep} (hstep : s.Step hashtext a s')
    (h : s.Inv hashtext) : s'.Inv hashtext := by
  cases hstep with
  | begin => exact h.setTransaction trivial (by simp [Transaction.locks]) (by simp [Transaction.rows])
  | rollback =>
    exact h.setTransaction trivial (by simp [Transaction.locks]) (by simp [Transaction.rows])
  | lock _ hfree =>
    refine h.setTransaction trivial (fun t' _ a ha => ?_) (by simp [Transaction.rows])
    obtain rfl := Option.some.inj ha
    exact hfree t'
  | @readMax t aggregateId events hphase =>
    refine h.setTransaction ⟨[], rfl, rfl, ?_⟩ (fun t' hne a ha => ?_) (by simp [Transaction.rows])
    · rw [visible, hphase]
      show Inserted s.log aggregateId (latestRevision (s.log ++ []) aggregateId) []
      rw [List.append_nil]
      exact .nil
    · refine fun a' ha' => h.exclusive t' t hne a' ha' a ?_
      rw [hphase]
      exact ha
  | @insert t aggregateId events rows rest expected event hphase hrevision hvisible hothers =>
    have hknown := h.transactions t
    rw [hphase] at hknown
    obtain ⟨done, rfl, rfl, hinserted⟩ := hknown
    rw [visible, hphase, Transaction.rows, List.forall_mem_append] at hvisible
    refine h.setTransaction ⟨done ++ [event], by simp, by simp, ?_⟩ (fun t' hne a ha => ?_)
      fun t' hne x hx y hy => ?_
    · refine hinserted.insert hrevision hvisible.1 fun x hx => ?_
      exact hvisible.2 (bindTo aggregateId x) (List.mem_map_of_mem hx)
    · refine fun a' ha' => h.exclusive t' t hne a' ha' a ?_
      rw [hphase]
      exact ha
    · rcases List.mem_append.mp hx with hx | hx
      · refine h.disjoint t' t hne y hy x ?_
        rw [hphase]
        exact hx
      · obtain rfl := List.mem_singleton.mp hx
        exact hothers t' hne y hy
  | commit hphase => exact h.commit hphase

end steps

/-- In every reachable state the revisions of every stream are `1`, `2`, … in commit order, and the
log is the one that the committed appends leave one after the other. -/
theorem committed_serial {H : Type} (hashtext : Uuid → H) {s : Database}
    (h : Reachable (transactions hashtext) s) :
    (∀ r, (stream s.log r).map (·.revision) =
      (List.range (stream s.log r).length).map fun k : Nat => (k : Int) + 1) ∧
      runAppends s.commits [] = .ok s.log := by
  have hinv : s.Inv hashtext :=
    h.invariant (by rintro s rfl; exact .init) fun _ _ _ hinv hstep _ => hstep.inv hinv
  exact ⟨fun r => (hinv.gapFree r).map_revision, hinv.serial⟩

/-! ### Every append can be run as a transaction -/

section run

variable {H : Type} {hashtext : Uuid → H} {s s' : Database} {t : Nat} {r : Uuid}

theorem reachable_next (h : Reachable (transactions hashtext) s) (a : TransactionStep)
    (hstep : s.Step hashtext a s') : Reachable (transactions hashtext) s' :=
  .step a h hstep trivial

theorem Database.setTransaction_self (s : Database) (t : Nat) (p : Transaction) :
    (s.setTransaction t p).transactions t = p :=
  Function.update_self ..

theorem reachable_insertAll {events rows rest : List EventEnvelope} {expected : Int}
    (h : Reachable (transactions hashtext) s)
    (hphase : s.transactions t = .inserting r events expected rows rest)
    (hothers : ∀ t' ≠ t, (s.transactions t').rows = []) (hcons : Consecutive expected rest)
    (hnodup : (rest.map (·.id)).Nodup) (hfresh : ∀ e ∈ rest, ∀ x ∈ s.log ++ rows, x.id ≠ e.id) :
    ∃ expected', Reachable (transactions hashtext) (s.setTransaction t
      (.inserting r events expected' (rows ++ rest.map (bindTo r)) [])) := by
  induction rest generalizing s expected rows with
  | nil =>
    refine ⟨expected, ?_⟩
    rwa [List.map_nil, List.append_nil, ← hphase, Database.setTransaction, Function.update_eq_self]
  | cons event rest ih =>
    rw [List.map_cons, List.nodup_cons] at hnodup
    rw [List.forall_mem_cons] at hfresh
    have hinsert := reachable_next h (.insert t) (.insert hphase hcons.1
      (by rw [Database.visible, hphase]; exact hfresh.1) fun t' hne x hx => by
        rw [hothers t' hne] at hx
        cases hx)
    have hothers' : ∀ t' ≠ t, ((s.setTransaction t (.inserting r events (expected + 1)
        (rows ++ [bindTo r event]) rest)).transactions t').rows = [] := by
      intro t' hne
      rw [Database.transactions_setTransaction, if_neg hne]
      exact hothers t' hne
    have hfresh' : ∀ e ∈ rest, ∀ x ∈ s.log ++ (rows ++ [bindTo r event]), x.id ≠ e.id := by
      intro e he x hx
      rw [← List.append_assoc] at hx
      rcases List.mem_append.mp hx with hx | hx
      · exact hfresh.2 e he x hx
      · obtain rfl := List.mem_singleton.mp hx
        exact fun heq => hnodup.1 (List.mem_map.mpr ⟨e, he, heq.symm⟩)
    obtain ⟨expected', hrest⟩ := ih hinsert (Database.setTransaction_self ..) hothers'
      (hcons.1 ▸ hcons.2) hnodup.2 hfresh'
    refine ⟨expected', ?_⟩
    simpa [Database.setTransaction] using hrest

theorem reachable_append {events : List EventEnvelope} {log' : EventLog}
    (h : Reachable (transactions hashtext) s) (hidle : ∀ t, s.transactions t = .idle)
    (hne : events.isEmpty = false) (happ : append s.log r events = .ok log') :
    Reachable (transactions hashtext) ⟨log', s.commits ++ [(r, events)], fun _ => .idle⟩ := by
  obtain ⟨rfl, hcons, hnodup, hfresh⟩ := append_eq_ok.mp happ
  have hbegin := reachable_next h (.begin 0 r events) (.begin (hidle 0) hne)
  have hother : ∀ (p : Transaction) (t : Nat), t ≠ 0 →
      (s.setTransaction 0 p).transactions t = .idle := by
    intro p t hne
    rw [Database.transactions_setTransaction, if_neg hne, hidle t]
  have hlock := reachable_next hbegin (.lock 0) (.lock (Database.setTransaction_self ..) fun t a ha => by
    by_cases ht : t = 0
    · rw [ht, Database.transactions_setTransaction, if_pos rfl] at ha
      cases ha
    · rw [hother _ t ht] at ha
      cases ha)
  have hread := reachable_next hlock (.readMax 0) (.readMax (Database.setTransaction_self ..))
  simp only [Database.setTransaction, Function.update_idem] at hread
  obtain ⟨expected, hinserted⟩ := reachable_insertAll hread (Function.update_self ..)
    (fun t' hne => by
      show (Function.update s.transactions 0 _ t').rows = []
      rw [Function.update_of_ne hne, hidle t']
      rfl)
    (by simpa [Database.visible, Transaction.rows] using hcons) hnodup
    (by simpa using hfresh)
  have hcommit := reachable_next hinserted (.commit 0) (.commit (Database.setTransaction_self ..))
  have hend : Function.update s.transactions 0 .idle = fun _ => .idle := by
    funext t
    rw [Function.update_apply, hidle t, ite_self]
  simpa [Database.setTransaction, hend] using hcommit

end run

def sampleEvent (id : Nat) (revision : Int) : EventEnvelope where
  id := ⟨BitVec.ofNat 128 id⟩
  occurredAt := 0
  actorId := ⟨2⟩
  resourceId := ⟨1⟩
  correlationId := none
  causationId := none
  revision := revision
  metadata := .null
  payload := .workspaceCreated ""

theorem committed_serial_two :
    runAppends [(⟨1⟩, [sampleEvent 10 1]), (⟨1⟩, [sampleEvent 11 2])] [] =
      .ok [sampleEvent 10 1, sampleEvent 11 2] :=
  (committed_serial (fun _ => ()) (reachable_append (reachable_append (.init rfl) (fun _ => rfl) rfl
    (rfl : append [] ⟨1⟩ [sampleEvent 10 1] = .ok [sampleEvent 10 1])) (fun _ => rfl) rfl
    (by rfl : append [sampleEvent 10 1] ⟨1⟩ [sampleEvent 11 2] = .ok [sampleEvent 10 1, sampleEvent 11 2]))).2

end SamtaDashboard
