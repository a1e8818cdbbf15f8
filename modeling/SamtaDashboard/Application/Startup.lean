import SamtaDashboard.Application.Executors
import SamtaDashboard.Lib.Backoff

/-!
# Waiting for the database

The API and the workers begin with `connect_with_retry`, of which each has its own copy. It connects until
a connection is made and the events can be loaded from it, where `wait_for_store_ready` waits for the
tables in a loop of its own. Both loops sleep between their attempts, twice as long each time up to five
seconds.

The copies read other variables and sleep at other places, but they do the same: `startup_agrees`.
-/

namespace SamtaDashboard

open Backoff

/-- An `anyhow::Error`: its message and the ones that it was caused by. -/
abbrev ErrorChain := List String

/-- What the database answers to attempt `k` to connect, and to load `j` over that connection. -/
structure DatabaseAnswers where
  connect : Nat → Except ErrorChain Unit
  load : Nat → Nat → Except ErrorChain Unit

/-! ### Settings -/

/-- `text.parse::<u32>().ok()` and `text.parse::<u64>().ok()`: a plus sign and at least one digit, below
`2 ^ bits`. -/
def parseUnsigned (bits : Nat) (text : List Char) : Option Nat :=
  let digits := match text with
    | '+' :: rest => rest
    | _ => text
  if digits.isEmpty then none else (Text.digits? digits).filter (· < 2 ^ bits)

/-- `read_u32_env`. -/
def readU32Env (env : Env) (key : String) (default : Nat) : Nat :=
  ((env key).bind fun value => parseUnsigned 32 value.toList).getD default

/-- `read_u64_env`. -/
def readU64Env (env : Env) (key : String) (default : Nat) : Nat :=
  ((env key).bind fun value => parseUnsigned 64 value.toList).getD default

structure StartSettings where
  maxAttempts : Nat
  backoffMs : Nat
  maxSchemaAttempts : Nat
  schemaBackoffMs : Nat

/-- `std::cmp::min(backoff_ms.saturating_mul(2), 5_000)`. -/
def nextBackoff (backoffMs : Nat) : Nat := min (min (backoffMs * 2) (2 ^ 64 - 1)) 5000

/-! ### The loops -/

/-- The loop of `wait_for_store_ready`, the same in both programs. -/
def waitForStoreReady (load : Nat → Except ErrorChain Unit) (maxAttempts attempts backoffMs : Nat) :
    Slept ErrorChain Unit :=
  match load attempts with
  | .ok _ => (.ok (), [])
  | .error err =>
    if maxAttempts ≤ attempts + 1 then (.error ("event store schema not available" :: err), [])
    else
      let rest := waitForStoreReady load maxAttempts (attempts + 1) (nextBackoff backoffMs)
      (rest.1, backoffMs :: rest.2)
termination_by maxAttempts - attempts

namespace Api

/-- The settings of `connect_with_retry` in `api/src/main.rs`. -/
def startSettings (env : Env) : StartSettings where
  maxAttempts := readU32Env env "API_DB_CONNECT_ATTEMPTS" 12
  backoffMs := readU64Env env "API_DB_CONNECT_BACKOFF_MS" 250
  maxSchemaAttempts := readU32Env env "API_DB_SCHEMA_ATTEMPTS" 10
  schemaBackoffMs := readU64Env env "API_DB_SCHEMA_BACKOFF_MS" 250

/-- The loop of `connect_with_retry` in `api/src/main.rs`; the result is the attempt whose connection is
used. -/
def connectWithRetry (db : DatabaseAnswers) (settings : StartSettings) (attempts backoffMs : Nat) :
    Slept ErrorChain Nat :=
  match db.connect attempts with
  | .ok _ =>
    match waitForStoreReady (db.load attempts) settings.maxSchemaAttempts 0 settings.schemaBackoffMs with
    | (.error err, slept) =>
      if settings.maxAttempts ≤ attempts + 1 then
        (.error ("Postgres ready check failed before timeout" :: err), slept)
      else
        let rest := connectWithRetry db settings (attempts + 1) (nextBackoff backoffMs)
        (rest.1, slept ++ backoffMs :: rest.2)
    | (.ok _, slept) => (.ok attempts, slept)
  | .error err =>
    if settings.maxAttempts ≤ attempts + 1 then
      (.error ("failed to connect to Postgres before timeout" :: err), [])
    else
      let rest := connectWithRetry db settings (attempts + 1) (nextBackoff backoffMs)
      (rest.1, backoffMs :: rest.2)
termination_by settings.maxAttempts - attempts

/-- `connect_with_retry` in `api/src/main.rs`. -/
def start (env : Env) (db : DatabaseAnswers) : Slept ErrorChain Nat :=
  connectWithRetry db (startSettings env) 0 (startSettings env).backoffMs

end Api

namespace WorkerBin

/-- The settings of `connect_with_retry` in `bin/worker.rs`. -/
def startSettings (env : Env) : StartSettings where
  maxAttempts := readU32Env env "WORKER_DB_CONNECT_ATTEMPTS" 12
  backoffMs := readU64Env env "WORKER_DB_CONNECT_BACKOFF_MS" 250
  maxSchemaAttempts := readU32Env env "WORKER_DB_SCHEMA_ATTEMPTS" 10
  schemaBackoffMs := readU64Env env "WORKER_DB_SCHEMA_BACKOFF_MS" 250

/-- The `match` in the loop of `connect_with_retry` in `bin/worker.rs`: what it returns, or `none` where the
loop goes on. -/
def connectAttempt (db : DatabaseAnswers) (settings : StartSettings) (attempts : Nat) :
    Option (Except ErrorChain Nat) × List Nat :=
  match db.connect attempts with
  | .ok _ =>
    match waitForStoreReady (db.load attempts) settings.maxSchemaAttempts 0 settings.schemaBackoffMs with
    | (.error err, slept) =>
      if settings.maxAttempts ≤ attempts + 1 then
        (some (.error ("Postgres ready check failed before timeout" :: err)), slept)
      else (none, slept)
    | (.ok _, slept) => (some (.ok attempts), slept)
  | .error err =>
    if settings.maxAttempts ≤ attempts + 1 then
      (some (.error ("failed to connect to Postgres before timeout" :: err)), [])
    else (none, [])

theorem connectAttempt_none {db : DatabaseAnswers} {settings : StartSettings} {attempts : Nat}
    (h : (connectAttempt db settings attempts).1 = none) : attempts + 1 < settings.maxAttempts := by
  by_contra hlimit
  unfold connectAttempt at h
  rw [Nat.not_lt] at hlimit
  split at h
  · split at h
    · rw [if_pos hlimit] at h
      cases h
    · cases h
  · rw [if_pos hlimit] at h
    cases h

/-- The loop of `connect_with_retry` in `bin/worker.rs`. -/
def connectWithRetry (db : DatabaseAnswers) (settings : StartSettings) (attempts backoffMs : Nat) :
    Slept ErrorChain Nat :=
  match _h : connectAttempt db settings attempts with
  | (some result, slept) => (result, slept)
  | (none, slept) =>
    let rest := connectWithRetry db settings (attempts + 1) (nextBackoff backoffMs)
    (rest.1, slept ++ backoffMs :: rest.2)
termination_by settings.maxAttempts - attempts
decreasing_by
  have hlimit := connectAttempt_none (congrArg Prod.fst _h)
  omega

/-- `connect_with_retry` in `bin/worker.rs`. -/
def start (env : Env) (db : DatabaseAnswers) : Slept ErrorChain Nat :=
  connectWithRetry db (startSettings env) 0 (startSettings env).backoffMs

end WorkerBin

/-! ### What they do -/

section loops

variable {db : DatabaseAnswers} {settings : StartSettings} {k b : Nat}

/-- An attempt to connect, and to find the tables over the connection. -/
def connectOnce (db : DatabaseAnswers) (settings : StartSettings) (k : Nat) : Slept ErrorChain Nat :=
  match db.connect k with
  | .ok _ =>
    match waitForStoreReady (db.load k) settings.maxSchemaAttempts 0 settings.schemaBackoffMs with
    | (.error err, slept) => (.error ("Postgres ready check failed before timeout" :: err), slept)
    | (.ok _, slept) => (.ok k, slept)
  | .error err => (.error ("failed to connect to Postgres before timeout" :: err), [])

theorem waitForStoreReady_eq (load : Nat → Except ErrorChain Unit) (maxAttempts : Nat) :
    waitForStoreReady load maxAttempts k b = retry maxAttempts nextBackoff
      (fun j => ((load j).mapError ("event store schema not available" :: ·), [])) k b := by
  fun_induction waitForStoreReady load maxAttempts k b with
  | case1 k b _ hok => exact (retry_of_ok (by rw [hok]; rfl)).symm
  | case2 k b err herror hlimit => exact (retry_of_last (by rw [herror]; rfl) hlimit).symm
  | case3 k b err herror hlimit rest ih =>
    rw [retry_of_error (by rw [herror]; rfl) (by omega), ← ih]
    rfl

theorem Api.connectWithRetry_eq : Api.connectWithRetry db settings k b =
    retry settings.maxAttempts nextBackoff (connectOnce db settings) k b := by
  fun_induction Api.connectWithRetry db settings k b with
  | case1 k b _ hok err slept hwait hlimit =>
    exact (retry_of_last (by rw [connectOnce, hok, hwait]) hlimit).symm
  | case2 k b _ hok err slept hwait hlimit rest ih =>
    rw [retry_of_error (by rw [connectOnce, hok, hwait]) (by omega), ← ih]
  | case3 k b _ hok _ slept hwait => exact (retry_of_ok (by rw [connectOnce, hok, hwait])).symm
  | case4 k b err herror hlimit => exact (retry_of_last (by rw [connectOnce, herror]) hlimit).symm
  | case5 k b err herror hlimit rest ih =>
    rw [retry_of_error (by rw [connectOnce, herror]) (by omega), ← ih]
    rfl

theorem WorkerBin.connectAttempt_eq : WorkerBin.connectAttempt db settings k =
    match connectOnce db settings k with
    | (.ok a, slept) => (some (.ok a), slept)
    | (.error err, slept) =>
      (if settings.maxAttempts ≤ k + 1 then some (.error err) else none, slept) := by
  unfold connectAttempt connectOnce
  split
  · split
    · split <;> rfl
    · rfl
  · split <;> rfl

theorem WorkerBin.connectWithRetry_eq : WorkerBin.connectWithRetry db settings k b =
    retry settings.maxAttempts nextBackoff (connectOnce db settings) k b := by
  fun_induction WorkerBin.connectWithRetry db settings k b with
  | case1 k b result slept h =>
    rw [connectAttempt_eq] at h
    cases honce : connectOnce db settings k with
    | mk result' slept' =>
      rw [honce] at h
      cases result' with
      | ok a =>
        obtain ⟨rfl, rfl⟩ := Prod.mk.inj h |>.imp_left Option.some.inj
        exact (retry_of_ok honce).symm
      | error err =>
        obtain ⟨hresult, rfl⟩ := Prod.mk.inj h
        obtain ⟨hlimit, rfl⟩ := Option.ite_none_right_eq_some.mp hresult |>.imp_right Option.some.inj
        exact (retry_of_last honce hlimit).symm
  | case2 k b slept h rest ih =>
    have hlimit := connectAttempt_none (congrArg Prod.fst h)
    rw [connectAttempt_eq] at h
    cases honce : connectOnce db settings k with
    | mk result' slept' =>
      rw [honce] at h
      cases result' with
      | ok a => cases h
      | error err =>
        obtain ⟨-, rfl⟩ := Prod.mk.inj h
        rw [retry_of_error honce hlimit, ← ih]

/-- Attempt `k` connects, and the tables are found over the connection. -/
def DatabaseAnswers.Ready (db : DatabaseAnswers) (settings : StartSettings) (k : Nat) : Prop :=
  db.connect k = .ok () ∧ ∃ j, (j = 0 ∨ j < settings.maxSchemaAttempts) ∧ db.load k j = .ok ()

theorem waitForStoreReady_ok_iff {load : Nat → Except ErrorChain Unit} {maxAttempts : Nat} :
    (waitForStoreReady load maxAttempts 0 b).1 = .ok () ↔
      ∃ j, (j = 0 ∨ j < maxAttempts) ∧ load j = .ok () := by
  rw [waitForStoreReady_eq, retry_eq_ok_iff]
  constructor
  · rintro ⟨j, hj, hlimit⟩
    refine ⟨j, hlimit, ?_⟩
    have hok := hj.ok
    cases hload : load j with
    | ok => rfl
    | error =>
      rw [hload] at hok
      cases hok
  · rintro ⟨j, hlimit, hload⟩
    have hok : ((load j).mapError ("event store schema not available" :: ·)) = .ok () := by
      rw [hload]
      rfl
    obtain ⟨m, hm, _, hfirst⟩ := exists_firstOk
      (fun j => ((load j).mapError ("event store schema not available" :: ·), [])) (Nat.zero_le j) hok
    exact ⟨m, hfirst, by omega⟩

theorem connectOnce_ok_iff {n : Nat} :
    (connectOnce db settings k).1 = .ok n ↔ n = k ∧ db.Ready settings k := by
  unfold connectOnce DatabaseAnswers.Ready
  cases hconnect : db.connect k with
  | error err =>
    constructor
    · intro h
      cases h
    · rintro ⟨-, h, -⟩
      cases h
  | ok _ =>
    rw [← waitForStoreReady_ok_iff (b := settings.schemaBackoffMs)]
    cases waitForStoreReady (db.load k) settings.maxSchemaAttempts 0 settings.schemaBackoffMs with
    | mk result slept =>
      cases result with
      | error err =>
        constructor
        · intro h
          cases h
        · rintro ⟨-, -, h⟩
          cases h
      | ok _ =>
        exact ⟨fun h => ⟨(Except.ok.inj h).symm, rfl, rfl⟩, fun h => congrArg Except.ok h.1.symm⟩

theorem nextBackoff_le {bound : Nat} (h : 5000 ≤ bound) : nextBackoff b ≤ bound :=
  (Nat.min_le_right _ _).trans h

theorem sum_connectOnce_le : (connectOnce db settings k).2.sum ≤
    (settings.maxSchemaAttempts - 1) * max settings.schemaBackoffMs 5000 := by
  have hwait : (waitForStoreReady (db.load k) settings.maxSchemaAttempts 0
      settings.schemaBackoffMs).2.sum ≤
        (settings.maxSchemaAttempts - 1) * max settings.schemaBackoffMs 5000 := by
    rw [waitForStoreReady_eq]
    refine (sum_slept_le (fun _ => Nat.le_refl 0) (fun _ _ => nextBackoff_le (Nat.le_max_right _ _))
      (Nat.le_max_left settings.schemaBackoffMs 5000)).trans ?_
    rw [Nat.mul_zero, Nat.add_zero, Nat.zero_add]
  unfold connectOnce
  cases db.connect k with
  | error err => exact Nat.zero_le _
  | ok _ =>
    revert hwait
    cases waitForStoreReady (db.load k) settings.maxSchemaAttempts 0 settings.schemaBackoffMs with
    | mk result slept => cases result <;> exact id

end loops

/-- The copy of the API and the copy of a worker with the same values in its variables do the same: they
return the same and sleep the same. The result is the first connection over which the tables are found
within the limits, if there is one, and all sleeps together are bounded. -/
theorem startup_agrees {env env' : Env} (db : DatabaseAnswers)
    (henv : ∀ name, env' ("WORKER_DB_" ++ name) = env ("API_DB_" ++ name)) :
    WorkerBin.start env' db = Api.start env db ∧
      (∀ k, (Api.start env db).1 = .ok k ↔ db.Ready (Api.startSettings env) k ∧
        (k = 0 ∨ k < (Api.startSettings env).maxAttempts) ∧
          ∀ m < k, ¬ db.Ready (Api.startSettings env) m) ∧
      (Api.start env db).2.sum ≤
        ((Api.startSettings env).maxAttempts - 1) * max (Api.startSettings env).backoffMs 5000 +
          ((Api.startSettings env).maxAttempts - 1 + 1) *
            (((Api.startSettings env).maxSchemaAttempts - 1) *
              max (Api.startSettings env).schemaBackoffMs 5000) := by
  have hsettings : WorkerBin.startSettings env' = Api.startSettings env := by
    simp only [WorkerBin.startSettings, Api.startSettings, readU32Env, readU64Env]
    rw [show env' "WORKER_DB_CONNECT_ATTEMPTS" = _ from henv "CONNECT_ATTEMPTS",
      show env' "WORKER_DB_CONNECT_BACKOFF_MS" = _ from henv "CONNECT_BACKOFF_MS",
      show env' "WORKER_DB_SCHEMA_ATTEMPTS" = _ from henv "SCHEMA_ATTEMPTS",
      show env' "WORKER_DB_SCHEMA_BACKOFF_MS" = _ from henv "SCHEMA_BACKOFF_MS"]
    rfl
  unfold WorkerBin.start Api.start
  rw [hsettings, WorkerBin.connectWithRetry_eq, Api.connectWithRetry_eq]
  refine ⟨rfl, fun k => ?_, ?_⟩
  · rw [retry_eq_ok_iff]
    constructor
    · rintro ⟨n, hn, hlimit⟩
      obtain ⟨rfl, hready⟩ := connectOnce_ok_iff.mp hn.ok
      refine ⟨hready, hlimit, fun m hm hbefore => ?_⟩
      have hfailed := hn.failed m (Nat.zero_le m) hm
      rw [connectOnce_ok_iff.mpr ⟨rfl, hbefore⟩] at hfailed
      cases hfailed
    · rintro ⟨hready, hlimit, hbefore⟩
      refine ⟨k, ⟨Nat.zero_le k, connectOnce_ok_iff.mpr ⟨rfl, hready⟩, fun m _ hm => ?_⟩, hlimit⟩
      cases honce : (connectOnce db (Api.startSettings env) m).1 with
      | error => rfl
      | ok n => exact absurd (connectOnce_ok_iff.mp honce).2 (hbefore m hm)
  · exact sum_slept_le (fun _ => sum_connectOnce_le)
      (fun _ _ => nextBackoff_le (Nat.le_max_right _ _)) (Nat.le_max_left _ _)

/-- The database comes up while the program starts, and its tables a little later. -/
def slowDatabase : DatabaseAnswers where
  connect := fun k => if k = 0 then .error ["connection refused"] else .ok ()
  load := fun _ j => if j = 0 then .error ["relation does not exist"] else .ok ()

theorem startup_agrees_slowDatabase :
    WorkerBin.start (fun _ => none) slowDatabase = Api.start (fun _ => none) slowDatabase ∧
      (Api.start (fun _ => none) slowDatabase).1 = .ok 1 := by
  let env : Env := fun _ => none
  have hsame : ∀ name, env ("WORKER_DB_" ++ name) = env ("API_DB_" ++ name) := fun _ => rfl
  obtain ⟨hagree, hresult, -⟩ := startup_agrees slowDatabase hsame
  refine ⟨hagree, (hresult 1).mpr ⟨⟨rfl, 1, Or.inr (by decide), rfl⟩, Or.inr (by decide), fun m hm => ?_⟩⟩
  obtain rfl : m = 0 := by omega
  exact fun hready => by cases hready.1

end SamtaDashboard
