import TransactionLedger.Idempotency.Control
import TransactionLedger.Stores.Effects

/-!
# What one call of the idempotency machinery does

A record or a Redis value of a key changes only at a few control points, and
only in the ways listed here.  The lemmas after them say how the control points
that matter are entered.
-/

namespace TransactionLedger

open Async IdempotencyService

theorem Control.handling_eta (handler : ForeignPromise Response) :
    (∃ response, handler = ⟨.done (.ok response), trivial⟩) ∨
      (∃ e, handler = ⟨.done (.error e), trivial⟩) ∨
      ∃ op k h, handler = ⟨.await op k, h⟩ := by
  rcases handler with ⟨(e | response) | ⟨op, k⟩, h⟩
  · exact .inr (.inl ⟨e, rfl⟩)
  · exact .inl ⟨response, rfl⟩
  · exact .inr (.inr ⟨op, k, h, rfl⟩)

namespace Deployment

variable {dep : Deployment} {d : Delivery} {M : Machine calls World ℕ} {f : Fate}
  {w w' : World} {i : ℕ} {c : Control} {op : Op} {k : ℕ → Except Err op.Res → Control}
  {r : Except Err op.Res}

/-! ## The record -/

/-- The ways the call awaited at a control point changes the record of a key. -/
inductive RowChange (dep : Deployment) (key : String) (i : ℕ) :
    Control → Option IdempotencyRecord → Option IdempotencyRecord → Prop where
  | inserted {expiresAt : ℕ} (hkey : dep.key i = key) :
      RowChange dep key i (.create expiresAt) none
        (some ⟨dep.recordId i, key, dep.hash i, none, none, expiresAt⟩)
  | stored {response : Response} {row : IdempotencyRecord} (hkey : dep.key i = key) :
      RowChange dep key i (.storeUpdate response) (some row)
        (some { row with
          statusCode := some response.status.code
          response := some response.body })
  | released {e : Err} {row : IdempotencyRecord} (hkey : dep.key i = key) :
      RowChange dep key i (.releaseDelete e) (some row) none
  | expired {row : IdempotencyRecord} (hkey : dep.key i = key) :
      RowChange dep key i .expiredDelete (some row) none
  | swept {now : ℕ} {row : IdempotencyRecord} (hnow : row.expiresAt ≤ now) :
      RowChange dep key i (.cronDelete now) (some row) none

theorem row_change (key : String) (hview : (dep.control M).view i c = .await op k)
    (hsettle : w.settle d f op = some (r, w')) :
    w'.record key = w.record key ∨
      RowChange dep key i c (w.record key) (w'.record key) := by
  rcases World.settle_record hsettle key with hsame | heffect
  · exact .inl hsame
  rw [heffect]
  generalize w.record key = found
  cases c with
  | create expiresAt =>
      cases hview
      cases found with
      | none => exact unchanged_or_ite (RowChange dep key i _ none) fun hkey ↦ hkey ▸ .inserted rfl
      | some row => exact .inl (ite_self _)
  | storeUpdate response =>
      cases hview
      cases found with
      | none => exact .inl (ite_self _)
      | some row => exact unchanged_or_ite (RowChange dep key i _ (some row)) .stored
  | releaseDelete e =>
      cases hview
      cases found with
      | none => exact .inl (ite_self _)
      | some row => exact unchanged_or_ite (RowChange dep key i _ (some row)) .released
  | expiredDelete =>
      cases hview
      cases found with
      | none => exact .inl (ite_self _)
      | some row => exact unchanged_or_ite (RowChange dep key i _ (some row)) .expired
  | cronDelete now =>
      cases hview
      cases found with
      | none => exact .inl rfl
      | some row =>
          simp only [Op.onRecord, Option.filter_some]
          by_cases hnow : row.expiresAt ≤ now
          · right
            rw [if_neg (by simpa using hnow)]
            exact .swept hnow
          · exact .inl (if_pos (by simpa using hnow))
  | handling handler =>
      left
      rcases Control.handling_eta handler with ⟨response, rfl⟩ | ⟨e, rfl⟩ | ⟨op, k, h, rfl⟩
      · cases hview; rfl
      · cases hview; rfl
      · cases hview
        exact h.1.onRecord key _
  | background job =>
      left
      rcases job with ⟨(e | _) | ⟨op, k⟩, h⟩
      · cases hview
      · cases hview
      · cases hview
        exact h.1.onRecord key _
  | ended r => cases hview
  | _ =>
      cases hview
      exact .inl rfl

/-! ## The Redis value -/

/-- The ways the call awaited at a control point changes the Redis value of a key. -/
inductive RedisChange (dep : Deployment) (key : String) (i : ℕ) :
    Control → Option RedisText → Option RedisText → Prop where
  | placed (hkey : dep.key i = key) :
      RedisChange dep key i .setNX none (some (placeholder (dep.hash i)))
  | dupRemoved {found : Option RedisText} (hkey : dep.key i = key) :
      RedisChange dep key i .rollbackDup found none
  | rolledBack {found : Option RedisText} {e : Err} (hkey : dep.key i = key) :
      RedisChange dep key i (.rollback e) found none
  | expired {found : Option RedisText} (hkey : dep.key i = key) :
      RedisChange dep key i .expiredDel found none
  | released {found : Option RedisText} {e : Err} (hkey : dep.key i = key) :
      RedisChange dep key i (.releaseDel e) found none
  | repopulated {found : Option RedisText} {row : IdempotencyRecord} {statusCode : ℕ}
      (hkey : dep.key i = key) :
      RedisChange dep key i (.repopulate row statusCode) found
        (some (.json ⟨row.requestHash, some statusCode, row.response⟩))
  | stored {found : Option RedisText} {response : Response} (hkey : dep.key i = key) :
      RedisChange dep key i (.storeSet response) found
        (some (.json ⟨dep.hash i, some response.status.code, some response.body⟩))

theorem onRedis_set {key k : String} {value : RedisText} {found : Option RedisText}
    (cfg : IdempotencyConfig) :
    (Op.redisSet (redisKey k) value (some cfg.ttlSeconds)).onRedis (redisKey key) found =
      if k = key then some value else found := by
  have hpos := cfg.ttlSeconds_pos
  have hne : ¬some cfg.ttlSeconds = some 0 := by
    intro h
    have := Option.some.inj h
    omega
  by_cases hk : k = key
  · subst hk
    simp only [Op.onRedis, if_true, if_neg hne]
  · have hk' : redisKey k ≠ redisKey key := fun h ↦ hk (redisKey_injective h)
    simp only [Op.onRedis, if_neg hk, if_neg hk']

theorem onRedis_del {key k : String} {found : Option RedisText} :
    (Op.redisDel (redisKey k)).onRedis (redisKey key) found =
      if k = key then none else found := by
  by_cases hk : k = key
  · subst hk
    simp only [Op.onRedis, if_true]
  · have hk' : redisKey k ≠ redisKey key := fun h ↦ hk (redisKey_injective h)
    simp only [Op.onRedis, if_neg hk, if_neg hk']

theorem onRedis_setNX {key k : String} {value : RedisText} {found : Option RedisText}
    (cfg : IdempotencyConfig) :
    (Op.redisSetNX (redisKey k) value cfg.ttlSeconds).onRedis (redisKey key) found =
      if k = key ∧ found = none then some value else found := by
  have hpos := cfg.ttlSeconds_pos
  have hne : cfg.ttlSeconds ≠ 0 := by omega
  by_cases hk : k = key
  · subst hk
    simp only [Op.onRedis, true_and, if_neg hne]
  · have hk' : redisKey k ≠ redisKey key := fun h ↦ hk (redisKey_injective h)
    simp only [Op.onRedis, hk, hk', false_and, if_false]

theorem redis_change (key : String) (hview : (dep.control M).view i c = .await op k)
    (hsettle : w.settle d f op = some (r, w')) :
    w'.redisGet (redisKey key) = w.redisGet (redisKey key) ∨
      RedisChange dep key i c (w.redisGet (redisKey key)) (w'.redisGet (redisKey key)) := by
  rcases World.settle_redisGet hsettle (redisKey key) with hsame | heffect
  · exact .inl hsame
  rw [heffect]
  generalize w.redisGet (redisKey key) = found
  cases c with
  | setNX =>
      cases hview
      rw [onRedis_setNX]
      apply unchanged_or_ite (RedisChange dep key i _ found)
      rintro ⟨hkey, rfl⟩
      exact .placed hkey
  | rollbackDup =>
      cases hview
      rw [onRedis_del]
      exact unchanged_or_ite (RedisChange dep key i _ found) .dupRemoved
  | rollback e =>
      cases hview
      rw [onRedis_del]
      exact unchanged_or_ite (RedisChange dep key i _ found) .rolledBack
  | expiredDel =>
      cases hview
      rw [onRedis_del]
      exact unchanged_or_ite (RedisChange dep key i _ found) .expired
  | releaseDel e =>
      cases hview
      rw [onRedis_del]
      exact unchanged_or_ite (RedisChange dep key i _ found) .released
  | repopulate row statusCode =>
      cases hview
      rw [onRedis_set]
      exact unchanged_or_ite (RedisChange dep key i _ found) .repopulated
  | storeSet response =>
      cases hview
      rw [onRedis_set]
      exact unchanged_or_ite (RedisChange dep key i _ found) .stored
  | handling handler =>
      left
      rcases Control.handling_eta handler with ⟨response, rfl⟩ | ⟨e, rfl⟩ | ⟨op, k, h, rfl⟩
      · cases hview; rfl
      · cases hview; rfl
      · cases hview
        exact h.1.onRedis _ _
  | background job =>
      left
      rcases job with ⟨(e | _) | ⟨op, k⟩, h⟩
      · cases hview
      · cases hview
      · cases hview
        exact h.1.onRedis _ _
  | ended r => cases hview
  | _ =>
      cases hview
      exact .inl rfl

end Deployment

/-! ## Control points -/

/-- Where the outcome of a call leads a process, and what it has learned about
the stores on which the call settled. -/
inductive Transition (dep : Deployment) (i : ℕ) (w w' : World) : Control → Control → Prop where
  | placed {expiresAt : ℕ} (hnone : w.redisGet (redisKey (dep.key i)) = none)
      (hexpires : expiresAt = w.clock + dep.cfg.ttlSeconds * 1000) :
      Transition dep i w w' .setNX (.create expiresAt)
  | occupied {raw : RedisText} (hfound : w.redisGet (redisKey (dep.key i)) = some raw) :
      Transition dep i w w' .setNX .get
  | setFailed {e : Err} : Transition dep i w w' .setNX (.ended (.error e))
  | inserted {expiresAt : ℕ} (hnone : w.record (dep.key i) = none)
      (hsome : w'.record (dep.key i) =
        some ⟨dep.recordId i, dep.key i, dep.hash i, none, none, expiresAt⟩) :
      Transition dep i w w' (.create expiresAt) (.checked .miss)
  | duplicate {expiresAt : ℕ} {row : IdempotencyRecord}
      (hrow : w.record (dep.key i) = some row) :
      Transition dep i w w' (.create expiresAt) .rollbackDup
  | createFailed {expiresAt : ℕ} {e : Err} :
      Transition dep i w w' (.create expiresAt) (.rollback e)
  | dupRemoved : Transition dep i w w' .rollbackDup .findUnique
  | dupFailed {e : Err} : Transition dep i w w' .rollbackDup (.ended (.error e))
  | rolledBack {e e' : Err} : Transition dep i w w' (.rollback e) (.ended (.error e'))
  | unreadable (hfound : ∀ raw, w.redisGet (redisKey (dep.key i)) = some raw → ¬raw.truthy) :
      Transition dep i w w' .get .findUnique
  | parsed {raw : RedisText} {result : IdempotencyCheckResult}
      (hfound : w.redisGet (redisKey (dep.key i)) = some raw) (htruthy : raw.truthy)
      (hparse : parseIdempotencyData raw (dep.hash i) = result) :
      Transition dep i w w' .get (.checked result)
  | getFailed {e : Err} : Transition dep i w w' .get (.ended (.error e))
  | absent (hrow : w.record (dep.key i) = none) :
      Transition dep i w w' .findUnique (.checked .inProgress)
  | foundExpired {row : IdempotencyRecord} (hrow : w.record (dep.key i) = some row)
      (hexpired : row.expiresAt ≤ w.clock) : Transition dep i w w' .findUnique .expiredDelete
  | foundMismatch {row : IdempotencyRecord} (hrow : w.record (dep.key i) = some row)
      (hhash : row.requestHash ≠ dep.hash i) :
      Transition dep i w w' .findUnique (.checked .hashMismatch)
  | foundPlaceholder {row : IdempotencyRecord} (hrow : w.record (dep.key i) = some row)
      (hcode : truthyCode row.statusCode = none) :
      Transition dep i w w' .findUnique (.checked .inProgress)
  | foundResponse {row : IdempotencyRecord} {statusCode : ℕ}
      (hrow : w.record (dep.key i) = some row) (hhash : row.requestHash = dep.hash i)
      (hcode : truthyCode row.statusCode = some statusCode) :
      Transition dep i w w' .findUnique (.repopulate row statusCode)
  | findFailed {e : Err} : Transition dep i w w' .findUnique (.ended (.error e))
  | expiredDeleted : Transition dep i w w' .expiredDelete .expiredDel
  | expiredRemoved : Transition dep i w w' .expiredDel (.checked .inProgress)
  | repopulated {row : IdempotencyRecord} {statusCode : ℕ} :
      Transition dep i w w' (.repopulate row statusCode)
        (.checked (.cached statusCode row.response))
  | repopulateFailed {row : IdempotencyRecord} {statusCode : ℕ} {e : Err} :
      Transition dep i w w' (.repopulate row statusCode) (.ended (.error e))
  | admitted {handler : ForeignPromise Response} (hhandler : handler = (dep.post i).handler) :
      Transition dep i w w' (.checked .miss) (.handling handler)
  | answered {result : IdempotencyCheckResult} {r : Except Err Outcome}
      (hresult : result ≠ .miss) : Transition dep i w w' (.checked result) (.ended r)
  | handlerAwaited {op : Op} {k : ℕ → Except Err op.Res → Promise Response}
      {h : (Prog.await (S := calls) op k).Uses Op.Foreign}
      {handler : ForeignPromise Response} :
      Transition dep i w w' (.handling ⟨.await op k, h⟩) (.handling handler)
  | handlerSucceeded {response : Response} :
      Transition dep i w w' (.handling ⟨.done (.ok response), trivial⟩) (.storeUpdate response)
  | handlerFailed {e : Err} :
      Transition dep i w w' (.handling ⟨.done (.error e), trivial⟩) (.releaseDelete e)
  | stored {response : Response}
      (hstored : ∀ row, w'.record (dep.key i) = some row →
        row.statusCode = some response.status.code ∧ row.response = some response.body) :
      Transition dep i w w' (.storeUpdate response) (.storeSet response)
  | storeFailed {response : Response} {r : Except Err Outcome} :
      Transition dep i w w' (.storeUpdate response) (.ended r)
  | storeEnded {response : Response} {r : Except Err Outcome} :
      Transition dep i w w' (.storeSet response) (.ended r)
  | released {e : Err} : Transition dep i w w' (.releaseDelete e) (.releaseDel e)
  | releaseEnded {e : Err} {r : Except Err Outcome} :
      Transition dep i w w' (.releaseDel e) (.ended r)
  | cronStarted {now : ℕ} (hnow : now = w.clock) :
      Transition dep i w w' .cronWait (.cronDelete now)
  | cronFailed {e : Err} : Transition dep i w w' .cronWait (.ended (.error e))
  | cronEnded {now : ℕ} {r : Except Err Outcome} :
      Transition dep i w w' (.cronDelete now) (.ended r)
  | backgroundAwaited {job job' : ForeignPromise Unit} :
      Transition dep i w w' (.background job) (.background job')

/-- The control points of a request that has a key. -/
def Control.Serving : Control → Prop
  | .cronWait => False
  | .cronDelete _ => False
  | .background _ => False
  | .ended _ => False
  | _ => True

theorem Transition.serving {dep : Deployment} {i : ℕ} {w w' : World} {p q : Control}
    (h : Transition dep i w w' p q) (hq : q.Serving) : p.Serving := by
  cases h <;> trivial

namespace Deployment

variable {dep : Deployment} {d : Delivery} {M : Machine calls World ℕ} {f : Fate}
  {w w' : World} {i : ℕ} {c : Control} {op : Op} {k : ℕ → Except Err op.Res → Control}
  {r : Except Err op.Res}

/-- The outcome of a lookup by key, once it is known not to have failed. -/
theorem transition_inspected (row : Option IdempotencyRecord)
    (hrow : w.record (dep.key i) = row) :
    Transition dep i w w' .findUnique (Control.inspected (dep.post i) w.clock row) := by
  cases row with
  | none => exact .absent hrow
  | some row =>
      simp only [Control.inspected]
      by_cases hexpired : row.expiresAt ≤ w.clock
      · rw [if_pos hexpired]
        exact .foundExpired hrow hexpired
      · by_cases hhash : row.requestHash = (dep.post i).request.requestHash
        · rw [if_neg hexpired, if_pos hhash]
          cases hcode : truthyCode row.statusCode with
          | none => exact .foundPlaceholder hrow hcode
          | some statusCode => exact .foundResponse hrow hhash hcode
        · rw [if_neg hexpired, if_neg hhash]
          exact .foundMismatch hrow hhash

theorem transition (hview : (dep.control M).view i c = .await op k)
    (hsettle : w.settle d f op = some (r, w')) :
    Transition dep i w w' c (k w'.clock r) := by
  have hclock : w'.clock = w.clock := World.settle_clock hsettle
  cases c with
  | setNX =>
      cases hview
      rcases r with e | acquired
      · exact .setFailed
      · have hrun := World.settle_ok hsettle
        simp only [World.answer] at hrun
        cases hfound : w.redisGet (redisKey (dep.post i).request.key) with
        | none =>
            rw [hfound] at hrun
            obtain ⟨hacquired, -⟩ := Prod.mk.inj hrun
            obtain rfl := Except.ok.inj hacquired
            exact .placed hfound (by rw [hclock])
        | some raw =>
            rw [hfound] at hrun
            obtain ⟨hacquired, -⟩ := Prod.mk.inj hrun
            obtain rfl := Except.ok.inj hacquired
            exact .occupied hfound
  | create expiresAt =>
      cases hview
      rcases r with e | row
      · rcases e with (_ | _ | _) | _ | _ | _ | _
        · obtain ⟨-, row, hrow⟩ := World.record_of_p2002 (World.settle_p2002 hsettle)
          exact .duplicate hrow
        all_goals exact .createFailed
      · obtain ⟨hnone, hsome, rfl⟩ := World.record_of_create (World.settle_ok hsettle)
        exact .inserted hnone hsome
  | get =>
      cases hview
      rcases r with e | found
      · exact .getFailed
      · obtain ⟨hfound, -⟩ := Prod.mk.inj (World.settle_ok hsettle)
        obtain rfl := Except.ok.inj hfound
        cases hraw : w.redisGet (redisKey (dep.post i).request.key) with
        | none =>
            refine .unreadable fun raw h ↦ ?_
            cases hraw.symm.trans h
        | some raw =>
            by_cases htruthy : raw.truthy
            · simp only [htruthy, if_true]
              exact .parsed hraw htruthy rfl
            · simp only [htruthy]
              refine .unreadable fun raw' h ↦ ?_
              obtain rfl := Option.some.inj (hraw.symm.trans h)
              exact htruthy
  | findUnique =>
      cases hview
      rcases r with e | row
      · exact .findFailed
      · obtain ⟨hrow, -⟩ := Prod.mk.inj (World.settle_ok hsettle)
        rw [hclock]
        exact transition_inspected row (Except.ok.inj hrow)
  | checked result =>
      cases hview
      obtain ⟨rfl, -⟩ := World.settle_observe hsettle
      cases result with
      | miss => exact .admitted rfl
      | _ =>
          apply Transition.answered
          rintro ⟨⟩
  | handling handler =>
      rcases Control.handling_eta handler with ⟨response, rfl⟩ | ⟨e, rfl⟩ | ⟨op, k, h, rfl⟩
      · cases hview
        obtain ⟨rfl, -⟩ := World.settle_observe hsettle
        exact .handlerSucceeded
      · cases hview
        obtain ⟨rfl, -⟩ := World.settle_observe hsettle
        exact .handlerFailed
      · cases hview
        exact .handlerAwaited
  | rollbackDup =>
      cases hview
      rcases r with e | _
      · exact .dupFailed
      · exact .dupRemoved
  | rollback e =>
      cases hview
      rcases r with e' | _
      · exact .rolledBack
      · exact .rolledBack
  | expiredDelete =>
      cases hview
      exact .expiredDeleted
  | expiredDel =>
      cases hview
      exact .expiredRemoved
  | repopulate row statusCode =>
      cases hview
      rcases r with e | _
      · exact .repopulateFailed
      · exact .repopulated
  | storeUpdate response =>
      cases hview
      rcases r with e | _
      · exact .storeFailed
      · refine .stored fun row hrow ↦ ?_
        have heffect := World.answer_record w
          (.recordUpdate (dep.key i) response.status.code response.body) (dep.key i)
        have hrun := World.settle_ok hsettle
        rw [show w.answer (.recordUpdate (dep.key i) _ _) = _ from hrun, hrow] at heffect
        simp only [Op.onRecord, if_true] at heffect
        obtain ⟨old, -, rfl⟩ := Option.map_eq_some_iff.mp heffect.symm
        exact ⟨rfl, rfl⟩
  | storeSet response =>
      cases hview
      exact .storeEnded
  | releaseDelete e =>
      cases hview
      exact .released
  | releaseDel e =>
      cases hview
      exact .releaseEnded
  | cronWait =>
      cases hview
      rcases r with e | _
      · exact .cronFailed
      · exact .cronStarted hclock
  | cronDelete now =>
      cases hview
      rcases r with e | _
      · exact .cronEnded
      · exact .cronEnded
  | background job =>
      rcases job with ⟨(e | _) | ⟨op, k⟩, h⟩ <;> cases hview
      exact .backgroundAwaited
  | ended r => cases hview

theorem foreign_of_handling {handler : ForeignPromise Response}
    (hview : (dep.control M).view i (.handling handler) = .await op k) :
    op.Foreign ∨ ∃ outcome, op = .observe (.handled outcome) := by
  rcases Control.handling_eta handler with ⟨response, rfl⟩ | ⟨e, rfl⟩ | ⟨op, k, h, rfl⟩
  · cases hview
    exact .inr ⟨_, rfl⟩
  · cases hview
    exact .inr ⟨_, rfl⟩
  · cases hview
    exact .inl h.1

theorem foreign_of_background {job : ForeignPromise Unit}
    (hview : (dep.control M).view i (.background job) = .await op k) : op.Foreign := by
  rcases job with ⟨(e | _) | ⟨op, k⟩, h⟩
  · cases hview
  · cases hview
  · cases hview
    exact h.1

/-- Where the outcome of another function is observed. -/
theorem view_observe {o : Observation} {k : ℕ → Except Err Unit → Control}
    (hview : (dep.control M).view i c = .await (.observe o) k) :
    (∃ result, o = .checked result ∧ c = .checked result) ∨
      ∃ outcome, o = .handled outcome ∧ c = .handling ⟨.done outcome, trivial⟩ := by
  cases c with
  | checked result =>
      cases hview
      exact .inl ⟨result, rfl, rfl⟩
  | handling handler =>
      right
      rcases Control.handling_eta handler with ⟨response, rfl⟩ | ⟨e, rfl⟩ | ⟨op, k', h, rfl⟩
      · cases hview
        exact ⟨.ok response, rfl, rfl⟩
      · cases hview
        exact ⟨.error e, rfl, rfl⟩
      · obtain rfl : op = .observe o := by
          cases hview
          rfl
        exact h.1.elim
  | background job =>
      rcases job with ⟨(e | _) | ⟨op, k'⟩, h⟩
      · cases hview
      · cases hview
      · obtain rfl : op = .observe o := by
          cases hview
          rfl
        exact h.1.elim
  | ended r => cases hview
  | _ => cases hview

/-- A process past its start serves a request that carries its key. -/
theorem carries_of_serving {legal : Config calls World ℕ Control → (ledger d).Moves →
      Config calls World ℕ Control → Prop} {clock : ℕ} {c : Config calls World ℕ Control}
    (h : (dep.control (ledger d)).Reachable legal (dep.controlStart clock) c) {i : ℕ}
    {p : Control} (hproc : c.procs i = some p) (hserving : p.Serving) :
    dep.Carries (dep.key i) i := by
  refine h.invariant (fun c ↦ ∀ i p, c.procs i = some p → p.Serving →
    dep.Carries (dep.key i) i) ?_ ?_ i p hproc hserving
  · intro i p hi hp
    obtain rfl := Option.some.inj hi
    simp only [Carries, key, post]
    cases hrole : dep.role i with
    | post q =>
        rw [hrole] at hp
        simp only [Role.toPost, Request.key]
        cases hkey : q.request.idempotencyKey with
        | none =>
            have hmissing : q.request.hasKey = false := by simp [Request.hasKey, hkey]
            simp [Control.initial, hmissing, Control.Serving] at hp
        | some key => rfl
    | cron =>
        rw [hrole] at hp
        exact hp.elim
    | background job =>
        rw [hrole] at hp
        exact hp.elim
  · intro a m b _ hstep _ hinv j q hj hq
    cases hstep with
    | @settle i f p op k r w' hproc hview hsettle =>
        rcases Pool.of_update_some hj with ⟨rfl, rfl⟩ | ⟨-, hj⟩
        · exact hinv _ p hproc ((transition hview hsettle).serving hq)
        · exact hinv j q hj hq
    | crash hproc hview => exact hinv j q (Pool.of_update_none hj).2 hq
    | drift hdrift => exact hinv j q hj hq

theorem procs_of_pending_checked {c : Config calls World ℕ Control}
    {result : IdempotencyCheckResult}
    (h : (dep.control M).pending c i = some (.observe (.checked result))) :
    c.procs i = some (.checked result) := by
  obtain ⟨p, k, hproc, hview⟩ := Pool.exists_of_pending h
  rcases view_observe hview with ⟨result', hobs, rfl⟩ | ⟨outcome, hobs, -⟩
  · cases hobs
    exact hproc
  · cases hobs

end Deployment

end TransactionLedger
