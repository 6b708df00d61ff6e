import TransactionLedger.Idempotency.Ownership

/-!
# Replay after recovery

`checkAndAcquire` asks Redis first, so a placeholder that nobody will remove
hides the response PostgreSQL holds.  One is left behind only by a crash or a
fault that strikes while the placeholder and the response exist side by side, or
by an overlap of two generations of the record.
-/

namespace TransactionLedger

open Async Data IdempotencyService

/-- Run a program alone on the stores; every call is answered. -/
def alone {α : Type} (p : Promise α) (w : World) : Except Err α × World :=
  p.run World.clock World.answer w

/-! ## One further call -/

section Alone

variable {cfg : IdempotencyConfig} {id key : String} {w : World} {row : IdempotencyRecord}
  {statusCode : ℕ}

theorem alone_inspectFromDb (hrow : w.record key = some row) (hlive : w.clock < row.expiresAt)
    (hcode : truthyCode row.statusCode = some statusCode) :
    (alone (inspectFromDb cfg key row.requestHash) w).1 =
      .ok (.cached statusCode row.response) := by
  have hexpired : ¬row.expiresAt ≤ w.clock := by omega
  change (alone (inspectRecord cfg key row.requestHash w.clock (w.record key)) w).1 = _
  rw [hrow]
  simp only [inspectRecord, if_neg hexpired, if_true, hcode,
    RedisService.set_of_pos _ _ cfg.ttlSeconds_pos]
  rfl

theorem alone_inspectExisting (hrow : w.record key = some row) (hlive : w.clock < row.expiresAt)
    (hcode : truthyCode row.statusCode = some statusCode) :
    (alone (inspectExisting cfg key row.requestHash) w).1 =
      match w.redisGet (redisKey key) with
      | some raw =>
          if raw.truthy then .ok (parseIdempotencyData raw row.requestHash)
          else .ok (.cached statusCode row.response)
      | none => .ok (.cached statusCode row.response) := by
  change (alone (match w.redisGet (redisKey key) with
    | some raw =>
        if raw.truthy then pure (parseIdempotencyData raw row.requestHash)
        else inspectFromDb cfg key row.requestHash
    | none => inspectFromDb cfg key row.requestHash) w).1 = _
  cases w.redisGet (redisKey key) with
  | none => exact alone_inspectFromDb hrow hlive hcode
  | some raw =>
      by_cases htruthy : raw.truthy
      · simp only [htruthy, if_true]
        rfl
      · simp only [htruthy]
        exact alone_inspectFromDb hrow hlive hcode

theorem answer_create_of_record {h : String} {t : ℕ} (hrow : w.record key = some row) :
    w.answer (.recordCreate id key h t) = (.error (.prisma .p2002), w) := by
  have hins : w.idempotencyRecords.insert ⟨id, key, h, none, none, t⟩ = none :=
    Table.insert_eq_none_iff.mpr ⟨row, hrow⟩
  simp only [World.answer, hins]

theorem alone_rollback (hrow : w.record key = some row) (hlive : w.clock < row.expiresAt)
    (hcode : truthyCode row.statusCode = some statusCode) :
    (alone (IdempotencyService.rollback cfg key row.requestHash (.prisma .p2002)) w).1 =
      .ok (.cached statusCode row.response) := by
  let w₁ : World := { w with redis := Function.update w.redis (redisKey key) none }
  have hrow₁ : w₁.record key = some row := hrow
  exact alone_inspectFromDb hrow₁ hlive hcode

/-- `checkAndAcquire` replays the record exactly as far as Redis lets it. -/
theorem alone_checkAndAcquire (hrow : w.record key = some row) (hlive : w.clock < row.expiresAt)
    (hcode : truthyCode row.statusCode = some statusCode) :
    (alone (checkAndAcquire cfg id key row.requestHash) w).1 =
      match w.redisGet (redisKey key) with
      | some raw =>
          if raw.truthy then .ok (parseIdempotencyData raw row.requestHash)
          else .ok (.cached statusCode row.response)
      | none => .ok (.cached statusCode row.response) := by
  cases hfound : w.redisGet (redisKey key) with
  | some raw =>
      have hset : alone (RedisService.setNX (redisKey key) (placeholder row.requestHash)
          cfg.ttlSeconds) w = (.ok (w.clock, false), w) := by
        simp [alone, RedisService.setNX, awaitAt, Prog.callAt, Prog.run, World.answer, hfound,
          Except.map]
      have hrest : alone (checkAndAcquire cfg id key row.requestHash) w =
          alone (inspectExisting cfg key row.requestHash) w := Prog.run_bind_ok hset
      rw [hrest, alone_inspectExisting hrow hlive hcode, hfound]
  | none =>
      let w₁ := w.redisPut (redisKey key) (placeholder row.requestHash) (some cfg.ttlSeconds)
      have hset : alone (RedisService.setNX (redisKey key) (placeholder row.requestHash)
          cfg.ttlSeconds) w = (.ok (w.clock, true), w₁) := by
        simp [alone, RedisService.setNX, awaitAt, Prog.callAt, Prog.run, World.answer, hfound,
          Except.map, World.redisPut, w₁]
      have hcreate : alone (do
          let _ ← await (.recordCreate id key row.requestHash
            (w.clock + cfg.ttlSeconds * 1000))
          pure IdempotencyCheckResult.miss) w₁ = (.error (.prisma .p2002), w₁) :=
        Prog.run_bind_error (answer_create_of_record hrow)
      have hrest : alone (checkAndAcquire cfg id key row.requestHash) w =
          alone (IdempotencyService.rollback cfg key row.requestHash (.prisma .p2002)) w₁ :=
        (Prog.run_bind_ok hset).trans (Prog.run_catchError_error hcreate)
      rw [hrest]
      exact alone_rollback hrow hlive hcode

end Alone

/-! ## The property -/

/-- A further `checkAndAcquire` with the hash of a live, completed record replays it. -/
def Replayable (cfg : IdempotencyConfig) (key : String) (w : World) : Prop :=
  ∀ id row statusCode response, w.record key = some row → w.clock < row.expiresAt →
    row.statusCode = some statusCode → row.response = some response →
      (alone (checkAndAcquire cfg id key row.requestHash) w).1 =
        .ok (.cached statusCode (some response))

/-- PostgreSQL holds a response and Redis a bare placeholder. -/
def Shadowed (key : String) (w : World) : Prop :=
  (∃ row, w.record key = some row ∧ row.statusCode ≠ none) ∧
    ∃ data, w.redisGet (redisKey key) = some (.json data) ∧ data.statusCode = none

/-- The call removes or overwrites the Redis value of the key. -/
def Op.Overwrites (key : String) : Op → Prop
  | .redisDel k => k = redisKey key
  | .redisSet k _ _ => k = redisKey key
  | _ => False

/-- The call, or the one that follows when it finds a record, removes or overwrites
the Redis value of the key. -/
def Op.Mends (key : String) (op : Op) : Prop :=
  op.Overwrites key ∨ ∃ id requestHash expiresAt, op = .recordCreate id key requestHash expiresAt

/-- The call would place a placeholder over a response, or store a response under a
placeholder. -/
def Op.Shadows (key : String) (w : World) : Op → Prop
  | .redisSetNX k _ _ => k = redisKey key ∧ w.redisGet (redisKey key) = none ∧
      ∃ row, w.record key = some row ∧ row.statusCode ≠ none
  | .recordUpdate k _ _ => k = key ∧ (∃ row, w.record key = some row) ∧
      ∃ data, w.redisGet (redisKey key) = some (.json data) ∧ data.statusCode = none
  | _ => False

/-- A request waiting for this call may still send a response to the stores. -/
def Op.AnswerAhead : Op → Prop
  | .observe (.checked result) => result = .miss
  | .observe (.handled _) => True
  | .recordUpdate .. => True
  | .redisSet .. => True
  | op => op.Foreign

namespace Deployment

variable {dep : Deployment} {key : String} {d : Delivery}

/-- No request with the key is under way. -/
def Quiet (dep : Deployment) (key : String) {P : Type} (L : Pool (ledger d) Outcome P)
    (c : Config calls World ℕ P) : Prop :=
  ∀ i, dep.Carries key i → L.pending c i = none ∨ ∀ e ∈ c.log, e.proc ≠ i

def StaysReplayable (dep : Deployment) (key : String) {P : Type}
    (L : Pool (ledger d) Outcome P)
    (legal : Config calls World ℕ P → (ledger d).Moves → Config calls World ℕ P → Prop)
    (c₀ : Config calls World ℕ P) : Prop :=
  ∀ c, L.Reachable legal c₀ c → dep.Quiet key L c → Replayable dep.cfg key c.store

/-- The moves after which the key still heals by itself. -/
structure Healing (dep : Deployment) (key : String) {P : Type} (L : Pool (ledger d) Outcome P)
    (a : Config calls World ℕ P) (m : (ledger d).Moves) (b : Config calls World ℕ P) :
    Prop where
  /-- No record is inserted while another request may still send a response. -/
  overlap : dep.NoOverlap Op.AnswerAhead key L a m b
  /-- No record is inserted while Redis holds the response of an earlier one. -/
  stale : ∀ i f id requestHash expiresAt, m = .settle i f → (∀ e, f ≠ Fate.lost e) →
    L.pending a i = some (.recordCreate id key requestHash expiresAt) →
    a.store.record key = none →
    ∀ data, a.store.redisGet (redisKey key) = some (.json data) → data.statusCode = none
  /-- Nobody who would clear the shadow crashes. -/
  crash : Shadowed key a.store → ∀ i op, m = .crash i → dep.Carries key i →
    L.pending a i = some op → ¬op.Mends key
  /-- No call that would clear it is lost. -/
  lost : Shadowed key a.store → ∀ i e op, m = .settle i (Fate.lost e) →
    L.pending a i = some op → ¬op.Overwrites key
  /-- No call that casts it throws. -/
  torn : ∀ i e op, m = .settle i (Fate.torn e) → L.pending a i = some op →
    ¬op.Shadows key a.store

end Deployment

/-- The control points from which the Redis value gets removed or overwritten. -/
def Control.Mends : Control → Prop
  | .create _ => True
  | .rollbackDup => True
  | .rollback _ => True
  | .expiredDel => True
  | .repopulate .. => True
  | .storeSet _ => True
  | .releaseDel _ => True
  | _ => False

namespace Deployment

variable {dep : Deployment} {key : String} {d : Delivery} {c : Config calls World ℕ Control}

/-- What a control point promises about the record its request may still find. -/
def Mirrors (dep : Deployment) (i : ℕ) (row : IdempotencyRecord) : Control → Prop
  | .checked .miss => row.id = dep.recordId i ∧ row.requestHash = dep.hash i ∧
      row.statusCode = none
  | .handling _ => row.id = dep.recordId i ∧ row.requestHash = dep.hash i ∧
      row.statusCode = none
  | .storeUpdate _ => row.id = dep.recordId i ∧ row.requestHash = dep.hash i ∧
      row.statusCode = none
  | .storeSet response => row.requestHash = dep.hash i ∧
      row.statusCode = some response.status.code ∧ row.response = some response.body
  | .repopulate old statusCode => row.requestHash = old.requestHash ∧
      row.statusCode = some statusCode ∧ row.response = old.response
  | _ => True

structure Mirror (dep : Deployment) (key : String) (c : Config calls World ℕ Control) :
    Prop where
  control : ∀ i p row, dep.key i = key → c.procs i = some p →
    c.store.record key = some row → dep.Mirrors i row p
  sent : ∀ row statusCode, c.store.record key = some row → row.statusCode = some statusCode →
    truthyCode row.statusCode = some statusCode
  parsed : ∀ raw, c.store.redisGet (redisKey key) = some raw → ∃ data, raw = .json data
  redis : ∀ data row statusCode, c.store.redisGet (redisKey key) = some (.json data) →
    data.statusCode = some statusCode → c.store.record key = some row →
      row.requestHash = data.requestHash ∧ row.statusCode = data.statusCode ∧
        row.response = data.response
  mended : Shadowed key c.store →
    ∃ i p, dep.key i = key ∧ c.procs i = some p ∧ p.Mends

section Settle

variable {f : Fate} {w' : World} {i : ℕ} {p : Control}
  {op : Op} {k : ℕ → Except Err op.Res → Control} {r : Except Err op.Res}

/-- A process that awaits nothing ahead promises nothing. -/
theorem ahead_or_mirrors {q : Control} {j : ℕ} (hq : c.procs j = some q) :
    (q.Serving ∧ ∃ op, (dep.control (ledger d)).pending c j = some op ∧ op.AnswerAhead) ∨
      ∀ row, dep.Mirrors j row q := by
  cases q with
  | checked result =>
      cases result with
      | miss => exact .inl ⟨trivial, _, Pool.pending_of_view hq rfl, rfl⟩
      | _ => exact .inr fun _ ↦ trivial
  | handling handler =>
      refine .inl ⟨trivial, ?_⟩
      rcases Control.handling_eta handler with ⟨response, rfl⟩ | ⟨e, rfl⟩ | ⟨op, k, h, rfl⟩
      · exact ⟨_, Pool.pending_of_view hq rfl, trivial⟩
      · exact ⟨_, Pool.pending_of_view hq rfl, trivial⟩
      · refine ⟨op, Pool.pending_of_view hq rfl, ?_⟩
        cases op <;> first | exact h.1 | exact h.1.elim
  | storeUpdate response | storeSet response | repopulate row statusCode =>
      exact .inl ⟨trivial, _, Pool.pending_of_view hq rfl, trivial⟩
  | _ => exact .inr fun _ ↦ trivial

/-- Nobody but its owner promises anything about a record without a response. -/
theorem mirrors_of_other {q : Control} {j : ℕ} {old : IdempotencyRecord} (hne : j ≠ i)
    (hid : old.id = dep.recordId i) (hcode : old.statusCode = none)
    (hq : dep.Mirrors j old q) (row : IdempotencyRecord) : dep.Mirrors j row q := by
  have hown : old.id ≠ dep.recordId j :=
    fun h ↦ hne (dep.recordId_injective (h.symm.trans hid))
  cases q with
  | checked result =>
      cases result with
      | miss => exact absurd hq.1 hown
      | _ => trivial
  | handling handler | storeUpdate response => exact absurd hq.1 hown
  | storeSet response | repopulate old' statusCode =>
      exact absurd (hcode.symm.trans hq.2.1) nofun
  | _ => trivial

theorem Mirror.settle_other (hinv : dep.Mirror key c) (hproc : c.procs i = some p)
    (hview : (dep.control (ledger d)).view i p = .await op k)
    (hsettle : c.store.settle d f op = some (r, w'))
    {b : Config calls World ℕ Control}
    (hlegal : dep.Healing key (dep.control (ledger d)) c (.settle i f) b)
    {j : ℕ} {q : Control} {row : IdempotencyRecord} (hne : j ≠ i) (hkey : dep.key j = key)
    (hcarries : q.Serving → dep.Carries key j) (hq : c.procs j = some q)
    (hrow : w'.record key = some row) : dep.Mirrors j row q := by
  rcases row_change key hview hsettle with hsame | hchange
  · exact hinv.control j q row hkey hq (hsame.symm.trans hrow)
  rw [hrow] at hchange
  generalize hbefore : c.store.record key = before at hchange
  cases hchange with
  | inserted hkey' =>
      have hpromise : (q.Serving ∧ ∃ op, (dep.control (ledger d)).pending c j = some op ∧
          op.AnswerAhead) ∨ ∀ row, dep.Mirrors j row q := ahead_or_mirrors hq
      rcases hpromise with
        ⟨hserving, op', hpending, hahead⟩ | hmirrors
      · obtain ⟨old, hold, -⟩ := exists_record_of_ahead hproc hview hsettle hlegal.overlap hne
          (hcarries hserving) hpending hahead hrow
        exact absurd (hbefore.symm.trans hold) nofun
      · exact hmirrors _
  | @stored _ old hkey' =>
      obtain ⟨hid, -, hcode⟩ := hinv.control i _ old hkey' hproc hbefore
      exact mirrors_of_other hne hid hcode (hinv.control j q old hkey hq hbefore) _

theorem Mirror.settle_self (hinv : dep.Mirror key c) (hproc : c.procs i = some p)
    (hview : (dep.control (ledger d)).view i p = .await op k)
    (hsettle : c.store.settle d f op = some (r, w')) {row : IdempotencyRecord}
    (hkey : dep.key i = key) (hrow : w'.record key = some row) :
    dep.Mirrors i row (k w'.clock r) := by
  have ht := transition hview hsettle
  have hbefore : ∀ row, c.store.record key = some row → dep.Mirrors i row p :=
    fun row ↦ hinv.control i p row hkey hproc
  have hchange := row_change key hview hsettle
  rw [hrow] at hchange
  generalize k w'.clock r = q at ht
  generalize hold : c.store.record key = before at hchange
  cases ht with
  | inserted hnone hsome =>
      rw [hkey] at hsome
      obtain rfl := Option.some.inj (hsome.symm.trans hrow)
      exact ⟨rfl, rfl, rfl⟩
  | admitted | handlerAwaited | handlerSucceeded =>
      rcases hchange with hsame | hchange
      · exact hbefore row (hold.trans hsame.symm)
      · cases hchange
  | stored hstored =>
      rw [hkey] at hstored
      refine ⟨?_, hstored row hrow⟩
      rcases hchange with hsame | hchange
      · exact (hbefore row (hold.trans hsame.symm)).2.1
      · cases hchange with
        | @stored _ old _ => exact (hbefore old hold).2.1
  | foundResponse hrow' hhash hcode =>
      rcases hchange with hsame | hchange
      · rw [hkey, hold, ← hsame] at hrow'
        obtain rfl := Option.some.inj hrow'
        exact ⟨rfl, truthyCode_eq hcode, rfl⟩
      · cases hchange
  | @parsed raw result hfound htruthy hparse =>
      cases result with
      | miss => exact absurd hparse (parseIdempotencyData_ne_miss raw _)
      | _ => trivial
  | _ => trivial

theorem Mirror.settle_sent (hinv : dep.Mirror key c)
    (hview : (dep.control (ledger d)).view i p = .await op k)
    (hsettle : c.store.settle d f op = some (r, w')) {row : IdempotencyRecord}
    {statusCode : ℕ} (hrow : w'.record key = some row)
    (hcode : row.statusCode = some statusCode) :
    truthyCode row.statusCode = some statusCode := by
  rcases row_change key hview hsettle with hsame | hchange
  · exact hinv.sent row statusCode (hsame.symm.trans hrow) hcode
  rw [hrow] at hchange
  generalize c.store.record key = before at hchange
  cases hchange with
  | inserted hkey => cases hcode
  | @stored response _ hkey =>
      rw [← hcode]
      exact response.status.truthyCode_code

theorem Mirror.settle_parsed (hinv : dep.Mirror key c)
    (hview : (dep.control (ledger d)).view i p = .await op k)
    (hsettle : c.store.settle d f op = some (r, w')) {raw : RedisText}
    (hraw : w'.redisGet (redisKey key) = some raw) : ∃ data, raw = .json data := by
  rcases redis_change key hview hsettle with hsame | hchange
  · exact hinv.parsed raw (hsame.symm.trans hraw)
  rw [hraw] at hchange
  generalize c.store.redisGet (redisKey key) = before at hchange
  cases hchange with
  | placed | repopulated | stored => exact ⟨_, rfl⟩

/-- No control point changes both stores. -/
theorem record_of_redisChange {found found' : Option RedisText}
    (hview : (dep.control (ledger d)).view i p = .await op k)
    (hsettle : c.store.settle d f op = some (r, w'))
    (hredis : RedisChange dep key i p found found') :
    w'.record key = c.store.record key := by
  rcases row_change key hview hsettle with hsame | hchange
  · exact hsame
  · generalize w'.record key = after at hchange
    generalize c.store.record key = before at hchange
    cases hredis <;> cases hchange

theorem Mirror.settle_redis (hinv : dep.Mirror key c) (hproc : c.procs i = some p)
    (hview : (dep.control (ledger d)).view i p = .await op k)
    (hsettle : c.store.settle d f op = some (r, w'))
    {b : Config calls World ℕ Control}
    (hlegal : dep.Healing key (dep.control (ledger d)) c (.settle i f) b)
    {data : IdempotencyData} {row : IdempotencyRecord} {statusCode : ℕ}
    (hdata : w'.redisGet (redisKey key) = some (.json data))
    (hcode : data.statusCode = some statusCode) (hrow : w'.record key = some row) :
    row.requestHash = data.requestHash ∧ row.statusCode = data.statusCode ∧
      row.response = data.response := by
  rcases redis_change key hview hsettle with hsame | hredis
  · have hdata' : c.store.redisGet (redisKey key) = some (.json data) := hsame.symm.trans hdata
    by_cases hw : w' = c.store
    · subst hw
      exact hinv.redis data row statusCode hdata hcode hrow
    rcases row_change key hview hsettle with hkept | hchange
    · exact hinv.redis data row statusCode hdata' hcode (hkept.symm.trans hrow)
    rw [hrow] at hchange
    generalize hbefore : c.store.record key = before at hchange
    cases hchange with
    | inserted hkey =>
        subst hkey
        cases hview
        have hnone := hlegal.stale i f _ _ _ rfl (World.settle_effect hsettle hw)
          (Pool.pending_of_view hproc rfl) hbefore data hdata'
        exact absurd (hcode.symm.trans hnone) nofun
    | @stored _ old hkey =>
        obtain ⟨-, -, hnone⟩ := hinv.control i _ old hkey hproc hbefore
        obtain ⟨-, hsome, -⟩ := hinv.redis data old statusCode hdata' hcode hbefore
        exact absurd (hcode.symm.trans (hsome.symm.trans hnone)) nofun
  · have hrow' : c.store.record key = some row :=
      (record_of_redisChange hview hsettle hredis).symm.trans hrow
    rw [hdata] at hredis
    generalize c.store.redisGet (redisKey key) = before at hredis
    cases hredis with
    | placed hkey => cases hcode
    | repopulated hkey => exact hinv.control i _ row hkey hproc hrow'
    | stored hkey => exact hinv.control i _ row hkey hproc hrow'

/-- Removing or overwriting the Redis value lifts the shadow. -/
theorem not_shadowed_of_mends (hview : (dep.control (ledger d)).view i p = .await op k)
    (hkey : dep.key i = key) (hmends : p.Mends) (hcreate : ∀ expiresAt, p ≠ .create expiresAt)
    (w : World) : op.Overwrites key ∧ ¬Shadowed key (w.answer op).2 := by
  subst hkey
  cases p with
  | create expiresAt => exact absurd rfl (hcreate expiresAt)
  | rollbackDup | rollback e | expiredDel | releaseDel e =>
      cases hview
      refine ⟨rfl, ?_⟩
      rintro ⟨-, data, hdata, -⟩
      rw [World.answer_redisGet, onRedis_del] at hdata
      exact absurd ((if_pos rfl).symm.trans hdata) nofun
  | repopulate row statusCode | storeSet response =>
      cases hview
      refine ⟨rfl, ?_⟩
      rintro ⟨-, data, hdata, hnone⟩
      rw [World.answer_redisGet, onRedis_set] at hdata
      cases (if_pos rfl).symm.trans hdata
      cases hnone
  | _ => exact hmends.elim

theorem op_mends (hview : (dep.control (ledger d)).view i p = .await op k)
    (hkey : dep.key i = key) (hmends : p.Mends) : op.Mends key := by
  by_cases hcreate : ∃ expiresAt, p = .create expiresAt
  · obtain ⟨expiresAt, rfl⟩ := hcreate
    subst hkey
    cases hview
    exact .inr ⟨_, _, _, rfl⟩
  · exact .inl (not_shadowed_of_mends hview hkey hmends
      (fun expiresAt h ↦ hcreate ⟨expiresAt, h⟩) (.initial 0)).1

/-- A call that casts the shadow has run undisturbed. -/
theorem run_of_shadows (hview : (dep.control (ledger d)).view i p = .await op k)
    (hsettle : c.store.settle d f op = some (r, w')) {b : Config calls World ℕ Control}
    (hlegal : dep.Healing key (dep.control (ledger d)) c (.settle i f) b)
    (hproc : c.procs i = some p) (hw : w' ≠ c.store) (hop : op.Shadows key c.store) :
    c.store.answer op = (r, w') := by
  rcases World.settle_cases hsettle with ⟨hrun, -, -⟩ | ⟨e, -, -, -, ⟨-, hsame⟩ | ⟨rfl, -⟩⟩
  · exact hrun
  · exact absurd hsame hw
  · exact absurd hop (hlegal.torn i e op rfl (Pool.pending_of_view hproc hview))

/-- A placeholder that settles over a response has a process to remove it. -/
theorem mended_placed (hview : (dep.control (ledger d)).view i .setNX = .await op k)
    (hkey : dep.key i = key) (hsettle : c.store.settle d f op = some (r, w'))
    {b : Config calls World ℕ Control}
    (hlegal : dep.Healing key (dep.control (ledger d)) c (.settle i f) b)
    (hproc : c.procs i = some .setNX) (hnone : c.store.redisGet (redisKey key) = none)
    (hresponse : ∃ row, c.store.record key = some row ∧ row.statusCode ≠ none)
    (hw : w' ≠ c.store) : (k w'.clock r).Mends := by
  subst hkey
  have hview' := hview
  cases hview
  have hrun := run_of_shadows hview' hsettle hlegal hproc hw ⟨rfl, hnone, hresponse⟩
  simp only [World.answer] at hrun
  rw [show c.store.redisGet (redisKey (dep.post i).request.key) = none from hnone] at hrun
  obtain ⟨hr, -⟩ := Prod.mk.inj hrun
  rw [← hr]
  trivial

/-- A response that settles under a placeholder has a process to publish it. -/
theorem mended_stored {response : Response} {row : IdempotencyRecord}
    (hview : (dep.control (ledger d)).view i (.storeUpdate response) = .await op k)
    (hkey : dep.key i = key) (hsettle : c.store.settle d f op = some (r, w'))
    {b : Config calls World ℕ Control}
    (hlegal : dep.Healing key (dep.control (ledger d)) c (.settle i f) b)
    (hproc : c.procs i = some (.storeUpdate response)) (hrow : c.store.record key = some row)
    (hbare : ∃ data, c.store.redisGet (redisKey key) = some (.json data) ∧
      data.statusCode = none)
    (hw : w' ≠ c.store) : (k w'.clock r).Mends := by
  subst hkey
  have hview' := hview
  cases hview
  have hrun := run_of_shadows hview' hsettle hlegal hproc hw ⟨rfl, ⟨row, hrow⟩, hbare⟩
  simp only [World.answer] at hrun
  rw [show c.store.idempotencyRecords.lookup (dep.post i).request.key = some row from hrow]
    at hrun
  obtain ⟨hr, -⟩ := Prod.mk.inj hrun
  rw [← hr]
  trivial

/-- A process that would clear the shadow either has done so or still will. -/
theorem mended_self (hview : (dep.control (ledger d)).view i p = .await op k)
    (hkey : dep.key i = key) (hsettle : c.store.settle d f op = some (r, w'))
    {b : Config calls World ℕ Control}
    (hlegal : dep.Healing key (dep.control (ledger d)) c (.settle i f) b)
    (hproc : c.procs i = some p) (hmends : p.Mends) (hbefore : Shadowed key c.store)
    (hshadowed : Shadowed key w') : (k w'.clock r).Mends := by
  by_cases hcreate : ∃ expiresAt, p = .create expiresAt
  · obtain ⟨expiresAt, rfl⟩ := hcreate
    have ht := transition hview hsettle
    generalize k w'.clock r = q at ht
    cases ht with
    | inserted hnone hsome =>
        obtain ⟨⟨row, hrow, -⟩, -⟩ := hbefore
        exact absurd ((hkey ▸ hnone).symm.trans hrow) nofun
    | duplicate hrow => trivial
    | createFailed => trivial
  · obtain ⟨hop, hclear⟩ := not_shadowed_of_mends hview hkey hmends
      (fun expiresAt h ↦ hcreate ⟨expiresAt, h⟩) c.store
    exfalso
    rcases World.settle_cases hsettle with ⟨hrun, -, -⟩ | ⟨e, -, -, -, ⟨rfl, hsame⟩ | ⟨-, hw⟩⟩
    · rw [hrun] at hclear
      exact hclear hshadowed
    · exact hlegal.lost hbefore i e op rfl (Pool.pending_of_view hproc hview) hop
    · exact hclear (hw ▸ hshadowed)

theorem Mirror.settle_mended (hinv : dep.Mirror key c) (hproc : c.procs i = some p)
    (hview : (dep.control (ledger d)).view i p = .await op k)
    (hsettle : c.store.settle d f op = some (r, w'))
    {b : Config calls World ℕ Control}
    (hlegal : dep.Healing key (dep.control (ledger d)) c (.settle i f) b)
    (hshadowed : Shadowed key w') :
    ∃ j q, dep.key j = key ∧ Function.update c.procs i (some (k w'.clock r)) j = some q ∧
      q.Mends := by
  -- an old shadow has its mender from the invariant; a new one is cast by this call
  by_cases hbefore : Shadowed key c.store
  · obtain ⟨j, q, hkey, hq, hmends⟩ := hinv.mended hbefore
    by_cases hji : j = i
    · subst hji
      obtain rfl := Option.some.inj (hproc.symm.trans hq)
      exact ⟨j, _, hkey, Function.update_self ..,
        mended_self hview hkey hsettle hlegal hproc hmends hbefore hshadowed⟩
    · exact ⟨j, q, hkey, (Function.update_of_ne hji ..).trans hq, hmends⟩
  have hw : w' ≠ c.store := fun h ↦ hbefore (h ▸ hshadowed)
  obtain ⟨⟨row, hrow, hcode⟩, data, hdata, hnone⟩ := hshadowed
  rcases redis_change key hview hsettle with hsame | hredis
  · rcases row_change key hview hsettle with hkept | hchange
    · exact absurd ⟨⟨row, hkept.symm.trans hrow, hcode⟩, data, hsame.symm.trans hdata, hnone⟩
        hbefore
    rw [hrow] at hchange
    generalize hold : c.store.record key = before at hchange
    cases hchange with
    | inserted hkey => exact absurd rfl hcode
    | stored hkey =>
        exact ⟨i, _, hkey, Function.update_self ..,
          mended_stored hview hkey hsettle hlegal hproc hold
            ⟨data, hsame.symm.trans hdata, hnone⟩ hw⟩
  · have hrow' : c.store.record key = some row :=
      (record_of_redisChange hview hsettle hredis).symm.trans hrow
    rw [hdata] at hredis
    generalize hold : c.store.redisGet (redisKey key) = before at hredis
    cases hredis with
    | placed hkey =>
        exact ⟨i, _, hkey, Function.update_self ..,
          mended_placed hview hkey hsettle hlegal hproc hold ⟨row, hrow', hcode⟩ hw⟩
    | repopulated hkey => cases hnone
    | stored hkey => cases hnone

end Settle

theorem Mirror.step {a b : Config calls World ℕ Control} {m : (ledger d).Moves}
    (hstep : (dep.control (ledger d)).Step a m b)
    (hlegal : dep.Healing key (dep.control (ledger d)) a m b)
    (hcarries : ∀ i p, a.procs i = some p → p.Serving → dep.Carries (dep.key i) i)
    (hinv : dep.Mirror key a) : dep.Mirror key b := by
  cases hstep with
  | @settle i f p op k r w' hproc hview hsettle =>
      exact
        { control := by
            intro j q row hkey hj hrow
            rcases Pool.of_update_some hj with ⟨rfl, rfl⟩ | ⟨hne, hj⟩
            · exact hinv.settle_self hproc hview hsettle hkey hrow
            · exact hinv.settle_other hproc hview hsettle hlegal hne hkey
                (fun hserving ↦ hkey ▸ hcarries j q hj hserving) hj hrow
          sent := fun row statusCode ↦ hinv.settle_sent hview hsettle
          parsed := fun raw ↦ hinv.settle_parsed hview hsettle
          redis := fun data row statusCode ↦ hinv.settle_redis hproc hview hsettle hlegal
          mended := hinv.settle_mended hproc hview hsettle hlegal }
  | @crash i p op k hproc hview =>
      exact
        { control := fun j q row hkey hj ↦
            hinv.control j q row hkey (Pool.of_update_none hj).2
          sent := hinv.sent
          parsed := hinv.parsed
          redis := hinv.redis
          mended := by
            intro hshadowed
            obtain ⟨j, q, hkey, hq, hmends⟩ := hinv.mended hshadowed
            by_cases hji : j = i
            · subst hji
              obtain rfl := Option.some.inj (hproc.symm.trans hq)
              have hserving : p.Serving := by
                cases p <;> trivial
              exact absurd (op_mends hview hkey hmends)
                (hlegal.crash hshadowed j op rfl (hkey ▸ hcarries j p hproc hserving)
                  (Pool.pending_of_view hproc hview))
            · exact ⟨j, q, hkey, (Function.update_of_ne hji ..).trans hq, hmends⟩ }
  | @drift dr w' hdrift =>
      obtain rfl := Option.some.inj hdrift
      have hredis : ∀ {raw}, (a.store.drift dr).redisGet (redisKey key) = some raw →
          a.store.redisGet (redisKey key) = some raw := by
        intro raw hraw
        rcases World.drift_redisGet a.store dr (redisKey key) with hsame | hnone
        · exact hsame.symm.trans hraw
        · exact absurd (hnone.symm.trans hraw) nofun
      exact
        { control := fun j q row hkey hj hrow ↦
            hinv.control j q row hkey hj ((World.drift_record ..).symm.trans hrow)
          sent := fun row statusCode hrow ↦
            hinv.sent row statusCode ((World.drift_record ..).symm.trans hrow)
          parsed := fun raw hraw ↦ hinv.parsed raw (hredis hraw)
          redis := fun data row statusCode hdata hcode hrow ↦
            hinv.redis data row statusCode (hredis hdata) hcode
              ((World.drift_record ..).symm.trans hrow)
          mended := by
            rintro ⟨⟨row, hrow, hcode⟩, data, hdata, hnone⟩
            exact hinv.mended ⟨⟨row, (World.drift_record ..).symm.trans hrow, hcode⟩, data,
              hredis hdata, hnone⟩ }

theorem mirror_start (clock : ℕ) : dep.Mirror key (dep.controlStart clock) where
  control := by
    intro i p row _ _ hrow
    cases hrow
  sent := by
    intro row statusCode hrow
    cases hrow
  parsed := by
    intro raw hraw
    cases hraw
  redis := by
    intro data row statusCode hraw
    cases hraw
  mended := by
    rintro ⟨⟨row, hrow, -⟩, -⟩
    cases hrow

theorem mirror_of_reachable {clock : ℕ}
    (h : (dep.control (ledger d)).Reachable (dep.Healing key (dep.control (ledger d)))
      (dep.controlStart clock) c) : dep.Mirror key c :=
  h.invariant (dep.Mirror key) (mirror_start clock) fun ha hstep hlegal hinv ↦
    hinv.step hstep hlegal fun _ _ ↦ carries_of_serving ha

/-! ## The programs -/

/-- When nobody is left to clear a shadow, there is none. -/
theorem not_shadowed_of_quiet {clock : ℕ}
    (h : (dep.control (ledger d)).Reachable (dep.Healing key (dep.control (ledger d)))
      (dep.controlStart clock) c) (hquiet : dep.Quiet key (dep.control (ledger d)) c) :
    ¬Shadowed key c.store := by
  intro hshadowed
  obtain ⟨i, p, hkey, hproc, hmends⟩ := (mirror_of_reachable h).mended hshadowed
  have hserving : p.Serving := by
    cases p <;> trivial
  rcases hquiet i (hkey ▸ carries_of_serving h hproc hserving) with hpending | hfresh
  · obtain ⟨op, k, hview⟩ : ∃ op k, (dep.control (ledger d)).view i p = .await op k := by
      cases p <;> first | exact ⟨_, _, rfl⟩ | exact hmends.elim
    exact absurd ((Pool.pending_of_view hproc hview).symm.trans hpending) nofun
  · rcases h.untouched_or_started i with hsame | hnone | ⟨e, he, hei⟩
    · obtain rfl := Option.some.inj (hsame.symm.trans hproc)
      rcases Control.initial_cases (dep.role i) with h | h | ⟨_, h⟩ | ⟨_, h⟩ <;>
        rw [h] at hmends <;> exact hmends.elim
    · exact absurd (hnone.symm.trans hproc) nofun
    · exact absurd hei (hfresh e he)

theorem Mirror.replayable (hinv : dep.Mirror key c) (hshadow : ¬Shadowed key c.store) :
    Replayable dep.cfg key c.store := by
  intro id row statusCode response hrow hlive hcode hresponse
  have htruthy := hinv.sent row statusCode hrow hcode
  rw [alone_checkAndAcquire hrow hlive htruthy]
  cases hfound : c.store.redisGet (redisKey key) with
  | none => rw [hresponse]
  | some raw =>
      obtain ⟨data, rfl⟩ := hinv.parsed raw hfound
      cases hsent : data.statusCode with
      | none =>
          have hshadowed : Shadowed key c.store :=
            ⟨⟨row, hrow, by rw [hcode]; exact nofun⟩, data, hfound, hsent⟩
          exact absurd hshadowed hshadow
      | some sent =>
          obtain ⟨hhash, hstatus, hbody⟩ := hinv.redis data row sent hfound hsent hrow
          simp only [RedisText.truthy, parseIdempotencyData, hhash, ← hstatus, htruthy, ← hbody,
            hresponse, if_true]

theorem healing_map {a b : Config calls World ℕ Control} {m : (ledger d).Moves}
    (h : dep.Healing key ((ledger d).programs Outcome) (a.map dep.code) m (b.map dep.code)) :
    dep.Healing key (dep.control (ledger d)) a m b := by
  have hpending := (dep.control_implements (ledger d)).pending_map a
  constructor
  · exact noOverlap_map h.overlap
  · intro i f
    have hstale := h.stale i f
    rw [hpending] at hstale
    exact hstale
  · intro hshadowed i
    have hcrash := h.crash hshadowed i
    rw [hpending] at hcrash
    exact hcrash
  · intro hshadowed i
    have hlost := h.lost hshadowed i
    rw [hpending] at hlost
    exact hlost
  · intro i
    have htorn := h.torn i
    rw [hpending] at htorn
    exact htorn

/-- In every run of moves that let the key heal, a completed response is replayed as
soon as no request for the key is under way. -/
theorem staysReplayable_of_healing (dep : Deployment) (d : Delivery) (key : String)
    (clock : ℕ) :
    dep.StaysReplayable key ((ledger d).programs Outcome)
      (dep.Healing key ((ledger d).programs Outcome)) (dep.start clock) := by
  intro c hc hquiet
  have himpl := dep.control_implements (ledger d)
  rw [← dep.map_controlStart] at hc
  obtain ⟨b, rfl, hb⟩ := himpl.lift hc
  have hreach := hb.mono fun h ↦ healing_map h
  refine (mirror_of_reachable hreach).replayable (not_shadowed_of_quiet hreach ?_)
  intro i hi
  rw [← himpl.pending_map]
  exact hquiet i hi

theorem quiet_of_ended {P : Type} {L : Pool (ledger d) Outcome P} {c : Config calls World ℕ P}
    {n : ℕ} (hended : ∀ i < n, L.pending c i = none) (hlog : ∀ e ∈ c.log, e.proc < n) :
    dep.Quiet key L c := by
  intro i _
  by_cases hi : i < n
  · exact .inl (hended i hi)
  · exact .inr fun e he hei ↦ hi (hei ▸ hlog e he)

/-- Whether the move inserts a record alone and under a placeholder, tears no call, and
loses a call or a process only while Redis is empty. -/
def heals (n : ℕ) (key : String) {P : Type} (L : Pool (ledger d) Outcome P)
    (a : Config calls World ℕ P) (m : (ledger d).Moves) : Bool :=
  insertsAlone n L a m &&
    match m with
    | .settle i .run =>
        match L.pending a i with
        | some (.recordCreate ..) =>
            (a.store.record key).isSome || (a.store.redisGet (redisKey key)).all fun raw ↦
              match raw with
              | .json data => data.statusCode.isNone
              | _ => true
        | _ => true
    | .settle _ (.lost _) | .crash _ => (a.store.redisGet (redisKey key)).isNone
    | .settle _ (.torn _) => false
    | .drift _ => true

theorem healing_of_heals {clock n : ℕ}
    {legal : Config calls World ℕ (Promise Outcome) → (ledger d).Moves →
      Config calls World ℕ (Promise Outcome) → Prop}
    {a b : Config calls World ℕ (Promise Outcome)} {m : (ledger d).Moves}
    (ha : ((ledger d).programs Outcome).Reachable legal (dep.start clock) a)
    (h : heals n key ((ledger d).programs Outcome) a m) :
    dep.Healing key ((ledger d).programs Outcome) a m b := by
  obtain ⟨halone, hmove⟩ := Bool.and_eq_true_iff.mp h
  constructor
  · exact noOverlap_of_insertsAlone (fun _ _ _ ↦ id) ha halone
  · rintro i f id requestHash expiresAt rfl hf hpending hnone data hdata
    cases f with
    | run => simpa [hpending, hnone, hdata] using hmove
    | lost e => exact absurd rfl (hf e)
    | torn e => cases hmove
  · rintro ⟨-, data, hdata, -⟩ i op rfl
    rw [hdata] at hmove
    cases hmove
  · rintro ⟨-, data, hdata, -⟩ i e op rfl
    rw [hdata] at hmove
    cases hmove
  · rintro i e op rfl
    cases hmove

/-- The first request completes and Redis loses its entry.  The re-population by the second
request is lost, the third crashes before its own. -/
def lostRepopulation : List (ledger .exclusive).Moves :=
  [.settle 0 .run, .settle 0 .run, .settle 0 .run, .settle 0 .run, .settle 0 .run,
    .settle 0 .run, .drift (.loseRedisKey (redisKey "k")), .settle 1 .run, .settle 1 .run,
    .settle 1 .run, .settle 1 .run, .settle 1 (.lost (.error "Connection is closed.")),
    .settle 2 .run, .settle 2 .run, .settle 2 .run, .settle 2 .run, .crash 2]

theorem replayable_lostRepopulation :
    Replayable oneHour "k" (((ledger .exclusive).programs Outcome).played
      (fun a m _ ↦ heals 3 "k" ((ledger .exclusive).programs Outcome) a m)
      ((drill fun _ ↦ posting "k" "h").start 0) lostRepopulation).store :=
  staysReplayable_of_healing (drill fun _ ↦ posting "k" "h") .exclusive "k" 0 _
    (Pool.reachable_played_checked (fun _ _ _ ↦ healing_of_heals) rfl)
    (quiet_of_ended (by decide : ∀ i < 3, _) (by decide))

/-- The first request completes, Redis loses its entry, and the second request
crashes after it has placed its placeholder. -/
def crashAfterPlaceholder : List (ledger .exclusive).Moves :=
  [.settle 0 .run, .settle 0 .run, .settle 0 .run, .settle 0 .run, .settle 0 .run,
    .settle 0 .run, .drift (.loseRedisKey (redisKey "k")), .settle 1 .run, .crash 1]

theorem shadowed_crashAfterPlaceholder :
    ¬(drill fun _ ↦ posting "k" "h").StaysReplayable "k" ((ledger .exclusive).programs Outcome)
      ((ledger .exclusive).programs Outcome).anyMove
      ((drill fun _ ↦ posting "k" "h").start 0) := by
  intro h
  have hreplay := h
    (((ledger .exclusive).programs Outcome).played (fun _ _ _ ↦ true)
      ((drill fun _ ↦ posting "k" "h").start 0) crashAfterPlaceholder)
    (Pool.reachable_played (fun _ _ _ _ ↦ trivial) rfl) ?_
    "next" ⟨"", "k", "h", some 201, some (.str "ok"), 3600000⟩ 201 (.str "ok") rfl
    (by decide) rfl rfl
  · cases hreplay
  · exact quiet_of_ended (by decide : ∀ i < 2, _) (by decide)

end Deployment

end TransactionLedger
