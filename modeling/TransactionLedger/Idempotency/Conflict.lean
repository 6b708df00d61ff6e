import TransactionLedger.Idempotency.Replay

/-!
# False conflicts

A request that loses the insertion has already published its own hash in Redis.
Until it removes the placeholder, a faithful retry of the admitted body is told
that the bodies differ.  This is the only way: as long as every placeholder and
every record are made with the hash the other store already holds, the two
stores agree.
-/

namespace TransactionLedger

open Async IdempotencyService

namespace Deployment

variable {dep : Deployment} {key : String} {d : Delivery}

/-- The key has a record with the hash of the request that process `i` serves. -/
def Recorded (dep : Deployment) (key : String) (i : ℕ) (w : World) : Prop :=
  ∃ row, w.record key = some row ∧ row.requestHash = dep.hash i

instance (dep : Deployment) (key : String) (i : ℕ) (w : World) :
    Decidable (dep.Recorded key i w) :=
  decidable_of_iff ((w.record key).any fun row ↦ row.requestHash = dep.hash i) (by
    simp [Recorded, Option.any_eq_true])

/-- Whenever the record has a request's hash from before its first call until
`checkAndAcquire` answers it, the answer is not a mismatch. -/
def NoFalseConflict (dep : Deployment) (key : String) {P : Type}
    (L : Pool (ledger d) Outcome P)
    (legal : Config calls World ℕ P → (ledger d).Moves → Config calls World ℕ P → Prop)
    (c₀ : Config calls World ℕ P) : Prop :=
  ∀ c₁ c₂ i, dep.Carries key i → L.Reachable legal c₀ c₁ → (∀ e ∈ c₁.log, e.proc ≠ i) →
    dep.Recorded key i c₁.store →
    L.Reachable (fun a m b ↦ legal a m b ∧ dep.Recorded key i b.store) c₁ c₂ →
      L.pending c₂ i ≠ some (.observe (.checked .hashMismatch))

/-- The move does not let a placeholder settle over a record with another hash,
nor a record over a placeholder with another hash. -/
def SameBody (key : String) {P : Type} (L : Pool (ledger d) Outcome P)
    (c : Config calls World ℕ P) (m : (ledger d).Moves) : Prop :=
  ∀ i f, m = .settle i f → (∀ e, f ≠ Fate.lost e) →
    (∀ requestHash ttl, L.pending c i =
        some (.redisSetNX (redisKey key) (placeholder requestHash) ttl) →
      c.store.redisGet (redisKey key) = none →
      ∀ row, c.store.record key = some row → row.requestHash = requestHash) ∧
    ∀ id requestHash expiresAt, L.pending c i =
        some (.recordCreate id key requestHash expiresAt) →
      c.store.record key = none →
      ∀ data, c.store.redisGet (redisKey key) = some (.json data) →
        data.requestHash = requestHash

/-! ## The stores agree -/

/-- Redis and PostgreSQL hold the same hash. -/
def StoresAgree (key : String) (w : World) : Prop :=
  ∀ row data, w.record key = some row → w.redisGet (redisKey key) = some (.json data) →
    data.requestHash = row.requestHash

theorem Replay.hash_of_owned {c : Config calls World ℕ Control} (hinv : dep.Replay key c)
    {i : ℕ} (howned : dep.OwnedBy key i c.store) {row : IdempotencyRecord}
    (hrow : c.store.record key = some row) : row.requestHash = dep.hash i := by
  obtain ⟨own, hown, hid⟩ := howned
  obtain rfl := Option.some.inj (hrow.symm.trans hown)
  obtain ⟨⟨j, hid', hhash⟩, -⟩ := hinv.row row hrow
  obtain rfl := dep.recordId_injective (hid'.symm.trans hid)
  exact hhash

/-- The record has the hash of the request that succeeded. -/
theorem Replay.hash_of_produced {c : Config calls World ℕ Control} (hinv : dep.Replay key c)
    (hlock : dep.Admission key c) {requestHash : String} {statusCode : ℕ}
    {response : Option Json} (h : dep.Produced key c.log requestHash statusCode response)
    {row : IdempotencyRecord} (hrow : c.store.record key = some row) :
    row.requestHash = requestHash := by
  obtain ⟨i, sent, hcarries, hmem, hhash, -⟩ := h
  rw [← hhash]
  exact hinv.hash_of_owned (hlock.succeeded i sent hcarries.key_eq hmem).1 hrow

section Settle

variable {c : Config calls World ℕ Control} {f : Fate} {w' : World} {i : ℕ} {p : Control}
  {op : Op} {k : ℕ → Except Err op.Res → Control} {r : Except Err op.Res}

theorem storesAgree_settle (hinv : dep.Replay key c) (hlock : dep.Admission key c)
    (hproc : c.procs i = some p) (hview : (dep.control (ledger d)).view i p = .await op k)
    (hsettle : c.store.settle d f op = some (r, w'))
    (hlegal : SameBody key (dep.control (ledger d)) c (.settle i f))
    (hagree : StoresAgree key c.store) : StoresAgree key w' := by
  have hpending : (dep.control (ledger d)).pending c i = some op :=
    Pool.pending_of_view hproc hview
  intro row data hrow hdata
  have hrow' := row_change key hview hsettle
  have hdata' := redis_change key hview hsettle
  by_cases hsame : w' = c.store
  · subst hsame
    exact hagree row data hrow hdata
  obtain ⟨hplace, hinsert⟩ := hlegal i f rfl (World.settle_effect hsettle hsame)
  rcases hdata' with hkept | hredis
  · rcases hrow' with hrowkept | hrecord
    · exact hagree row data (hrowkept.symm.trans hrow) (hkept.symm.trans hdata)
    rw [hrow] at hrecord
    generalize hbefore : c.store.record key = before at hrecord
    cases hrecord with
    | @inserted expiresAt hkey =>
        subst hkey
        cases hview
        exact hinsert _ _ _ hpending hbefore data (hkept.symm.trans hdata)
    | @stored _ old hkey => exact hagree old data hbefore (hkept.symm.trans hdata)
  · have hrowkept : c.store.record key = some row := by
      rcases hrow' with hrowkept | hrecord
      · exact hrowkept.symm.trans hrow
      · generalize c.store.redisGet (redisKey key) = before at hredis
        generalize w'.redisGet (redisKey key) = after at hredis
        cases hredis <;> cases hrecord
    rw [hdata] at hredis
    generalize hbefore : c.store.redisGet (redisKey key) = before at hredis
    cases hredis with
    | placed hkey =>
        subst hkey
        cases hview
        exact (hplace _ _ hpending hbefore row hrowkept).symm
    | repopulated hkey =>
        obtain ⟨hhash, hproduced⟩ := hinv.control i _ hkey hproc
        exact hhash.trans (hinv.hash_of_produced hlock hproduced hrowkept).symm
    | @stored _ response hkey =>
        have hmem : handledEvent i (.ok response) ∈ c.log := hinv.control i _ hkey hproc
        exact (hinv.hash_of_owned (hlock.succeeded i response hkey hmem).1 hrowkept).symm

end Settle

theorem parseIdempotencyData_hashMismatch {raw : RedisText} {requestHash : String}
    (h : parseIdempotencyData raw requestHash = .hashMismatch) :
    ∃ data, raw = .json data ∧ data.requestHash ≠ requestHash := by
  rcases raw with data | raw
  · refine ⟨data, rfl, fun hhash ↦ ?_⟩
    simp only [parseIdempotencyData, if_pos hhash] at h
    cases hcode : truthyCode data.statusCode with
    | none =>
        rw [hcode] at h
        cases h
    | some n =>
        rw [hcode] at h
        cases h
  · cases h

/-- The moves of the runs in which no false conflict can arise. -/
def ConflictFree (key : String) {P : Type} (L : Pool (ledger d) Outcome P)
    (c : Config calls World ℕ P) (m : (ledger d).Moves) (c' : Config calls World ℕ P) : Prop :=
  c'.store.Unexpired key ∧ SameBody key L c m

theorem storesAgree_of_reachable {clock : ℕ} {c : Config calls World ℕ Control}
    (h : (dep.control (ledger d)).Reachable (ConflictFree key (dep.control (ledger d)))
      (dep.controlStart clock) c) : StoresAgree key c.store := by
  refine h.invariant (fun c ↦ StoresAgree key c.store) nofun ?_
  intro a m b ha hstep hlegal hagree
  have hunexpired := ha.mono fun {a m b} (h : ConflictFree key _ a m b) ↦ h.1
  cases hstep with
  | settle hproc hview hsettle =>
      exact storesAgree_settle (replay_of_reachable hunexpired)
        (admission_of_reachable hunexpired) hproc hview hsettle hlegal.2 hagree
  | crash hproc hview => exact hagree
  | @drift dr w' hdrift =>
      obtain rfl := Option.some.inj hdrift
      intro row data hrow hdata
      have hrow' : a.store.record key = some row := (World.drift_record ..).symm.trans hrow
      rcases World.drift_redisGet a.store dr (redisKey key) with hsame | hnone
      · exact hagree row data hrow' (hsame.symm.trans hdata)
      · exact absurd (hnone.symm.trans hdata) nofun

/-- With the stores in agreement, a faithful retry finds its own hash. -/
theorem noFalseConflict_control (dep : Deployment) (d : Delivery) (key : String) (clock : ℕ) :
    dep.NoFalseConflict key (dep.control (ledger d))
      (ConflictFree key (dep.control (ledger d))) (dep.controlStart clock) := by
  intro c₁ c₂ i hcarries hc₁ hfresh hrecorded hc₂ hpending
  have hproc := procs_of_pending_checked hpending
  suffices hnot : ∀ p, c₂.procs i = some p → p ≠ .checked .hashMismatch from
    hnot _ hproc rfl
  refine (hc₂.invariant (fun c ↦ dep.Recorded key i c.store ∧
    ∀ p, c.procs i = some p → p ≠ .checked .hashMismatch) ⟨hrecorded, ?_⟩ ?_).2
  · intro p hp
    rcases hc₁.untouched_or_started i with hsame | hnone | ⟨e, he, hei⟩
    · obtain rfl := Option.some.inj (hsame.symm.trans hp)
      rcases Control.initial_cases (dep.role i) with h | h | ⟨_, h⟩ | ⟨_, h⟩ <;>
        rw [h] <;> exact nofun
    · exact absurd (hnone.symm.trans hp) nofun
    · exact absurd hei (hfresh e he)
  · rintro a m b ha hstep ⟨hlegal, hrecordedb⟩ ⟨⟨row, hrow, hhash⟩, hnot⟩
    have hagree := storesAgree_of_reachable (hc₁.trans (ha.mono fun h ↦ h.1))
    refine ⟨hrecordedb, fun p hp ↦ ?_⟩
    cases hstep with
    | @settle j f q op k r w' hq hview hsettle =>
        rcases Pool.of_update_some hp with ⟨rfl, rfl⟩ | ⟨-, hp⟩
        · have ht := transition hview hsettle
          change k w'.clock r ≠ _
          intro hmismatch
          rw [hmismatch] at ht
          cases ht with
          | parsed hfound htruthy hparse =>
              obtain ⟨data, rfl, hdata⟩ := parseIdempotencyData_hashMismatch hparse
              rw [hcarries.key_eq] at hfound
              exact hdata ((hagree row data hrow hfound).trans hhash)
          | foundMismatch hrow' hhash' =>
              rw [hcarries.key_eq] at hrow'
              obtain rfl := Option.some.inj (hrow.symm.trans hrow')
              exact hhash' hhash
        · exact hnot p hp
    | crash hproc hview => exact hnot p (Pool.of_update_none hp).2
    | drift hdrift => exact hnot p hp

/-! ## The programs -/

theorem conflictFree_map {a b : Config calls World ℕ Control} {m : (ledger d).Moves}
    (h : ConflictFree key ((ledger d).programs Outcome) (a.map dep.code) m (b.map dep.code)) :
    ConflictFree key (dep.control (ledger d)) a m b := by
  refine ⟨h.1, fun i f hm hf ↦ ?_⟩
  have hsame := h.2 i f hm hf
  rw [(dep.control_implements (ledger d)).pending_map] at hsame
  exact hsame

/-- In every run whose moves neither let a record of the key expire nor publish
two different hashes for it, a faithful retry is never answered with a mismatch. -/
theorem noFalseConflict_of_sameBody (dep : Deployment) (d : Delivery) (key : String)
    (clock : ℕ) :
    dep.NoFalseConflict key ((ledger d).programs Outcome)
      (ConflictFree key ((ledger d).programs Outcome)) (dep.start clock) := by
  intro c₁ c₂ i hcarries hc₁ hfresh hrecorded hc₂
  have himpl := dep.control_implements (ledger d)
  rw [← dep.map_controlStart] at hc₁
  obtain ⟨b₁, rfl, hb₁⟩ := himpl.lift hc₁
  obtain ⟨b₂, rfl, hb₂⟩ := himpl.lift hc₂
  rw [himpl.pending_map]
  exact noFalseConflict_control dep d key clock b₁ b₂ i hcarries
    (hb₁.mono fun h ↦ conflictFree_map h) hfresh hrecorded
    (hb₂.mono fun h ↦ ⟨conflictFree_map h.1, h.2⟩)

def disputed (i : ℕ) : Role := posting "k" (if i = 1 then "b" else "a")

def ofHash (requestHash : String) : RedisText → Bool
  | .json data => data.requestHash = requestHash
  | _ => true

/-- Whether every hash the move publishes is the one the other store holds, and the record
has its time left. -/
def conflictFree (key : String) {P : Type} (L : Pool (ledger d) Outcome P)
    (a : Config calls World ℕ P) (m : (ledger d).Moves) (b : Config calls World ℕ P) : Bool :=
  decide (b.store.Unexpired key) &&
    match m with
    | .settle i _ =>
        match L.pending a i with
        | some (.redisSetNX _ value _) =>
            (a.store.redisGet (redisKey key)).isSome ||
              (a.store.record key).all fun row ↦ ofHash row.requestHash value
        | some (.recordCreate _ _ requestHash _) =>
            (a.store.record key).isSome ||
              (a.store.redisGet (redisKey key)).all (ofHash requestHash)
        | _ => true
    | _ => true

theorem conflictFree_of_check {P : Type} {L : Pool (ledger d) Outcome P}
    {a b : Config calls World ℕ P} {m : (ledger d).Moves} (h : conflictFree key L a m b) :
    ConflictFree key L a m b := by
  obtain ⟨hunexpired, hmove⟩ := Bool.and_eq_true_iff.mp h
  refine ⟨of_decide_eq_true hunexpired, ?_⟩
  rintro i f rfl -
  constructor
  · intro requestHash ttl hpending hnone row hrow
    have hsame : requestHash = row.requestHash := by
      simpa [hpending, hnone, hrow, ofHash, placeholder] using hmove
    exact hsame.symm
  · intro id requestHash expiresAt hpending hnone data hdata
    simpa [hpending, hnone, hdata, ofHash] using hmove

/-- The first request is admitted; the second is told, rightly, that its body differs.  The
first crashes and Redis loses its placeholder. -/
def rejectOtherBody : List (ledger .exclusive).Moves :=
  [.settle 0 .run, .settle 0 .run, .settle 1 .run, .settle 1 .run, .settle 1 .run,
    .settle 0 .run, .crash 0, .drift (.loseRedisKey (redisKey "k"))]

/-- The third request, a faithful retry of the first, places its own placeholder, cannot
insert its record and removes the placeholder again. -/
def findOwnBody : List (ledger .exclusive).Moves :=
  [.settle 2 .run, .settle 2 .run, .settle 2 .run, .settle 2 .run]

theorem noFalseConflict_findOwnBody :
    let L := (ledger .exclusive).programs Outcome
    let c₁ := L.played (conflictFree "k" L) ((drill disputed).start 0) rejectOtherBody
    let c₂ := L.played (fun a m b ↦ conflictFree "k" L a m b ∧
      (drill disputed).Recorded "k" 2 b.store) c₁ findOwnBody
    L.pending c₂ 2 = some (.observe (.checked .inProgress)) ∧
      ¬∃ c, L.Reachable (fun a m b ↦ ConflictFree "k" L a m b ∧
        (drill disputed).Recorded "k" 2 b.store) c₂ c ∧
        L.pending c 2 = some (.observe (.checked .hashMismatch)) := by
  intro L c₁ c₂
  have hc₁ : L.Reachable (ConflictFree "k" L) ((drill disputed).start 0) c₁ :=
    Pool.reachable_played (fun _ _ _ ↦ conflictFree_of_check) rfl
  have hc₂ : L.Reachable (fun a m b ↦ ConflictFree "k" L a m b ∧
      (drill disputed).Recorded "k" 2 b.store) c₁ c₂ := by
    refine Pool.reachable_played (fun a m b h ↦ ?_) rfl
    obtain ⟨hfree, hrecorded⟩ := of_decide_eq_true h
    exact ⟨conflictFree_of_check hfree, hrecorded⟩
  refine ⟨rfl, ?_⟩
  rintro ⟨c, hc, hmismatch⟩
  have hfresh : ∀ e ∈ c₁.log, e.proc ≠ 2 := by decide
  exact noFalseConflict_of_sameBody (drill disputed) .exclusive "k" 0 c₁ c 2 rfl hc₁ hfresh
    ⟨_, rfl, rfl⟩ (hc₂.trans hc) hmismatch

/-- The first request is admitted, Redis loses its placeholder, and the second
request publishes its own. -/
def publishOtherBody : List (ledger .exclusive).Moves :=
  [.settle 0 .run, .settle 0 .run, .drift (.loseRedisKey (redisKey "k")), .settle 1 .run]

/-- The third request, a faithful retry of the first, finds it. -/
def findOtherBody : List (ledger .exclusive).Moves := [.settle 2 .run, .settle 2 .run]

theorem falseConflict_findOtherBody :
    ¬(drill disputed).NoFalseConflict "k" ((ledger .exclusive).programs Outcome)
      (fun _ _ b ↦ b.store.Unexpired "k") ((drill disputed).start 0) := by
  intro h
  refine h
    (((ledger .exclusive).programs Outcome).played (fun _ _ b ↦ b.store.Unexpired "k")
      ((drill disputed).start 0) publishOtherBody)
    (((ledger .exclusive).programs Outcome).played
      (fun _ _ b ↦ b.store.Unexpired "k" ∧ (drill disputed).Recorded "k" 2 b.store)
      (((ledger .exclusive).programs Outcome).played (fun _ _ b ↦ b.store.Unexpired "k")
        ((drill disputed).start 0) publishOtherBody) findOtherBody)
    2 rfl (Pool.reachable_played (fun _ _ _ h ↦ of_decide_eq_true h) rfl) ?_
    ⟨_, rfl, rfl⟩ (Pool.reachable_played (fun _ _ _ h ↦ of_decide_eq_true h) rfl) rfl
  decide

end Deployment

end TransactionLedger
