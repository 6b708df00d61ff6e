import TransactionLedger.Idempotency.Alone
import TransactionLedger.Idempotency.Expiry
import TransactionLedger.Idempotency.Usage

/-!
# No key is locked for ever

Whatever crashes and faults leave behind in Redis or PostgreSQL, it lasts no longer than a
time to live.  After that, a request for the key is admitted at the second try at the
latest.
-/

namespace TransactionLedger

open Async Data Discipline IdempotencyService IdempotencyInterceptor

theorem Op.expiresAt_of_onRecord {op : Op} {key : String} {old : Option IdempotencyRecord}
    {row : IdempotencyRecord} (h : op.onRecord key old = some row) :
    (∃ before, old = some before ∧ before.expiresAt = row.expiresAt) ∨
      ∃ id requestHash, op = .recordCreate id key requestHash row.expiresAt := by
  cases op with
  | recordCreate id k requestHash expiresAt =>
      simp only [onRecord] at h
      split at h
      · next hk =>
          subst hk
          cases old with
          | none =>
              obtain rfl := Option.some.inj h
              exact .inr ⟨id, requestHash, rfl⟩
          | some before => exact .inl ⟨before, rfl, by rw [Option.some.inj h]⟩
      · exact .inl ⟨row, h, rfl⟩
  | recordUpdate k statusCode response =>
      simp only [onRecord] at h
      split at h
      · obtain ⟨before, hbefore, rfl⟩ := Option.map_eq_some_iff.mp h
        exact .inl ⟨before, hbefore, rfl⟩
      · exact .inl ⟨row, h, rfl⟩
  | recordDelete k =>
      simp only [onRecord] at h
      split at h
      · cases h
      · exact .inl ⟨row, h, rfl⟩
  | recordDeleteMany now =>
      obtain ⟨hrow, -⟩ := Option.filter_eq_some_iff.mp h
      exact .inl ⟨row, hrow, rfl⟩
  | _ => exact .inl ⟨row, h, rfl⟩

theorem World.redisGet_of_dead {w : World} {k : String}
    (h : ∀ e, w.redis k = some e → ¬e.live w.clock) : w.redisGet k = none := by
  unfold redisGet
  cases hentry : w.redis k with
  | none => rfl
  | some e => exact if_neg (h e hentry)

namespace Deployment

variable (dep : Deployment)

/-- The end of a time to live that starts now. -/
def horizon (w : World) : ℕ := w.clock + dep.cfg.ttlSeconds * 1000

/-- Nothing in the idempotency stores lasts beyond the horizon. -/
structure Timely (x : Shared calls World ℕ) : Prop where
  entry : ∀ {k e}, x.store.redis k = some e →
    ∃ t, e.expiresAt = some t ∧ t ≤ dep.horizon x.store
  record : ∀ {key row}, x.store.record key = some row → row.expiresAt ≤ dep.horizon x.store

/-- A call sets no time beyond the horizon. -/
def Punctual (_ : ℕ) (x : Shared calls World ℕ) : Op → Prop
  | .redisSet _ _ ttlSeconds => ttlSeconds = some dep.cfg.ttlSeconds
  | .redisSetNX _ _ ttlSeconds => ttlSeconds = dep.cfg.ttlSeconds
  | .recordCreate _ _ _ expiresAt => expiresAt ≤ dep.horizon x.store
  | _ => True

section

variable {dep : Deployment} {x y : Shared calls World ℕ} {d : Delivery} {f : Fate} {i : ℕ}
  {op : Op} {r : Except Err op.Res} {w' : World}

theorem horizon_mono (dep : Deployment) {w : World} (h : w.clock ≤ w'.clock) :
    dep.horizon w ≤ dep.horizon w' := by
  unfold horizon
  omega

/-- An entry that a call leaves was there before, or has a time to live. -/
theorem entry_of_answer {w : World} (hallowed : dep.Punctual i x op) {k : String} {e : RedisEntry}
    (h : (w.answer op).2.redis k = some e) :
    w.redis k = some e ∨ e.expiresAt = some (dep.horizon w) := by
  by_cases hwrites : op.Writes k w
  · right
    cases op with
    | redisSet k' value ttl =>
        obtain rfl : k' = k := hwrites
        obtain rfl : ttl = some dep.cfg.ttlSeconds := hallowed
        obtain rfl := Option.some.inj ((World.answer_set_entry w k' value _).symm.trans h)
        rfl
    | redisSetNX k' value ttl =>
        obtain ⟨rfl, hfree⟩ := hwrites
        obtain rfl : ttl = dep.cfg.ttlSeconds := hallowed
        obtain rfl := Option.some.inj ((World.answer_setNX_entry hfree).symm.trans h)
        rfl
    | _ => cases hwrites
  · rcases World.answer_entry w op k hwrites with hsame | hnone
    · exact .inl (hsame.symm.trans h)
    · cases hnone.symm.trans h

theorem Timely.settle (hx : dep.Timely x) (hallowed : dep.Punctual i x op)
    (hsettle : x.store.settle d f op = some (r, w')) : dep.Timely (x.settled i op r w') := by
  have hclock := World.settle_clock hsettle
  have hhorizon : dep.horizon w' = dep.horizon x.store := by rw [horizon, hclock, horizon]
  constructor
  · intro k e h
    rw [show (x.settled i op r w').store = w' from rfl, hhorizon]
    rcases World.settle_world hsettle with rfl | rfl
    · exact hx.entry h
    · rcases entry_of_answer hallowed h with hbefore | hnew
      · exact hx.entry hbefore
      · exact ⟨_, hnew, le_rfl⟩
  · intro key row h
    rw [show (x.settled i op r w').store = w' from rfl, hhorizon]
    rcases World.settle_record hsettle key with hsame | heffect
    · exact hx.record (hsame.symm.trans h)
    · rcases Op.expiresAt_of_onRecord (heffect.symm.trans h) with
        ⟨before, hbefore, hexpires⟩ | ⟨id, requestHash, rfl⟩
      · exact hexpires ▸ hx.record hbefore
      · exact hallowed

theorem Timely.moved {w : World} (hx : dep.Timely x) (hclock : x.store.clock ≤ w.clock)
    (hredis : ∀ k, w.redis k = x.store.redis k ∨ w.redis k = none)
    (hrecord : ∀ key, w.record key = x.store.record key) : dep.Timely (x.moved w) := by
  have hhorizon := horizon_mono dep hclock
  constructor
  · intro k e h
    rcases hredis k with hsame | hnone
    · obtain ⟨t, ht, hle⟩ := hx.entry (hsame.symm.trans h)
      exact ⟨t, ht, hle.trans hhorizon⟩
    · cases hnone.symm.trans h
  · intro key row h
    exact (hx.record ((hrecord key).symm.trans h)).trans hhorizon

theorem drift_entry (w : World) (dr : Drift) (k : String) :
    (w.drift dr).redis k = w.redis k ∨ (w.drift dr).redis k = none := by
  cases dr with
  | tick ms => exact .inl rfl
  | loseRedisKey key =>
      by_cases hk : k = key
      · subst hk
        exact .inr (Function.update_self ..)
      · exact .inl (Function.update_of_ne hk ..)

end

/-- What one step does is that time goes on. -/
def timing (d : Delivery) : Discipline (ledger d) where
  Inv := dep.Timely
  Step x y := x.store.clock ≤ y.store.clock
  Allowed := dep.Punctual
  settle hx hallowed hsettle :=
    ⟨hx.settle hallowed hsettle, (World.settle_clock hsettle).ge⟩
  drift {x dr s} hx hdrift := by
    obtain rfl := Option.some.inj hdrift
    have hclock := World.clock_le_drift x.store dr
    exact ⟨hx.moved hclock (drift_entry x.store dr) (World.drift_record x.store dr), hclock⟩
  crash {x} j hx := ⟨hx.moved le_rfl (fun _ ↦ .inl rfl) fun _ ↦ rfl, le_rfl⟩

variable {dep : Deployment} {d : Delivery} {i : ℕ} {x y : Shared calls World ℕ}

theorem clock_of_leads (h : (dep.timing d).Leads x y) : x.store.clock ≤ y.store.clock :=
  h.related (R := fun x y ↦ x.store.clock ≤ y.store.clock) le_rfl
    fun hmove hle ↦ hle.trans hmove.step

theorem punctual_of_use {op : Op} (h : op.BehindLock dep.cfg ∨ op.Foreign) :
    dep.Punctual i x op := by
  rcases h with h | h <;> cases op <;> first | exact h | trivial

theorem punctual_of_uses {α : Type} {p : Promise α}
    (huses : p.Uses fun op : Op ↦ op.BehindLock dep.cfg ∨ op.Foreign) :
    (dep.timing d).Safe i (fun _ _ ↦ True) p x :=
  safe_of_uses huses fun {y _} _ h ↦ punctual_of_use (i := i) (x := y) h

/-- The expiry of a record is computed before it is inserted. -/
theorem punctual_checkAndAcquire {id key requestHash : String} (hx : dep.Timely x) :
    (dep.timing d).Safe i (fun _ _ ↦ True) (checkAndAcquire dep.cfg id key requestHash) x := by
  refine Safe.bind hx (Q := fun out y ↦ ∀ now acquired, out = .ok (now, acquired) →
    now ≤ y.store.clock) ?_ ?_ fun _ _ _ _ _ ↦ trivial
  · refine safe_callAt fun y _ _ ↦ ⟨rfl, fun f r s _ z hyz _ now acquired hout ↦ ?_⟩
    cases r with
    | error e => cases hout
    | ok a =>
        obtain ⟨rfl, -⟩ := Prod.mk.inj (Except.ok.inj hout)
        exact clock_of_leads hyz.leads
  · rintro ⟨now, acquired⟩ y - hy hnow
    dsimp only
    split
    · refine Safe.catchError hy (Q := fun _ _ ↦ True) ?_ (fun _ _ _ _ _ ↦ trivial) ?_
      · refine Safe.bind hy (Q := fun _ _ ↦ True) ?_
          (fun _ _ _ _ _ ↦ safe_pure fun _ _ _ ↦ trivial) fun _ _ _ _ _ ↦ trivial
        refine safe_call fun z hyz _ ↦ ⟨?_, fun _ _ _ _ _ _ _ ↦ trivial⟩
        have hlater := (hnow now acquired rfl).trans (clock_of_leads hyz.leads)
        exact Nat.add_le_add_right hlater _
      · intro error z _ _ _
        exact punctual_of_uses ((rollback_uses dep.cfg key requestHash error).mono fun _ ↦ .inl)
    · exact punctual_of_uses ((inspectExisting_uses dep.cfg key requestHash).mono fun _ ↦ .inl)

theorem punctual_main (hx : dep.Timely x) :
    (dep.timing d).Safe i (fun _ _ ↦ True) (dep.main i) x := by
  unfold main
  cases dep.role i with
  | post p =>
      refine Safe.bind hx (Q := fun _ _ ↦ True) ?_
        (fun _ _ _ _ _ ↦ safe_pure fun _ _ _ ↦ trivial) fun _ _ _ _ _ ↦ trivial
      unfold intercept
      split
      · exact Safe.bind hx (punctual_checkAndAcquire hx)
          (fun result _ _ _ _ ↦ punctual_of_uses (receive_uses dep.cfg (fun _ ↦ .inl) p.request
            (p.handler.2.mono fun _ ↦ .inr) result)) fun _ _ _ _ _ ↦ trivial
      · exact safe_throw fun _ _ _ ↦ trivial
  | cron => exact punctual_of_uses (cronJob_uses dep.cfg |>.mono fun _ ↦ .inl)
  | background job =>
      refine punctual_of_uses (Prog.Uses.bind (job.2.mono fun _ ↦ .inr) fun _ ↦ trivial)

theorem timely_of_reachable {clock : ℕ} {c : Config calls World ℕ (Promise Outcome)}
    (h : ((ledger d).programs Outcome).Reachable ((ledger d).programs Outcome).anyMove
      (dep.start clock) c) : dep.Timely c.shared := by
  have hstart : dep.Timely (dep.start clock).shared :=
    { entry := fun {k e} h ↦ by cases h
      record := fun {key row} h ↦ by cases h }
  have hobeyed : (dep.timing d).Obeyed (fun _ _ _ ↦ True) (dep.start clock) := by
    refine ⟨hstart, fun i p hp ↦ ?_⟩
    obtain rfl := Option.some.inj hp
    exact punctual_main hstart
  exact (hobeyed.reachable h).2.inv

/-! ## Lone requests -/

section

variable {cfg : IdempotencyConfig} {id key requestHash : String} {w : World}
  {row : IdempotencyRecord}

/-- A free key is acquired. -/
theorem alone_free (hfree : w.redisGet (redisKey key) = none) (hnone : w.record key = none) :
    (alone (checkAndAcquire cfg id key requestHash) w).1 = .ok .miss :=
  congrArg Prod.fst (alone_acquire hfree hnone)

theorem alone_inspectFromDb_expired (hrow : w.record key = some row)
    (hexpired : row.expiresAt ≤ w.clock) :
    ∃ w', alone (inspectFromDb cfg key requestHash) w = (.ok .inProgress, w') ∧
      w'.redisGet (redisKey key) = none ∧ w'.record key = none := by
  let w₁ : World := { w with idempotencyRecords := w.idempotencyRecords.delete key }
  have hdeleted : w.answer (.recordDelete key) = (.ok row, w₁) := by
    simp only [World.answer, show w.idempotencyRecords.lookup key = some row from hrow, w₁]
  have hcleaned : alone (tryCatch (do let _ ← await (.recordDelete key)) fun _ ↦ pure ()) w =
      (.ok (), w₁) := Prog.run_catchError_ok (Prog.run_bind_ok hdeleted)
  refine ⟨(w₁.answer (.redisDel (redisKey key))).2, ?_, ?_, ?_⟩
  · change alone (inspectRecord cfg key requestHash w.clock (w.record key)) w = _
    rw [hrow]
    simp only [inspectRecord, if_pos hexpired]
    exact Prog.run_bind_ok hcleaned
  · simp [World.answer, World.redisGet]
  · exact (Table.lookup_delete ..).trans (if_pos rfl)

/-- An expired record costs one attempt, which removes it. -/
theorem alone_expired (hfree : w.redisGet (redisKey key) = none) (hrow : w.record key = some row)
    (hexpired : row.expiresAt ≤ w.clock) :
    ∃ w', alone (checkAndAcquire cfg id key requestHash) w = (.ok .inProgress, w') ∧
      w'.redisGet (redisKey key) = none ∧ w'.record key = none := by
  have hrest := alone_taken cfg id requestHash hfree hrow
  rw [hrest]
  have hrow' := (World.after_record w [lockOp cfg key requestHash, unlockOp key] key).trans hrow
  have hexpired' : row.expiresAt ≤ (w.after [lockOp cfg key requestHash, unlockOp key]).clock := by
    rwa [World.after_clock]
  exact alone_inspectFromDb_expired hrow' hexpired'

/-- From any state of any run: once a time to live has passed, a request for the key that
runs undisturbed is admitted, or the next one after it is. -/
theorem admitted_after_ttl (dep : Deployment) (d : Delivery) {clock : ℕ}
    {c : Config calls World ℕ (Promise Outcome)}
    (h : ((ledger d).programs Outcome).Reachable ((ledger d).programs Outcome).anyMove
      (dep.start clock) c) (key : String) {ms : ℕ} (hms : dep.cfg.ttlSeconds * 1000 ≤ ms)
    (id id' requestHash requestHash' : String) :
    let first := alone (checkAndAcquire dep.cfg id key requestHash) (c.store.drift (.tick ms))
    first.1 = .ok .miss ∨ first.1 = .ok .inProgress ∧
      (alone (checkAndAcquire dep.cfg id' key requestHash') first.2).1 = .ok .miss := by
  have htimely := timely_of_reachable h
  have hpassed : dep.horizon c.store ≤ c.store.clock + ms := by
    unfold horizon
    omega
  have hfree : (c.store.drift (.tick ms)).redisGet (redisKey key) = none := by
    refine World.redisGet_of_dead fun e hentry ↦ ?_
    obtain ⟨t, ht, hle⟩ := htimely.entry hentry
    have hdead : ¬c.store.clock + ms < t := Nat.not_lt.mpr (hle.trans hpassed)
    rw [RedisEntry.live, ht]
    exact fun hlive ↦ hdead (of_decide_eq_true hlive)
  intro first
  cases hrow : c.store.record key with
  | none => exact .inl (alone_free hfree hrow)
  | some row =>
      have hexpired : row.expiresAt ≤ (c.store.drift (.tick ms)).clock :=
        (htimely.record hrow).trans hpassed
      obtain ⟨w', hfirst, hfree', hnone⟩ : ∃ w', first = (.ok .inProgress, w') ∧
          w'.redisGet (redisKey key) = none ∧ w'.record key = none :=
        alone_expired hfree hrow hexpired
      rw [hfirst]
      exact .inr ⟨rfl, alone_free hfree' hnone⟩

end

/-- The first request has completed, Redis has lost its entry and the second request has
crashed; an hour later the third one clears the record, and the fourth is admitted. -/
theorem admitted_crashAfterPlaceholder :
    let dep := drill fun _ ↦ posting "k" "h"
    let c := ((ledger .exclusive).programs Outcome).played (fun _ _ _ ↦ true) (dep.start 0)
      crashAfterPlaceholder
    let first := alone (checkAndAcquire oneHour "a" "k" "h") (c.store.drift (.tick 3600000))
    first.1 = .ok .miss ∨ first.1 = .ok .inProgress ∧
      (alone (checkAndAcquire oneHour "b" "k" "h") first.2).1 = .ok .miss :=
  admitted_after_ttl (drill fun _ ↦ posting "k" "h") .exclusive
    (Pool.reachable_played (fun _ _ _ _ ↦ trivial) rfl) "k" le_rfl "a" "b" "h" "h"

end Deployment

end TransactionLedger
