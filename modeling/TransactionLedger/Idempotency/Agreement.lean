import TransactionLedger.Idempotency.Lifecycle
import TransactionLedger.Idempotency.Replay

/-!
# Agreement of the two stores

In a run without faults the requests that only look at a lock leave its phase as it
is, and the one that leads it takes it to the next.  So there is a phase in every
state reached, and what the phases say is what the stores promise each other.
-/

namespace TransactionLedger

open Async IdempotencyService

/-- The Redis entry of the key has not reached the end of its time to live. -/
def World.CacheUnexpired (key : String) (w : World) : Prop :=
  ∀ e, w.redis (redisKey key) = some e → e.live w.clock

instance (key : String) (w : World) : Decidable (w.CacheUnexpired key) :=
  decidable_of_iff ((w.redis (redisKey key)).all fun e ↦ e.live w.clock) (by
    simp [World.CacheUnexpired, Option.all_eq_true])

namespace Deployment

/-- No call for the key fails, no request with it crashes, and neither of its entries
is lost or expires.  What a handler does is left open. -/
structure FaultFree (dep : Deployment) (key : String) {d : Delivery} {P : Type}
    (L : Pool (ledger d) Outcome P) (a : Config calls World ℕ P) (m : (ledger d).Moves)
    (b : Config calls World ℕ P) : Prop where
  run : ∀ i f op, m = .settle i f → dep.Carries key i → L.pending a i = some op →
    ¬op.Foreign → f = Fate.run
  crash : ∀ i, m = .crash i → ¬dep.Carries key i
  lost : m ≠ .drift (Drift.loseRedisKey (redisKey key))
  unexpired : b.store.Unexpired key
  cacheUnexpired : b.store.CacheUnexpired key

/-- Process `i` has made the first of the two writes of an acquisition, of a store or
of a release, and not yet the second. -/
def Midway (key : String) {d : Delivery} {P : Type} (L : Pool (ledger d) Outcome P)
    (c : Config calls World ℕ P) (i : ℕ) : Prop :=
  (∃ id requestHash expiresAt, L.pending c i =
      some (.recordCreate id key requestHash expiresAt)) ∨
    (∃ value ttl response, L.pending c i = some (.redisSet (redisKey key) value ttl) ∧
      handledEvent i (.ok response) ∈ c.log) ∨
    L.pending c i = some (.redisDel (redisKey key))

/-- What Redis and PostgreSQL promise each other about a key. -/
structure StoresConsistent (dep : Deployment) (key : String) {d : Delivery} {P : Type}
    (L : Pool (ledger d) Outcome P) (c : Config calls World ℕ P) : Prop where
  recorded : ∀ row, c.store.record key = some row →
    ∃ data, c.store.redisGet (redisKey key) = some (.json data) ∧
      data.requestHash = row.requestHash
  answered : ∀ data, c.store.redisGet (redisKey key) = some (.json data) →
    data.statusCode ≠ none ∨ data.response ≠ none →
      ∃ row, c.store.record key = some row ∧ row.requestHash = data.requestHash ∧
        row.statusCode = data.statusCode ∧ row.response = data.response
  /-- Every insertion under way will succeed, and none has failed. -/
  insertable : ∀ i id requestHash expiresAt, dep.Carries key i →
    L.pending c i = some (.recordCreate id key requestHash expiresAt) →
      c.store.record key = none
  inserted : ∀ i id requestHash expiresAt, dep.Carries key i →
    ⟨i, .recordCreate id key requestHash expiresAt, .error (.prisma .p2002)⟩ ∉ c.log
  verdicts : (∀ i, dep.Carries key i → ¬Midway key L c i) →
    (c.store.record key).isSome ∨ (c.store.redisGet (redisKey key)).isSome →
      ∃ raw, c.store.redisGet (redisKey key) = some raw ∧ raw.truthy ∧
        ∀ requestHash, (alone (inspectFromDb dep.cfg key requestHash) c.store).1 =
          .ok (parseIdempotencyData raw requestHash)

variable {dep : Deployment} {key : String} {d : Delivery} {M : Machine calls World ℕ} {f : Fate}
  {w w' : World} {i : ℕ} {p : Control} {op : Op} {k : ℕ → Except Err op.Res → Control}
  {r : Except Err op.Res}

/-! ## The invariant -/

variable {c : Config calls World ℕ Control} {phase phase' : Phase} {q : Control}

structure Agreement (dep : Deployment) (key : String) (phase : Phase)
    (c : Config calls World ℕ Control) : Prop where
  record : c.store.record key = phase.record
  shows : phase.Shows dep (c.store.redisGet (redisKey key))
  leader : ∀ i, phase.leader = some i →
    dep.Carries key i ∧ ∃ p, c.procs i = some p ∧ phase.At p
  leads : ∀ i p, dep.key i = key → c.procs i = some p → p.Leads → phase.leader = some i
  copies : ∀ i row statusCode, dep.key i = key →
    c.procs i = some (.repopulate row statusCode) →
      phase.record = some row ∧ row.statusCode = some statusCode
  clean : ∀ i p, dep.key i = key → c.procs i = some p → ¬p.CleansUp

section Settle

variable {log : List (Event calls ℕ)}

/-- A request other than the leader leaves the phase as it is. -/
theorem Agreement.stand (hinv : Agreement dep key phase c) (hother : phase.leader ≠ some i)
    (hrecord : w'.record key = phase.record)
    (hshows : phase.Shows dep (w'.redisGet (redisKey key)))
    (hidle : dep.key i = key → phase.Idle q) :
    Agreement dep key phase ⟨w', Function.update c.procs i (some q), log⟩ where
  record := hrecord
  shows := hshows
  leader j hj := by
    obtain ⟨hcarries, p, hp, hat⟩ := hinv.leader j hj
    have hne : j ≠ i := by
      rintro rfl
      exact hother hj
    exact ⟨hcarries, p, (Function.update_of_ne hne ..).trans hp, hat⟩
  leads j p hkey hj hleads := by
    rcases Pool.of_update_some hj with ⟨rfl, rfl⟩ | ⟨-, hj⟩
    · exact absurd hleads (hidle hkey).leads
    · exact hinv.leads j p hkey hj hleads
  copies j row statusCode hkey hj := by
    rcases Pool.of_update_some hj with ⟨rfl, heq⟩ | ⟨-, hj⟩
    · exact (hidle hkey).copies row statusCode heq.symm
    · exact hinv.copies j row statusCode hkey hj
  clean j p hkey hj := by
    rcases Pool.of_update_some hj with ⟨rfl, rfl⟩ | ⟨-, hj⟩
    · exact (hidle hkey).clean
    · exact hinv.clean j p hkey hj

/-- The leader, or a request that becomes it, takes the lock to another phase. -/
theorem Agreement.lead (hinv : Agreement dep key phase c) (hcarries : dep.Carries key i)
    (halone : phase.leader = none ∨ phase.leader = some i)
    (hrecord : w'.record key = phase'.record)
    (hshows : phase'.Shows dep (w'.redisGet (redisKey key)))
    (hkeep : ∀ row, phase.record = some row → row.statusCode ≠ none →
      phase'.record = some row)
    (hnext : phase'.leader = some i ∧ phase'.At q ∨ phase'.leader = none ∧ q.Looks) :
    Agreement dep key phase' ⟨w', Function.update c.procs i (some q), log⟩ where
  record := hrecord
  shows := hshows
  leader j hj := by
    rcases hnext with ⟨hleader, hat⟩ | ⟨hnone, -⟩
    · obtain rfl := Option.some.inj (hleader.symm.trans hj)
      exact ⟨hcarries, q, Function.update_self .., hat⟩
    · cases hnone.symm.trans hj
  leads j p hkey hj hleads := by
    rcases Pool.of_update_some hj with ⟨rfl, rfl⟩ | ⟨hne, hj⟩
    · rcases hnext with ⟨hleader, -⟩ | ⟨-, hlooks⟩
      · exact hleader
      · exact absurd hleads (Control.not_leads_of_looks hlooks)
    · have hleader := hinv.leads j p hkey hj hleads
      rcases halone with hnone | hself
      · cases hnone.symm.trans hleader
      · exact absurd (Option.some.inj (hleader.symm.trans hself)) hne
  copies j row statusCode hkey hj := by
    rcases Pool.of_update_some hj with ⟨rfl, rfl⟩ | ⟨-, hj⟩
    · rcases hnext with ⟨-, hat⟩ | ⟨-, hlooks⟩
      · exact (Phase.leads_of_at hat).elim
      · exact hlooks.elim
    · obtain ⟨hrow, hcode⟩ := hinv.copies j row statusCode hkey hj
      refine ⟨hkeep row hrow ?_, hcode⟩
      rw [hcode]
      rintro ⟨⟩
  clean j p hkey hj := by
    rcases Pool.of_update_some hj with ⟨rfl, rfl⟩ | ⟨-, hj⟩
    · rcases hnext with ⟨-, hat⟩ | ⟨-, hlooks⟩
      · exact Control.not_cleansUp_of_leads (Phase.leads_of_at hat)
      · exact Control.not_cleansUp_of_looks hlooks
    · exact hinv.clean j p hkey hj

theorem Agreement.at_of_leads (hinv : Agreement dep key phase c) (hkey : dep.key i = key)
    (hproc : c.procs i = some p) (hleads : p.Leads) : phase.leader = some i ∧ phase.At p := by
  have hleader := hinv.leads i p hkey hproc hleads
  obtain ⟨-, p', hp', hat⟩ := hinv.leader i hleader
  obtain rfl := Option.some.inj (hproc.symm.trans hp')
  exact ⟨hleader, hat⟩

theorem Agreement.not_leader (hinv : Agreement dep key phase c) (hproc : c.procs i = some p)
    (hleads : ¬p.Leads) : phase.leader ≠ some i := by
  intro hleader
  obtain ⟨-, p', hp', hat⟩ := hinv.leader i hleader
  obtain rfl := Option.some.inj (hproc.symm.trans hp')
  exact hleads (Phase.leads_of_at hat)

/-- One call of a request with the key takes the lock to another phase or leaves it. -/
theorem Agreement.serve (hinv : Agreement dep key phase c) (hkey : dep.key i = key)
    (hcarries : dep.Carries key i) (hproc : c.procs i = some p)
    (hturn : Turn dep i p (c.store.redisGet (redisKey key)) (c.store.record key) q
      (w'.redisGet (redisKey key)) (w'.record key)) :
    ∃ phase', Agreement dep key phase' ⟨w', Function.update c.procs i (some q), log⟩ := by
  have hshows := hinv.shows
  have hrecord := hinv.record
  generalize c.store.redisGet (redisKey key) = found at hturn hshows
  generalize c.store.record key = row at hturn hrecord
  generalize hfound' : w'.redisGet (redisKey key) = found' at hturn
  generalize hrow' : w'.record key = row' at hturn
  cases hturn with
  | looked hp hq =>
      have hother := hinv.not_leader hproc (Control.not_leads_of_looks hp)
      exact ⟨phase, hinv.stand hother (hrow'.trans hrecord) (hfound' ▸ hshows)
        fun _ ↦ Phase.idle_of_looks hq⟩
  | placed =>
      obtain rfl := Phase.eq_free_of_shows hshows
      refine ⟨.acquiring i, hinv.lead hcarries (.inl rfl) (hrow'.trans hrecord) hfound' ?_
        (.inl ⟨rfl, trivial⟩)⟩
      rintro row ⟨⟩
  | inserted =>
      obtain ⟨hleader, hat⟩ := hinv.at_of_leads hkey hproc trivial
      obtain ⟨j, rfl⟩ := Phase.eq_acquiring_of_at hat
      obtain rfl := Option.some.inj hleader
      refine ⟨.held j _, hinv.lead hcarries (.inr rfl) hrow' ⟨hfound'.trans hshows, rfl⟩ ?_
        (.inl ⟨rfl, trivial⟩)⟩
      rintro row ⟨⟩
  | duplicate =>
      obtain ⟨-, hat⟩ := hinv.at_of_leads hkey hproc trivial
      obtain ⟨j, rfl⟩ := Phase.eq_acquiring_of_at hat
      cases hrecord
  | worked hp hq =>
      obtain ⟨hleader, hat⟩ := hinv.at_of_leads hkey hproc (Control.leads_of_owns hp)
      obtain ⟨j, old, rfl⟩ := Phase.eq_held_of_at hat hp
      obtain rfl := Option.some.inj hleader
      exact ⟨.held j old, hinv.lead hcarries (.inr rfl) (hrow'.trans hrecord)
        (hfound' ▸ hshows) (fun row hrow _ ↦ hrow) (.inl ⟨rfl, hq⟩)⟩
  | @updated response _ row =>
      obtain ⟨hleader, hat⟩ := hinv.at_of_leads hkey hproc trivial
      obtain ⟨j, old, rfl⟩ := Phase.eq_held_of_at hat trivial
      obtain rfl := Option.some.inj hleader
      obtain rfl := Option.some.inj hrecord
      have hdata := hshows.2
      have hcode : row.statusCode = none := congrArg IdempotencyData.statusCode hdata
      have hhash : row.requestHash = dep.hash j := congrArg IdempotencyData.requestHash hdata
      have hbare : found = some (placeholder row.requestHash) := by
        rw [hshows.1, hdata, hhash]
        rfl
      refine ⟨.storing j _, hinv.lead hcarries (.inr rfl) hrow'
        ⟨.inl (hfound'.trans hbare), hhash, _, rfl⟩ ?_ (.inl ⟨rfl, rfl, rfl⟩)⟩
      intro other hother hanswered
      obtain rfl := Option.some.inj hother
      exact absurd hcode hanswered
  | updateMissing =>
      obtain ⟨-, hat⟩ := hinv.at_of_leads hkey hproc trivial
      obtain ⟨j, old, rfl⟩ := Phase.eq_held_of_at hat trivial
      cases hrecord
  | @stored response =>
      obtain ⟨hleader, hat⟩ := hinv.at_of_leads hkey hproc trivial
      obtain ⟨j, old, rfl, hcode, hresponse⟩ := Phase.eq_storing_of_at hat
      obtain rfl := Option.some.inj hleader
      have hdata : old.data =
          ⟨dep.hash j, some response.status.code, some response.body⟩ := by
        simp only [IdempotencyRecord.data, hshows.2.1, hcode, hresponse]
      exact ⟨.completed old, hinv.lead hcarries (.inr rfl) (hrow'.trans hrecord)
        ⟨hdata ▸ hfound', _, hcode⟩ (fun row hrow _ ↦ hrow) (.inr ⟨rfl, trivial⟩)⟩
  | deleted =>
      obtain ⟨hleader, hat⟩ := hinv.at_of_leads hkey hproc trivial
      obtain ⟨j, old, rfl⟩ := Phase.eq_held_of_at hat trivial
      obtain rfl := Option.some.inj hleader
      have hdata := hshows.2
      have hbare : found = some (placeholder (dep.hash j)) := by
        rw [hshows.1, hdata]
        rfl
      refine ⟨.releasing j, hinv.lead hcarries (.inr rfl) hrow' (hfound'.trans hbare) ?_
        (.inl ⟨rfl, trivial⟩)⟩
      intro other hother hanswered
      obtain rfl := Option.some.inj hother
      exact absurd (congrArg IdempotencyData.statusCode hdata) hanswered
  | released =>
      obtain ⟨hleader, hat⟩ := hinv.at_of_leads hkey hproc trivial
      obtain ⟨j, rfl⟩ := Phase.eq_releasing_of_at hat
      obtain rfl := Option.some.inj hleader
      refine ⟨.free, hinv.lead hcarries (.inr rfl) (hrow'.trans hrecord) hfound' ?_
        (.inr ⟨rfl, trivial⟩)⟩
      rintro row ⟨⟩
  | @found _ row statusCode hcode =>
      have hother := hinv.not_leader hproc fun h ↦ h
      refine ⟨phase, hinv.stand hother (hrow'.trans hrecord) (hfound' ▸ hshows) fun _ ↦ ?_⟩
      refine ⟨fun h ↦ h, fun h ↦ h, fun row' statusCode' heq ↦ ?_⟩
      cases heq
      exact ⟨hrecord.symm, hcode⟩
  | @repopulated _ row statusCode _ q hq =>
      have hother := hinv.not_leader hproc fun h ↦ h
      obtain ⟨hrow, hcode⟩ := hinv.copies i row statusCode hkey hproc
      have hcopy := Phase.shows_copy hshows hrow hcode
      rw [IdempotencyRecord.data, hcode] at hcopy
      exact ⟨phase, hinv.stand hother (hrow'.trans hrecord) (hfound' ▸ hcopy)
        fun _ ↦ Phase.idle_of_looks hq⟩

end Settle

/-- A process that does not serve the key changes neither entry of it. -/
theorem untouched (hlock : dep.Admission key c) (hproc : c.procs i = some p)
    (hview : (dep.control M).view i p = .await op k)
    (hsettle : c.store.settle d f op = some (r, w')) (hother : ¬(dep.key i = key ∧ p.Serving)) :
    w'.record key = c.store.record key ∧
      w'.redisGet (redisKey key) = c.store.redisGet (redisKey key) := by
  constructor
  · rcases row_change key hview hsettle with hsame | hchange
    · exact hsame
    generalize hbefore : c.store.record key = before at hchange ⊢
    generalize w'.record key = after at hchange ⊢
    cases hchange with
    | swept hnow =>
        have hclock := hlock.sweep i _ hproc
        have hlive := hlock.unexpired _ hbefore
        omega
    | inserted hkey | stored hkey | released hkey | expired hkey =>
        exact absurd ⟨hkey, trivial⟩ hother
  · rcases redis_change key hview hsettle with hsame | hchange
    · exact hsame
    generalize c.store.redisGet (redisKey key) = before at hchange ⊢
    generalize w'.redisGet (redisKey key) = after at hchange ⊢
    cases hchange with
    | placed hkey | dupRemoved hkey | rolledBack hkey | expired hkey | released hkey
    | repopulated hkey | stored hkey => exact absurd ⟨hkey, trivial⟩ hother

theorem redisGet_drift {w : World} {dr : Drift} (hlost : dr ≠ .loseRedisKey (redisKey key))
    (hlive : (w.drift dr).CacheUnexpired key) :
    (w.drift dr).redisGet (redisKey key) = w.redisGet (redisKey key) := by
  cases dr with
  | tick ms =>
      simp only [World.redisGet, World.drift]
      cases hentry : w.redis (redisKey key) with
      | none => rfl
      | some e =>
          have hafter : e.live (w.clock + ms) = true := hlive e hentry
          have hbefore : e.live w.clock = true := by
            rcases e with ⟨value, _ | t⟩
            · rfl
            · simp only [RedisEntry.live, decide_eq_true_eq] at hafter ⊢
              omega
          simp only [hafter, hbefore]
  | loseRedisKey k =>
      have hne : k ≠ redisKey key := by
        rintro rfl
        exact hlost rfl
      exact (World.redisGet_removed w k (redisKey key)).trans (if_neg hne)

theorem Agreement.step {a b : Config calls World ℕ Control} {m : (ledger d).Moves}
    (hstep : (dep.control (ledger d)).Step a m b)
    (hlegal : dep.FaultFree key (dep.control (ledger d)) a m b)
    (hlock : dep.Admission key a)
    (hcarries : ∀ i p, a.procs i = some p → p.Serving → dep.Carries (dep.key i) i)
    (hinv : ∃ phase, Agreement dep key phase a) : ∃ phase, Agreement dep key phase b := by
  obtain ⟨phase, hinv⟩ := hinv
  cases hstep with
  | @settle i f p op k r w' hproc hview hsettle =>
      by_cases hmine : dep.key i = key ∧ p.Serving
      · obtain ⟨rfl, hserving⟩ := hmine
        have hserves := hcarries i p hproc hserving
        have hpending := Pool.pending_of_view hproc hview
        exact hinv.serve rfl hserves hproc (turn hview hsettle hserving
          (hinv.clean i p rfl hproc) (hlegal.run i f op rfl hserves hpending)
          hlock.unexpired)
      · obtain ⟨hrecord, hredis⟩ := untouched hlock hproc hview hsettle hmine
        have hother : phase.leader ≠ some i := by
          intro hleader
          obtain ⟨hcarries, p', hp', hat⟩ := hinv.leader i hleader
          obtain rfl := Option.some.inj (hproc.symm.trans hp')
          exact hmine ⟨hcarries.key_eq, Control.serving_of_leads (Phase.leads_of_at hat)⟩
        refine ⟨phase, hinv.stand hother (hrecord.trans hinv.record) (hredis ▸ hinv.shows)
          fun hkey ↦ Phase.idle_of_not_serving fun hserving ↦ hmine ⟨hkey, ?_⟩⟩
        exact (transition hview hsettle).serving hserving
  | @crash i p op k hproc hview =>
      have hleft : ∀ {j q}, Function.update a.procs i none j = some q → a.procs j = some q :=
        fun hj ↦ (Pool.of_update_none hj).2
      refine ⟨phase, hinv.record, hinv.shows, fun j hj ↦ ?_, fun j q hkey hj ↦ ?_,
        fun j row statusCode hkey hj ↦ ?_, fun j q hkey hj ↦ ?_⟩
      · obtain ⟨hj, q, hq, hat⟩ := hinv.leader j hj
        have hne : j ≠ i := by
          rintro rfl
          exact hlegal.crash j rfl hj
        exact ⟨hj, q, (Function.update_of_ne hne ..).trans hq, hat⟩
      · exact hinv.leads j q hkey (hleft hj)
      · exact hinv.copies j row statusCode hkey (hleft hj)
      · exact hinv.clean j q hkey (hleft hj)
  | @drift dr w' hdrift =>
      obtain rfl := Option.some.inj hdrift
      have hlost : dr ≠ .loseRedisKey (redisKey key) := by
        rintro rfl
        exact hlegal.lost rfl
      have hredis := redisGet_drift hlost hlegal.cacheUnexpired
      exact ⟨phase, (World.drift_record ..).trans hinv.record, hredis ▸ hinv.shows, hinv.leader,
        hinv.leads, hinv.copies, hinv.clean⟩

theorem agreement_start (clock : ℕ) : Agreement dep key .free (dep.controlStart clock) := by
  have hlooks : ∀ i p, (dep.controlStart clock).procs i = some p → Phase.free.Idle p := by
    intro i p hi
    obtain rfl := Option.some.inj hi
    rcases Control.initial_cases (dep.role i) with h | h | ⟨job, h⟩ | ⟨r, h⟩ <;> rw [h]
    · exact Phase.idle_of_looks trivial
    · exact Phase.idle_of_not_serving fun h ↦ h
    · exact Phase.idle_of_not_serving fun h ↦ h
    · exact Phase.idle_of_looks trivial
  exact
    { record := rfl
      shows := rfl
      leader := by
        rintro i ⟨⟩
      leads := fun i p _ hi hleads ↦ absurd hleads (hlooks i p hi).leads
      copies := fun i row statusCode _ hi ↦ (hlooks i _ hi).copies row statusCode rfl
      clean := fun i p _ hi ↦ (hlooks i p hi).clean }

theorem agreement_of_reachable {clock : ℕ}
    (h : (dep.control (ledger d)).Reachable (dep.FaultFree key (dep.control (ledger d)))
      (dep.controlStart clock) c) : ∃ phase, Agreement dep key phase c :=
  h.invariant (fun c ↦ ∃ phase, Agreement dep key phase c) ⟨.free, agreement_start clock⟩
    fun ha hstep hlegal hinv ↦ Agreement.step hstep hlegal
      (admission_of_reachable (ha.mono fun h ↦ h.unexpired))
      (fun _ _ ↦ carries_of_serving ha) hinv

/-! ## What the phases say -/

/-- A request inserts a record only while it acquires the lock. -/
theorem leads_of_create {id requestHash : String} {expiresAt : ℕ}
    {k : ℕ → Except Err IdempotencyRecord → Control}
    (hview : (dep.control M).view i p = .await (.recordCreate id key requestHash expiresAt) k) :
    ∃ expiresAt, p = .create expiresAt := by
  cases p with
  | create expiresAt => exact ⟨expiresAt, rfl⟩
  | handling handler =>
      rcases foreign_of_handling hview with hforeign | ⟨outcome, h⟩
      · exact hforeign.elim
      · cases h
  | background job => exact (foreign_of_background hview).elim
  | _ => cases hview

theorem Agreement.insertable (hinv : Agreement dep key phase c) (hkey : dep.key i = key)
    {id requestHash : String} {expiresAt : ℕ}
    {k : ℕ → Except Err IdempotencyRecord → Control} (hproc : c.procs i = some p)
    (hview : (dep.control M).view i p = .await (.recordCreate id key requestHash expiresAt) k) :
    c.store.record key = none := by
  obtain ⟨t, rfl⟩ := leads_of_create hview
  obtain ⟨-, hat⟩ := hinv.at_of_leads hkey hproc trivial
  obtain ⟨j, rfl⟩ := Phase.eq_acquiring_of_at hat
  exact hinv.record

theorem no_duplicate_of_reachable {clock : ℕ}
    (h : (dep.control (ledger d)).Reachable (dep.FaultFree key (dep.control (ledger d)))
      (dep.controlStart clock) c) (id requestHash : String) (expiresAt : ℕ)
    (hkey : dep.key i = key) :
    ⟨i, .recordCreate id key requestHash expiresAt, .error (.prisma .p2002)⟩ ∉ c.log := by
  apply h.invariant fun c ↦
    (⟨i, .recordCreate id key requestHash expiresAt, .error (.prisma .p2002)⟩ :
      Event calls ℕ) ∉ c.log
  · rintro ⟨⟩
  · intro a m b ha hstep _ hinv hmem
    cases hstep with
    | settle hproc hview hsettle =>
        rcases List.mem_cons.mp hmem with heq | hmem
        · cases heq
          obtain ⟨phase, hagree⟩ := agreement_of_reachable ha
          have hnone := hagree.insertable hkey hproc hview
          obtain ⟨-, row, hrow⟩ := World.record_of_p2002 (World.settle_p2002 hsettle)
          cases hnone.symm.trans hrow
        · exact hinv hmem
    | crash hproc hview => exact hinv hmem
    | drift hdrift => exact hinv hmem

/-- The two inspections of a record and of its serialised form agree. -/
theorem alone_inspectFromDb_eq_parse {cfg : IdempotencyConfig} {row : IdempotencyRecord}
    (hrow : w.record key = some row) (hlive : w.clock < row.expiresAt) (requestHash : String) :
    (alone (inspectFromDb cfg key requestHash) w).1 =
      .ok (parseIdempotencyData (.json row.data) requestHash) := by
  have hexpired : ¬row.expiresAt ≤ w.clock := by omega
  by_cases hhash : row.requestHash = requestHash
  · subst hhash
    cases hcode : truthyCode row.statusCode with
    | some statusCode =>
        rw [alone_inspectFromDb hrow hlive hcode]
        simp only [parseIdempotencyData, IdempotencyRecord.data, if_true, hcode]
    | none =>
        change (alone (inspectRecord cfg key row.requestHash w.clock (w.record key)) w).1 = _
        simp only [hrow, inspectRecord, if_neg hexpired, if_true, hcode, parseIdempotencyData,
          IdempotencyRecord.data]
        rfl
  · have hparse : parseIdempotencyData (.json row.data) requestHash = .hashMismatch :=
      if_neg hhash
    change (alone (inspectRecord cfg key requestHash w.clock (w.record key)) w).1 = _
    simp only [hrow, inspectRecord, if_neg hexpired, if_neg hhash, hparse]
    rfl

theorem Agreement.settled (hinv : Agreement dep key phase c) (hreplay : dep.Replay key c)
    (hquiet : ∀ i, dep.Carries key i → ¬Midway key (dep.control (ledger d)) c i)
    (hheld : (c.store.record key).isSome ∨ (c.store.redisGet (redisKey key)).isSome) :
    ∃ row, c.store.record key = some row ∧
      c.store.redisGet (redisKey key) = some (.json row.data) := by
  have hshows := hinv.shows
  cases phase with
  | free =>
      rw [hinv.record, hshows] at hheld
      rcases hheld with h | h <;> cases h
  | held i row => exact ⟨row, hinv.record, hshows.1⟩
  | completed row => exact ⟨row, hinv.record, hshows.1⟩
  | acquiring i =>
      obtain ⟨hcarries, p, hproc, hat⟩ := hinv.leader i rfl
      refine absurd (.inl ?_) (hquiet i hcarries)
      cases p with
      | create expiresAt =>
          have hkey := hcarries.key_eq
          subst hkey
          exact ⟨_, _, _, Pool.pending_of_view hproc rfl⟩
      | _ => exact hat.elim
  | storing i row =>
      obtain ⟨hcarries, p, hproc, hat⟩ := hinv.leader i rfl
      refine absurd (.inr (.inl ?_)) (hquiet i hcarries)
      cases p with
      | storeSet response =>
          have hsent := hreplay.control i _ hcarries.key_eq hproc
          have hkey := hcarries.key_eq
          subst hkey
          exact ⟨_, _, response, Pool.pending_of_view hproc rfl, hsent⟩
      | _ => exact hat.elim
  | releasing i =>
      obtain ⟨hcarries, p, hproc, hat⟩ := hinv.leader i rfl
      refine absurd (.inr (.inr ?_)) (hquiet i hcarries)
      cases p with
      | releaseDel e =>
          have hkey := hcarries.key_eq
          subst hkey
          exact Pool.pending_of_view hproc rfl
      | _ => exact hat.elim

theorem storesConsistent_control {clock : ℕ}
    (h : (dep.control (ledger d)).Reachable (dep.FaultFree key (dep.control (ledger d)))
      (dep.controlStart clock) c) :
    dep.StoresConsistent key (dep.control (ledger d)) c := by
  obtain ⟨phase, hagree⟩ := agreement_of_reachable h
  have hunexpired := h.mono fun h ↦ h.unexpired
  exact
    { recorded := fun row hrow ↦
        Phase.entry_of_record (hagree.record.symm.trans hrow) hagree.shows
      answered := by
        intro data hdata hresponse
        obtain ⟨row, hrow, rfl⟩ := Phase.record_of_entry hresponse (hdata ▸ hagree.shows)
        exact ⟨row, hagree.record.trans hrow, rfl, rfl, rfl⟩
      insertable := by
        intro i id requestHash expiresAt hcarries hpending
        obtain ⟨p, k, hproc, hview⟩ := Pool.exists_of_pending hpending
        exact hagree.insertable hcarries.key_eq hproc hview
      inserted := fun i id requestHash expiresAt hcarries ↦
        no_duplicate_of_reachable h id requestHash expiresAt hcarries.key_eq
      verdicts := by
        intro hquiet hheld
        obtain ⟨row, hrow, hentry⟩ :=
          hagree.settled (replay_of_reachable hunexpired) hquiet hheld
        have hlive := (admission_of_reachable hunexpired).unexpired row hrow
        exact ⟨_, hentry, rfl, alone_inspectFromDb_eq_parse hrow hlive⟩ }

theorem faultFree_map {a b : Config calls World ℕ Control} {m : (ledger d).Moves}
    (h : dep.FaultFree key ((ledger d).programs Outcome) (a.map dep.code) m (b.map dep.code)) :
    dep.FaultFree key (dep.control (ledger d)) a m b := by
  have hpending := (dep.control_implements (ledger d)).pending_map a
  refine ⟨?_, h.crash, h.lost, h.unexpired, h.cacheUnexpired⟩
  intro i f op
  have hrun := h.run i f op
  rwa [hpending] at hrun

/-- In every run without faults the two stores agree about the key. -/
theorem storesConsistent_of_faultFree (dep : Deployment) (d : Delivery) (key : String)
    (clock : ℕ) {c : Config calls World ℕ (Promise Outcome)}
    (h : ((ledger d).programs Outcome).Reachable
      (dep.FaultFree key ((ledger d).programs Outcome)) (dep.start clock) c) :
    dep.StoresConsistent key ((ledger d).programs Outcome) c := by
  have himpl := dep.control_implements (ledger d)
  rw [← dep.map_controlStart] at h
  obtain ⟨b, rfl, hb⟩ := himpl.lift h
  have hconsistent := storesConsistent_control (hb.mono fun h ↦ faultFree_map h)
  have hpending := himpl.pending_map b
  refine { hconsistent with insertable := ?_, verdicts := ?_ }
  · intro i
    rw [hpending]
    exact hconsistent.insertable i
  · intro hquiet
    apply hconsistent.verdicts
    intro i hcarries
    have := hquiet i hcarries
    rwa [Midway, hpending] at this

/-! ## A run -/

/-- The handler of the second request throws. -/
def failing (i : ℕ) : Role :=
  if i = 1 then
    .post ⟨⟨some "k", "a"⟩, ⟨throw (.error "Connection terminated"), trivial⟩⟩
  else posting "k" "b"

/-- The second request acquires the lock and releases it; the first one meets the
placeholder, and a third completes. -/
def releaseThenComplete : List (ledger .exclusive).Moves :=
  [.settle 1 .run, .settle 1 .run, .settle 0 .run, .settle 1 .run, .settle 1 .run,
    .settle 0 .run, .settle 1 .run, .settle 1 .run, .settle 2 .run, .settle 2 .run,
    .settle 2 .run, .settle 2 .run, .settle 2 .run, .settle 2 .run]

/-- The check of a schedule in which every call runs. -/
def undisturbed (key : String) {P : Type} (_ : Config calls World ℕ P)
    (m : (ledger .exclusive).Moves) (b : Config calls World ℕ P) : Bool :=
  match m with
  | .settle _ .run => decide (b.store.Unexpired key) && decide (b.store.CacheUnexpired key)
  | _ => false

theorem faultFree_of_undisturbed {P : Type} {L : Pool (ledger .exclusive) Outcome P}
    {a b : Config calls World ℕ P} {m : (ledger .exclusive).Moves}
    (h : undisturbed key a m b) : dep.FaultFree key L a m b := by
  unfold undisturbed at h
  split at h
  · simp only [Bool.and_eq_true, decide_eq_true_eq] at h
    refine ⟨?_, ?_, ?_, h.1, h.2⟩
    · rintro i f op ⟨⟩ - - -
      rfl
    · rintro i ⟨⟩
    · rintro ⟨⟩
  · cases h

theorem storesConsistent_releaseThenComplete :
    (drill failing).StoresConsistent "k" ((ledger .exclusive).programs Outcome)
      (((ledger .exclusive).programs Outcome).played (undisturbed "k")
        ((drill failing).start 0) releaseThenComplete) :=
  storesConsistent_of_faultFree _ _ _ 0
    (Pool.reachable_played (fun _ _ _ ↦ faultFree_of_undisturbed) rfl)

end Deployment

end TransactionLedger
