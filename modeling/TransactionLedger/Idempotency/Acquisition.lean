import TransactionLedger.Async.Trace
import TransactionLedger.Idempotency.Steps

/-!
# Acquisitions

`checkAndAcquire` fixes the `expiresAt` of a record when its setNX has succeeded.  So a
record expires a time to live after an acquisition, whoever reads it and however late.
-/

namespace TransactionLedger

open Async IdempotencyService

/-- The record that process `i` reads or updates. -/
def recordSeen (i : ℕ) (e : Event calls ℕ) : Option IdempotencyRecord :=
  match e with
  | ⟨j, .recordFindUnique _, .ok found⟩ => if j = i then found else none
  | ⟨j, .recordUpdate .., .ok row⟩ => if j = i then some row else none
  | _ => none

/-- The last record that process `i` has read or updated. -/
def lastRecord (i : ℕ) (log : List (Event calls ℕ)) : Option IdempotencyRecord :=
  log.findSome? (recordSeen i)

/-- The call has placed the placeholder of the key. -/
def places (key : String) (e : Event calls ℕ) : Bool :=
  match e with
  | ⟨_, .redisSetNX k _ _, .ok true⟩ => k = redisKey key
  | _ => false

section

variable {d : Delivery} {P : Type}

def settledBy (i : ℕ) (s : Pool.Stage (ledger d) P) : Bool :=
  match s.move with
  | .settle j _ => j = i
  | _ => false

/-- The clock at which process `i` has acquired the key. -/
def acquiredAt (key : String) (i : ℕ) (past : List (Pool.Stage (ledger d) P)) : Option ℕ :=
  (past.find? fun s ↦ settledBy i s && s.after.log.head?.any (places key)).map
    (·.after.store.clock)

end

/-- The setNX is the first call of a request. -/
theorem Transition.ne_setNX {dep : Deployment} {i : ℕ} {w w' : World} {p q : Control}
    (h : Transition dep i w w' p q) : q ≠ .setNX := by
  rintro rfl
  cases h

namespace Deployment

variable {dep : Deployment} {key : String} {d : Delivery} {i : ℕ} {p : Control}

/-- Process `i` has acquired the key, and `expiresAt` is a time to live later. -/
def Lasts (dep : Deployment) (key : String) {P : Type} (past : List (Pool.Stage (ledger d) P))
    (i expiresAt : ℕ) : Prop :=
  ∃ clock, acquiredAt key i past = some clock ∧ expiresAt = clock + dep.cfg.ttlSeconds * 1000

/-- The record expires a time to live after the acquisition by the request that inserted
it. -/
def Acquired (dep : Deployment) (key : String) {P : Type}
    (past : List (Pool.Stage (ledger d) P)) (row : IdempotencyRecord) : Prop :=
  ∃ i, row.id = dep.recordId i ∧ dep.Lasts key past i row.expiresAt

/-- Every record of the key that is stored, or that a request with the key has seen, comes
from an acquisition. -/
structure Dated (dep : Deployment) (key : String) (past : List (Pool.Stage (ledger d) Control))
    (c : Config calls World ℕ Control) : Prop where
  waiting : ∀ i, c.procs i = some .setNX → acquiredAt key i past = none
  creating : ∀ i expiresAt, dep.key i = key → c.procs i = some (.create expiresAt) →
    dep.Lasts key past i expiresAt
  record : ∀ row, c.store.record key = some row → dep.Acquired key past row
  seen : ∀ i row, dep.key i = key → lastRecord i c.log = some row → dep.Acquired key past row

/-! ## The clock of a run -/

theorem clock_le_of_step {P : Type} {L : Pool (ledger d) Outcome P}
    {a b : Config calls World ℕ P} {m : (ledger d).Moves} (h : L.Step a m b) :
    a.store.clock ≤ b.store.clock := by
  cases h with
  | settle hproc hview hsettle => exact (World.settle_clock hsettle).ge
  | crash hproc hview => exact le_rfl
  | drift hdrift =>
      obtain rfl := Option.some.inj hdrift
      exact World.clock_le_drift ..

theorem clock_le_of_acquiredAt {P : Type} {L : Pool (ledger d) Outcome P}
    {legal : List (Pool.Stage (ledger d) P) → Pool.Stage (ledger d) P → Prop}
    {c₀ c : Config calls World ℕ P} {past : List (Pool.Stage (ledger d) P)}
    (h : L.Trace legal c₀ past c) {clock : ℕ} (hclock : acquiredAt key i past = some clock) :
    clock ≤ c.store.clock := by
  have hstages : ∀ s ∈ past, s.after.store.clock ≤ c.store.clock :=
    h.invariant (fun past c ↦ ∀ s ∈ past, s.after.store.clock ≤ c.store.clock) nofun
      fun _ hstep _ hinv ↦ List.forall_mem_cons.mpr
        ⟨le_rfl, fun s hs ↦ (hinv s hs).trans (clock_le_of_step hstep)⟩
  obtain ⟨s, hs, rfl⟩ := Option.map_eq_some_iff.mp hclock
  exact hstages s (List.mem_of_find?_eq_some hs)

/-! ## What a process awaits -/

theorem view_redisSetNX {M : Machine calls World ℕ} {k : String} {value : RedisText}
    {ttl : ℕ} {cont : ℕ → Except Err Bool → Control}
    (hview : (dep.control M).view i p = .await (.redisSetNX k value ttl) cont) :
    p = .setNX ∧ ttl = dep.cfg.ttlSeconds := by
  cases p with
  | setNX =>
      cases hview
      exact ⟨rfl, rfl⟩
  | handling handler =>
      rcases foreign_of_handling hview with hforeign | ⟨outcome, h⟩
      · exact hforeign.elim
      · cases h
  | background job => exact (foreign_of_background hview).elim
  | _ => cases hview

theorem view_recordFindUnique {M : Machine calls World ℕ} {k : String}
    {cont : ℕ → Except Err (Option IdempotencyRecord) → Control}
    (hview : (dep.control M).view i p = .await (.recordFindUnique k) cont) : k = dep.key i := by
  cases p with
  | findUnique =>
      cases hview
      rfl
  | handling handler =>
      rcases foreign_of_handling hview with hforeign | ⟨outcome, h⟩
      · exact hforeign.elim
      · cases h
  | background job => exact (foreign_of_background hview).elim
  | _ => cases hview

theorem view_recordUpdate {M : Machine calls World ℕ} {k : String} {statusCode : ℕ}
    {response : Json} {cont : ℕ → Except Err IdempotencyRecord → Control}
    (hview : (dep.control M).view i p = .await (.recordUpdate k statusCode response) cont) :
    k = dep.key i := by
  cases p with
  | storeUpdate response =>
      cases hview
      rfl
  | handling handler =>
      rcases foreign_of_handling hview with hforeign | ⟨outcome, h⟩
      · exact hforeign.elim
      · cases h
  | background job => exact (foreign_of_background hview).elim
  | _ => cases hview

/-! ## One step -/

section Step

variable {f : Fate} {op : Op} {k : ℕ → Except Err op.Res → Control} {r : Except Err op.Res}
  {w w' : World} {row : IdempotencyRecord}

theorem proc_of_recordSeen {e : Event calls ℕ} (h : recordSeen i e = some row) : e.proc = i := by
  unfold recordSeen at h
  split at h
  · by_contra hne
    rw [if_neg hne] at h
    cases h
  · by_contra hne
    rw [if_neg hne] at h
    cases h
  · cases h

/-- A record that a request sees is the stored one, but for the response. -/
theorem exists_record_of_seen (hview : (dep.control (ledger d)).view i p = .await op k)
    (hsettle : w.settle d f op = some (r, w')) (hseen : recordSeen i ⟨i, op, r⟩ = some row) :
    ∃ old, w.record (dep.key i) = some old ∧ row.id = old.id ∧
      row.expiresAt = old.expiresAt := by
  rcases r with e | a
  · cases op <;> cases hseen
  have hrun := World.settle_ok hsettle
  cases op with
  | recordFindUnique key' =>
      obtain rfl := view_recordFindUnique hview
      obtain rfl : a = some row := (if_pos rfl).symm.trans hseen
      exact ⟨row, Except.ok.inj (congrArg Prod.fst hrun), rfl, rfl⟩
  | recordUpdate key' statusCode response =>
      obtain rfl := view_recordUpdate hview
      obtain rfl : a = row := Option.some.inj ((if_pos rfl).symm.trans hseen)
      simp only [World.answer] at hrun
      split at hrun
      · cases hrun
      · next old hold =>
          obtain rfl := Except.ok.inj (congrArg Prod.fst hrun)
          exact ⟨old, hold, rfl, rfl⟩
  | _ => cases hseen

variable {past : List (Pool.Stage (ledger d) Control)} {a b : Config calls World ℕ Control}
  {m : (ledger d).Moves}

theorem acquiredAt_other {s : Pool.Stage (ledger d) Control} (hother : ¬settledBy i s) :
    acquiredAt key i (s :: past) = acquiredAt key i past := by
  unfold acquiredAt
  rw [List.find?_cons_of_neg (by simp [hother])]

/-- Nobody acquires the key twice. -/
theorem Dated.acquiredAt_keep (hinv : dep.Dated key past a)
    (hstep : (dep.control (ledger d)).Step a m b) {clock : ℕ}
    (h : acquiredAt key i past = some clock) :
    acquiredAt key i (⟨a, m, b⟩ :: past) = some clock := by
  cases hstep with
  | @settle j f p op k r w' hproc hview hsettle =>
      by_cases hplaces : j = i ∧ places key ⟨j, op, r⟩
      · obtain ⟨rfl, hplaces⟩ := hplaces
        exfalso
        unfold places at hplaces
        split at hplaces
        · next heq =>
            cases heq
            obtain ⟨rfl, -⟩ := view_redisSetNX hview
            rw [hinv.waiting j hproc] at h
            cases h
        · cases hplaces
      · unfold acquiredAt
        rw [List.find?_cons_of_neg]
        · exact h
        · simpa [settledBy] using hplaces
  | crash hproc hview => exact (acquiredAt_other (by simp [settledBy])).trans h
  | drift hdrift => exact (acquiredAt_other (by simp [settledBy])).trans h

theorem Dated.lasts_keep (hinv : dep.Dated key past a)
    (hstep : (dep.control (ledger d)).Step a m b) {expiresAt : ℕ}
    (h : dep.Lasts key past i expiresAt) : dep.Lasts key (⟨a, m, b⟩ :: past) i expiresAt := by
  obtain ⟨clock, hclock, hexpires⟩ := h
  exact ⟨clock, hinv.acquiredAt_keep hstep hclock, hexpires⟩

theorem Dated.acquired_keep (hinv : dep.Dated key past a)
    (hstep : (dep.control (ledger d)).Step a m b) (h : dep.Acquired key past row) :
    dep.Acquired key (⟨a, m, b⟩ :: past) row := by
  obtain ⟨i, hid, hlasts⟩ := h
  exact ⟨i, hid, hinv.lasts_keep hstep hlasts⟩

/-- What `checkAndAcquire` adds to the clock of its setNX is the time to live. -/
theorem lasts_of_placed {expiresAt : ℕ} (hkey : dep.key i = key) (hproc : a.procs i = some p)
    (hview : (dep.control (ledger d)).view i p = .await op k)
    (hsettle : a.store.settle d f op = some (r, w'))
    (hb : b = ⟨w', Function.update a.procs i (some (k w'.clock r)), ⟨i, op, r⟩ :: a.log⟩)
    (hcreate : k w'.clock r = .create expiresAt) :
    dep.Lasts key (⟨a, .settle i f, b⟩ :: past) i expiresAt := by
  have ht := transition hview hsettle
  rw [hcreate] at ht
  generalize hpoint : Control.create expiresAt = q at ht
  cases ht <;> cases hpoint
  cases hview
  rcases r with e | _ | _
  · cases hcreate
  · cases hcreate
  · subst hb
    refine ⟨w'.clock, ?_, (Control.create.inj hcreate).symm⟩
    unfold acquiredAt
    rw [List.find?_cons_of_pos]
    · rfl
    · subst hkey
      simp [settledBy, places, Deployment.key]

theorem Dated.settle_record (hinv : dep.Dated key past a) (hproc : a.procs i = some p)
    (hview : (dep.control (ledger d)).view i p = .await op k)
    (hsettle : a.store.settle d f op = some (r, w')) (hrow : w'.record key = some row) :
    dep.Acquired key past row := by
  rcases row_change key hview hsettle with hsame | hchange
  · exact hinv.record row (hsame.symm.trans hrow)
  rw [hrow] at hchange
  generalize hbefore : a.store.record key = before at hchange
  cases hchange with
  | inserted hkey => exact ⟨i, rfl, hinv.creating i _ hkey hproc⟩
  | @stored _ old hkey => exact hinv.record old hbefore

theorem Dated.settle_seen (hinv : dep.Dated key past a) (hkey : dep.key i = key)
    (hview : (dep.control (ledger d)).view i p = .await op k)
    (hsettle : a.store.settle d f op = some (r, w'))
    (hseen : lastRecord i (⟨i, op, r⟩ :: a.log) = some row) : dep.Acquired key past row := by
  unfold lastRecord at hseen
  rw [List.findSome?_cons] at hseen
  split at hseen
  · next row' hrow' =>
      obtain rfl := Option.some.inj hseen
      obtain ⟨old, hold, hid, hexpires⟩ := exists_record_of_seen hview hsettle hrow'
      obtain ⟨j, hj, hlasts⟩ := hinv.record old (hkey ▸ hold)
      exact ⟨j, hid.trans hj, hexpires ▸ hlasts⟩
  · exact hinv.seen i row hkey hseen

theorem Dated.step (hinv : dep.Dated key past a)
    (hstep : (dep.control (ledger d)).Step a m b) : dep.Dated key (⟨a, m, b⟩ :: past) b := by
  have hlasts : ∀ i expiresAt, dep.Lasts key past i expiresAt →
      dep.Lasts key (⟨a, m, b⟩ :: past) i expiresAt := fun _ _ ↦ hinv.lasts_keep hstep
  have hacquired : ∀ row, dep.Acquired key past row → dep.Acquired key (⟨a, m, b⟩ :: past) row :=
    fun _ ↦ hinv.acquired_keep hstep
  cases hstep with
  | @settle i f p op k r w' hproc hview hsettle =>
      constructor
      · intro j hj
        rcases Pool.of_update_some hj with ⟨rfl, hpoint⟩ | ⟨hne, hj⟩
        · exact absurd hpoint.symm (transition hview hsettle).ne_setNX
        · rw [acquiredAt_other (by simpa [settledBy] using Ne.symm hne)]
          exact hinv.waiting j hj
      · intro j expiresAt hkey hj
        rcases Pool.of_update_some hj with ⟨rfl, hpoint⟩ | ⟨hne, hj⟩
        · exact lasts_of_placed hkey hproc hview hsettle rfl hpoint.symm
        · exact hlasts j expiresAt (hinv.creating j expiresAt hkey hj)
      · intro row hrow
        exact hacquired row (hinv.settle_record hproc hview hsettle hrow)
      · intro j row hkey hseen
        by_cases hne : i = j
        · subst hne
          exact hacquired row (hinv.settle_seen hkey hview hsettle hseen)
        · refine hacquired row (hinv.seen j row hkey ?_)
          unfold lastRecord at hseen
          rw [List.findSome?_cons] at hseen
          split at hseen
          · next hrow => exact absurd (proc_of_recordSeen hrow) hne
          · exact hseen
  | crash hproc hview =>
      constructor
      · intro j hj
        rw [acquiredAt_other (by simp [settledBy])]
        exact hinv.waiting j (Pool.of_update_none hj).2
      · intro j expiresAt hkey hj
        exact hlasts j expiresAt (hinv.creating j expiresAt hkey (Pool.of_update_none hj).2)
      · intro row hrow
        exact hacquired row (hinv.record row hrow)
      · intro j row hkey hseen
        exact hacquired row (hinv.seen j row hkey hseen)
  | @drift dr w' hdrift =>
      obtain rfl := Option.some.inj hdrift
      constructor
      · intro j hj
        rw [acquiredAt_other (by simp [settledBy])]
        exact hinv.waiting j hj
      · intro j expiresAt hkey hj
        exact hlasts j expiresAt (hinv.creating j expiresAt hkey hj)
      · intro row hrow
        exact hacquired row (hinv.record row ((World.drift_record ..).symm.trans hrow))
      · intro j row hkey hseen
        exact hacquired row (hinv.seen j row hkey hseen)

end Step

theorem dated_start (clock : ℕ) : dep.Dated (d := d) key [] (dep.controlStart clock) where
  waiting _ _ := rfl
  creating := by
    intro i expiresAt _ hproc
    rcases Control.initial_cases (dep.role i) with h | h | ⟨_, h⟩ | ⟨_, h⟩ <;>
      cases h.symm.trans (Option.some.inj hproc)
  record := by
    rintro row ⟨⟩
  seen := by
    rintro i row _ ⟨⟩

/-- In every run, a record of the key expires a time to live after its acquisition. -/
theorem dated_of_trace {legal : List (Pool.Stage (ledger d) Control) →
    Pool.Stage (ledger d) Control → Prop} {clock : ℕ}
    {past : List (Pool.Stage (ledger d) Control)} {c : Config calls World ℕ Control}
    (h : (dep.control (ledger d)).Trace legal (dep.controlStart clock) past c) :
    dep.Dated key past c :=
  h.invariant (fun past c ↦ dep.Dated key past c) (dated_start clock)
    fun _ hstep _ hinv ↦ hinv.step hstep

end Deployment

end TransactionLedger
