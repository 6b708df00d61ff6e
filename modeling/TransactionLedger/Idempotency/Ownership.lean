import TransactionLedger.Idempotency.Admission

/-!
# Generations of a record

Once records expire, a key has several records in turn, and the code addresses
all of them by the key alone.  A late request then deletes or completes the
record of its successor.  Nothing of the kind happens as long as a record is
only inserted when no earlier request still has a write of the key ahead of it.
-/

namespace TransactionLedger

open Async IdempotencyService

/-- A request waiting for this call may still write or delete its record. -/
def Op.WriteAhead : Op → Prop
  | .observe (.checked result) => result = .miss
  | .observe (.handled _) => True
  | .recordUpdate .. => True
  | .recordDelete _ => True
  | op => op.Foreign

namespace Deployment

variable {dep : Deployment} {key : String} {d : Delivery}

/-- Process `i` is about to delete the record of the key because its handler failed. -/
def Releasing (key : String) {P : Type} (L : Pool (ledger d) Outcome P)
    (c : Config calls World ℕ P) (i : ℕ) : Prop :=
  L.pending c i = some (.recordDelete key) ∧ ∃ e, handledEvent i (.error e) ∈ c.log

/-- What a move may do to a record of the key. -/
structure RespectsOwner (dep : Deployment) (key : String) {P : Type}
    (L : Pool (ledger d) Outcome P) (a : Config calls World ℕ P) (m : (ledger d).Moves)
    (b : Config calls World ℕ P) : Prop where
  deleted : ∀ row, a.store.record key = some row → b.store.record key = none →
    row.expiresAt ≤ a.store.clock ∨
      ∃ i f, m = .settle i f ∧ row.id = dep.recordId i ∧ Releasing key L a i
  written : ∀ row row', a.store.record key = some row → b.store.record key = some row' →
    row' = row ∨ ∃ i f statusCode response, m = .settle i f ∧ row.id = dep.recordId i ∧
      L.pending a i = some (.recordUpdate key statusCode response) ∧
        row' = { row with
          statusCode := some statusCode
          response := some response }

/-- Every move of every legal run respects the owners of the key's records. -/
def OwnersOnly (dep : Deployment) (key : String) {P : Type} (L : Pool (ledger d) Outcome P)
    (legal : Config calls World ℕ P → (ledger d).Moves → Config calls World ℕ P → Prop)
    (c₀ : Config calls World ℕ P) : Prop :=
  ∀ a m b, L.Reachable legal c₀ a → L.step a m = some b → legal a m b →
    dep.RespectsOwner key L a m b

/-- The move inserts no record of the key while another request for it is waiting
for one of the `ahead` calls. -/
def NoOverlap (dep : Deployment) (ahead : Op → Prop) (key : String) {P : Type}
    (L : Pool (ledger d) Outcome P) (a : Config calls World ℕ P) (m : (ledger d).Moves)
    (_ : Config calls World ℕ P) : Prop :=
  ∀ i f id requestHash expiresAt, m = .settle i f → (∀ e, f ≠ Fate.lost e) →
    L.pending a i = some (.recordCreate id key requestHash expiresAt) →
    a.store.record key = none →
    ∀ j op, j ≠ i → dep.Carries key j → L.pending a j = some op → ¬ahead op

end Deployment

def Control.WriteAhead : Control → Prop
  | .expiredDelete => True
  | p => p.Owns

namespace Deployment

variable {dep : Deployment} {key : String} {d : Delivery} {c : Config calls World ℕ Control}

structure Generations (dep : Deployment) (key : String) (c : Config calls World ℕ Control) :
    Prop where
  sweep : ∀ i now, c.procs i = some (.cronDelete now) → now ≤ c.store.clock
  owner : ∀ i p row, dep.key i = key → c.procs i = some p → p.Owns →
    c.store.record key = some row → row.id = dep.recordId i
  expired : ∀ i row, dep.key i = key → c.procs i = some .expiredDelete →
    c.store.record key = some row → row.expiresAt ≤ c.store.clock
  failed : ∀ i e, c.procs i = some (.releaseDelete e) → handledEvent i (.error e) ∈ c.log

section Settle

variable {f : Fate} {w' : World} {i : ℕ} {p : Control}
  {op : Op} {k : ℕ → Except Err op.Res → Control} {r : Except Err op.Res}

/-- The awaited call tells that a write is ahead. -/
theorem pending_of_writeAhead {M : Machine calls World ℕ} (hproc : c.procs i = some p)
    (hp : p.WriteAhead) :
    ∃ op, (dep.control M).pending c i = some op ∧ op.WriteAhead := by
  cases p with
  | checked result =>
      cases result with
      | miss => exact ⟨_, Pool.pending_of_view hproc rfl, rfl⟩
      | _ => exact hp.elim
  | handling handler =>
      rcases Control.handling_eta handler with ⟨response, rfl⟩ | ⟨e, rfl⟩ | ⟨op, k, h, rfl⟩
      · exact ⟨_, Pool.pending_of_view hproc rfl, trivial⟩
      · exact ⟨_, Pool.pending_of_view hproc rfl, trivial⟩
      · refine ⟨op, Pool.pending_of_view hproc rfl, ?_⟩
        cases op <;> first | exact h.1 | exact h.1.elim
  | storeUpdate response | releaseDelete e | expiredDelete =>
      exact ⟨_, Pool.pending_of_view hproc rfl, trivial⟩
  | _ => exact hp.elim

/-- Unless the move inserts it, a record was there before. -/
theorem exists_record_before (hview : (dep.control (ledger d)).view i p = .await op k)
    (hsettle : c.store.settle d f op = some (r, w')) {row : IdempotencyRecord}
    (hrow : w'.record key = some row)
    (hinsert : ∀ expiresAt, p = .create expiresAt → dep.key i = key → w' ≠ c.store →
      c.store.record key ≠ none) :
    ∃ old, c.store.record key = some old ∧ old.id = row.id ∧ old.expiresAt = row.expiresAt := by
  by_cases hsame : w' = c.store
  · subst hsame
    exact ⟨row, hrow, rfl, rfl⟩
  rcases row_change key hview hsettle with hkept | hchange
  · exact ⟨row, hkept.symm.trans hrow, rfl, rfl⟩
  rw [hrow] at hchange
  generalize hbefore : c.store.record key = before at hchange
  cases hchange with
  | inserted hkey => exact absurd hbefore (hinsert _ rfl hkey hsame)
  | stored hkey => exact ⟨_, rfl, rfl, rfl⟩

/-- No move inserts a record while another process awaits a call that is ahead. -/
theorem exists_record_of_ahead {ahead : Op → Prop} (hproc : c.procs i = some p)
    (hview : (dep.control (ledger d)).view i p = .await op k)
    (hsettle : c.store.settle d f op = some (r, w'))
    {b : Config calls World ℕ Control}
    (hlegal : dep.NoOverlap ahead key (dep.control (ledger d)) c (.settle i f) b)
    {j : ℕ} {op' : Op} (hne : j ≠ i) (hcarries : dep.Carries key j)
    (hpending : (dep.control (ledger d)).pending c j = some op') (hahead : ahead op')
    {row : IdempotencyRecord} (hrow : w'.record key = some row) :
    ∃ old, c.store.record key = some old ∧ old.id = row.id ∧ old.expiresAt = row.expiresAt := by
  apply exists_record_before hview hsettle hrow
  rintro expiresAt rfl rfl hchanged hnone
  cases hview
  exact hlegal i f _ _ _ rfl (World.settle_effect hsettle hchanged)
    (Pool.pending_of_view hproc rfl) hnone j op' hne hcarries hpending hahead

/-- A record another request may still write was there before the move. -/
theorem exists_record_of_writeAhead (hproc : c.procs i = some p)
    (hview : (dep.control (ledger d)).view i p = .await op k)
    (hsettle : c.store.settle d f op = some (r, w'))
    {b : Config calls World ℕ Control}
    (hlegal : dep.NoOverlap Op.WriteAhead key (dep.control (ledger d)) c (.settle i f) b)
    (hcarries : ∀ i p, c.procs i = some p → p.Serving → dep.Carries (dep.key i) i)
    {j : ℕ} {q : Control} (hne : j ≠ i) (hkey : dep.key j = key) (hq : c.procs j = some q)
    (hahead : q.WriteAhead) {row : IdempotencyRecord} (hrow : w'.record key = some row) :
    ∃ old, c.store.record key = some old ∧ old.id = row.id ∧ old.expiresAt = row.expiresAt := by
  have hserving : q.Serving := by
    cases q <;> trivial
  obtain ⟨op', hpending, hop'⟩ := pending_of_writeAhead hq hahead
  exact exists_record_of_ahead hproc hview hsettle hlegal hne
    (hkey ▸ hcarries j q hq hserving) hpending hop' hrow

theorem Generations.settle_owner (hinv : dep.Generations key c) (hproc : c.procs i = some p)
    (hview : (dep.control (ledger d)).view i p = .await op k)
    (hsettle : c.store.settle d f op = some (r, w'))
    {b : Config calls World ℕ Control}
    (hlegal : dep.NoOverlap Op.WriteAhead key (dep.control (ledger d)) c (.settle i f) b)
    (hcarries : ∀ i p, c.procs i = some p → p.Serving → dep.Carries (dep.key i) i)
    {j : ℕ} {q : Control} {row : IdempotencyRecord} (hkey : dep.key j = key)
    (hj : Function.update c.procs i (some (k w'.clock r)) j = some q) (howns : q.Owns)
    (hrow : w'.record key = some row) : row.id = dep.recordId j := by
  rcases Pool.of_update_some hj with ⟨rfl, rfl⟩ | ⟨hne, hj⟩
  · rcases owns_next (transition hview hsettle) howns with ⟨hp, hkeep⟩ | ⟨row', hrow', hid⟩
    · obtain ⟨old, hold, hid, -⟩ := exists_record_before hview hsettle hrow (by
        rintro expiresAt rfl
        exact hp.elim)
      exact hid ▸ hinv.owner j p old hkey hproc hp hold
    · rw [hkey] at hrow'
      obtain rfl := Option.some.inj (hrow'.symm.trans hrow)
      exact hid
  · have hahead : q.WriteAhead := by
      cases q <;> first | exact howns | trivial
    obtain ⟨old, hold, hid, -⟩ :=
      exists_record_of_writeAhead hproc hview hsettle hlegal hcarries hne hkey hj hahead hrow
    exact hid ▸ hinv.owner j q old hkey hj howns hold

theorem Generations.settle_expired (hinv : dep.Generations key c) (hproc : c.procs i = some p)
    (hview : (dep.control (ledger d)).view i p = .await op k)
    (hsettle : c.store.settle d f op = some (r, w'))
    {b : Config calls World ℕ Control}
    (hlegal : dep.NoOverlap Op.WriteAhead key (dep.control (ledger d)) c (.settle i f) b)
    (hcarries : ∀ i p, c.procs i = some p → p.Serving → dep.Carries (dep.key i) i)
    {j : ℕ} {row : IdempotencyRecord} (hkey : dep.key j = key)
    (hj : Function.update c.procs i (some (k w'.clock r)) j = some .expiredDelete)
    (hrow : w'.record key = some row) : row.expiresAt ≤ w'.clock := by
  have hclock : w'.clock = c.store.clock := World.settle_clock hsettle
  rcases Pool.of_update_some hj with ⟨rfl, hq⟩ | ⟨hne, hj⟩
  · have ht := transition hview hsettle
    rw [← hq] at ht
    cases ht with
    | @foundExpired found hfound hexpired =>
        obtain ⟨old, hold, -, hexp⟩ := exists_record_before hview hsettle hrow nofun
        rw [hkey] at hfound
        obtain rfl := Option.some.inj (hold.symm.trans hfound)
        rw [hclock, ← hexp]
        exact hexpired
  · obtain ⟨old, hold, -, hexp⟩ :=
      exists_record_of_writeAhead hproc hview hsettle hlegal hcarries hne hkey hj trivial hrow
    rw [hclock, ← hexp]
    exact hinv.expired j old hkey hj hold

end Settle

theorem Generations.step {a b : Config calls World ℕ Control} {m : (ledger d).Moves}
    (hstep : (dep.control (ledger d)).Step a m b)
    (hlegal : dep.NoOverlap Op.WriteAhead key (dep.control (ledger d)) a m b)
    (hcarries : ∀ i p, a.procs i = some p → p.Serving → dep.Carries (dep.key i) i)
    (hinv : dep.Generations key a) : dep.Generations key b := by
  cases hstep with
  | @settle i f p op k r w' hproc hview hsettle =>
      have hclock : w'.clock = a.store.clock := World.settle_clock hsettle
      have ht := transition hview hsettle
      exact
        { sweep := by
            intro j now hj
            rcases Pool.of_update_some hj with ⟨rfl, hq⟩ | ⟨-, hj⟩
            · change _ = k w'.clock r at hq
              rw [← hq] at ht
              cases ht with
              | cronStarted hnow => exact le_of_eq (hnow.trans hclock.symm)
            · exact (hinv.sweep j now hj).trans (le_of_eq hclock.symm)
          owner := fun j q row ↦ hinv.settle_owner hproc hview hsettle hlegal hcarries
          expired := fun j row ↦ hinv.settle_expired hproc hview hsettle hlegal hcarries
          failed := by
            intro j e hj
            rcases Pool.of_update_some hj with ⟨rfl, hq⟩ | ⟨-, hj⟩
            · change _ = k w'.clock r at hq
              rw [← hq] at ht
              cases ht with
              | handlerFailed => exact handled_mem hview hsettle
            · exact List.mem_cons_of_mem _ (hinv.failed j e hj) }
  | crash hproc hview =>
      exact
        { sweep := fun j now hj ↦ hinv.sweep j now (Pool.of_update_none hj).2
          owner := fun j q row hkey hj ↦ hinv.owner j q row hkey (Pool.of_update_none hj).2
          expired := fun j row hkey hj ↦ hinv.expired j row hkey (Pool.of_update_none hj).2
          failed := fun j e hj ↦ hinv.failed j e (Pool.of_update_none hj).2 }
  | @drift dr w' hdrift =>
      obtain rfl := Option.some.inj hdrift
      exact
        { sweep := fun j now hj ↦ (hinv.sweep j now hj).trans (World.clock_le_drift ..)
          owner := fun j q row hkey hj howns hrow ↦
            hinv.owner j q row hkey hj howns ((World.drift_record ..).symm.trans hrow)
          expired := fun j row hkey hj hrow ↦
            (hinv.expired j row hkey hj ((World.drift_record ..).symm.trans hrow)).trans
              (World.clock_le_drift ..)
          failed := hinv.failed }

theorem generations_start (clock : ℕ) : dep.Generations key (dep.controlStart clock) where
  sweep := by
    intro i now hi
    rcases Control.initial_cases (dep.role i) with h | h | ⟨_, h⟩ | ⟨_, h⟩ <;>
      simp [controlStart, h] at hi
  owner := by
    intro i p row _ _ _ hrow
    cases hrow
  expired := by
    intro i row _ _ hrow
    cases hrow
  failed := by
    intro i e hi
    rcases Control.initial_cases (dep.role i) with h | h | ⟨_, h⟩ | ⟨_, h⟩ <;>
      simp [controlStart, h] at hi

theorem generations_of_reachable {clock : ℕ}
    (h : (dep.control (ledger d)).Reachable
      (dep.NoOverlap Op.WriteAhead key (dep.control (ledger d))) (dep.controlStart clock) c) :
    dep.Generations key c :=
  h.invariant (dep.Generations key) (generations_start clock) fun ha hstep hlegal hinv ↦
    hinv.step hstep hlegal fun _ _ ↦ carries_of_serving ha

/-- While generations do not overlap, every write finds the record it means. -/
theorem Generations.respectsOwner {a b : Config calls World ℕ Control} {m : (ledger d).Moves}
    (hinv : dep.Generations key a) (hstep : (dep.control (ledger d)).Step a m b) :
    dep.RespectsOwner key (dep.control (ledger d)) a m b := by
  cases hstep with
  | @settle i f p op k r w' hproc hview hsettle =>
      have hchange := row_change key hview hsettle
      constructor
      · intro row hrow hnone
        change w'.record key = none at hnone
        rw [hrow, hnone] at hchange
        rcases hchange with hsame | hchange
        · cases hsame
        cases hchange with
        | @released e _ hkey =>
            subst hkey
            cases hview
            exact .inr ⟨i, f, rfl, hinv.owner i _ row rfl hproc trivial hrow,
              Pool.pending_of_view hproc rfl, e, hinv.failed i e hproc⟩
        | expired hkey => exact .inl (hinv.expired i row hkey hproc hrow)
        | swept hnow => exact .inl (hnow.trans (hinv.sweep i _ hproc))
      · intro row row' hrow hrow'
        change w'.record key = some row' at hrow'
        rw [hrow, hrow'] at hchange
        rcases hchange with hsame | hchange
        · exact .inl (Option.some.inj hsame)
        cases hchange with
        | @stored response _ hkey =>
            subst hkey
            cases hview
            exact .inr ⟨i, f, _, _, rfl, hinv.owner i _ row rfl hproc trivial hrow,
              Pool.pending_of_view hproc rfl, rfl⟩
  | crash hproc hview =>
      constructor
      · intro row hrow hnone
        exact absurd (hrow.symm.trans hnone) nofun
      · intro row row' hrow hrow'
        exact .inl (Option.some.inj (hrow'.symm.trans hrow))
  | @drift dr w' hdrift =>
      obtain rfl := Option.some.inj hdrift
      constructor
      · intro row hrow hnone
        exact absurd (hrow.symm.trans ((World.drift_record ..).symm.trans hnone)) nofun
      · intro row row' hrow hrow'
        exact .inl (Option.some.inj (((World.drift_record ..).symm.trans hrow').symm.trans hrow))

/-! ## The programs -/

theorem noOverlap_map {ahead : Op → Prop} {a b : Config calls World ℕ Control}
    {m : (ledger d).Moves}
    (h : dep.NoOverlap ahead key ((ledger d).programs Outcome) (a.map dep.code) m
      (b.map dep.code)) : dep.NoOverlap ahead key (dep.control (ledger d)) a m b := by
  simp only [NoOverlap, (dep.control_implements (ledger d)).pending_map] at h
  exact h

/-- In every run that inserts a record of the key only when no other request still
has a write of it ahead, records are deleted when expired or by their owner, and
written by their owner. -/
theorem ownersOnly_of_noOverlap (dep : Deployment) (d : Delivery) (key : String) (clock : ℕ) :
    dep.OwnersOnly key ((ledger d).programs Outcome)
      (dep.NoOverlap Op.WriteAhead key ((ledger d).programs Outcome)) (dep.start clock) := by
  intro a m b ha hstep hlegal
  have himpl := dep.control_implements (ledger d)
  rw [← dep.map_controlStart] at ha
  obtain ⟨a', rfl, ha'⟩ := himpl.lift ha
  rw [himpl.step_map] at hstep
  obtain ⟨b', hb, rfl⟩ := Option.map_eq_some_iff.mp hstep
  have hinv := generations_of_reachable (ha'.mono fun h ↦ noOverlap_map h)
  have hrespects := hinv.respectsOwner (Pool.step_cases hb)
  constructor
  · intro row hrow hnone
    rcases hrespects.deleted row hrow hnone with hexpired | ⟨i, f, hm, hid, hreleasing⟩
    · exact .inl hexpired
    · refine .inr ⟨i, f, hm, hid, ?_⟩
      rw [Releasing, himpl.pending_map]
      exact hreleasing
  · intro row row' hrow hrow'
    rcases hrespects.written row row' hrow hrow' with
      hsame | ⟨i, f, statusCode, response, hm, hid, hpending, hnew⟩
    · exact .inl hsame
    · exact .inr ⟨i, f, statusCode, response, hm, hid,
        (himpl.pending_map a' i).trans hpending, hnew⟩

/-! ## Two generations -/

def overlapping (i : ℕ) : Role := if i = 3 then .cron else posting "k" "h"

/-- Whether the move inserts no record unless the others of the first `n` processes, the
only ones that have begun, have ended or are waiting for their first call. -/
def insertsAlone (n : ℕ) {P : Type} (L : Pool (ledger d) Outcome P)
    (a : Config calls World ℕ P) : (ledger d).Moves → Bool
  | .settle i _ =>
      match L.pending a i with
      | some (.recordCreate ..) =>
          a.log.all (·.proc < n) && (List.range n).all fun j ↦ j == i ||
            match L.pending a j with
            | none | some (.redisSetNX ..) => true
            | _ => false
      | _ => true
  | _ => true

theorem setNX_of_start {clock j : ℕ} {op : Op} (hcarries : dep.Carries key j)
    (h : ((ledger d).programs Outcome).pending (dep.start clock) j = some op) :
    ∃ k value ttl, op = .redisSetNX k value ttl := by
  rw [← dep.map_controlStart, (dep.control_implements (ledger d)).pending_map] at h
  cases hrole : dep.role j with
  | post p =>
      have hproc : (dep.controlStart clock).procs j = some (.initial (.post p)) :=
        congrArg (fun role ↦ some (Control.initial role)) hrole
      by_cases hkey : p.request.hasKey
      · rw [Pool.pending, hproc, Control.initial, if_pos hkey] at h
        cases h
        exact ⟨_, _, _, rfl⟩
      · rw [Pool.pending, hproc, Control.initial, if_neg hkey] at h
        cases h
  | cron | background job =>
      rw [Carries, post, hrole] at hcarries
      cases hcarries

theorem noOverlap_of_insertsAlone {ahead : Op → Prop} {clock n : ℕ}
    {legal : Config calls World ℕ (Promise Outcome) → (ledger d).Moves →
      Config calls World ℕ (Promise Outcome) → Prop}
    {a b : Config calls World ℕ (Promise Outcome)} {m : (ledger d).Moves}
    (hahead : ∀ k value ttl, ¬ahead (.redisSetNX k value ttl))
    (ha : ((ledger d).programs Outcome).Reachable legal (dep.start clock) a)
    (h : insertsAlone n ((ledger d).programs Outcome) a m) :
    dep.NoOverlap ahead key ((ledger d).programs Outcome) a m b := by
  rintro i f id requestHash expiresAt rfl - hpending - j op hne hcarries hj
  simp only [insertsAlone, hpending, Bool.and_eq_true, List.all_eq_true, List.mem_range,
    decide_eq_true_eq] at h
  obtain ⟨hlog, hothers⟩ := h
  by_cases hlt : j < n
  · have hother := hothers j hlt
    rw [hj, Bool.or_eq_true] at hother
    rcases hother with hsame | hother
    · exact absurd (eq_of_beq hsame) hne
    · cases op <;> first | exact hahead _ _ _ | cases hother
  · have huntouched : ∀ e ∈ a.log, e.proc ≠ j := fun e he hej ↦ hlt (hej ▸ hlog e he)
    obtain ⟨k, value, ttl, rfl⟩ := setNX_of_start hcarries (ha.pending_of_untouched huntouched hj)
    exact hahead k value ttl

/-- Request 0 crashes in its handler and its record expires.  Request 1 deletes the record
and is told to come back; request 2 is admitted and its handler succeeds. -/
def nextGeneration : List (ledger .exclusive).Moves :=
  [.settle 0 .run, .settle 0 .run, .settle 0 .run, .crash 0, .drift (.tick 3600000),
    .settle 1 .run, .settle 1 .run, .settle 1 .run, .settle 1 .run, .settle 1 .run,
    .settle 1 .run, .settle 1 .run, .settle 2 .run, .settle 2 .run, .settle 2 .run,
    .settle 2 .run]

theorem respectsOwner_nextGeneration :
    let L := (ledger .exclusive).programs Outcome
    let c := L.played (fun a m _ ↦ insertsAlone 3 L a m) ((drill overlapping).start 0)
      nextGeneration
    ∃ b, L.step c (.settle 2 .run) = some b ∧
      (drill overlapping).RespectsOwner "k" L c (.settle 2 .run) b := by
  intro L c
  have hreach : L.Reachable ((drill overlapping).NoOverlap Op.WriteAhead "k" L)
      ((drill overlapping).start 0) c :=
    Pool.reachable_played_checked
      (fun _ _ _ ha h ↦ noOverlap_of_insertsAlone (fun _ _ _ ↦ id) ha h) rfl
  have halone : insertsAlone 3 L c (.settle 2 .run) := rfl
  exact ⟨_, rfl, ownersOnly_of_noOverlap _ .exclusive "k" 0 _ _ _ hreach rfl
    (noOverlap_of_insertsAlone (fun _ _ _ ↦ id) hreach halone)⟩

/-- The record of request 0 expires; request 1 reads it and is about to delete it
when the clean-up does so and request 2 inserts its own. -/
def deleteTooLate : List (ledger .exclusive).Moves :=
  [.settle 0 .run, .settle 0 .run, .drift (.tick 3600000), .settle 1 .run, .settle 1 .run,
    .settle 1 .run, .settle 1 .run, .settle 3 .run, .settle 3 .run, .settle 2 .run,
    .settle 2 .run]

theorem ownerIgnored_deleteTooLate :
    ¬(drill overlapping).OwnersOnly "k" ((ledger .exclusive).programs Outcome)
      ((ledger .exclusive).programs Outcome).anyMove ((drill overlapping).start 0) := by
  intro h
  have hrespects := h
    (((ledger .exclusive).programs Outcome).played (fun _ _ _ ↦ true)
      ((drill overlapping).start 0) deleteTooLate)
    (.settle 1 .run) _ (Pool.reachable_played (fun _ _ _ _ ↦ trivial) rfl) rfl trivial
  rcases hrespects.deleted ⟨"rr", "k", "h", none, none, 7200000⟩ rfl rfl with
    hexpired | ⟨i, f, hm, hid, -⟩
  · exact absurd hexpired (by decide)
  · cases hm
    exact absurd hid (by decide)

end Deployment

end TransactionLedger
