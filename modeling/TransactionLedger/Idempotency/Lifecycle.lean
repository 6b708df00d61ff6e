import TransactionLedger.Idempotency.SelfHealing

/-!
# The life of a lock

As long as nothing fails, the lock of a key goes through one life: it is free,
then placed in Redis, then held in both stores, and at last answered or released.
One request at a time leads it from phase to phase, and each phase says what both
stores show.  A turn is one call of one request on what the stores show of its key.
-/

namespace TransactionLedger

open Async IdempotencyService

/-! ## Phases -/

/-- What the service serialises of a record. -/
def IdempotencyRecord.data (row : IdempotencyRecord) : IdempotencyData :=
  ⟨row.requestHash, row.statusCode, row.response⟩

/-- The life of the lock of a key, and the request that leads it. -/
inductive Phase : Type where
  | free
  | acquiring (i : ℕ)
  | held (i : ℕ) (row : IdempotencyRecord)
  | storing (i : ℕ) (row : IdempotencyRecord)
  | releasing (i : ℕ)
  | completed (row : IdempotencyRecord)

namespace Phase

def leader : Phase → Option ℕ
  | .free => none
  | .acquiring i => some i
  | .held i _ => some i
  | .storing i _ => some i
  | .releasing i => some i
  | .completed _ => none

/-- What PostgreSQL holds. -/
def record : Phase → Option IdempotencyRecord
  | .held _ row => some row
  | .storing _ row => some row
  | .completed row => some row
  | _ => none

/-- What Redis can hold. -/
def Shows (dep : Deployment) : Phase → Option RedisText → Prop
  | .free, found => found = none
  | .acquiring i, found => found = some (placeholder (dep.hash i))
  | .held i row, found =>
      found = some (.json row.data) ∧ row.data = ⟨dep.hash i, none, none⟩
  | .storing i row, found =>
      (found = some (placeholder row.requestHash) ∨ found = some (.json row.data)) ∧
        row.requestHash = dep.hash i ∧ ∃ statusCode, row.statusCode = some statusCode
  | .releasing i, found => found = some (placeholder (dep.hash i))
  | .completed row, found =>
      found = some (.json row.data) ∧ ∃ statusCode, row.statusCode = some statusCode

/-- Where the leader is. -/
def At : Phase → Control → Prop
  | .acquiring _, .create _ => True
  | .held _ _, p => p.Owns
  | .storing _ row, .storeSet response =>
      row.statusCode = some response.status.code ∧ row.response = some response.body
  | .releasing _, .releaseDel _ => True
  | _, _ => False

variable {dep : Deployment} {phase : Phase} {found : Option RedisText} {p : Control}

theorem eq_free_of_shows (h : phase.Shows dep none) : phase = .free := by
  cases phase with
  | free => rfl
  | acquiring i | releasing i => cases h
  | held i row | completed row => cases h.1
  | storing i row =>
      rcases h.1 with h | h
      · cases h
      · cases h

theorem eq_acquiring_of_at {expiresAt : ℕ} (h : phase.At (.create expiresAt)) :
    ∃ i, phase = .acquiring i := by
  cases phase with
  | acquiring i => exact ⟨i, rfl⟩
  | _ => exact h.elim

theorem eq_held_of_at (h : phase.At p) (howns : p.Owns) : ∃ i row, phase = .held i row := by
  cases phase with
  | held i row => exact ⟨i, row, rfl⟩
  | _ => cases p <;> first | exact h.elim | exact howns.elim

theorem eq_storing_of_at {response : Response} (h : phase.At (.storeSet response)) :
    ∃ i row, phase = .storing i row ∧ row.statusCode = some response.status.code ∧
      row.response = some response.body := by
  cases phase with
  | storing i row => exact ⟨i, row, rfl, h⟩
  | _ => exact h.elim

theorem eq_releasing_of_at {e : Err} (h : phase.At (.releaseDel e)) :
    ∃ i, phase = .releasing i := by
  cases phase with
  | releasing i => exact ⟨i, rfl⟩
  | _ => exact h.elim

/-- The record comes with an entry of the same body. -/
theorem entry_of_record {row : IdempotencyRecord} (hrow : phase.record = some row)
    (h : phase.Shows dep found) :
    ∃ data, found = some (.json data) ∧ data.requestHash = row.requestHash := by
  cases phase with
  | held i old | completed old =>
      obtain rfl := Option.some.inj hrow
      exact ⟨_, h.1, rfl⟩
  | storing i old =>
      obtain rfl := Option.some.inj hrow
      rcases h.1 with h | h
      · exact ⟨_, h, rfl⟩
      · exact ⟨_, h, rfl⟩
  | _ => cases hrow

/-- An entry with a response is the serialised record. -/
theorem record_of_entry {data : IdempotencyData}
    (hdata : data.statusCode ≠ none ∨ data.response ≠ none)
    (h : phase.Shows dep (some (.json data))) :
    ∃ row, phase.record = some row ∧ row.data = data := by
  have hbare : ∀ requestHash, some (.json data) ≠ some (placeholder requestHash) := by
    intro requestHash heq
    obtain rfl := RedisText.json.inj (Option.some.inj heq)
    rcases hdata with hcode | hresponse
    · exact hcode rfl
    · exact hresponse rfl
  cases phase with
  | free => cases h
  | acquiring i | releasing i => exact absurd h (hbare _)
  | held i row | completed row =>
      exact ⟨row, rfl, (RedisText.json.inj (Option.some.inj h.1)).symm⟩
  | storing i row =>
      rcases h.1 with h | h
      · exact absurd h (hbare _)
      · exact ⟨row, rfl, (RedisText.json.inj (Option.some.inj h)).symm⟩

/-- A copy of the answered record is what Redis holds or will hold. -/
theorem shows_copy {row : IdempotencyRecord} {statusCode : ℕ} (h : phase.Shows dep found)
    (hrow : phase.record = some row) (hcode : row.statusCode = some statusCode) :
    phase.Shows dep (some (.json row.data)) := by
  cases phase with
  | held i old =>
      obtain rfl := Option.some.inj hrow
      have hnone : old.statusCode = none := congrArg IdempotencyData.statusCode h.2
      cases hcode.symm.trans hnone
  | storing i old =>
      obtain rfl := Option.some.inj hrow
      exact ⟨.inr rfl, h.2⟩
  | completed old =>
      obtain rfl := Option.some.inj hrow
      exact ⟨rfl, h.2⟩
  | _ => cases hrow

end Phase

/-! ## Turns -/

/-- The control points of a request that leads the lock. -/
def Control.Leads : Control → Prop
  | .create _ => True
  | .storeSet _ => True
  | .releaseDel _ => True
  | p => p.Owns

/-- The control points that only a failed or an expired request reaches. -/
def Control.CleansUp : Control → Prop
  | .rollbackDup => True
  | .rollback _ => True
  | .expiredDelete => True
  | .expiredDel => True
  | _ => False

/-- The control points of a request that has only looked at the lock. -/
def Control.Looks : Control → Prop
  | .setNX => True
  | .get => True
  | .findUnique => True
  | .checked result => result ≠ .miss
  | .ended _ => True
  | _ => False

theorem Control.leads_of_owns {p : Control} (h : p.Owns) : p.Leads := by
  cases p <;> first | exact h | trivial

theorem Control.serving_of_leads {p : Control} (h : p.Leads) : p.Serving := by
  cases p <;> first | exact h.elim | trivial

theorem Control.not_leads_of_looks {p : Control} (h : p.Looks) : ¬p.Leads := by
  intro hleads
  cases p with
  | checked result =>
      cases result with
      | miss => exact h rfl
      | _ => exact hleads
  | _ => first | exact h | exact hleads

theorem Control.not_cleansUp_of_looks {p : Control} (h : p.Looks) : ¬p.CleansUp := by
  intro hclean
  cases p <;> first | exact h | exact hclean

theorem Control.not_cleansUp_of_leads {p : Control} (h : p.Leads) : ¬p.CleansUp := by
  intro hclean
  cases p <;> first | exact h | exact hclean

theorem Phase.leads_of_at {phase : Phase} {p : Control} (h : phase.At p) : p.Leads := by
  cases phase with
  | acquiring i | storing i row | releasing i =>
      cases p <;> first | exact h.elim | trivial
  | held i row =>
      cases p with
      | checked result => exact h
      | create expiresAt | storeSet response | releaseDel e => trivial
      | _ => first | exact h.elim | trivial
  | _ => exact h.elim

/-- A control point that neither leads nor cleans up; what it copies is the record. -/
structure Phase.Idle (phase : Phase) (p : Control) : Prop where
  leads : ¬p.Leads
  clean : ¬p.CleansUp
  copies : ∀ row statusCode, p = .repopulate row statusCode →
    phase.record = some row ∧ row.statusCode = some statusCode

theorem Phase.idle_of_looks {phase : Phase} {p : Control} (h : p.Looks) : phase.Idle p where
  leads := Control.not_leads_of_looks h
  clean := Control.not_cleansUp_of_looks h
  copies := by
    rintro row statusCode rfl
    exact h.elim

theorem Phase.idle_of_not_serving {phase : Phase} {p : Control} (h : ¬p.Serving) :
    phase.Idle p where
  leads hleads := h (Control.serving_of_leads hleads)
  clean hclean := by
    cases p <;> first | exact h trivial | exact hclean
  copies := by
    rintro row statusCode rfl
    exact absurd trivial h

/-- What one call of a request does when nothing fails or expires: where it leads,
and what it makes of the Redis value and of the record. -/
inductive Turn (dep : Deployment) (i : ℕ) : Control → Option RedisText →
    Option IdempotencyRecord → Control → Option RedisText → Option IdempotencyRecord →
      Prop where
  | looked {p q : Control} {found : Option RedisText} {row : Option IdempotencyRecord}
      (hp : p.Looks) (hq : q.Looks) : Turn dep i p found row q found row
  | placed {expiresAt : ℕ} {row : Option IdempotencyRecord} :
      Turn dep i .setNX none row (.create expiresAt) (some (placeholder (dep.hash i))) row
  | inserted {expiresAt : ℕ} {found : Option RedisText} :
      Turn dep i (.create expiresAt) found none (.checked .miss) found
        (some ⟨dep.recordId i, dep.key i, dep.hash i, none, none, expiresAt⟩)
  | duplicate {expiresAt : ℕ} {found : Option RedisText} {row : IdempotencyRecord} :
      Turn dep i (.create expiresAt) found (some row) .rollbackDup found (some row)
  | worked {p q : Control} {found : Option RedisText} {row : Option IdempotencyRecord}
      (hp : p.Owns) (hq : q.Owns) : Turn dep i p found row q found row
  | updated {response : Response} {found : Option RedisText} {row : IdempotencyRecord} :
      Turn dep i (.storeUpdate response) found (some row) (.storeSet response) found
        (some { row with
          statusCode := some response.status.code
          response := some response.body })
  | updateMissing {response : Response} {found : Option RedisText} {q : Control} :
      Turn dep i (.storeUpdate response) found none q found none
  | stored {response : Response} {found : Option RedisText}
      {row : Option IdempotencyRecord} {r : Except Err Outcome} :
      Turn dep i (.storeSet response) found row (.ended r)
        (some (.json ⟨dep.hash i, some response.status.code, some response.body⟩)) row
  | deleted {e : Err} {found : Option RedisText} {row : Option IdempotencyRecord} :
      Turn dep i (.releaseDelete e) found row (.releaseDel e) found none
  | released {e : Err} {found : Option RedisText} {row : Option IdempotencyRecord}
      {r : Except Err Outcome} : Turn dep i (.releaseDel e) found row (.ended r) none row
  | found {found : Option RedisText} {row : IdempotencyRecord} {statusCode : ℕ}
      (hcode : row.statusCode = some statusCode) :
      Turn dep i .findUnique found (some row) (.repopulate row statusCode) found (some row)
  | repopulated {found : Option RedisText} {row : IdempotencyRecord} {statusCode : ℕ}
      {before : Option IdempotencyRecord} {q : Control} (hq : q.Looks) :
      Turn dep i (.repopulate row statusCode) found before q
        (some (.json ⟨row.requestHash, some statusCode, row.response⟩)) before

namespace Deployment

variable {dep : Deployment} {key : String} {d : Delivery} {M : Machine calls World ℕ} {f : Fate}
  {w w' : World} {i : ℕ} {p : Control} {op : Op} {k : ℕ → Except Err op.Res → Control}
  {r : Except Err op.Res}

theorem answer_setNX_none {key : String} {value : RedisText} {ttl : ℕ}
    (h : w.redisGet key = none) : (w.answer (.redisSetNX key value ttl)).1 = .ok true := by
  simp only [World.answer, h]

theorem answer_setNX_some {key : String} {value raw : RedisText} {ttl : ℕ}
    (h : w.redisGet key = some raw) : (w.answer (.redisSetNX key value ttl)).1 = .ok false := by
  simp only [World.answer, h]

theorem answer_create_none {id key requestHash : String} {expiresAt : ℕ}
    (h : w.record key = none) :
    (w.answer (.recordCreate id key requestHash expiresAt)).1 =
      .ok ⟨id, key, requestHash, none, none, expiresAt⟩ := by
  cases hanswer : w.answer (.recordCreate id key requestHash expiresAt) with
  | mk r w' =>
      rcases r with e | row
      · obtain ⟨-, row, hrow⟩ := World.record_of_p2002 hanswer
        cases h.symm.trans hrow
      · rw [(World.record_of_create hanswer).2.2]

theorem answer_update_some {key : String} {statusCode : ℕ} {response : Json}
    {row : IdempotencyRecord} (h : w.record key = some row) :
    (w.answer (.recordUpdate key statusCode response)).1 =
      .ok { row with statusCode := some statusCode, response := some response } := by
  change w.idempotencyRecords.lookup key = some row at h
  simp only [World.answer, h]

theorem turn_found (hunexpired : w.Unexpired (dep.key i)) (found : Option RedisText) :
    Turn dep i .findUnique found (w.record (dep.key i))
      (Control.inspected (dep.post i) w.clock (w.record (dep.key i))) found
      (w.record (dep.key i)) := by
  cases hrow : w.record (dep.key i) with
  | none => exact .looked trivial fun h ↦ by cases h
  | some row =>
      have hlive := hunexpired row hrow
      have hexpired : ¬row.expiresAt ≤ w.clock := by omega
      simp only [Control.inspected, if_neg hexpired]
      by_cases hhash : row.requestHash = (dep.post i).request.requestHash
      · rw [if_pos hhash]
        cases hcode : truthyCode row.statusCode with
        | none => exact .looked trivial fun h ↦ by cases h
        | some statusCode => exact .found (truthyCode_eq hcode)
      · rw [if_neg hhash]
        exact .looked trivial fun h ↦ by cases h

/-- One call of a request with the key. -/
theorem turn (hview : (dep.control M).view i p = .await op k)
    (hsettle : w.settle d f op = some (r, w')) (hserving : p.Serving) (hclean : ¬p.CleansUp)
    (hrun : ¬op.Foreign → f = .run) (hunexpired : w.Unexpired (dep.key i)) :
    Turn dep i p (w.redisGet (redisKey (dep.key i))) (w.record (dep.key i)) (k w'.clock r)
      (w'.redisGet (redisKey (dep.key i))) (w'.record (dep.key i)) := by
  have hclock : w'.clock = w.clock := World.settle_clock hsettle
  have hanswer : ¬op.Foreign → (w.answer op).1 = r ∧
      w'.redisGet (redisKey (dep.key i)) =
        op.onRedis (redisKey (dep.key i)) (w.redisGet (redisKey (dep.key i))) ∧
      w'.record (dep.key i) = op.onRecord (dep.key i) (w.record (dep.key i)) := by
    intro hown
    rcases World.settle_cases hsettle with ⟨h, -, -⟩ | ⟨e, -, -, -, ⟨hf, -⟩ | ⟨hf, -⟩⟩
    · obtain rfl : (w.answer op).2 = w' := congrArg Prod.snd h
      exact ⟨congrArg Prod.fst h, World.answer_redisGet .., World.answer_record ..⟩
    · cases hf.symm.trans (hrun hown)
    · cases hf.symm.trans (hrun hown)
  cases p with
  | setNX =>
      cases hview
      obtain ⟨hr, hredis, hrecord⟩ := hanswer fun h ↦ h
      replace hredis := hredis.trans (onRedis_setNX dep.cfg)
      rw [hrecord]
      cases hfound : w.redisGet (redisKey (dep.key i)) with
      | none =>
          obtain rfl := hr.symm.trans (answer_setNX_none hfound)
          rw [hredis.trans (if_pos ⟨rfl, hfound⟩)]
          exact .placed
      | some raw =>
          obtain rfl := hr.symm.trans (answer_setNX_some hfound)
          have hsome : ¬(dep.key i = dep.key i ∧ w.redisGet (redisKey (dep.key i)) = none) := by
            rw [hfound]
            rintro ⟨-, ⟨⟩⟩
          rw [(hredis.trans (if_neg hsome)).trans hfound]
          exact .looked trivial trivial
  | create expiresAt =>
      cases hview
      obtain ⟨hr, hredis, hrecord⟩ := hanswer fun h ↦ h
      replace hrecord := hrecord.trans (if_pos rfl)
      rw [hredis]
      cases hrow : w.record (dep.key i) with
      | none =>
          obtain rfl := hr.symm.trans (answer_create_none hrow)
          rw [hrecord, hrow]
          exact .inserted
      | some row =>
          obtain rfl := hr.symm.trans (congrArg Prod.fst (answer_create_of_record hrow))
          rw [hrecord, hrow]
          exact .duplicate
  | get =>
      cases hview
      obtain ⟨hr, hredis, hrecord⟩ := hanswer fun h ↦ h
      rw [hredis, hrecord]
      refine .looked trivial ?_
      cases hfound : w.redisGet (redisKey (dep.key i)) with
      | none =>
          obtain rfl := hr.symm.trans (congrArg Except.ok hfound)
          trivial
      | some raw =>
          obtain rfl := hr.symm.trans (congrArg Except.ok hfound)
          dsimp only
          split
          · exact parseIdempotencyData_ne_miss raw _
          · trivial
  | findUnique =>
      cases hview
      obtain ⟨hr, hredis, hrecord⟩ := hanswer fun h ↦ h
      rw [hredis, hrecord, hclock]
      obtain rfl := hr
      exact turn_found hunexpired _
  | repopulate row statusCode =>
      cases hview
      obtain ⟨hr, hredis, hrecord⟩ := hanswer fun h ↦ h
      rw [hredis.trans ((onRedis_set dep.cfg).trans (if_pos rfl)), hrecord]
      obtain rfl := hr
      exact .repopulated fun h ↦ by cases h
  | checked result =>
      cases hview
      obtain ⟨rfl, rfl⟩ := World.settle_observe hsettle
      cases result with
      | miss => exact .worked trivial trivial
      | _ => exact .looked (fun h ↦ by cases h) trivial
  | handling handler =>
      rcases Control.handling_eta handler with ⟨response, rfl⟩ | ⟨e, rfl⟩ | ⟨op, k, h, rfl⟩
      · cases hview
        obtain ⟨rfl, rfl⟩ := World.settle_observe hsettle
        exact .worked trivial trivial
      · cases hview
        obtain ⟨rfl, rfl⟩ := World.settle_observe hsettle
        exact .worked trivial trivial
      · cases hview
        have hredis : w'.redisGet (redisKey (dep.key i)) = w.redisGet (redisKey (dep.key i)) := by
          rcases World.settle_redisGet hsettle (redisKey (dep.key i)) with hsame | heffect
          · exact hsame
          · exact heffect.trans (h.1.onRedis _ _)
        have hrecord : w'.record (dep.key i) = w.record (dep.key i) := by
          rcases World.settle_record hsettle (dep.key i) with hsame | heffect
          · exact hsame
          · exact heffect.trans (h.1.onRecord _ _)
        rw [hredis, hrecord]
        exact .worked trivial trivial
  | storeUpdate response =>
      cases hview
      obtain ⟨hr, hredis, hrecord⟩ := hanswer fun h ↦ h
      replace hrecord := hrecord.trans (if_pos rfl)
      rw [hredis]
      cases hrow : w.record (dep.key i) with
      | none =>
          rw [hrecord, hrow]
          exact .updateMissing
      | some row =>
          obtain rfl := hr.symm.trans (answer_update_some hrow)
          rw [hrecord, hrow]
          exact .updated
  | storeSet response =>
      cases hview
      obtain ⟨hr, hredis, hrecord⟩ := hanswer fun h ↦ h
      rw [hredis.trans ((onRedis_set dep.cfg).trans (if_pos rfl)), hrecord]
      exact .stored
  | releaseDelete e =>
      cases hview
      obtain ⟨hr, hredis, hrecord⟩ := hanswer fun h ↦ h
      rw [hredis, hrecord.trans (if_pos rfl)]
      exact .deleted
  | releaseDel e =>
      cases hview
      obtain ⟨hr, hredis, hrecord⟩ := hanswer fun h ↦ h
      rw [hredis.trans (onRedis_del.trans (if_pos rfl)), hrecord]
      exact .released
  | rollbackDup | rollback e | expiredDelete | expiredDel => exact absurd trivial hclean
  | _ => exact hserving.elim

end Deployment

end TransactionLedger
