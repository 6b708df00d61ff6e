import TransactionLedger.Idempotency.Acquisition
import TransactionLedger.Idempotency.Admission

/-!
# Expiry

PostgreSQL refuses a record from its `expiresAt` on, but Redis keeps what `store()`
or the re-population wrote for a whole time to live, however late they wrote it.  A
trace tells which record a Redis value was made from.
-/

namespace TransactionLedger

open Async IdempotencyService

def Fate.takesEffect : Fate → Bool
  | .lost _ => false
  | _ => true

/-! ## Where an answer comes from -/

/-- The `expiresAt` of the record that a request is about to insert. -/
def announced : Option Op → Option ℕ
  | some (.recordCreate _ _ _ expiresAt) => some expiresAt
  | _ => none

section

variable (key : String) {d : Delivery} {P : Type} (L : Pool (ledger d) Outcome P)

/-- If the stage writes the Redis value of the key, the `expiresAt` of the record it is
made from: the record that `store()` updated or `inspectFromDb` found, or the one that
comes after a placeholder. -/
def redisWrite (s : Pool.Stage (ledger d) P) : Option (Option ℕ) :=
  match s.move with
  | .settle i f =>
      match L.pending s.before i with
      | some (.redisSet k _ _) =>
          if k = redisKey key ∧ Fate.takesEffect f then
            some ((lastRecord i s.before.log).map (·.expiresAt))
          else none
      | some (.redisSetNX k _ _) =>
          if k = redisKey key ∧ Fate.takesEffect f ∧ (s.before.store.redisGet k).isNone then
            some (announced (L.pending s.after i))
          else none
      | _ => none
  | _ => none

/-- The `expiresAt` of the record from which the Redis value of the key derives. -/
def derivedFrom : List (Pool.Stage (ledger d) P) → Option ℕ
  | [] => none
  | s :: past => (redisWrite key L s).getD (derivedFrom past)

/-- The `expiresAt` of the record on which the last lookup of process `i` rests. -/
def answeredFrom (i : ℕ) : List (Pool.Stage (ledger d) P) → Option ℕ
  | [] => none
  | s :: past =>
      if settledBy i s then
        match L.pending s.before i with
        | some (.redisGet _) => derivedFrom key L past
        | some (.recordFindUnique _) => (lastRecord i s.after.log).map (·.expiresAt)
        | _ => answeredFrom i past
      else answeredFrom i past

end

/-- The answers that `checkAndAcquire` gives on the strength of a record. -/
def IdempotencyCheckResult.Definite : IdempotencyCheckResult → Prop
  | .cached .. => True
  | .hashMismatch => True
  | _ => False

namespace Deployment

variable (dep : Deployment) (key : String) {d : Delivery} {P : Type}
  (L : Pool (ledger d) Outcome P)

/-- No record of the key speaks after it has expired. -/
structure ExpiryHonoured (past : List (Pool.Stage (ledger d) P))
    (c : Config calls World ℕ P) : Prop where
  entry : ∀ expiresAt, derivedFrom key L past = some expiresAt →
    (c.store.redisGet (redisKey key)).isSome → c.store.clock < expiresAt
  /-- A call that starts at `t` settles nothing before. -/
  answer : ∀ i t result expiresAt, dep.Carries key i →
    (∀ s ∈ past, settledBy i s → t ≤ s.after.store.clock) →
      L.pending c i = some (.observe (.checked result)) → result.Definite →
        answeredFrom key L i past = some expiresAt → t < expiresAt

/-- If the stage is a SET of the key that takes effect, no time has passed since the request
that inserted the record it is made from acquired the key. -/
def SetsAtOnce (past : List (Pool.Stage (ledger d) P)) (s : Pool.Stage (ledger d) P) : Prop :=
  ∀ i f value ttl row, s.move = .settle i f → Fate.takesEffect f →
    L.pending s.before i = some (.redisSet (redisKey key) value ttl) →
      lastRecord i s.before.log = some row →
        ∃ j, row.id = dep.recordId j ∧ acquiredAt key j past = some s.before.store.clock

end Deployment

/-! ## Entries -/

/-- The call, if it takes effect, writes the value of the key. -/
def Op.Writes (key : String) (w : World) : Op → Prop
  | .redisSet k _ _ => k = key
  | .redisSetNX k _ _ => k = key ∧ w.redisGet k = none
  | _ => False

namespace World

variable {d : Delivery} {f : Fate} {w w' : World} {op : Op} {r : Except Err op.Res}

/-- Any other call leaves the entry of the key or removes it. -/
theorem answer_entry (w : World) (op : Op) (key : String) (hother : ¬op.Writes key w) :
    (w.answer op).2.redis key = w.redis key ∨ (w.answer op).2.redis key = none := by
  cases op with
  | redisSet k value ttl => exact .inl (Function.update_of_ne (Ne.symm hother) ..)
  | redisSetNX k value ttl =>
      left
      simp only [answer]
      cases hfound : w.redisGet k with
      | some raw => rfl
      | none =>
          have hk : key ≠ k := fun hk ↦ hother ⟨hk.symm, hfound⟩
          exact Function.update_of_ne hk ..
  | redisDel k =>
      by_cases hk : k = key
      · subst hk
        exact .inr (Function.update_self ..)
      · exact .inl (Function.update_of_ne (Ne.symm hk) ..)
  | recordCreate | recordUpdate | recordDelete | transactionUpdate
  | transactionQueueAdd | notificationQueueAdd | takeJob | takeNotificationJob =>
      left
      simp only [answer]
      split <;> rfl
  | transactionCreate data =>
      left
      simp only [answer]
      split
      · rfl
      · split <;> rfl
  | notificationCreate id data =>
      left
      obtain ⟨t, ht⟩ := answer_notificationCreate w id data
      rw [ht]
  | notificationUpsert pair id create update =>
      left
      obtain ⟨t, ht⟩ := answer_notificationUpsert w pair id create update
      rw [ht]
  | _ => exact .inl rfl

theorem answer_set_entry (w : World) (key : String) (value : RedisText) (ttl : Option ℕ) :
    (w.answer (.redisSet key value ttl)).2.redis key =
      some ⟨value, ttl.map fun ttl ↦ w.clock + ttl * 1000⟩ :=
  Function.update_self ..

theorem answer_setNX_entry {key : String} {value : RedisText} {ttl : ℕ}
    (h : w.redisGet key = none) :
    (w.answer (.redisSetNX key value ttl)).2.redis key =
      some ⟨value, some (w.clock + ttl * 1000)⟩ := by
  simp only [answer, h]
  exact Function.update_self ..

theorem settle_takesEffect (h : w.settle d f op = some (r, w')) (hf : f.takesEffect) :
    w' = (w.answer op).2 := by
  rcases settle_cases h with ⟨hrun, -, -⟩ | ⟨e, -, -, -, ⟨rfl, -⟩ | ⟨-, hw⟩⟩
  · rw [hrun]
  · cases hf
  · exact hw

theorem settle_lost (h : w.settle d f op = some (r, w')) (hf : ¬f.takesEffect) : w' = w := by
  rcases settle_cases h with ⟨-, rfl, -⟩ | ⟨e, -, -, -, ⟨-, hw⟩ | ⟨rfl, -⟩⟩
  · exact absurd rfl hf
  · exact hw
  · exact absurd rfl hf

end World

namespace Deployment

variable {dep : Deployment} {key : String} {d : Delivery} {i : ℕ} {p : Control}

theorem view_redisSet {M : Machine calls World ℕ} {k : String} {value : RedisText}
    {ttl : Option ℕ} {cont : ℕ → Except Err Unit → Control}
    (hview : (dep.control M).view i p = .await (.redisSet (redisKey k) value ttl) cont) :
    dep.key i = k ∧ ttl = some dep.cfg.ttlSeconds := by
  suffices h : ∀ k', (dep.control M).view i p = .await (.redisSet k' value ttl) cont →
      k' = redisKey (dep.key i) ∧ ttl = some dep.cfg.ttlSeconds by
    obtain ⟨hkey, httl⟩ := h _ hview
    exact ⟨(redisKey_injective hkey).symm, httl⟩
  intro k' hview
  cases p with
  | repopulate row statusCode | storeSet response =>
      cases hview
      exact ⟨rfl, rfl⟩
  | handling handler =>
      rcases foreign_of_handling hview with hforeign | ⟨outcome, h⟩
      · exact hforeign.elim
      · cases h
  | background job => exact (foreign_of_background hview).elim
  | _ => cases hview

/-- The entry of the key goes no later than the record it derives from. -/
def Bounded (key : String) (origin : Option ℕ) (w : World) : Prop :=
  ∀ e expiresAt, w.redis (redisKey key) = some e → origin = some expiresAt →
    ∃ t, e.expiresAt = some t ∧ t ≤ expiresAt

theorem Bounded.fresh {origin : Option ℕ} {w : World} (h : Bounded key origin w) {expiresAt : ℕ}
    (horigin : origin = some expiresAt) (hfound : (w.redisGet (redisKey key)).isSome) :
    w.clock < expiresAt := by
  simp only [World.redisGet] at hfound
  cases hentry : w.redis (redisKey key) with
  | none =>
      rw [hentry] at hfound
      cases hfound
  | some e =>
      rw [hentry] at hfound
      dsimp only at hfound
      obtain ⟨t, ht, hle⟩ := h e expiresAt hentry horigin
      split at hfound
      · rename_i hlive
        simp only [RedisEntry.live, ht, decide_eq_true_eq] at hlive
        omega
      · cases hfound

section Step

variable {f : Fate} {op : Op} {k : ℕ → Except Err op.Res → Control} {r : Except Err op.Res}
  {w' : World} {a b : Config calls World ℕ Control} {L : Pool (ledger d) Outcome Control}
  {past : List (Pool.Stage (ledger d) Control)}

theorem redisWrite_eq_none (hpending : L.pending a i = some op)
    (hother : ¬(op.Writes (redisKey key) a.store ∧ f.takesEffect)) :
    redisWrite key L ⟨a, .settle i f, b⟩ = none := by
  simp only [redisWrite, hpending]
  cases op with
  | redisSet k value ttl => exact if_neg fun h ↦ hother h
  | redisSetNX k value ttl =>
      exact if_neg fun h ↦ hother ⟨⟨h.1, Option.isNone_iff_eq_none.mp h.2.2⟩, h.2.1⟩
  | _ => rfl

/-- A record is as old as its acquisition. -/
theorem Dated.expiresAt_of_acquired (hdated : dep.Dated key past a) (hkey : dep.key i = key)
    {row : IdempotencyRecord} (hrow : lastRecord i a.log = some row) {j clock : ℕ}
    (hid : row.id = dep.recordId j) (hclock : acquiredAt key j past = some clock) :
    row.expiresAt = clock + dep.cfg.ttlSeconds * 1000 := by
  obtain ⟨j', hid', clock', hclock', hexpires⟩ := hdated.seen i row hkey hrow
  obtain rfl := dep.recordId_injective (hid.symm.trans hid')
  obtain rfl := Option.some.inj (hclock.symm.trans hclock')
  exact hexpires

theorem Bounded.settle {origin : Option ℕ} (hinv : Bounded key origin a.store)
    (hdated : dep.Dated key past a) (hproc : a.procs i = some p)
    (hview : (dep.control (ledger d)).view i p = .await op k)
    (hsettle : a.store.settle d f op = some (r, w'))
    (hb : b = ⟨w', Function.update a.procs i (some (k w'.clock r)), ⟨i, op, r⟩ :: a.log⟩)
    (hlegal : dep.SetsAtOnce key (dep.control (ledger d)) past ⟨a, .settle i f, b⟩) :
    Bounded key ((redisWrite key (dep.control (ledger d)) ⟨a, .settle i f, b⟩).getD origin)
      w' := by
  have hpending := Pool.pending_of_view hproc hview
  by_cases hwrites : op.Writes (redisKey key) a.store ∧ f.takesEffect
  · obtain ⟨hwrites, hf⟩ := hwrites
    have hafter := World.settle_takesEffect hsettle hf
    cases op with
    | redisSet written value ttl =>
        obtain rfl : written = redisKey key := hwrites
        obtain ⟨hkey, rfl⟩ := view_redisSet hview
        intro e expiresAt he horigin
        simp only [redisWrite, hpending, hf, and_self, if_true, Option.getD_some] at horigin
        obtain ⟨row, hrow, rfl⟩ := Option.map_eq_some_iff.mp horigin
        obtain ⟨j, hid, hclock⟩ := hlegal i f value _ row rfl hf hpending hrow
        rw [hafter, World.answer_set_entry] at he
        obtain rfl := Option.some.inj he
        exact ⟨_, rfl, (hdated.expiresAt_of_acquired hkey hrow hid hclock).ge⟩
    | redisSetNX written value ttl =>
        obtain ⟨rfl, rfl⟩ := view_redisSetNX hview
        cases hview
        obtain ⟨hkey, hnone⟩ := hwrites
        obtain rfl := redisKey_injective hkey
        intro e expiresAt he horigin
        have hclock : w'.clock = a.store.clock := World.settle_clock hsettle
        rw [hafter, World.answer_setNX_entry hnone] at he
        obtain rfl := Option.some.inj he
        refine ⟨_, rfl, ?_⟩
        simp only [redisWrite, hpending, hf, hnone, Option.isNone_none, and_self, if_true,
          Option.getD_some] at horigin
        subst hb
        simp only [Pool.pending, Function.update_self, Option.bind_some] at horigin
        rcases r with e | _ | _
        · cases horigin
        · cases horigin
        · obtain rfl := Option.some.inj horigin
          rw [hclock]
    | _ => exact hwrites.elim
  · rw [redisWrite_eq_none hpending hwrites, Option.getD_none]
    intro e expiresAt he horigin
    by_cases hf : f.takesEffect
    · have hafter := World.settle_takesEffect hsettle hf
      rcases World.answer_entry a.store op (redisKey key) fun h ↦ hwrites ⟨h, hf⟩ with
        hsame | hnone
      · exact hinv e expiresAt (by rw [← hsame, ← hafter]; exact he) horigin
      · rw [hafter, hnone] at he
        cases he
    · obtain rfl := World.settle_lost hsettle hf
      exact hinv e expiresAt he horigin

theorem Bounded.step {origin : Option ℕ} {m : (ledger d).Moves} (hinv : Bounded key origin a.store)
    (hdated : dep.Dated key past a) (hstep : (dep.control (ledger d)).Step a m b)
    (hlegal : dep.SetsAtOnce key (dep.control (ledger d)) past ⟨a, m, b⟩) :
    Bounded key ((redisWrite key (dep.control (ledger d)) ⟨a, m, b⟩).getD origin) b.store := by
  cases hstep with
  | settle hproc hview hsettle => exact hinv.settle hdated hproc hview hsettle rfl hlegal
  | crash hproc hview => exact hinv
  | @drift dr w' hdrift =>
      obtain rfl := Option.some.inj hdrift
      intro e expiresAt he horigin
      cases dr with
      | tick ms => exact hinv e expiresAt he horigin
      | loseRedisKey lost =>
          change Function.update a.store.redis lost none (redisKey key) = some e at he
          by_cases hkey : redisKey key = lost
          · rw [hkey, Function.update_self] at he
            cases he
          · rw [Function.update_of_ne hkey] at he
            exact hinv e expiresAt he horigin

end Step

end Deployment

/-! ## Answers -/

/-- The control points of a request whose answer rests on a record. -/
def Control.Rests : Control → Prop
  | .repopulate _ _ => True
  | .checked result => result.Definite
  | _ => False

theorem Control.live_of_inspected {post : Post} {now : ℕ} {found : Option IdempotencyRecord}
    (h : (Control.inspected post now found).Rests) :
    ∃ row, found = some row ∧ now < row.expiresAt := by
  cases found with
  | none => exact h.elim
  | some row =>
      refine ⟨row, rfl, ?_⟩
      by_contra hexpired
      simp only [Control.inspected, if_pos (not_lt.mp hexpired)] at h
      exact h.elim

theorem Transition.rests {dep : Deployment} {i : ℕ} {w w' : World} {p q : Control}
    (h : Transition dep i w w' p q) (hq : q.Rests) :
    p = .findUnique ∨ (p = .get ∧ (w.redisGet (redisKey (dep.key i))).isSome) ∨
      ∃ row statusCode, p = .repopulate row statusCode := by
  cases h with
  | parsed hfound => exact .inr (.inl ⟨rfl, hfound ▸ rfl⟩)
  | foundMismatch | foundResponse => exact .inl rfl
  | repopulated => exact .inr (.inr ⟨_, _, rfl⟩)
  | _ => exact hq.elim

namespace Deployment

variable {dep : Deployment} {key : String} {d : Delivery} {i : ℕ} {p : Control}

structure Expiry (dep : Deployment) (key : String)
    (past : List (Pool.Stage (ledger d) Control)) (c : Config calls World ℕ Control) : Prop where
  bounded : Bounded key (derivedFrom key (dep.control (ledger d)) past) c.store
  rests : ∀ i p expiresAt, dep.key i = key → c.procs i = some p → p.Rests →
    answeredFrom key (dep.control (ledger d)) i past = some expiresAt →
      ∃ s ∈ past, settledBy i s ∧ s.after.store.clock < expiresAt

theorem Expiry.settle_rests {past : List (Pool.Stage (ledger d) Control)} {f : Fate} {op : Op}
    {k : ℕ → Except Err op.Res → Control} {r : Except Err op.Res} {w' : World}
    {a b : Config calls World ℕ Control} {expiresAt : ℕ}
    (hinv : dep.Expiry key past a) (hkey : dep.key i = key) (hproc : a.procs i = some p)
    (hview : (dep.control (ledger d)).view i p = .await op k)
    (hsettle : a.store.settle d f op = some (r, w'))
    (hb : b = ⟨w', Function.update a.procs i (some (k w'.clock r)), ⟨i, op, r⟩ :: a.log⟩)
    (hrests : (k w'.clock r).Rests)
    (hfrom : answeredFrom key (dep.control (ledger d)) i (⟨a, .settle i f, b⟩ :: past) =
      some expiresAt) :
    ∃ s ∈ (⟨a, .settle i f, b⟩ : Pool.Stage (ledger d) Control) :: past,
      settledBy i s ∧ s.after.store.clock < expiresAt := by
  have hpending := Pool.pending_of_view hproc hview
  have hclock : w'.clock = a.store.clock := World.settle_clock hsettle
  have hself : settledBy i (⟨a, .settle i f, b⟩ : Pool.Stage (ledger d) Control) :=
    decide_eq_true rfl
  simp only [answeredFrom, hself, if_true, hpending] at hfrom
  rcases (transition hview hsettle).rests hrests with rfl | ⟨rfl, hfound⟩ | ⟨row, code, rfl⟩
  · cases hview
    rcases r with e | found
    · exact hrests.elim
    · obtain ⟨row, rfl, hlive⟩ := Control.live_of_inspected hrests
      refine ⟨_, List.mem_cons_self, hself, ?_⟩
      subst hb
      simp only [lastRecord, List.findSome?_cons, recordSeen, if_true, Option.map_some] at hfrom
      obtain rfl := Option.some.inj hfrom
      exact hlive
  · cases hview
    refine ⟨_, List.mem_cons_self, hself, ?_⟩
    subst hb
    have hfresh := hinv.bounded.fresh hfrom (hkey ▸ hfound)
    change w'.clock < expiresAt
    omega
  · cases hview
    obtain ⟨s, hs, hsettled, hlive⟩ := hinv.rests i _ expiresAt hkey hproc trivial hfrom
    exact ⟨s, List.mem_cons_of_mem _ hs, hsettled, hlive⟩

theorem answeredFrom_other {past : List (Pool.Stage (ledger d) Control)}
    {s : Pool.Stage (ledger d) Control} (hother : ¬settledBy i s) :
    answeredFrom key (dep.control (ledger d)) i (s :: past) =
      answeredFrom key (dep.control (ledger d)) i past :=
  if_neg hother

/-- A stage of another process leaves what is known of an answer. -/
theorem Expiry.rests_other {past : List (Pool.Stage (ledger d) Control)}
    {a : Config calls World ℕ Control} {s : Pool.Stage (ledger d) Control} {expiresAt : ℕ}
    (hinv : dep.Expiry key past a) (hother : ¬settledBy i s) (hkey : dep.key i = key)
    (hproc : a.procs i = some p) (hrests : p.Rests)
    (hfrom : answeredFrom key (dep.control (ledger d)) i (s :: past) = some expiresAt) :
    ∃ s' ∈ s :: past, settledBy i s' ∧ s'.after.store.clock < expiresAt := by
  rw [answeredFrom_other hother] at hfrom
  obtain ⟨s', hs', hsettled, hlive⟩ := hinv.rests i p expiresAt hkey hproc hrests hfrom
  exact ⟨s', List.mem_cons_of_mem _ hs', hsettled, hlive⟩

theorem Expiry.step {past : List (Pool.Stage (ledger d) Control)}
    {a b : Config calls World ℕ Control} {m : (ledger d).Moves} (hinv : dep.Expiry key past a)
    (hdated : dep.Dated key past a) (hstep : (dep.control (ledger d)).Step a m b)
    (hlegal : dep.SetsAtOnce key (dep.control (ledger d)) past ⟨a, m, b⟩) :
    dep.Expiry key (⟨a, m, b⟩ :: past) b := by
  refine ⟨hinv.bounded.step hdated hstep hlegal, ?_⟩
  intro j q expiresAt hkey hj hrests hfrom
  cases hstep with
  | @settle i f p op k r w' hproc hview hsettle =>
      rcases Pool.of_update_some hj with ⟨rfl, rfl⟩ | ⟨hne, hj⟩
      · exact hinv.settle_rests hkey hproc hview hsettle rfl hrests hfrom
      · refine hinv.rests_other ?_ hkey hj hrests hfrom
        simpa [settledBy] using Ne.symm hne
  | crash hproc hview =>
      refine hinv.rests_other ?_ hkey (Pool.of_update_none hj).2 hrests hfrom
      simp [settledBy]
  | drift hdrift =>
      refine hinv.rests_other ?_ hkey hj hrests hfrom
      simp [settledBy]

theorem expiry_start (clock : ℕ) : dep.Expiry (d := d) key [] (dep.controlStart clock) where
  bounded := by
    rintro e expiresAt ⟨⟩
  rests := by
    rintro i p expiresAt - - - ⟨⟩

theorem Expiry.honoured {past : List (Pool.Stage (ledger d) Control)}
    {c : Config calls World ℕ Control} (hinv : dep.Expiry key past c) :
    dep.ExpiryHonoured key (dep.control (ledger d)) past c where
  entry _ := hinv.bounded.fresh
  answer i t result expiresAt hcarries hstarts hpending hdefinite hfrom := by
    have hproc := procs_of_pending_checked hpending
    obtain ⟨s, hs, hsettled, hlive⟩ :=
      hinv.rests i _ expiresAt hcarries.key_eq hproc hdefinite hfrom
    exact (hstarts s hs hsettled).trans_lt hlive

/-! ## The programs -/

section Map

variable {past : List (Pool.Stage (ledger d) Control)}

theorem derivedFrom_map :
    derivedFrom key ((ledger d).programs Outcome) (past.map (Pool.Stage.map dep.code)) =
      derivedFrom key (dep.control (ledger d)) past := by
  have hwrite : ∀ s : Pool.Stage (ledger d) Control,
      redisWrite key ((ledger d).programs Outcome) (s.map dep.code) =
        redisWrite key (dep.control (ledger d)) s := by
    intro s
    simp only [redisWrite, Pool.Stage.map, (dep.control_implements (ledger d)).pending_map]
    rfl
  induction past with
  | nil => rfl
  | cons s past ih => simp only [List.map_cons, derivedFrom, hwrite, ih]

theorem answeredFrom_map :
    answeredFrom key ((ledger d).programs Outcome) i (past.map (Pool.Stage.map dep.code)) =
      answeredFrom key (dep.control (ledger d)) i past := by
  induction past with
  | nil => rfl
  | cons s past ih =>
      simp only [List.map_cons, answeredFrom, ih, derivedFrom_map, Pool.Stage.map,
        (dep.control_implements (ledger d)).pending_map]
      rfl

theorem acquiredAt_map :
    acquiredAt key i (past.map (Pool.Stage.map dep.code)) = acquiredAt key i past := by
  simp only [acquiredAt, List.find?_map, Option.map_map]
  rfl

theorem setsAtOnce_map {s : Pool.Stage (ledger d) Control} :
    dep.SetsAtOnce key ((ledger d).programs Outcome) (past.map (Pool.Stage.map dep.code))
      (s.map dep.code) ↔ dep.SetsAtOnce key (dep.control (ledger d)) past s := by
  simp only [SetsAtOnce, Pool.Stage.map, (dep.control_implements (ledger d)).pending_map,
    acquiredAt_map]
  rfl

theorem expiryHonoured_map {c : Config calls World ℕ Control} :
    dep.ExpiryHonoured key ((ledger d).programs Outcome) (past.map (Pool.Stage.map dep.code))
      (c.map dep.code) ↔ dep.ExpiryHonoured key (dep.control (ledger d)) past c := by
  have hsettled : ∀ i t, (∀ s ∈ past.map (Pool.Stage.map dep.code),
      settledBy i s → t ≤ s.after.store.clock) ↔
        ∀ s ∈ past, settledBy i s → t ≤ s.after.store.clock := fun i t ↦ List.forall_mem_map
  constructor
  · intro h
    refine ⟨by rw [← derivedFrom_map]; exact h.entry, ?_⟩
    simpa only [(dep.control_implements (ledger d)).pending_map, answeredFrom_map, hsettled]
      using h.answer
  · intro h
    refine ⟨by rw [derivedFrom_map]; exact h.entry, ?_⟩
    simpa only [(dep.control_implements (ledger d)).pending_map, answeredFrom_map, hsettled]
      using h.answer

end Map

/-- In every run whose SETs follow the acquisition at once, both stores honour the
expiry of every record. -/
theorem expiryHonoured_of_setsAtOnce (dep : Deployment) (d : Delivery) (key : String)
    (clock : ℕ) {past : List (Pool.Stage (ledger d) (Promise Outcome))}
    {c : Config calls World ℕ (Promise Outcome)}
    (h : ((ledger d).programs Outcome).Trace
      (dep.SetsAtOnce key ((ledger d).programs Outcome)) (dep.start clock) past c) :
    dep.ExpiryHonoured key ((ledger d).programs Outcome) past c := by
  rw [← dep.map_controlStart] at h
  obtain ⟨past', c', rfl, rfl, hc⟩ := (dep.control_implements (ledger d)).lift_trace h
  have hinv : dep.Expiry key past' c' :=
    hc.invariant (fun past c ↦ dep.Expiry key past c) (expiry_start clock)
      fun hpast hstep hlegal hinv ↦
        hinv.step (dated_of_trace hpast) hstep (setsAtOnce_map.mp hlegal)
  exact expiryHonoured_map.mpr hinv.honoured

/-- A SET that comes later breaks the promise: there is an instant at which the record has
expired and the entry is still there. -/
theorem not_honoured_of_lateSet {clock : ℕ} {past : List (Pool.Stage (ledger d) Control)}
    {a b : Config calls World ℕ Control} {m : (ledger d).Moves}
    (h : (dep.control (ledger d)).Trace Pool.anyStage (dep.controlStart clock) past a)
    (hstep : (dep.control (ledger d)).Step a m b)
    (hlate : ¬dep.SetsAtOnce key (dep.control (ledger d)) past ⟨a, m, b⟩) :
    ∃ ms, ¬dep.ExpiryHonoured key (dep.control (ledger d))
      (⟨b, .drift (.tick ms), { b with store := b.store.drift (.tick ms) }⟩ :: ⟨a, m, b⟩ :: past)
      { b with store := b.store.drift (.tick ms) } := by
  unfold SetsAtOnce at hlate
  push Not at hlate
  obtain ⟨i, f, value, ttl, row, hmove, hf, hset, hrow, hlate⟩ := hlate
  obtain rfl : m = .settle i f := hmove
  cases hstep with
  | @settle _ _ p op k r w' hproc hview hsettle =>
      have hpending := Pool.pending_of_view hproc hview
      obtain rfl := Option.some.inj (hpending.symm.trans hset)
      obtain ⟨hkey, rfl⟩ := view_redisSet hview
      obtain ⟨j, hid, acquired, hacquired, hexpires⟩ :=
        (dated_of_trace h).seen i row hkey hrow
      have hbefore : acquired < a.store.clock := by
        refine lt_of_le_of_ne (clock_le_of_acquiredAt h hacquired) ?_
        rintro rfl
        exact hlate j hid hacquired
      have hpos := dep.cfg.ttlSeconds_pos
      refine ⟨row.expiresAt - a.store.clock, fun hhonoured ↦ ?_⟩
      have hclock : w'.clock = a.store.clock := World.settle_clock hsettle
      have hexpired : ¬w'.clock + (row.expiresAt - a.store.clock) < row.expiresAt := by omega
      refine hexpired (hhonoured.entry row.expiresAt ?_ ?_)
      · simp only [derivedFrom, redisWrite, hset, hf, hrow, and_self, if_true, Option.map_some,
          Option.getD_some, Option.getD_none]
      · have hentry : w'.redis (redisKey key) =
            some ⟨value, some (a.store.clock + dep.cfg.ttlSeconds * 1000)⟩ := by
          rw [World.settle_takesEffect hsettle hf, World.answer_set_entry]
          rfl
        have hlive : w'.clock + (row.expiresAt - a.store.clock) <
            a.store.clock + dep.cfg.ttlSeconds * 1000 := by omega
        simp only [World.drift, World.redisGet, hentry, RedisEntry.live, hlive, decide_true,
          if_true, Option.isSome_some]

/-- So the condition is exact: after any SET that does not follow the acquisition at once, it
is enough that time goes on. -/
theorem expiryIgnored_of_lateSet (dep : Deployment) (d : Delivery) (key : String) (clock : ℕ)
    {past : List (Pool.Stage (ledger d) (Promise Outcome))}
    {s : Pool.Stage (ledger d) (Promise Outcome)} {c : Config calls World ℕ (Promise Outcome)}
    (h : ((ledger d).programs Outcome).Trace Pool.anyStage (dep.start clock) (s :: past) c)
    (hlate : ¬dep.SetsAtOnce key ((ledger d).programs Outcome) past s) :
    ∃ past' b, ((ledger d).programs Outcome).Trace Pool.anyStage (dep.start clock)
        (past' ++ s :: past) b ∧
      ¬dep.ExpiryHonoured key ((ledger d).programs Outcome) (past' ++ s :: past) b := by
  have h' := h
  rw [← dep.map_controlStart] at h'
  obtain ⟨stages, c', hstages, rfl, hc⟩ := (dep.control_implements (ledger d)).lift_trace h'
  cases hc with
  | start => cases hstages
  | @step past' a _ m hpast hmove hlegal =>
      obtain ⟨rfl, rfl⟩ := List.cons.inj hstages
      rw [setsAtOnce_map] at hlate
      obtain ⟨ms, hignored⟩ := not_honoured_of_lateSet hpast (Pool.step_cases hmove) hlate
      rw [← expiryHonoured_map] at hignored
      exact ⟨[_], _, .step h rfl trivial, hignored⟩

/-! ## Two runs -/

/-- The check of a schedule in which a process that has seen a record, the first request's,
moves only at the instant of its acquisition. -/
def movesAtOnce (dep : Deployment) (key : String) {P : Type}
    (past : List (Pool.Stage (ledger .exclusive) P)) (s : Pool.Stage (ledger .exclusive) P) :
    Bool :=
  match s.move with
  | .settle i _ =>
      (lastRecord i s.before.log).all fun row ↦
        row.id = dep.recordId 0 ∧ acquiredAt key 0 past = some s.before.store.clock
  | _ => true

theorem setsAtOnce_of_movesAtOnce {P : Type} {L : Pool (ledger .exclusive) Outcome P}
    {past : List (Pool.Stage (ledger .exclusive) P)} {s : Pool.Stage (ledger .exclusive) P}
    (h : dep.movesAtOnce key past s) : dep.SetsAtOnce key L past s := by
  intro i f value ttl row hmove _ _ hrow
  simp only [movesAtOnce, hmove, hrow, Option.all_some, decide_eq_true_eq] at h
  exact ⟨0, h⟩

/-- The first request completes within a millisecond; the second comes an hour later, a
moment before the record expires, and reads its entry. -/
def replayBeforeExpiry : List (ledger .exclusive).Moves :=
  [.settle 0 .run, .settle 0 .run, .settle 0 .run, .settle 0 .run, .settle 0 .run,
    .settle 0 .run, .drift (.tick 3599999), .settle 1 .run, .settle 1 .run]

theorem expiryHonoured_replayBeforeExpiry :
    (drill fun _ ↦ posting "k" "h").ExpiryHonoured "k" ((ledger .exclusive).programs Outcome)
      (((ledger .exclusive).programs Outcome).trailed
        ((drill fun _ ↦ posting "k" "h").movesAtOnce "k") []
        ((drill fun _ ↦ posting "k" "h").start 0) replayBeforeExpiry).1
      (((ledger .exclusive).programs Outcome).trailed
        ((drill fun _ ↦ posting "k" "h").movesAtOnce "k") []
        ((drill fun _ ↦ posting "k" "h").start 0) replayBeforeExpiry).2 :=
  expiryHonoured_of_setsAtOnce (drill fun _ ↦ posting "k" "h") .exclusive "k" 0
    (Pool.trace_trailed (fun _ _ h ↦ setsAtOnce_of_movesAtOnce h) .start rfl)

/-- The handler of the first request takes ten milliseconds; the second request comes
two milliseconds after the record has expired. -/
def replayAfterExpiry : List (ledger .exclusive).Moves :=
  [.settle 0 .run, .settle 0 .run, .settle 0 .run, .drift (.tick 10), .settle 0 .run,
    .settle 0 .run, .settle 0 .run, .drift (.tick 3599992), .settle 1 .run, .settle 1 .run]

theorem expiryIgnored_replayAfterExpiry :
    ¬∀ past c, ((ledger .exclusive).programs Outcome).Trace Pool.anyStage
      ((drill fun _ ↦ posting "k" "h").start 0) past c →
        (drill fun _ ↦ posting "k" "h").ExpiryHonoured "k"
          ((ledger .exclusive).programs Outcome) past c := by
  intro h
  have htrace : ((ledger .exclusive).programs Outcome).Trace Pool.anyStage
      ((drill fun _ ↦ posting "k" "h").start 0)
      (((ledger .exclusive).programs Outcome).trailed (fun _ _ ↦ true) []
        ((drill fun _ ↦ posting "k" "h").start 0) replayAfterExpiry).1
      (((ledger .exclusive).programs Outcome).trailed (fun _ _ ↦ true) []
        ((drill fun _ ↦ posting "k" "h").start 0) replayAfterExpiry).2 :=
    Pool.trace_trailed (fun _ _ _ ↦ trivial) .start rfl
  have hlate : 3600002 < 3600000 :=
    (h _ _ htrace).answer 1 3600002 (.cached 201 (some (.str "ok"))) 3600000 rfl (by decide)
      rfl trivial rfl
  omega

end Deployment

end TransactionLedger
