import TransactionLedger.Async.Rely
import TransactionLedger.Idempotency.Replay

/-!
# What the clients of one key are told

A client is told what `checkAndAcquire` found or what its own handler answered.  While no
record of the key expires, all of that goes back to the one handler that succeeded.
-/

namespace TransactionLedger

open Async Discipline IdempotencyInterceptor

/-- The reply is the one `checkAndAcquire` had found, or comes from the handler. -/
def Replied (i : ℕ) (out : Except Err Reply) (x : Shared calls World ℕ) : Prop :=
  ∀ reply, out = .ok reply →
    checkedEvent i (.cached reply.statusCode reply.body) ∈ x.log ∨
      ∃ sent : Response, sent.reply = reply ∧ handledEvent i (.ok sent) ∈ x.log

theorem replied_error {i : ℕ} {e : Err} {x : Shared calls World ℕ} : Replied i (.error e) x := by
  intro reply h
  cases h

section

variable {M : Machine calls World ℕ} {i : ℕ} {x : Shared calls World ℕ}
  {cfg : IdempotencyConfig} {request : Request} {handler : Promise Response}

theorem observed {o : Observation} :
    (free M).Safe i (fun out y ↦ ∀ a, out = .ok a →
      (⟨i, .observe o, .ok ()⟩ : Event calls ℕ) ∈ y.log) (observe o) x := by
  refine safe_call fun y _ _ ↦ ⟨trivial, fun f r s _ z hyz _ ↦ ?_⟩
  rintro a rfl
  exact hyz.leads.mem_log List.mem_cons_self

theorem replied_handlerSucceeded {sent : Response} :
    (free M).Safe i (Replied i) (handlerSucceeded cfg request sent) x := by
  refine Safe.bind trivial observed (fun a y _ _ hsent ↦ ?_) fun _ _ _ _ _ ↦ replied_error
  refine Safe.bind trivial safe_free (fun _ z hyz _ _ ↦ ?_) fun _ _ _ _ _ ↦ replied_error
  refine safe_pure fun z' hz _ reply h ↦ .inr ⟨sent, Except.ok.inj h, ?_⟩
  exact (hyz.trans hz.leads).mem_log (hsent a rfl)

theorem replied_handlerFailed {e : Err} :
    (free M).Safe i (Replied i) (handlerFailed request e) x := by
  refine Safe.bind trivial safe_free (fun _ y _ _ _ ↦ ?_) fun _ _ _ _ _ ↦ replied_error
  refine Safe.bind trivial safe_free (fun _ z _ _ _ ↦ ?_) fun _ _ _ _ _ ↦ replied_error
  exact safe_throw fun _ _ _ ↦ replied_error

theorem replied_handleMiss :
    (free M).Safe i (Replied i) (handleMiss cfg request handler) x := by
  refine Safe.catchError trivial (Q := Replied i) ?_ (fun _ _ _ _ h ↦ h)
    fun _ _ _ _ _ ↦ replied_handlerFailed
  exact Safe.bind trivial safe_free (fun _ _ _ _ _ ↦ replied_handlerSucceeded)
    fun _ _ _ _ _ ↦ replied_error

theorem replied_intercept {id : String} :
    (free M).Safe i (Replied i) (intercept cfg id request handler) x := by
  unfold intercept
  split
  · refine Safe.bind trivial safe_free (fun result y _ _ _ ↦ ?_) fun _ _ _ _ _ ↦ replied_error
    refine Safe.bind trivial observed (fun a z _ _ hchecked ↦ ?_) fun _ _ _ _ _ ↦ replied_error
    cases result with
    | hashMismatch | inProgress => exact safe_throw fun _ _ _ ↦ replied_error
    | cached statusCode response =>
        refine safe_pure fun z' hz _ reply h ↦ .inl ?_
        obtain rfl := Except.ok.inj h
        exact hz.leads.mem_log (hchecked a rfl)
    | miss => exact replied_handleMiss
  · exact safe_throw fun _ _ _ ↦ replied_error

end

namespace Deployment

variable {dep : Deployment} {d : Delivery} {key : String} {i j : ℕ} {x : Shared calls World ℕ}

/-- What an outcome says of the reply. -/
def Told (i : ℕ) (out : Except Err Outcome) (x : Shared calls World ℕ) : Prop :=
  ∀ reply, out = .ok (.replied reply) → Replied i (.ok reply) x

theorem told_main : (free (ledger d)).Safe i (Told i) (dep.main i) x := by
  unfold main
  cases dep.role i with
  | post p =>
      refine Safe.bind trivial replied_intercept (fun reply y _ _ hreplied ↦ ?_) ?_
      · refine safe_pure fun z hyz _ reply' h ↦ ?_
        obtain rfl := Outcome.replied.inj (Except.ok.inj h)
        intro reply' h
        rcases hreplied reply' h with hchecked | ⟨sent, hsent, hhandled⟩
        · exact .inl (hyz.leads.mem_log hchecked)
        · exact .inr ⟨sent, hsent, hyz.leads.mem_log hhandled⟩
      · intro e y _ _ _ reply h
        cases h
  | cron =>
      refine Safe.bind trivial safe_free (fun _ y _ _ _ ↦ ?_) fun e y _ _ _ reply h ↦ by cases h
      refine Safe.bind trivial safe_free (fun _ z _ _ _ ↦ ?_) fun e y _ _ _ reply h ↦ by cases h
      refine safe_pure fun _ _ _ reply h ↦ by cases h
  | background job =>
      refine Safe.bind trivial safe_free (fun _ y _ _ _ ↦ ?_) fun e y _ _ _ reply h ↦ by cases h
      refine safe_pure fun _ _ _ reply h ↦ by cases h

/-- The reply of a request is one that a handler for its key has sent, for the same body. -/
theorem produced_of_reply {clock : ℕ} {c : Config calls World ℕ (Promise Outcome)}
    (h : ((ledger d).programs Outcome).Reachable (fun _ _ b ↦ b.store.Unexpired key)
      (dep.start clock) c) (hi : dep.Carries key i) {reply : Reply}
    (hreply : ((ledger d).programs Outcome).result c i = some (.ok (.replied reply))) :
    dep.Produced key c.log (dep.hash i) reply.statusCode reply.body := by
  have hobeyed : (free (ledger d)).Obeyed Told (dep.start clock) := by
    refine ⟨trivial, fun j p hp ↦ ?_⟩
    obtain rfl := Option.some.inj hp
    exact told_main
  rcases (hobeyed.reachable h).2.result hreply reply rfl reply rfl with
    hchecked | ⟨sent, rfl, hhandled⟩
  · rw [← dep.map_controlStart] at h
    obtain ⟨b, rfl, hb⟩ := (dep.control_implements (ledger d)).lift h
    exact (replay_of_reachable hb).cached i _ _ hi.key_eq hchecked
  · exact ⟨i, sent, hi, hhandled, rfl, rfl, rfl⟩

/-- While no record of the key expires, all clients of the key that are told of a success
are told the same, and have sent the same body. -/
theorem replies_agree (dep : Deployment) (d : Delivery) (key : String) (clock : ℕ)
    {c : Config calls World ℕ (Promise Outcome)}
    (h : ((ledger d).programs Outcome).Reachable (fun _ _ b ↦ b.store.Unexpired key)
      (dep.start clock) c) (hi : dep.Carries key i) (hj : dep.Carries key j)
    {reply reply' : Reply}
    (hreply : ((ledger d).programs Outcome).result c i = some (.ok (.replied reply)))
    (hreply' : ((ledger d).programs Outcome).result c j = some (.ok (.replied reply'))) :
    reply = reply' ∧ dep.hash i = dep.hash j := by
  obtain ⟨k, sent, hk, hmem, hhash, hcode, hbody⟩ := produced_of_reply h hi hreply
  obtain ⟨k', sent', hk', hmem', hhash', hcode', hbody'⟩ := produced_of_reply h hj hreply'
  obtain ⟨rfl, rfl⟩ : k = k' ∧ sent = sent' := by
    rw [← dep.map_controlStart] at h
    obtain ⟨b, rfl, hb⟩ := (dep.control_implements (ledger d)).lift h
    exact (admission_of_reachable hb).only hk hk' hmem hmem'
  have hreplies : reply = reply' := by
    cases reply
    cases reply'
    exact congrArg₂ Reply.mk (hcode.symm.trans hcode') (hbody.symm.trans hbody')
  exact ⟨hreplies, hhash.symm.trans hhash'⟩

/-- A request and its retry, which reads the record after Redis has lost its entry. -/
theorem replies_agree_replayFromRecord :
    let L := (ledger .exclusive).programs Outcome
    let c := L.played (fun _ _ b ↦ b.store.Unexpired "k")
      ((drill fun _ ↦ posting "k" "h").start 0) (replayFromRecord ++ [.settle 1 .run])
    ∃ reply, L.result c 0 = some (.ok (.replied reply)) ∧
      L.result c 1 = some (.ok (.replied reply)) := by
  intro L c
  have hreach : L.Reachable (fun _ _ b ↦ b.store.Unexpired "k")
      ((drill fun _ ↦ posting "k" "h").start 0) c :=
    Pool.reachable_played (fun _ _ _ h ↦ of_decide_eq_true h) rfl
  have hfirst : L.result c 0 = some (.ok (.replied ⟨201, some (.str "ok")⟩)) := rfl
  obtain ⟨reply, hretry⟩ : ∃ reply, L.result c 1 = some (.ok (.replied reply)) := ⟨_, rfl⟩
  obtain ⟨rfl, -⟩ := replies_agree (drill fun _ ↦ posting "k" "h") .exclusive "k" 0 hreach
    rfl rfl hfirst hretry
  exact ⟨_, hfirst, hretry⟩

end Deployment

end TransactionLedger
