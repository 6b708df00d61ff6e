import Mathlib.Logic.Function.Basic
import Mathlib.Logic.Relation
import TransactionLedger.Stores.Rows

/-!
# The ledger, abstractly

A book has at most one entry under an identifier and at most one notice about it.  What
an entry says is fixed when it is submitted, and only its status changes from then on; a
notice says what the entry it is about announces, and is never taken back.
-/

namespace TransactionLedger

structure Book (κ δ ν : Type) where
  entry : κ → Option (δ × TransactionStatus)
  notice : κ → Option (ν × NotificationStatus)

namespace Book

variable {κ δ ν : Type}

def empty : Book κ δ ν where
  entry _ := none
  notice _ := none

variable [DecidableEq κ]

def enter (b : Book κ δ ν) (id : κ) (data : δ) (status : TransactionStatus) : Book κ δ ν where
  entry := Function.update b.entry id (some (data, status))
  notice := b.notice

def post (b : Book κ δ ν) (id : κ) (note : ν) (status : NotificationStatus) : Book κ δ ν where
  entry := b.entry
  notice := Function.update b.notice id (some (note, status))

@[simp] theorem entry_enter (b : Book κ δ ν) (id k : κ) (data : δ) (status : TransactionStatus) :
    (b.enter id data status).entry k = if k = id then some (data, status) else b.entry k :=
  Function.update_apply ..

@[simp] theorem notice_enter (b : Book κ δ ν) (id : κ) (data : δ) (status : TransactionStatus) :
    (b.enter id data status).notice = b.notice := rfl

@[simp] theorem entry_post (b : Book κ δ ν) (id : κ) (note : ν) (status : NotificationStatus) :
    (b.post id note status).entry = b.entry := rfl

@[simp] theorem notice_post (b : Book κ δ ν) (id k : κ) (note : ν)
    (status : NotificationStatus) :
    (b.post id note status).notice k = if k = id then some (note, status) else b.notice k :=
  Function.update_apply ..

theorem post_self {b : Book κ δ ν} {id : κ} {note : ν} {status : NotificationStatus}
    (h : b.notice id = some (note, status)) : b.post id note status = b := by
  simp only [post, ← h, Function.update_eq_self]

end Book

/-- What may be submitted under an identifier, and what the notice about an entry says. -/
structure BookRules (κ δ ν : Type) where
  Submits : κ → δ → Prop
  announcement : κ → δ → Option ν

namespace BookRules

variable {κ δ ν : Type} [DecidableEq κ] {R : BookRules κ δ ν}

/-- What may happen to a book.  `revoke` is the compensation of a submission that could not
be queued, `overrule` a dead letter that comes after a delivery. -/
inductive Step (R : BookRules κ δ ν) (b : Book κ δ ν) : Book κ δ ν → Prop where
  | submit {id : κ} {data : δ} (hfree : b.entry id = none) (hdata : R.Submits id data) :
      Step R b (b.enter id data .queued)
  | start {id : κ} {data : δ} {status : TransactionStatus} (h : b.entry id = some (data, status))
      (hstatus : status = .queued ∨ status = .failed) : Step R b (b.enter id data .processing)
  | complete {id : κ} {data : δ} {status : TransactionStatus}
      (h : b.entry id = some (data, status)) (hstatus : status ≠ .queued) :
      Step R b (b.enter id data .completed)
  | fail {id : κ} {data : δ} {status : TransactionStatus} (h : b.entry id = some (data, status))
      (hstatus : status ≠ .completed) : Step R b (b.enter id data .failed)
  | revoke {id : κ} {data : δ} (h : b.entry id = some (data, .completed)) :
      Step R b (b.enter id data .failed)
  | deliver {id : κ} {data : δ} {status : TransactionStatus} {note : ν}
      (h : b.entry id = some (data, status)) (hnote : R.announcement id data = some note)
      (hfree : b.notice id = none) : Step R b (b.post id note .delivered)
  | bury {id : κ} {data : δ} {status : TransactionStatus} {note : ν}
      (h : b.entry id = some (data, status)) (hnote : R.announcement id data = some note)
      (hfree : b.notice id = none) : Step R b (b.post id note .deadLetter)
  | overrule {id : κ} {note : ν} (h : b.notice id = some (note, .delivered)) :
      Step R b (b.post id note .deadLetter)

def Run (R : BookRules κ δ ν) : Book κ δ ν → Book κ δ ν → Prop :=
  Relation.ReflTransGen R.Step

/-- The statuses an entry can have after one step. -/
def Follows (before after : TransactionStatus) : Prop :=
  match after with
  | .queued => before = .queued
  | .processing => before ≠ .completed
  | .completed => before ≠ .queued
  | .failed => True

theorem Follows.refl (status : TransactionStatus) : Follows status status := by
  cases status <;> simp [Follows]

section

variable {b b' : Book κ δ ν} {id : κ} {data : δ} {note : ν} {status : TransactionStatus}
  {verdict : NotificationStatus}

/-- A step that gives the entry `k` a new status leaves what it says, and every other entry. -/
theorem entry_of_enter {k : κ} {new : δ} {after : TransactionStatus}
    (h : b.entry id = some (data, status))
    (hkeep : ∀ data status, b.entry k = some (data, status) → new = data ∧ Follows status after) :
    ∃ status', (b.enter k new after).entry id = some (data, status') ∧
      Follows status status' := by
  by_cases hid : id = k
  · subst hid
    obtain ⟨rfl, hfollows⟩ := hkeep data status h
    exact ⟨after, by simp, hfollows⟩
  · exact ⟨status, by simp [hid, h], .refl status⟩

/-- No step removes an entry or changes what it says. -/
theorem Step.keeps_entry (hstep : R.Step b b') (h : b.entry id = some (data, status)) :
    ∃ status', b'.entry id = some (data, status') ∧ Follows status status' := by
  cases hstep with
  | submit hfree hdata =>
      refine entry_of_enter h fun old was hold ↦ ?_
      rw [hfree] at hold
      cases hold
  | start hk hstatus =>
      refine entry_of_enter h fun old was hold ↦ ?_
      cases hold.symm.trans hk
      refine ⟨rfl, ?_⟩
      rcases hstatus with rfl | rfl <;> simp [Follows]
  | complete hk hstatus =>
      refine entry_of_enter h fun old was hold ↦ ?_
      cases hold.symm.trans hk
      exact ⟨rfl, hstatus⟩
  | fail hk hstatus =>
      refine entry_of_enter h fun old was hold ↦ ?_
      cases hold.symm.trans hk
      exact ⟨rfl, trivial⟩
  | revoke hk =>
      refine entry_of_enter h fun old was hold ↦ ?_
      cases hold.symm.trans hk
      exact ⟨rfl, trivial⟩
  | deliver | bury | overrule => exact ⟨status, h, .refl status⟩

/-- No step removes a notice or changes what it says, and a dead letter is final. -/
theorem Step.keeps_notice (hstep : R.Step b b') (h : b.notice id = some (note, verdict)) :
    ∃ verdict', b'.notice id = some (note, verdict') ∧
      (verdict = .deadLetter → verdict' = .deadLetter) := by
  cases hstep with
  | submit | start | complete | fail | revoke => exact ⟨verdict, h, fun hdead ↦ hdead⟩
  | @deliver k _ _ _ _ _ hfree | @bury k _ _ _ _ _ hfree =>
      have hid : id ≠ k := by
        rintro rfl
        rw [hfree] at h
        cases h
      exact ⟨verdict, by simp [hid, h], fun hdead ↦ hdead⟩
  | @overrule k other hk =>
      by_cases hid : id = k
      · subst hid
        cases hk.symm.trans h
        exact ⟨.deadLetter, by simp, fun _ ↦ rfl⟩
      · exact ⟨verdict, by simp [hid, h], fun hdead ↦ hdead⟩

theorem Run.keeps_entry (hrun : R.Run b b') (h : b.entry id = some (data, status)) :
    ∃ status', b'.entry id = some (data, status') := by
  induction hrun with
  | refl => exact ⟨status, h⟩
  | tail _ hstep ih =>
      obtain ⟨status', h'⟩ := ih
      obtain ⟨status'', h'', -⟩ := hstep.keeps_entry h'
      exact ⟨status'', h''⟩

/-- No entry becomes queued again. -/
theorem Run.queued (hrun : R.Run b b') (h : b.entry id = some (data, status))
    (h' : b'.entry id = some (data, .queued)) : status = .queued := by
  induction hrun with
  | refl =>
      cases h.symm.trans h'
      rfl
  | @tail b₁ b₂ hrun hstep ih =>
      obtain ⟨status₁, h₁⟩ := Run.keeps_entry hrun h
      obtain ⟨status₂, h₂, hfollows⟩ := hstep.keeps_entry h₁
      cases h₂.symm.trans h'
      exact ih (hfollows ▸ h₁)

theorem Run.keeps_notice (hrun : R.Run b b') (h : b.notice id = some (note, verdict)) :
    ∃ verdict', b'.notice id = some (note, verdict') ∧
      (verdict = .deadLetter → verdict' = .deadLetter) := by
  induction hrun with
  | refl => exact ⟨verdict, h, fun hdead ↦ hdead⟩
  | tail _ hstep ih =>
      obtain ⟨verdict', h', hdead⟩ := ih
      obtain ⟨verdict'', h'', hdead'⟩ := hstep.keeps_notice h'
      exact ⟨verdict'', h'', fun hv ↦ hdead' (hdead hv)⟩

end

/-! ## Sound books -/

/-- Every entry has been submitted, and every notice says what its entry announces. -/
structure Sound (R : BookRules κ δ ν) (b : Book κ δ ν) : Prop where
  submitted : ∀ {id data status}, b.entry id = some (data, status) → R.Submits id data
  announced : ∀ {id note verdict}, b.notice id = some (note, verdict) →
    ∃ data status, b.entry id = some (data, status) ∧ R.announcement id data = some note ∧
      (verdict = .delivered ∨ verdict = .deadLetter)

omit [DecidableEq κ] in
theorem sound_empty : R.Sound Book.empty where
  submitted h := by cases h
  announced h := by cases h

theorem Sound.enter {b : Book κ δ ν} (hsound : R.Sound b) {k : κ} {new : δ}
    {after : TransactionStatus} (hnew : R.Submits k new)
    (hkeep : ∀ data status, b.entry k = some (data, status) → new = data) :
    R.Sound (b.enter k new after) where
  submitted {id data status} h := by
    rw [Book.entry_enter] at h
    split at h
    · next hid =>
        cases h
        exact hid ▸ hnew
    · exact hsound.submitted h
  announced {id note verdict} h := by
    obtain ⟨data, status, hentry, hnote, hverdict⟩ := hsound.announced h
    rw [Book.entry_enter]
    split
    · next hid =>
        subst hid
        obtain rfl := hkeep data status hentry
        exact ⟨_, _, rfl, hnote, hverdict⟩
    · exact ⟨_, _, hentry, hnote, hverdict⟩

theorem Sound.post {b : Book κ δ ν} (hsound : R.Sound b) {k : κ} {new : ν}
    {after : NotificationStatus} {data : δ} {status : TransactionStatus}
    (hentry : b.entry k = some (data, status)) (hnew : R.announcement k data = some new)
    (hafter : after = .delivered ∨ after = .deadLetter) : R.Sound (b.post k new after) where
  submitted h := hsound.submitted h
  announced {id note verdict} h := by
    rw [Book.notice_post] at h
    split at h
    · next hid =>
        cases h
        exact ⟨data, status, hid ▸ hentry, hid ▸ hnew, hafter⟩
    · exact hsound.announced h

theorem Step.sound {b b' : Book κ δ ν} (hstep : R.Step b b') (hsound : R.Sound b) :
    R.Sound b' := by
  cases hstep with
  | submit hfree hdata =>
      refine hsound.enter hdata fun data status h ↦ ?_
      rw [hfree] at h
      cases h
  | start h hstatus | complete h hstatus | fail h hstatus | revoke h =>
      refine hsound.enter (hsound.submitted h) fun data status hold ↦ ?_
      cases h.symm.trans hold
      rfl
  | deliver h hnote hfree => exact hsound.post h hnote (.inl rfl)
  | bury h hnote hfree => exact hsound.post h hnote (.inr rfl)
  | overrule h =>
      obtain ⟨data, status, hentry, hnote, -⟩ := hsound.announced h
      exact hsound.post hentry hnote (.inr rfl)

theorem Run.sound {b b' : Book κ δ ν} (hrun : R.Run b b') (hsound : R.Sound b) :
    R.Sound b' := by
  induction hrun with
  | refl => exact hsound
  | tail _ hstep ih => exact hstep.sound ih

end BookRules

end TransactionLedger
