import TransactionLedger.Ledger.Book
import TransactionLedger.Notification.Steps
import TransactionLedger.Transaction.Recipient
import TransactionLedger.Transaction.Steps

/-!
# The book of the stores

The tables `transactions` and `notifications` as a book: what an entry says is the row
without its status, and what a call does to the book is one of a few steps.
-/

namespace TransactionLedger

open Async Data TransactionService TransactionProcessor

/-- What a row of `transactions` keeps. -/
structure Entry where
  type : TransactionType
  amount : ℚ
  currency : String
  fromAccount : Option String
  toAccount : Option String
  metadata : Option Json

def Transaction.entry (row : Transaction) : Entry where
  type := row.type
  amount := row.amount
  currency := row.currency
  fromAccount := row.fromAccount
  toAccount := row.toAccount
  metadata := row.metadata

/-- What a row of `notifications` keeps. -/
structure Notice where
  recipient : String
  payload : NotificationPayload

def Notification.content (row : Notification) : Notice where
  recipient := row.recipient
  payload := row.payload

/-- `createTransaction` makes the entry of the body. -/
def Books (lib : DecimalLib) (id : String) (dto : CreateTransactionDto) (entry : Entry) : Prop :=
  ∃ amount row, lib.ofString dto.amount = some amount ∧
    (newTransaction id dto amount).row = some row ∧ row.entry = entry

/-- `fromAccount ?? toAccount`, read from the columns. -/
def Entry.recipient (entry : Entry) : Option String :=
  match entry.fromAccount with
  | none => entry.toAccount
  | some account => some account

/-- The notice about an entry, when there is somebody to notify. -/
def announcement (lib : DecimalLib) (entry : Entry) : Option Notice :=
  match entry.recipient with
  | none => none
  | some account =>
      if account = "" then none
      else some
        { recipient := account
          payload := { type := entry.type
                       amount := lib.toString entry.amount
                       currency := entry.currency } }

theorem Books.accounts {lib : DecimalLib} {id : String} {dto : CreateTransactionDto}
    {entry : Entry} (h : Books lib id dto entry) :
    accountColumn dto.fromAccount = some entry.fromAccount ∧
      accountColumn dto.toAccount = some entry.toAccount := by
  obtain ⟨amount, row, -, hrow, rfl⟩ := h
  obtain ⟨-, -, -, hfrom, hto⟩ := TransactionData.of_row hrow
  exact ⟨hfrom, hto⟩

/-- Through the column, a JSON account is the string it holds. -/
theorem accountColumn_eq {account : Option Json} {column : Option String}
    (h : accountColumn account = some column) :
    (account = none ∨ account = some .null) ∧ column = none ∨
      ∃ s, account = some (.str s) ∧ column = some s := by
  rcases accountColumn_cases h with rfl | rfl | ⟨s, rfl⟩
  · exact .inl ⟨.inl rfl, (Option.some.inj h).symm⟩
  · exact .inl ⟨.inr rfl, (Option.some.inj h).symm⟩
  · right
    simp only [accountColumn] at h
    split at h
    · exact ⟨s, rfl, (Option.some.inj h).symm⟩
    · cases h

/-- The recipient that the processor takes from the job is the one in the columns. -/
theorem Books.recipient {lib : DecimalLib} {id : String} {dto : CreateTransactionDto}
    {entry : Entry} (h : Books lib id dto entry) {account : Json}
    (hrecipient : TransactionProcessor.recipient dto.fromAccount dto.toAccount = some account)
    (htruthy : account.truthy) : ∃ s, account = .str s ∧ s ≠ "" ∧ entry.recipient = some s := by
  obtain ⟨hfrom, hto⟩ := h.accounts
  have hpresent : ∀ s, account = .str s → s ≠ "" := by
    rintro s rfl
    exact str_truthy.mp htruthy
  rcases accountColumn_eq hfrom with ⟨hnone, hcolumn⟩ | ⟨s, hs, hcolumn⟩
  · have hnext : dto.toAccount = some account := by
      rcases hnone with hnone | hnone <;> rw [hnone] at hrecipient <;> exact hrecipient
    rcases accountColumn_eq hto with ⟨hnull | hnull, -⟩ | ⟨s, hs, hcolumn'⟩
    · cases hnull.symm.trans hnext
    · cases hnull.symm.trans hnext
      cases htruthy
    · obtain rfl := Option.some.inj (hs.symm.trans hnext)
      exact ⟨s, rfl, hpresent s rfl, by simp [Entry.recipient, hcolumn, hcolumn']⟩
  · rw [hs, recipient_str] at hrecipient
    obtain rfl := Option.some.inj hrecipient
    exact ⟨s, rfl, hpresent s rfl, by simp [Entry.recipient, hcolumn]⟩

/-- The job that the processor enqueues says what the entry announces. -/
theorem Books.notificationFor {lib : DecimalLib} {id : String} {dto : CreateTransactionDto}
    {row : Transaction} {job : NotificationJob} (h : Books lib id dto row.entry)
    (hjob : notificationFor lib row dto.fromAccount dto.toAccount = some job) :
    ∃ note, announcement lib row.entry = some note ∧ job =
      { name := "send-notification", transactionId := row.id, channel := .email,
        recipient := .str note.recipient, payload := note.payload,
        jobId := notificationJobId row.id } := by
  unfold TransactionProcessor.notificationFor at hjob
  split at hjob
  · cases hjob
  · next account haccount =>
      split at hjob
      · next htruthy =>
          obtain ⟨s, rfl, hne, hrecipient⟩ := h.recipient haccount htruthy
          obtain rfl := Option.some.inj hjob
          exact ⟨⟨s, ⟨row.type, lib.toString row.amount, row.currency⟩⟩,
            by simp only [announcement, hrecipient, if_neg hne]; rfl, rfl⟩
      · cases hjob

/-! ## The book -/

namespace World

def book (w : World) : Book String Entry Notice where
  entry id := (w.transaction id).map fun row ↦ (row.entry, row.status)
  notice id := (w.notice (id, .email)).map fun row ↦ (row.content, row.status)

theorem book_entry {w : World} {id : String} {row : Transaction}
    (h : w.transaction id = some row) : w.book.entry id = some (row.entry, row.status) := by
  simp only [book, h, Option.map_some]

theorem book_notice {w : World} {id : String} {row : Notification}
    (h : w.notice (id, .email) = some row) :
    w.book.notice id = some (row.content, row.status) := by
  simp only [book, h, Option.map_some]

theorem of_book_entry {w : World} {id : String} {entry : Entry} {status : TransactionStatus}
    (h : w.book.entry id = some (entry, status)) :
    ∃ row, w.transaction id = some row ∧ row.entry = entry ∧ row.status = status := by
  obtain ⟨row, hrow, heq⟩ := Option.map_eq_some_iff.mp h
  obtain ⟨rfl, rfl⟩ := Prod.mk.inj heq
  exact ⟨row, hrow, rfl, rfl⟩

theorem of_book_notice {w : World} {id : String} {note : Notice} {status : NotificationStatus}
    (h : w.book.notice id = some (note, status)) :
    ∃ row, w.notice (id, .email) = some row ∧ row.content = note ∧ row.status = status := by
  obtain ⟨row, hrow, heq⟩ := Option.map_eq_some_iff.mp h
  obtain ⟨rfl, rfl⟩ := Prod.mk.inj heq
  exact ⟨row, hrow, rfl, rfl⟩

theorem book_congr {w w' : World} (hentry : ∀ id, w'.transaction id = w.transaction id)
    (hnotice : ∀ id, w'.notice (id, .email) = w.notice (id, .email)) : w'.book = w.book := by
  simp only [book, hentry, hnotice]

/-- A row that changes alone is an entry that is entered. -/
theorem book_enter {w w' : World} {id : String} {row : Transaction}
    (hentry : ∀ k, w'.transaction k = if id = k then some row else w.transaction k)
    (hnotice : ∀ k, w'.notice (k, .email) = w.notice (k, .email)) :
    w'.book = w.book.enter id row.entry row.status := by
  simp only [book, Book.enter, hentry, hnotice, Book.mk.injEq, and_true]
  funext k
  by_cases hk : id = k
  · subst hk
    simp
  · simp [hk, Ne.symm hk]

theorem book_post {w w' : World} {id : String} {row : Notification}
    (hentry : ∀ k, w'.transaction k = w.transaction k)
    (hnotice : ∀ k, w'.notice (k, .email) = if id = k then some row else w.notice (k, .email)) :
    w'.book = w.book.post id row.content row.status := by
  simp only [book, Book.post, hentry, hnotice, Book.mk.injEq, true_and]
  funext k
  by_cases hk : id = k
  · subst hk
    simp
  · simp [hk, Ne.symm hk]

end World

/-- What a call may do to the book. -/
inductive BookChange (b : Book String Entry Notice) : Op → Book String Entry Notice → Prop where
  | created {data : TransactionData} {row : Transaction} (hrow : data.row = some row)
      (hfree : b.entry row.id = none) :
      BookChange b (.transactionCreate data) (b.enter row.id row.entry row.status)
  | updated {id : String} {entry : Entry} {before after : TransactionStatus}
      (hentry : b.entry id = some (entry, before)) :
      BookChange b (.transactionUpdate id after) (b.enter id entry after)
  | guarded {id : String} {entry : Entry} {filter : StatusFilter} {before after : TransactionStatus}
      (hentry : b.entry id = some (entry, before)) (hholds : filter.holds before) :
      BookChange b (.transactionUpdateMany id filter after) (b.enter id entry after)
  | delivered {id : String} {data : NotificationData} {row : Notification}
      (hrow : data.row id = some row) (hfree : b.notice row.transactionId = none) :
      BookChange b (.notificationCreate id data)
        (b.post row.transactionId row.content row.status)
  | inserted {pair : String × NotificationChannel} {id : String} {create : NotificationData}
      {update : NotificationUpdate} {row : Notification} (hrow : create.row id = some row)
      (hfree : b.notice row.transactionId = none) :
      BookChange b (.notificationUpsert pair id create update)
        (b.post row.transactionId row.content row.status)
  | overwritten {pair : String × NotificationChannel} {id : String} {create : NotificationData}
      {update : NotificationUpdate} {note : Notice} {before : NotificationStatus}
      (hnotice : b.notice pair.1 = some (note, before)) :
      BookChange b (.notificationUpsert pair id create update) (b.post pair.1 note update.status)

namespace World

variable {d : Delivery} {f : Fate} {w w' : World} {op : Op} {r : Except Err op.Res}

/-- No call of the other tables touches the notifications. -/
theorem answer_notice_same (w : World) (op : Op) (pair : String × NotificationChannel)
    (hcreate : ∀ id data, op ≠ .notificationCreate id data)
    (hupsert : ∀ k id create update, op ≠ .notificationUpsert k id create update) :
    (w.answer op).2.notice pair = w.notice pair := by
  rcases answer_notice w op pair with hsame | hchange
  · exact hsame
  · generalize w.notice pair = before at hchange
    generalize (w.answer op).2.notice pair = after at hchange
    cases hchange with
    | created => exact absurd rfl (hcreate _ _)
    | inserted => exact absurd rfl (hupsert _ _ _ _)
    | updated => exact absurd rfl (hupsert _ _ _ _)

theorem created_book (w : World) (data : TransactionData) :
    (w.answer (.transactionCreate data)).2.book = w.book ∨
      BookChange w.book (.transactionCreate data) (w.answer (.transactionCreate data)).2.book := by
  cases hrow : data.row with
  | none =>
      left
      simp only [answer, hrow]
  | some row =>
      cases hins : w.transactions.insert row with
      | none =>
          left
          simp only [answer, hrow, hins]
      | some t =>
          right
          have hfree : w.transaction row.id = none := by
            rw [Option.eq_none_iff_forall_ne_some]
            intro old hold
            rw [Table.insert_eq_none_iff.mpr ⟨old, hold⟩] at hins
            cases hins
          have hbook : (w.answer (.transactionCreate data)).2.book =
              w.book.enter row.id row.entry row.status := by
            simp only [answer, hrow, hins]
            exact book_enter (Table.lookup_insert hins) fun _ ↦ rfl
          rw [hbook]
          exact .created hrow (by simp [book, hfree])

/-- An update that finds its row and changes nothing but the status. -/
theorem book_of_update {id : String} (row : Transaction) (status : TransactionStatus)
    (hafter : ∀ k, w'.transaction k =
      if id = k then some { row with status := status } else w.transaction k)
    (hnotice : ∀ k, w'.notice (k, .email) = w.notice (k, .email)) :
    w'.book = w.book.enter id row.entry status :=
  @book_enter w w' id { row with status := status } hafter hnotice

theorem updated_book (w : World) (id : String) (status : TransactionStatus) :
    (w.answer (.transactionUpdate id status)).2.book = w.book ∨
      BookChange w.book (.transactionUpdate id status)
        (w.answer (.transactionUpdate id status)).2.book := by
  have hnotice := fun k ↦ answer_notice_same w (.transactionUpdate id status) (k, .email)
    (fun _ _ h ↦ by cases h) fun _ _ _ _ h ↦ by cases h
  cases hrow : w.transaction id with
  | none =>
      refine .inl (book_congr (fun k ↦ ?_) hnotice)
      rw [answer_transaction, Op.onTransaction]
      split
      · next hid =>
          rw [← hid, hrow]
          rfl
      · rfl
  | some row =>
      right
      rw [book_of_update row status (fun k ↦ ?_) hnotice]
      · exact .updated (book_entry hrow)
      · rw [answer_transaction, Op.onTransaction]
        split
        · next hid => rw [← hid, hrow, Option.map_some]
        · rfl

theorem guarded_book (w : World) (id : String) (filter : StatusFilter)
    (status : TransactionStatus) :
    (w.answer (.transactionUpdateMany id filter status)).2.book = w.book ∨
      BookChange w.book (.transactionUpdateMany id filter status)
        (w.answer (.transactionUpdateMany id filter status)).2.book := by
  have hnotice := fun k ↦ answer_notice_same w (.transactionUpdateMany id filter status)
    (k, .email) (fun _ _ h ↦ by cases h) fun _ _ _ _ h ↦ by cases h
  rcases onTransaction_updateMany id id filter status (w.transaction id) with
    hsame | ⟨row, hrow, -, hholds, heffect⟩
  · refine .inl (book_congr (fun k ↦ ?_) hnotice)
    rw [answer_transaction]
    by_cases hid : id = k
    · exact hid ▸ hsame
    · exact if_neg hid
  · right
    rw [book_of_update row status (fun k ↦ ?_) hnotice]
    · exact .guarded (book_entry hrow) hholds
    · rw [answer_transaction]
      split
      · next hid => exact hid ▸ heffect
      · next hid => exact if_neg hid

/-- An insertion into `notifications` posts a notice, if it is one by e-mail. -/
theorem inserted_book (w' : World) {row : Notification} (hfree : w.notice row.pair = none)
    (hentry : ∀ k, w'.transaction k = w.transaction k)
    (hafter : ∀ pair, w'.notice pair = if row.pair = pair then some row else w.notice pair) :
    w'.book = w.book ∨ w.book.notice row.transactionId = none ∧
      w'.book = w.book.post row.transactionId row.content row.status := by
  by_cases hchannel : row.channel = .email
  · have hpair : row.pair = (row.transactionId, .email) := by rw [← hchannel]
    refine .inr ⟨by simp [book, ← hpair, hfree], book_post hentry fun k ↦ ?_⟩
    rw [hafter, hpair]
    simp
  · refine .inl (book_congr hentry fun k ↦ ?_)
    rw [hafter, if_neg]
    intro hpair
    exact hchannel (congrArg Prod.snd hpair)

theorem delivered_book (w : World) (id : String) (data : NotificationData) :
    (w.answer (.notificationCreate id data)).2.book = w.book ∨
      BookChange w.book (.notificationCreate id data)
        (w.answer (.notificationCreate id data)).2.book := by
  simp only [answer]
  rcases insertNotification_cases w id data with ⟨e, heq, -⟩ | ⟨row, t, hrow, hfree, heq, ht⟩
  · rw [heq]
    exact .inl rfl
  · rw [heq]
    rcases inserted_book { w with notifications := t } hfree (fun _ ↦ rfl) ht with
      hsame | ⟨hnone, hpost⟩
    · exact .inl hsame
    · right
      rw [hpost]
      exact .delivered hrow hnone

/-- An upsert of an e-mail notice that finds a row changes its status. -/
theorem overwritten_book (w' : World) {pair : String × NotificationChannel}
    {old : Notification} (new : Notification)
    (hold : w.notice pair = some old) (hcontent : new.content = old.content)
    (hentry : ∀ k, w'.transaction k = w.transaction k)
    (hafter : ∀ k, w'.notice k = if k = pair then some new else w.notice k) :
    w'.book = w.book ∨ w.book.notice pair.1 = some (old.content, old.status) ∧
      w'.book = w.book.post pair.1 old.content new.status := by
  obtain ⟨id, channel⟩ := pair
  by_cases hchannel : channel = .email
  · subst hchannel
    rw [← hcontent]
    refine .inr ⟨hcontent ▸ book_notice hold, book_post hentry fun k ↦ ?_⟩
    simp only [hafter, Prod.mk.injEq, and_true, eq_comm (a := k)]
  · refine .inl (book_congr hentry fun k ↦ ?_)
    rw [hafter, if_neg]
    intro hk
    exact hchannel (congrArg Prod.snd hk).symm

theorem upserted_book (w : World) (pair : String × NotificationChannel) (id : String)
    (create : NotificationData) (update : NotificationUpdate) :
    (w.answer (.notificationUpsert pair id create update)).2.book = w.book ∨
      BookChange w.book (.notificationUpsert pair id create update)
        (w.answer (.notificationUpsert pair id create update)).2.book := by
  simp only [answer]
  cases hold : w.notifications.lookup pair with
  | none =>
      dsimp only
      rcases insertNotification_cases w id create with ⟨e, heq, -⟩ | ⟨row, t, hrow, hfree, heq, ht⟩
      · rw [heq]
        exact .inl rfl
      · rw [heq]
        rcases inserted_book { w with notifications := t } hfree (fun _ ↦ rfl) ht with
          hsame | ⟨hnone, hpost⟩
        · exact .inl hsame
        · right
          rw [hpost]
          exact .inserted hrow hnone
  | some old =>
      cases create.row id with
      | none => exact .inl rfl
      | some _ =>
          dsimp only
          let w₁ := { w with
            notifications := w.notifications.modify pair update.apply update.pair_apply }
          have hafter : ∀ k, w₁.notice k =
              if k = pair then some (update.apply old) else w.notice k := by
            intro k
            rw [notice, Table.lookup_modify]
            split
            · next hk => rw [hk, hold, Option.map_some]
            · rfl
          rcases overwritten_book w₁ (update.apply old) hold rfl (fun _ ↦ rfl)
            hafter with hsame | ⟨hnotice, hpost⟩
          · exact .inl hsame
          · right
            rw [hpost]
            exact .overwritten hnotice

/-- Everything a settled call may do to the book. -/
theorem settle_book (h : w.settle d f op = some (r, w')) :
    w'.book = w.book ∨ BookChange w.book op w'.book := by
  rcases settle_world h with rfl | rfl
  · exact .inl rfl
  cases op with
  | transactionCreate data => exact created_book w data
  | transactionUpdate id status => exact updated_book w id status
  | transactionUpdateMany id filter status => exact guarded_book w id filter status
  | notificationCreate id data => exact delivered_book w id data
  | notificationUpsert pair id create update => exact upserted_book w pair id create update
  | _ =>
      refine .inl (book_congr (fun k ↦ answer_transaction w _ k) fun k ↦ ?_)
      exact answer_notice_same w _ _ (fun _ _ h ↦ by cases h) fun _ _ _ _ h ↦ by cases h

end World

end TransactionLedger
