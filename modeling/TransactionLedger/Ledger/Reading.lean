import TransactionLedger.Api.Partition
import TransactionLedger.Data.Growing
import TransactionLedger.Ledger.Runs

/-!
# Reading a ledger that goes on

The pages of a listing are requests of their own, with two queries each, and the application
goes on between any two of them.
-/

namespace TransactionLedger

open Async Data

variable {ω ρ : Type}

/-- The two queries of `Promise.all` may be answered at different moments. -/
structure ReadClient.ServesApart (client : ReadClient ω ρ) (meaning : WhereMeaning ω ρ)
    (found counted : List (Stamped ρ)) : Prop where
  findMany : ∀ args, meaning.accepts args.whereInput = true →
    ∃ sorted, IsOrdering args.orderBy.Precedes
        (found.filter (meaning.selects args.whereInput)) sorted ∧
      client.findMany args = .ok ((sorted.drop args.skip).take args.take)
  findMany_rejects : ∀ args, meaning.accepts args.whereInput = false →
    ∃ error, client.findMany args = .error error
  count : ∀ whereInput, meaning.accepts whereInput = true →
    client.count whereInput = .ok (counted.countP (meaning.selects whereInput))

theorem ReadClient.Serves.servesApart {client : ReadClient ω ρ} {meaning : WhereMeaning ω ρ}
    {rows : List (Stamped ρ)} (h : client.Serves meaning rows) :
    client.ServesApart meaning rows rows where
  findMany := h.findMany
  findMany_rejects := h.findMany_rejects
  count := h.count

/-- The pages 0 to `n` are read, each of the rows of its own moment, and the last one says
that there are no more. -/
structure Reads (meaning : WhereMeaning ω ρ)
    (findAll : ReadClient ω ρ → ℕ → Except Err (Listing ρ)) (limit : ℕ)
    (found counted : ℕ → List (Stamped ρ)) (n : ℕ) (listings : ℕ → Listing ρ) : Prop where
  page : ∀ p ≤ n, ∃ client : ReadClient ω ρ, client.ServesApart meaning (found p) (counted p) ∧
    findAll client p = .ok (listings p)
  last : (listings n).total ≤ (n + 1) * limit

section

variable {meaning : WhereMeaning ω ρ} {whereInput : ω} {query : PaginationQueryDto}

theorem findPage_eq {client : ReadClient ω ρ} {found counted : List (Stamped ρ)} {p : ℕ}
    {listing : Listing ρ} (h : client.ServesApart meaning found counted)
    (hok : findPage client whereInput (query.atPage p) = .ok listing) :
    ∃ sorted, IsOrdering (Descending Stamped.createdAt)
        (found.filter (meaning.selects whereInput)) sorted ∧
      listing.data = page query.limit p sorted ∧
      listing.total = counted.countP (meaning.selects whereInput) := by
  let args : FindManyArgs ω := ⟨whereInput, p * query.limit, query.limit, ⟨.desc⟩⟩
  have hpage : (do
      let data ← client.findMany args
      let total ← client.count whereInput
      pure { data := data, total := total, page := p + 1, limit := query.limit }) =
        Except.ok listing := hok
  by_cases haccepts : meaning.accepts whereInput = true
  · obtain ⟨sorted, hsorted, hfind⟩ := h.findMany args haccepts
    rw [hfind, h.count whereInput haccepts] at hpage
    obtain rfl := Except.ok.inj hpage
    exact ⟨sorted, hsorted, rfl, rfl⟩
  · obtain ⟨error, hfind⟩ := h.findMany_rejects args (Bool.eq_false_iff.mpr haccepts)
    rw [hfind] at hpage
    cases hpage

variable (meaning whereInput query) in
theorem exists_reads (tables : ℕ → List (Stamped ρ)) {n : ℕ}
    (haccepts : meaning.accepts whereInput = true)
    (hlast : (tables n).length ≤ (n + 1) * query.limit) :
    ∃ listings, Reads meaning (fun client p ↦ findPage client whereInput (query.atPage p))
      query.limit tables tables n listings := by
  have horders : ∀ p, ∃ sorted, IsOrdering (Descending Stamped.createdAt)
      ((tables p).filter (meaning.selects whereInput)) sorted :=
    fun p ↦ exists_isOrdering_precedes ⟨.desc⟩ _
  choose orders horders using horders
  choose clients hserves hfind using fun p ↦
    exists_serves meaning (tables p) whereInput (horders p)
  refine ⟨fun p ↦ pagesOf query.limit
    ((tables p).filter (meaning.selects whereInput)).length orders p, fun p _ ↦ ?_, ?_⟩
  · exact ⟨clients p, (hserves p).servesApart,
      findPage_ok (hserves p) haccepts (hfind p haccepts _ _)⟩
  · exact (List.length_filter_le _ _).trans hlast

end

/-- Every row is still there, says the same and was created at the same instant. -/
def Keeps {τ κ : Type} (tag : Stamped ρ → τ) (say : Stamped ρ → κ)
    (rows rows' : List (Stamped ρ)) : Prop :=
  ∀ a ∈ rows, ∃ b ∈ rows', tag b = tag a ∧ say b = say a ∧ b.createdAt = a.createdAt

section

variable {meaning : WhereMeaning ω ρ} {whereInput : ω} {query : PaginationQueryDto} {τ κ : Type}
  {tag : Stamped ρ → τ} {say : Stamped ρ → κ} {found counted : ℕ → List (Stamped ρ)} {n : ℕ}
  {listings : ℕ → Listing ρ}

theorem keeps_of_le (hkept : ∀ p < n, Keeps tag say (found p) (found (p + 1))) {p : ℕ}
    (hp : p ≤ n) : Keeps tag say (found 0) (found p) := by
  induction p with
  | zero => exact fun a ha ↦ ⟨a, ha, rfl, rfl, rfl⟩
  | succ p ih =>
      intro a ha
      obtain ⟨b, hb, htag, hsay, hstamp⟩ := ih ((Nat.le_succ p).trans hp) a ha
      obtain ⟨c, hc, htag', hsay', hstamp'⟩ := hkept p (Nat.lt_of_succ_le hp) b hb
      exact ⟨c, hc, htag'.trans htag, hsay'.trans hsay, hstamp'.trans hstamp⟩

/-- While the table keeps its rows and the filter goes by what they say, none of them is
passed by that was created at an instant of its own. -/
theorem Reads.listed
    (h : Reads meaning (fun client p ↦ findPage client whereInput (query.atPage p)) query.limit
      found counted n listings)
    (hnodup : ∀ p, ((found p).map tag).Nodup)
    (hkept : ∀ p < n, Keeps tag say (found p) (found (p + 1)))
    (hcounted : Keeps tag say (found n) (counted n))
    (hselects : ∀ a b, tag b = tag a → say b = say a → b.createdAt = a.createdAt →
      meaning.selects whereInput b = meaning.selects whereInput a)
    {a : Stamped ρ} (ha : a ∈ found 0) (hselected : meaning.selects whereInput a = true)
    (hunique : ∀ b ∈ found n, b.createdAt = a.createdAt → tag b = tag a) :
    ∃ p ≤ n, ∃ b ∈ (listings p).data, tag b = tag a ∧ say b = say a := by
  let selected (p : ℕ) : List (Stamped ρ) := (found p).filter (meaning.selects whereInput)
  have hpages : ∀ p, ∃ sorted, p ≤ n →
      IsOrdering (Descending Stamped.createdAt) (selected p) sorted ∧
      (listings p).data = Data.page query.limit p sorted ∧
      (listings p).total = (counted p).countP (meaning.selects whereInput) := by
    intro p
    by_cases hp : p ≤ n
    · obtain ⟨client, hserves, hok⟩ := h.page p hp
      obtain ⟨sorted, hsorted⟩ := findPage_eq hserves hok
      exact ⟨sorted, fun _ ↦ hsorted⟩
    · exact ⟨[], fun hp' ↦ absurd hp' hp⟩
  choose orders horders using hpages
  have hcount : (found n).countP (meaning.selects whereInput) ≤
      (counted n).countP (meaning.selects whereInput) := by
    refine countP_le_of_kept (hnodup n) fun b hb hpass ↦ ?_
    obtain ⟨c, hc, htag, hsay, hstamp⟩ := hcounted b hb
    exact ⟨c, hc, htag, (hselects b c htag hsay hstamp).trans hpass⟩
  have hlast : (selected n).length ≤ (n + 1) * query.limit := by
    rw [← List.countP_eq_length_filter]
    exact hcount.trans ((horders n le_rfl).2.2 ▸ h.last)
  have hstays : ∀ p < n, ∀ b ∈ selected p, ∃ c ∈ selected (p + 1), tag c = tag b ∧
      c.createdAt = b.createdAt := by
    intro p hp b hb
    obtain ⟨hmem, hpass⟩ := List.mem_filter.mp hb
    obtain ⟨c, hc, htag, hsay, hstamp⟩ := hkept p hp b hmem
    exact ⟨c, List.mem_filter.mpr ⟨hc, (hselects b c htag hsay hstamp).trans hpass⟩, htag, hstamp⟩
  obtain ⟨p, hp, b, hb, htag⟩ := exists_mem_page hstays
    (fun p ↦ (List.filter_sublist.map tag).nodup (hnodup p)) (fun p hp ↦ (horders p hp).1)
    hlast (List.mem_filter.mpr ⟨ha, hselected⟩) fun b hb ↦ hunique b (List.mem_filter.mp hb).1
  have hfound := (horders p hp).1.perm.subset (List.mem_of_mem_drop (List.mem_of_mem_take hb))
  obtain ⟨c, hc, htag', hsay, -⟩ := keeps_of_le hkept hp a ha
  obtain rfl : b = c := List.inj_on_of_nodup_map (hnodup p) (List.mem_filter.mp hfound).1 hc
    (htag.trans htag'.symm)
  exact ⟨p, hp, b, (horders p hp).2.1 ▸ hb, htag, hsay⟩

end

/-! ## Transactions -/

/-- The table with its column `created_at`, which nobody writes after the insertion. -/
def World.stampedTransactions (createdAt : String → ℤ) (w : World) :
    List (Stamped Transaction) :=
  w.transactions.rows.map fun row ↦ ⟨row, createdAt row.id⟩

def World.stampedNotifications (createdAt : String × NotificationChannel → ℤ) (w : World) :
    List (Stamped Notification) :=
  w.notifications.rows.map fun row ↦ ⟨row, createdAt row.pair⟩

namespace Application

variable {app : Application} {d : Delivery} {clock : ℕ} {found counted : ℕ → State} {n : ℕ}

theorem mem_stampedTransactions {createdAt : String → ℤ} {w : World} {r : Stamped Transaction} :
    r ∈ w.stampedTransactions createdAt ↔
      w.transaction r.row.id = some r.row ∧ r.createdAt = createdAt r.row.id := by
  constructor
  · intro h
    obtain ⟨row, hrow, rfl⟩ := List.mem_map.mp h
    exact ⟨Table.lookup_of_mem hrow, rfl⟩
  · rintro ⟨hrow, hstamp⟩
    refine List.mem_map.mpr ⟨r.row, Table.mem_of_lookup hrow, ?_⟩
    rw [← hstamp]

theorem nodup_stampedTransactions (createdAt : String → ℤ) (w : World) :
    ((w.stampedTransactions createdAt).map fun r ↦ r.row.id).Nodup := by
  rw [World.stampedTransactions, List.map_map]
  exact w.transactions.unique

theorem run_of_le (hfound : ∀ p < n, Run d (found p) (found (p + 1))) {p : ℕ} (hp : p ≤ n) :
    Run d (found 0) (found p) := by
  induction p with
  | zero => exact .refl
  | succ p ih =>
      exact (ih ((Nat.le_succ p).trans hp)).trans (hfound p (Nat.lt_of_succ_le hp))

/-- Without a filter on the status, a row passes whatever its status is. -/
theorem selects_of_entry {newDate : String → JsDate} {query : ListTransactionsQueryDto}
    (hstatus : query.status = none) {a b : Stamped Transaction}
    (hentry : b.row.entry = a.row.entry) (hstamp : b.createdAt = a.createdAt) :
    transactionWhere.selects (TransactionService.whereInput newDate query) b =
      transactionWhere.selects (TransactionService.whereInput newDate query) a := by
  have htype : b.row.type = a.row.type := congrArg Entry.type hentry
  have hfrom : b.row.fromAccount = a.row.fromAccount := congrArg Entry.fromAccount hentry
  have hto : b.row.toAccount = a.row.toAccount := congrArg Entry.toAccount hentry
  have haccount : ∀ account : AccountInput, account.selects b.row = account.selects a.row := by
    intro account
    cases account with
    | fromAccount s => rw [AccountInput.selects, AccountInput.selects, hfrom]
    | toAccount s => rw [AccountInput.selects, AccountInput.selects, hto]
  simp only [transactionWhere, TransactionService.whereInput, hstatus, htype, hstamp, haccount,
    Option.all_none]

/-- The rows of one moment are those of any later one, whatever their status. -/
theorem keeps_transactions {createdAt : String → ℤ} {c c' : State}
    (h : Run d (app.deployment.start clock) c) (h' : Run d c c') :
    Keeps (·.row.id) (·.row.entry) (c.store.stampedTransactions createdAt)
      (c'.store.stampedTransactions createdAt) := by
  intro a ha
  obtain ⟨hmem, hstamp⟩ := mem_stampedTransactions.mp ha
  obtain ⟨row', hrow', hentry⟩ := (extends_of_leads (leads_of_run h h')).grows hmem
  have hid : row'.id = a.row.id := Table.key_of_lookup hrow'
  refine ⟨⟨row', a.createdAt⟩, mem_stampedTransactions.mpr ⟨hid.symm ▸ hrow', ?_⟩, hid, hentry,
    rfl⟩
  rw [hid, hstamp]

theorem selected_of_satisfied {newDate : String → JsDate} {query : ListTransactionsQueryDto}
    {r : Stamped Transaction} (h : query.Satisfied newDate r) :
    transactionWhere.selects (TransactionService.whereInput newDate query) r = true :=
  selects_whereInput_iff.mpr ⟨passesAccount_truthyText_iff.mpr (.inr h.1), h.2⟩

/-- A client who reads `GET /transactions` to the end while the ledger goes on has seen every
transaction there was at the start, if it was created in a millisecond of its own. -/
theorem none_missed (hstart : Run d (app.deployment.start clock) (found 0))
    (hfound : ∀ p < n, Run d (found p) (found (p + 1))) (hcounted : Run d (found n) (counted n))
    {createdAt : String → ℤ} {newDate : String → JsDate} {query : ListTransactionsQueryDto}
    (hstatus : query.status = none) {listings : ℕ → Listing Transaction}
    (hreads : Reads transactionWhere
      (fun client p ↦ TransactionService.findAll newDate client (query.atPage p)) query.limit
      (fun p ↦ (found p).store.stampedTransactions createdAt)
      (fun p ↦ (counted p).store.stampedTransactions createdAt) n listings)
    {id : String} {row : Transaction} (hrow : (found 0).store.transaction id = some row)
    (hsatisfied : query.Satisfied newDate ⟨row, createdAt id⟩)
    (hunique : ∀ other, (∃ row', (found n).store.transaction other = some row') →
      createdAt other = createdAt id → other = id) :
    ∃ p ≤ n, ∃ r ∈ (listings p).data, r.row.id = id ∧ r.row.entry = row.entry := by
  have hid : row.id = id := Table.key_of_lookup hrow
  have hstamped : ⟨row, createdAt id⟩ ∈ (found 0).store.stampedTransactions createdAt :=
    mem_stampedTransactions.mpr ⟨hid.symm ▸ hrow, congrArg createdAt hid.symm⟩
  have hrun : ∀ p ≤ n, Run d (app.deployment.start clock) (found p) :=
    fun p hp ↦ hstart.trans (run_of_le hfound hp)
  obtain ⟨p, hp, r, hr, htag, hentry⟩ := hreads.listed
    (fun p ↦ nodup_stampedTransactions createdAt (found p).store)
    (fun p hp ↦ keeps_transactions (hrun p hp.le) (hfound p hp))
    (keeps_transactions (hrun n le_rfl) hcounted)
    (fun a b _ hentry hstamp ↦ selects_of_entry hstatus hentry hstamp) hstamped
    (selected_of_satisfied hsatisfied) fun b hb hstamp ↦ by
      obtain ⟨hlookup, hstamp'⟩ := mem_stampedTransactions.mp hb
      exact (hunique _ ⟨_, hlookup⟩ (hstamp'.symm.trans hstamp)).trans hid.symm
  exact ⟨p, hp, r, hr, htag.trans hid, hentry⟩

/-- The states in which the two pages of one row each are read: the deposit is COMPLETED in
between. -/
def depositStates : ℕ → State
  | 0 => depositAnswered
  | _ + 1 => depositCompleted

theorem deposit_listed :
    ∃ listings : ℕ → Listing Transaction, (listings 1).total ≤ 2 ∧
      ∃ p ≤ 1, ∃ r ∈ (listings p).data, r.row.id = "t" := by
  have hids : depositCompleted.store.transactions.rows.map (·.id) = ["t"] := by decide +kernel
  have hlength : ((depositStates 1).store.stampedTransactions fun _ ↦ 0).length ≤
      (1 + 1) * onePerPage.limit := by
    have hone := congrArg List.length hids
    rw [List.length_map] at hone
    rw [World.stampedTransactions, List.length_map]
    exact hone.le.trans (by decide)
  obtain ⟨listings, hreads⟩ : ∃ listings, Reads transactionWhere
      (fun client p ↦ TransactionService.findAll (fun _ ↦ .invalid) client (onePerPage.atPage p))
      onePerPage.limit (fun p ↦ (depositStates p).store.stampedTransactions fun _ ↦ 0)
      (fun p ↦ (depositStates p).store.stampedTransactions fun _ ↦ 0) 1 listings :=
    exists_reads transactionWhere (TransactionService.whereInput (fun _ ↦ .invalid) onePerPage)
      onePerPage.toPaginationQueryDto _ rfl hlength
  obtain ⟨row, hrow⟩ : ∃ row, (depositStates 0).store.transaction "t" = some row :=
    Option.isSome_iff_exists.mp (by decide +kernel)
  have hfound : ∀ p < 1, Run .exclusive (depositStates p) (depositStates (p + 1)) := by
    intro p hp
    obtain rfl := Nat.lt_one_iff.mp hp
    exact run_depositCompleted
  have hsatisfied : onePerPage.Satisfied (fun _ ↦ .invalid) ⟨row, 0⟩ := by
    simp [ListTransactionsQueryDto.Satisfied, ListTransactionsQueryDto.PassesAccount,
      ListTransactionsQueryDto.PassesOthers, onePerPage]
  have honly : ∀ other, (∃ row', (depositStates 1).store.transaction other = some row') →
      (0 : ℤ) = 0 → other = "t" := by
    rintro other ⟨row', hrow'⟩ -
    have hmem : other ∈ depositCompleted.store.transactions.rows.map (·.id) :=
      Table.mem_keys_of_lookup hrow'
    rw [hids] at hmem
    exact List.mem_singleton.mp hmem
  obtain ⟨p, hp, r, hr, hid, -⟩ :=
    none_missed run_depositAnswered hfound .refl rfl hreads hrow hsatisfied honly
  exact ⟨listings, hreads.last, p, hp, r, hr, hid⟩

/-! ## Notifications -/

theorem mem_stampedNotifications {createdAt : String × NotificationChannel → ℤ} {w : World}
    {r : Stamped Notification} :
    r ∈ w.stampedNotifications createdAt ↔
      w.notice r.row.pair = some r.row ∧ r.createdAt = createdAt r.row.pair := by
  constructor
  · intro h
    obtain ⟨row, hrow, rfl⟩ := List.mem_map.mp h
    exact ⟨Table.lookup_of_mem hrow, rfl⟩
  · rintro ⟨hrow, hstamp⟩
    refine List.mem_map.mpr ⟨r.row, Table.mem_of_lookup hrow, ?_⟩
    rw [← hstamp]

theorem nodup_stampedNotifications (createdAt : String × NotificationChannel → ℤ) (w : World) :
    ((w.stampedNotifications createdAt).map fun r ↦ r.row.pair).Nodup := by
  rw [World.stampedNotifications, List.map_map]
  exact w.notifications.unique

/-- Without a filter on the status, the pair decides. -/
theorem selects_of_pair {query : ListNotificationsQueryDto} (hstatus : query.status = none)
    {a b : Stamped Notification} (hpair : b.row.pair = a.row.pair) :
    notificationWhere.selects (NotificationService.whereInput query) b =
      notificationWhere.selects (NotificationService.whereInput query) a := by
  have hid : b.row.transactionId = a.row.transactionId := congrArg Prod.fst hpair
  have hchannel : b.row.channel = a.row.channel := congrArg Prod.snd hpair
  simp only [notificationWhere, NotificationService.whereInput, hstatus, hid, hchannel,
    Option.all_none]

/-- A notification of one moment says the same at any later one. -/
theorem notice_later {c c' : State} (h : Run d (app.deployment.start clock) c)
    {pair : String × NotificationChannel} {row : Notification}
    (hrow : c.store.notice pair = some row) (h' : Run d c c') :
    ∃ row', c'.store.notice pair = some row' ∧ row'.content = row.content := by
  obtain rfl := (obeyed_of_run h).inv.pair_of_noticed hrow
  obtain ⟨status', hafter, -⟩ :=
    (book_of_leads (leads_of_run h h')).keeps_notice (World.book_notice hrow)
  obtain ⟨row', hrow', hcontent, -⟩ := World.of_book_notice hafter
  exact ⟨row', hrow', hcontent⟩

theorem keeps_notifications {createdAt : String × NotificationChannel → ℤ} {c c' : State}
    (h : Run d (app.deployment.start clock) c) (h' : Run d c c') :
    Keeps (·.row.pair) (·.row.content) (c.store.stampedNotifications createdAt)
      (c'.store.stampedNotifications createdAt) := by
  intro a ha
  obtain ⟨hmem, hstamp⟩ := mem_stampedNotifications.mp ha
  obtain ⟨row', hrow', hcontent⟩ := notice_later h hmem h'
  have hpair : row'.pair = a.row.pair := Table.key_of_lookup hrow'
  refine ⟨⟨row', a.createdAt⟩, mem_stampedNotifications.mpr ⟨?_, ?_⟩, hpair, hcontent, rfl⟩
  · rw [hpair]
    exact hrow'
  · rw [hpair, hstamp]

/-- The same holds of `GET /notifications`. -/
theorem notification_none_missed (hstart : Run d (app.deployment.start clock) (found 0))
    (hfound : ∀ p < n, Run d (found p) (found (p + 1))) (hcounted : Run d (found n) (counted n))
    {createdAt : String × NotificationChannel → ℤ} {query : ListNotificationsQueryDto}
    (hstatus : query.status = none) {listings : ℕ → Listing Notification}
    (hreads : Reads notificationWhere
      (fun client p ↦ NotificationService.findAll client (query.atPage p)) query.limit
      (fun p ↦ (found p).store.stampedNotifications createdAt)
      (fun p ↦ (counted p).store.stampedNotifications createdAt) n listings)
    {pair : String × NotificationChannel} {row : Notification}
    (hrow : (found 0).store.notice pair = some row)
    (hsatisfied : query.Satisfied ⟨row, createdAt pair⟩)
    (hunique : ∀ other, (∃ row', (found n).store.notice other = some row') →
      createdAt other = createdAt pair → other = pair) :
    ∃ p ≤ n, ∃ r ∈ (listings p).data, r.row.pair = pair ∧ r.row.content = row.content := by
  have hpair : row.pair = pair := Table.key_of_lookup hrow
  have hstamped : ⟨row, createdAt pair⟩ ∈ (found 0).store.stampedNotifications createdAt :=
    mem_stampedNotifications.mpr ⟨hpair.symm ▸ hrow, congrArg createdAt hpair.symm⟩
  have hrun : ∀ p ≤ n, Run d (app.deployment.start clock) (found p) :=
    fun p hp ↦ hstart.trans (run_of_le hfound hp)
  obtain ⟨p, hp, r, hr, htag, hcontent⟩ := hreads.listed
    (fun p ↦ nodup_stampedNotifications createdAt (found p).store)
    (fun p hp ↦ keeps_notifications (hrun p hp.le) (hfound p hp))
    (keeps_notifications (hrun n le_rfl) hcounted)
    (fun a b htag _ _ ↦ selects_of_pair hstatus htag) hstamped
    (notification_selects_iff.mpr hsatisfied) fun b hb hstamp ↦ by
      obtain ⟨hlookup, hstamp'⟩ := mem_stampedNotifications.mp hb
      exact (hunique _ ⟨_, hlookup⟩ (hstamp'.symm.trans hstamp)).trans hpair.symm
  exact ⟨p, hp, r, hr, htag.trans hpair, hcontent⟩

theorem noTransactionId_ne : (none : Option String) ≠ some "" := by
  intro h
  cases h

/-- `GET /notifications?limit=1`. -/
def oneNotification : ListNotificationsQueryDto where
  toPaginationQueryDto := onePerPage.toPaginationQueryDto
  status := none
  channel := none
  transactionId := none
  transactionId_ne := noTransactionId_ne

theorem deposit_notice_listed :
    ∃ listings : ℕ → Listing Notification, (listings 0).total ≤ 1 ∧
      ∃ p ≤ 0, ∃ r ∈ (listings p).data, r.row.pair = ("t", .email) := by
  have hpairs : depositAnnounced.store.notifications.rows.map (·.pair) = [("t", .email)] := by
    decide +kernel
  have hlength : (depositAnnounced.store.stampedNotifications fun _ ↦ 0).length ≤
      (0 + 1) * oneNotification.limit := by
    have hone := congrArg List.length hpairs
    rw [List.length_map] at hone
    rw [World.stampedNotifications, List.length_map]
    exact hone.le
  obtain ⟨listings, hreads⟩ : ∃ listings, Reads notificationWhere
      (fun client p ↦ NotificationService.findAll client (oneNotification.atPage p))
      oneNotification.limit (fun _ ↦ depositAnnounced.store.stampedNotifications fun _ ↦ 0)
      (fun _ ↦ depositAnnounced.store.stampedNotifications fun _ ↦ 0) 0 listings :=
    exists_reads notificationWhere (NotificationService.whereInput oneNotification)
      oneNotification.toPaginationQueryDto _ rfl hlength
  obtain ⟨row, hrow⟩ : ∃ row, depositAnnounced.store.notice ("t", .email) = some row :=
    Option.isSome_iff_exists.mp (by decide +kernel)
  have hsatisfied : oneNotification.Satisfied ⟨row, 0⟩ := by
    simp [ListNotificationsQueryDto.Satisfied, oneNotification]
  have honly : ∀ other, (∃ row', depositAnnounced.store.notice other = some row') →
      (0 : ℤ) = 0 → other = ("t", .email) := by
    rintro other ⟨row', hrow'⟩ -
    have hmem : other ∈ depositAnnounced.store.notifications.rows.map (·.pair) :=
      Table.mem_keys_of_lookup hrow'
    rw [hpairs] at hmem
    exact List.mem_singleton.mp hmem
  have hstay : Run .exclusive depositAnnounced depositAnnounced := .refl
  obtain ⟨p, hp, r, hr, hpair, -⟩ := notification_none_missed run_deposits (fun _ _ ↦ hstay)
    hstay rfl hreads hrow hsatisfied honly
  exact ⟨listings, hreads.last, p, hp, r, hr, hpair⟩

end Application

end TransactionLedger
