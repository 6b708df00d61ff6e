import TransactionLedger.Api.Listing

/-!
# Do the pages partition the result?

The requests for the pages of a listing are queries of their own, so the rows that share
a `created_at` need not stand in the same order in all of them.
-/

namespace TransactionLedger

open Data

open scoped List

variable {ω ρ : Type}

/-- The data of the pages, one after the other. -/
def allData (limit : ℕ) (pages : ℕ → Listing ρ) : List (Stamped ρ) :=
  (List.range (pageCount limit (pages 0).total)).flatMap fun p ↦ (pages p).data

/-- The pages list the wanted rows, each of them once, the newest first. -/
structure Partitions (Wanted : Stamped ρ → Prop) (limit : ℕ) (pages : ℕ → Listing ρ) : Prop where
  nodup : (allData limit pages).Nodup
  mem_iff : ∀ r, r ∈ allData limit pages ↔ Wanted r
  newestFirst : (allData limit pages).Pairwise fun a b ↦ b.createdAt ≤ a.createdAt
  total : ∀ p, (pages p).total = (allData limit pages).length

/-- Whatever the answers to the queries for a fixed table, all pages are there and partition
the wanted rows.  Pages are counted from zero. -/
def PagesPartition (meaning : WhereMeaning ω ρ) (rows : List (Stamped ρ))
    (Wanted : Stamped ρ → Prop) (limit : ℕ)
    (findAll : ReadClient ω ρ → ℕ → Except Err (Listing ρ)) : Prop :=
  ∀ clients : ℕ → ReadClient ω ρ, (∀ p, (clients p).Serves meaning rows) →
    ∃ pages : ℕ → Listing ρ, (∀ p, findAll (clients p) p = .ok (pages p)) ∧
      Partitions Wanted limit pages

def PaginationQueryDto.atPage (query : PaginationQueryDto) (p : ℕ) : PaginationQueryDto :=
  { query with page := p + 1, page_pos := Nat.le_add_left 1 p }

/-! ## The clients -/

theorem exists_isOrdering_precedes (orderBy : OrderBy) (rows : List (Stamped ρ)) :
    ∃ sorted, IsOrdering orderBy.Precedes rows sorted := by
  obtain ⟨_ | _⟩ := orderBy
  · exact exists_isOrdering (fun a b : Stamped ρ ↦ a.createdAt ≤ b.createdAt)
      (fun _ _ _ ↦ le_trans) (fun a b ↦ le_total a.createdAt b.createdAt) rows
  · exact exists_isOrdering (fun a b : Stamped ρ ↦ b.createdAt ≤ a.createdAt)
      (fun _ _ _ hab hbc ↦ le_trans hbc hab) (fun a b ↦ le_total b.createdAt a.createdAt) rows

/-- A client that answers each query in the ordering that is chosen for it. -/
def ReadClient.ofOrders (meaning : WhereMeaning ω ρ) (rows : List (Stamped ρ))
    (order : FindManyArgs ω → List (Stamped ρ)) : ReadClient ω ρ where
  findMany args :=
    if meaning.accepts args.whereInput then .ok (((order args).drop args.skip).take args.take)
    else .error (.error "Invalid value for argument")
  count whereInput :=
    if meaning.accepts whereInput then .ok (rows.countP (meaning.selects whereInput))
    else .error (.error "Invalid value for argument")

theorem ofOrders_serves {meaning : WhereMeaning ω ρ} {rows : List (Stamped ρ)}
    {order : FindManyArgs ω → List (Stamped ρ)}
    (horder : ∀ args, IsOrdering args.orderBy.Precedes
      (rows.filter (meaning.selects args.whereInput)) (order args)) :
    (ReadClient.ofOrders meaning rows order).Serves meaning rows := by
  constructor
  · intro args haccepts
    exact ⟨order args, horder args, if_pos haccepts⟩
  · intro args hrejects
    exact ⟨_, if_neg (Bool.eq_false_iff.mp hrejects)⟩
  · intro whereInput haccepts
    exact if_pos haccepts
  · intro whereInput hrejects
    exact ⟨_, if_neg (Bool.eq_false_iff.mp hrejects)⟩

section

variable (meaning : WhereMeaning ω ρ) (rows : List (Stamped ρ)) (whereInput : ω)
  {sorted : List (Stamped ρ)}
  (h : IsOrdering (Descending Stamped.createdAt) (rows.filter (meaning.selects whereInput))
    sorted)

include h

/-- One query may be answered in any ordering, whatever the others are answered in. -/
theorem exists_order (args : FindManyArgs ω) :
    ∃ order, IsOrdering args.orderBy.Precedes
        (rows.filter (meaning.selects args.whereInput)) order ∧
      (args.whereInput = whereInput → args.orderBy = ⟨.desc⟩ → order = sorted) := by
  by_cases hargs : args.whereInput = whereInput ∧ args.orderBy = ⟨.desc⟩
  · obtain ⟨hwhere, horderBy⟩ := hargs
    rw [hwhere, horderBy]
    exact ⟨sorted, h, fun _ _ ↦ rfl⟩
  · obtain ⟨order, horder⟩ := exists_isOrdering_precedes args.orderBy
      (rows.filter (meaning.selects args.whereInput))
    exact ⟨order, horder, fun hwhere horderBy ↦ absurd ⟨hwhere, horderBy⟩ hargs⟩

theorem exists_serves :
    ∃ client : ReadClient ω ρ, client.Serves meaning rows ∧
      (meaning.accepts whereInput = true → ∀ skip take,
        client.findMany ⟨whereInput, skip, take, ⟨.desc⟩⟩ =
          .ok ((sorted.drop skip).take take)) := by
  choose order horder hsorted using exists_order meaning rows whereInput h
  refine ⟨.ofOrders meaning rows order, ofOrders_serves horder, ?_⟩
  intro haccepts skip take
  have heq := hsorted ⟨whereInput, skip, take, ⟨.desc⟩⟩ rfl rfl
  rw [ReadClient.ofOrders, ← heq]
  exact if_pos haccepts

end

/-! ## The pages that are read -/

/-- The pages that come out of these orderings. -/
def pagesOf (limit total : ℕ) (orders : ℕ → List (Stamped ρ)) (p : ℕ) : Listing ρ where
  data := page limit p (orders p)
  total := total
  page := p + 1
  limit := limit

theorem findPage_ok {client : ReadClient ω ρ} {meaning : WhereMeaning ω ρ}
    {rows : List (Stamped ρ)} {whereInput : ω} {query : PaginationQueryDto}
    {orders : ℕ → List (Stamped ρ)} {p : ℕ} (h : client.Serves meaning rows)
    (haccepts : meaning.accepts whereInput = true)
    (hfind : client.findMany ⟨whereInput, p * query.limit, query.limit, ⟨.desc⟩⟩ =
      .ok (page query.limit p (orders p))) :
    findPage client whereInput (query.atPage p) = .ok
      (pagesOf query.limit (rows.filter (meaning.selects whereInput)).length orders p) := by
  have hcount := h.count whereInput haccepts
  rw [List.countP_eq_length_filter] at hcount
  simp only [findPage, PaginationQueryDto.atPage, Nat.add_sub_cancel, hfind, hcount]
  rfl

theorem findPage_rejected {client : ReadClient ω ρ} {meaning : WhereMeaning ω ρ}
    {rows : List (Stamped ρ)} {whereInput : ω} (query : PaginationQueryDto)
    (h : client.Serves meaning rows) (hrejects : meaning.accepts whereInput = false) :
    ∃ error, findPage client whereInput query = .error error := by
  obtain ⟨error, hfind⟩ := h.findMany_rejects
    ⟨whereInput, (query.page - 1) * query.limit, query.limit, ⟨.desc⟩⟩ hrejects
  refine ⟨error, ?_⟩
  simp only [findPage, hfind]
  rfl

/-! ## When the pages partition the selected rows -/

section

variable {meaning : WhereMeaning ω ρ} {rows : List (Stamped ρ)} {whereInput : ω}
  {Wanted : Stamped ρ → Prop} {limit : ℕ} {orders : ℕ → List (Stamped ρ)}

theorem partitions_pagesOf_iff {selected : List (Stamped ρ)} (hnodup : selected.Nodup)
    (hlimit : 1 ≤ limit)
    (horders : ∀ p, IsOrdering (Descending Stamped.createdAt) selected (orders p)) :
    Partitions Wanted limit (pagesOf limit selected.length orders) ↔
      concatPages limit (pageCount limit selected.length) orders ~ selected ∧
        ∀ r, r ∈ selected ↔ Wanted r := by
  constructor
  · intro h
    have hperm := concatPages_perm_of_nodup hlimit horders h.nodup
    exact ⟨hperm, fun r ↦ hperm.mem_iff.symm.trans (h.mem_iff r)⟩
  · rintro ⟨hperm, hwanted⟩
    constructor
    · exact hperm.nodup_iff.mpr hnodup
    · intro r
      exact hperm.mem_iff.trans (hwanted r)
    · exact pairwise_concatPages horders limit _
    · intro p
      exact (length_concatPages hlimit horders).symm

/-- The pages that are read come out of any family of orderings. -/
theorem partitions_of_pagesPartition {query : PaginationQueryDto}
    (h : PagesPartition meaning rows Wanted query.limit
      fun client p ↦ findPage client whereInput (query.atPage p))
    (horders : ∀ p, IsOrdering (Descending Stamped.createdAt)
      (rows.filter (meaning.selects whereInput)) (orders p)) :
    meaning.accepts whereInput = true ∧ Partitions Wanted query.limit
      (pagesOf query.limit (rows.filter (meaning.selects whereInput)).length orders) := by
  choose clients hserves hfind using fun p ↦ exists_serves meaning rows whereInput (horders p)
  obtain ⟨pages, hpages, hpartitions⟩ := h clients hserves
  dsimp only at hpages
  have haccepts : meaning.accepts whereInput = true := by
    by_contra hrejects
    obtain ⟨error, herror⟩ := findPage_rejected (query.atPage 0) (hserves 0)
      (Bool.eq_false_iff.mpr hrejects)
    rw [hpages 0] at herror
    cases herror
  have heq : pages =
      pagesOf query.limit (rows.filter (meaning.selects whereInput)).length orders := by
    funext p
    have hpage := findPage_ok (hserves p) haccepts (hfind p haccepts (p * query.limit) query.limit)
    rw [hpages p] at hpage
    exact Except.ok.inj hpage
  rw [heq] at hpartitions
  exact ⟨haccepts, hpartitions⟩

theorem pagesPartition_of_partitions {query : PaginationQueryDto}
    (haccepts : meaning.accepts whereInput = true)
    (h : ∀ orders : ℕ → List (Stamped ρ), (∀ p, IsOrdering (Descending Stamped.createdAt)
        (rows.filter (meaning.selects whereInput)) (orders p)) →
      Partitions Wanted query.limit
        (pagesOf query.limit (rows.filter (meaning.selects whereInput)).length orders)) :
    PagesPartition meaning rows Wanted query.limit
      fun client p ↦ findPage client whereInput (query.atPage p) := by
  intro clients hserves
  choose orders horders hfind using fun p ↦ (hserves p).findMany
    ⟨whereInput, p * query.limit, query.limit, ⟨.desc⟩⟩ haccepts
  refine ⟨_, fun p ↦ findPage_ok (hserves p) haccepts (hfind p), h orders horders⟩

variable (meaning whereInput Wanted) in
theorem pagesPartition_iff (hnodup : rows.Nodup) (query : PaginationQueryDto) :
    PagesPartition meaning rows Wanted query.limit
        (fun client p ↦ findPage client whereInput (query.atPage p)) ↔
      meaning.accepts whereInput = true ∧
        (∀ r, r ∈ rows.filter (meaning.selects whereInput) ↔ Wanted r) ∧
        ¬Straddles Stamped.createdAt query.limit
          (rows.filter (meaning.selects whereInput)) := by
  have hselected := hnodup.filter (meaning.selects whereInput)
  rw [← forall_concatPages_perm_iff query.limit_pos hselected]
  constructor
  · intro h
    obtain ⟨sorted, hsorted⟩ :=
      exists_isOrdering_precedes ⟨.desc⟩ (rows.filter (meaning.selects whereInput))
    obtain ⟨haccepts, hpartitions⟩ := partitions_of_pagesPartition h fun _ ↦ hsorted
    refine ⟨haccepts, ?_, ?_⟩
    · exact ((partitions_pagesOf_iff hselected query.limit_pos fun _ ↦ hsorted).mp hpartitions).2
    · intro orders horders
      have hpartitions := (partitions_of_pagesPartition h horders).2
      exact ((partitions_pagesOf_iff hselected query.limit_pos horders).mp hpartitions).1
  · rintro ⟨haccepts, hwanted, hperm⟩
    apply pagesPartition_of_partitions haccepts
    intro orders horders
    exact (partitions_pagesOf_iff hselected query.limit_pos horders).mpr
      ⟨hperm orders horders, hwanted⟩

end

/-! ## Transactions -/

namespace ListTransactionsQueryDto

def atPage (query : ListTransactionsQueryDto) (p : ℕ) : ListTransactionsQueryDto :=
  { query with toPaginationQueryDto := query.toPaginationQueryDto.atPage p }

/-- The row belongs to the account, if one is given. -/
def PassesAccount (account : Option String) (r : Stamped Transaction) : Prop :=
  ∀ s ∈ account, r.row.fromAccount = some s ∨ r.row.toAccount = some s

/-- The row passes the filters other than the account; a date is the instant that `Date`
reads. -/
def PassesOthers (newDate : String → JsDate) (query : ListTransactionsQueryDto)
    (r : Stamped Transaction) : Prop :=
  (∀ status ∈ query.status, r.row.status = status) ∧ (∀ type ∈ query.type, r.row.type = type) ∧
    (∀ s ∈ query.startDate, (newDate s).notAfter r.createdAt = true) ∧
      ∀ s ∈ query.endDate, (newDate s).notBefore r.createdAt = true

def Satisfied (newDate : String → JsDate) (query : ListTransactionsQueryDto)
    (r : Stamped Transaction) : Prop :=
  PassesAccount query.account r ∧ query.PassesOthers newDate r

instance (account : Option String) : DecidablePred (PassesAccount account) := fun r ↦
  inferInstanceAs (Decidable (∀ s ∈ account, r.row.fromAccount = some s ∨
    r.row.toAccount = some s))

instance (newDate : String → JsDate) (query : ListTransactionsQueryDto) :
    DecidablePred (query.PassesOthers newDate) := fun _ ↦
  inferInstanceAs (Decidable (_ ∧ _ ∧ _ ∧ _))

instance (newDate : String → JsDate) (query : ListTransactionsQueryDto) :
    DecidablePred (query.Satisfied newDate) := fun _ ↦
  inferInstanceAs (Decidable (_ ∧ _))

/-- `Date` reads the dates that are given.  A date means the instant that `new Date` reads,
also where ISO 8601 means another one. -/
def DatesRead (newDate : String → JsDate) (query : ListTransactionsQueryDto) : Prop :=
  (∀ s ∈ query.startDate, (newDate s).isValid = true) ∧
    ∀ s ∈ query.endDate, (newDate s).isValid = true

end ListTransactionsQueryDto

abbrev TransactionTable : Type := Table fun r : Stamped Transaction ↦ r.row.id

/-- The pages of the transactions partition the rows that pass the filters. -/
def TransactionService.PagesPartition (newDate : String → JsDate) (table : TransactionTable)
    (query : ListTransactionsQueryDto) : Prop :=
  TransactionLedger.PagesPartition transactionWhere table.rows
    (fun r ↦ r ∈ table.rows ∧ query.Satisfied newDate r) query.limit
    fun client p ↦ TransactionService.findAll newDate client (query.atPage p)

theorem truthyText_of_ne {text : Option String} (h : text ≠ some "") : truthyText text = text := by
  cases text with
  | none => rfl
  | some s =>
      rw [truthyText, Option.filter_some, if_pos]
      apply decide_eq_true
      intro hs
      rw [hs] at h
      exact h rfl

section

variable {newDate : String → JsDate} {query : ListTransactionsQueryDto}

open ListTransactionsQueryDto

theorem accepts_createdAtFilter (gte lte : Option JsDate) :
    (TransactionService.createdAtFilter gte lte).all DateTimeFilter.accepts =
      (gte.all JsDate.isValid && lte.all JsDate.isValid) := by
  cases gte <;> cases lte <;> rfl

theorem selects_createdAtFilter (gte lte : Option JsDate) (t : ℤ) :
    (TransactionService.createdAtFilter gte lte).all (·.selects t) =
      (gte.all (·.notAfter t) && lte.all (·.notBefore t)) := by
  cases gte <;> cases lte <;> rfl

theorem accepts_whereInput_iff :
    transactionWhere.accepts (TransactionService.whereInput newDate query) = true ↔
      query.DatesRead newDate := by
  simp only [transactionWhere, TransactionService.whereInput, accepts_createdAtFilter,
    truthyText_of_ne query.startDate_ne, truthyText_of_ne query.endDate_ne, Option.all_map,
    Bool.and_eq_true, Option.all_eq_true, DatesRead, Option.mem_def]

theorem selects_whereInput_iff {r : Stamped Transaction} :
    transactionWhere.selects (TransactionService.whereInput newDate query) r = true ↔
      PassesAccount (truthyText query.account) r ∧ query.PassesOthers newDate r := by
  have haccount : ((TransactionService.whereInput newDate query).OR.all
      (·.any (·.selects r.row))) = true ↔ PassesAccount (truthyText query.account) r := by
    simp only [TransactionService.whereInput, Option.all_map, Option.all_eq_true,
      List.any_cons, List.any_nil, Bool.or_false, Bool.or_eq_true, AccountInput.selects,
      decide_eq_true_iff, PassesAccount, Option.mem_def]
  have hdates : ((TransactionService.whereInput newDate query).createdAt.all
      (·.selects r.createdAt)) = true ↔
        (∀ s ∈ query.startDate, (newDate s).notAfter r.createdAt = true) ∧
          ∀ s ∈ query.endDate, (newDate s).notBefore r.createdAt = true := by
    simp only [TransactionService.whereInput, selects_createdAtFilter,
      truthyText_of_ne query.startDate_ne, truthyText_of_ne query.endDate_ne, Option.all_map,
      Bool.and_eq_true, Option.all_eq_true, Option.mem_def]
  simp only [transactionWhere, Bool.and_eq_true, haccount, hdates]
  simp only [TransactionService.whereInput, Option.all_eq_true, decide_eq_true_iff, PassesOthers,
    Option.mem_def]
  tauto

/-- An account filter that is the empty string is not applied. -/
theorem passesAccount_truthyText_iff {account : Option String} {r : Stamped Transaction} :
    PassesAccount (truthyText account) r ↔ account = some "" ∨ PassesAccount account r := by
  by_cases h : account = some ""
  · rw [h]
    exact iff_of_true (fun s hs ↦ by cases hs) (.inl rfl)
  · rw [truthyText_of_ne h, or_iff_right h]

/-- An empty account lists the rows that pass the other filters. -/
theorem mem_selected_iff {rows : List (Stamped Transaction)} {r : Stamped Transaction} :
    r ∈ rows.filter (transactionWhere.selects (TransactionService.whereInput newDate query)) ↔
      r ∈ rows ∧ (query.account = some "" ∨ PassesAccount query.account r) ∧
        query.PassesOthers newDate r := by
  rw [List.mem_filter, selects_whereInput_iff, passesAccount_truthyText_iff]

theorem forall_mem_selected_iff {rows : List (Stamped Transaction)} :
    (∀ r, r ∈ rows.filter
        (transactionWhere.selects (TransactionService.whereInput newDate query)) ↔
        r ∈ rows ∧ query.Satisfied newDate r) ↔
      (query.account = some "" → ∀ r ∈ rows, query.PassesOthers newDate r →
        PassesAccount query.account r) := by
  constructor
  · intro h hempty r hr hothers
    have hlisted := (h r).mp (mem_selected_iff.mpr ⟨hr, .inl hempty, hothers⟩)
    exact hlisted.2.1
  · intro h r
    rw [mem_selected_iff, Satisfied]
    constructor
    · rintro ⟨hr, hempty | haccount, hothers⟩
      · exact ⟨hr, h hempty r hr hothers, hothers⟩
      · exact ⟨hr, haccount, hothers⟩
    · rintro ⟨hr, haccount, hothers⟩
      exact ⟨hr, .inr haccount, hothers⟩

end

theorem nodup_rows {κ σ : Type} {key : σ → κ} (table : Table key) : table.rows.Nodup :=
  List.Nodup.of_map key table.unique

theorem TransactionService.pagesPartition_iff {newDate : String → JsDate}
    {table : TransactionTable} {query : ListTransactionsQueryDto} :
    PagesPartition newDate table query ↔
      query.DatesRead newDate ∧
        (query.account = some "" → ∀ r ∈ table.rows, query.PassesOthers newDate r →
          ListTransactionsQueryDto.PassesAccount query.account r) ∧
        ¬Straddles Stamped.createdAt query.limit
          (table.rows.filter fun r ↦ query.Satisfied newDate r) := by
  have hpages : PagesPartition newDate table query ↔
      transactionWhere.accepts (whereInput newDate query) = true ∧
        (∀ r, r ∈ table.rows.filter (transactionWhere.selects (whereInput newDate query)) ↔
          r ∈ table.rows ∧ query.Satisfied newDate r) ∧
        ¬Straddles Stamped.createdAt query.limit
          (table.rows.filter (transactionWhere.selects (whereInput newDate query))) :=
    TransactionLedger.pagesPartition_iff transactionWhere (whereInput newDate query)
      (fun r ↦ r ∈ table.rows ∧ query.Satisfied newDate r) (nodup_rows table) _
  rw [hpages, accepts_whereInput_iff]
  apply and_congr_right
  intro _
  rw [← forall_mem_selected_iff]
  apply and_congr_right
  intro hlisted
  have hfilter : table.rows.filter (transactionWhere.selects (whereInput newDate query)) =
      table.rows.filter fun r ↦ query.Satisfied newDate r := by
    apply List.filter_congr
    intro r hr
    have hr' := hlisted r
    rw [List.mem_filter, and_iff_right hr, and_iff_right hr] at hr'
    rw [Bool.eq_iff_iff, hr', decide_eq_true_iff]
  rw [hfilter]

/-! ## Notifications -/

namespace ListNotificationsQueryDto

def atPage (query : ListNotificationsQueryDto) (p : ℕ) : ListNotificationsQueryDto :=
  { query with toPaginationQueryDto := query.toPaginationQueryDto.atPage p }

def Satisfied (query : ListNotificationsQueryDto) (r : Stamped Notification) : Prop :=
  (∀ status ∈ query.status, r.row.status = status) ∧
    (∀ channel ∈ query.channel, r.row.channel = channel) ∧
      ∀ transactionId ∈ query.transactionId, r.row.transactionId = transactionId

instance (query : ListNotificationsQueryDto) : DecidablePred query.Satisfied := fun _ ↦
  inferInstanceAs (Decidable (_ ∧ _ ∧ _))

end ListNotificationsQueryDto

abbrev NotificationTable : Type := Table fun r : Stamped Notification ↦ r.row.id

/-- The pages of the notifications partition the rows that pass the filters. -/
def NotificationService.PagesPartition (table : NotificationTable)
    (query : ListNotificationsQueryDto) : Prop :=
  TransactionLedger.PagesPartition notificationWhere table.rows
    (fun r ↦ r ∈ table.rows ∧ query.Satisfied r) query.limit
    fun client p ↦ NotificationService.findAll client (query.atPage p)

theorem notification_selects_iff {query : ListNotificationsQueryDto} {r : Stamped Notification} :
    notificationWhere.selects (NotificationService.whereInput query) r = true ↔
      query.Satisfied r := by
  simp only [notificationWhere, NotificationService.whereInput,
    truthyText_of_ne query.transactionId_ne, Bool.and_eq_true, Option.all_eq_true,
    decide_eq_true_iff, ListNotificationsQueryDto.Satisfied, Option.mem_def, and_assoc]

theorem NotificationService.pagesPartition_iff {table : NotificationTable}
    {query : ListNotificationsQueryDto} :
    PagesPartition table query ↔
      ¬Straddles Stamped.createdAt query.limit (table.rows.filter fun r ↦ query.Satisfied r) := by
  have hpages : PagesPartition table query ↔
      notificationWhere.accepts (whereInput query) = true ∧
        (∀ r, r ∈ table.rows.filter (notificationWhere.selects (whereInput query)) ↔
          r ∈ table.rows ∧ query.Satisfied r) ∧
        ¬Straddles Stamped.createdAt query.limit
          (table.rows.filter (notificationWhere.selects (whereInput query))) :=
    TransactionLedger.pagesPartition_iff notificationWhere (whereInput query)
      (fun r ↦ r ∈ table.rows ∧ query.Satisfied r) (nodup_rows table) _
  have hlisted : ∀ r, r ∈ table.rows.filter (notificationWhere.selects (whereInput query)) ↔
      r ∈ table.rows ∧ query.Satisfied r := by
    intro r
    rw [List.mem_filter, notification_selects_iff]
  have hfilter : table.rows.filter (notificationWhere.selects (whereInput query)) =
      table.rows.filter fun r ↦ query.Satisfied r := by
    apply List.filter_congr
    intro r _
    rw [Bool.eq_iff_iff, notification_selects_iff, decide_eq_true_iff]
  have haccepts : notificationWhere.accepts (whereInput query) = true := rfl
  rw [hpages, and_iff_right haccepts, and_iff_right hlisted, hfilter]

/-! ## Both listings -/

/-- The pages partition the result exactly when no page boundary separates two rows of the
result that were created in the same millisecond.  For transactions, `Date` also has to
read the dates that are given, and an account that is the empty string, which is not
applied, must not filter out anything. -/
theorem findAll_pagesPartition_iff (newDate : String → JsDate) (transactions : TransactionTable)
    (notifications : NotificationTable) (transactionQuery : ListTransactionsQueryDto)
    (notificationQuery : ListNotificationsQueryDto) :
    (TransactionService.PagesPartition newDate transactions transactionQuery ↔
      transactionQuery.DatesRead newDate ∧
        (transactionQuery.account = some "" → ∀ r ∈ transactions.rows,
          transactionQuery.PassesOthers newDate r →
            ListTransactionsQueryDto.PassesAccount transactionQuery.account r) ∧
        ¬Straddles Stamped.createdAt transactionQuery.limit
          (transactions.rows.filter fun r ↦ transactionQuery.Satisfied newDate r)) ∧
      (NotificationService.PagesPartition notifications notificationQuery ↔
        ¬Straddles Stamped.createdAt notificationQuery.limit
          (notifications.rows.filter fun r ↦ notificationQuery.Satisfied r)) := by
  constructor
  · exact TransactionService.pagesPartition_iff
  · exact NotificationService.pagesPartition_iff

/-! ## Two transactions of one millisecond -/

def stampedDeposit (id : String) : Stamped Transaction where
  row :=
    { id := id, type := .deposit, status := .completed, amount := 50, currency := "USD",
      fromAccount := none, toAccount := some "ACC-001", metadata := none }
  createdAt := 1772874000000

theorem twoDeposits_unique :
    ([stampedDeposit "tx-1", stampedDeposit "tx-2"].map (·.row.id)).Nodup := by
  decide

def twoDeposits : TransactionTable where
  rows := [stampedDeposit "tx-1", stampedDeposit "tx-2"]
  unique := twoDeposits_unique

/-- `GET /transactions?limit=1`. -/
def onePerPage : ListTransactionsQueryDto where
  limit := 1
  page_pos := Nat.le_refl 1
  limit_pos := Nat.le_refl 1
  status := none
  type := none
  account := none
  startDate := none
  endDate := none
  account_short _ h := by cases h
  startDate_ne h := by cases h
  endDate_ne h := by cases h

def twoOrders : ℕ → List (Stamped Transaction)
  | 0 => [stampedDeposit "tx-1", stampedDeposit "tx-2"]
  | _ => [stampedDeposit "tx-2", stampedDeposit "tx-1"]

theorem twoOrders_isOrdering (p : ℕ) :
    IsOrdering (Descending Stamped.createdAt) [stampedDeposit "tx-1", stampedDeposit "tx-2"]
      (twoOrders p) := by
  have htie : ∀ id id', (stampedDeposit id').createdAt ≤ (stampedDeposit id).createdAt :=
    fun _ _ ↦ le_refl _
  cases p with
  | zero => exact ⟨.refl _, List.pairwise_pair.mpr (htie _ _)⟩
  | succ p => exact ⟨.swap _ _ _, List.pairwise_pair.mpr (htie _ _)⟩

/-- Each of the two pages may hold the first deposit, and then neither holds the second. -/
theorem twoDeposits_notPartitioned :
    (∃ clients : ℕ → ReadClient TransactionWhereInput Transaction,
      (∀ p, (clients p).Serves transactionWhere twoDeposits.rows) ∧
        ∀ p < 2, ∃ listing, TransactionService.findAll (fun _ ↦ .invalid) (clients p)
            (onePerPage.atPage p) = .ok listing ∧
          listing.data = [stampedDeposit "tx-1"] ∧ listing.total = 2) ∧
      ¬TransactionService.PagesPartition (fun _ ↦ .invalid) twoDeposits onePerPage := by
  constructor
  · choose clients hserves hfind using fun p ↦ exists_serves transactionWhere twoDeposits.rows
      (TransactionService.whereInput (fun _ ↦ .invalid) onePerPage) (twoOrders_isOrdering p)
    refine ⟨clients, hserves, fun p hp ↦ ?_⟩
    refine ⟨_, findPage_ok (hserves p) rfl (hfind p rfl _ _), ?_, rfl⟩
    rcases Nat.lt_succ_iff_lt_or_eq.mp hp with hfirst | rfl
    · obtain rfl := Nat.lt_one_iff.mp hfirst
      rfl
    · rfl
  · intro h
    obtain ⟨-, -, hties⟩ := TransactionService.pagesPartition_iff.mp h
    exact hties ⟨1, 1772874000000, by decide, by decide⟩

end TransactionLedger
