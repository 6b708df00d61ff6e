import TransactionLedger.Data.Paging
import TransactionLedger.Stores.Rows

/-!
# Listings

`findAll` of `src/transaction/transaction.service.ts` and of
`src/notification/notification.service.ts`.  A page is one query with an offset and a
limit, ordered by `created_at` alone.
-/

namespace TransactionLedger

open Data

/-! ## Prisma queries -/

/-- A row with its `created_at` column, a `TIMESTAMP(3)`. -/
structure Stamped (ρ : Type) where
  row : ρ
  createdAt : ℤ

/-- A JavaScript `Date`. -/
inductive JsDate : Type where
  | invalid
  | instant (ms : ℤ)

def JsDate.isValid : JsDate → Bool
  | .invalid => false
  | .instant _ => true

def JsDate.notAfter : JsDate → ℤ → Bool
  | .invalid, _ => false
  | .instant ms, t => ms ≤ t

def JsDate.notBefore : JsDate → ℤ → Bool
  | .invalid, _ => false
  | .instant ms, t => t ≤ ms

inductive SortOrder : Type where
  | asc | desc

structure OrderBy where
  createdAt : SortOrder

def OrderBy.Precedes {ρ : Type} (orderBy : OrderBy) (a b : Stamped ρ) : Prop :=
  match orderBy.createdAt with
  | .asc => a.createdAt ≤ b.createdAt
  | .desc => b.createdAt ≤ a.createdAt

/-- The argument of `findMany`. -/
structure FindManyArgs (ω : Type) where
  whereInput : ω
  skip : ℕ
  take : ℕ
  orderBy : OrderBy

/-- What a `where` argument means to the client of a table. -/
structure WhereMeaning (ω ρ : Type) where
  accepts : ω → Bool
  selects : ω → Stamped ρ → Bool

/-- The answers that a client gives while one request is handled. -/
structure ReadClient (ω ρ : Type) where
  findMany : FindManyArgs ω → Except Err (List (Stamped ρ))
  count : ω → Except Err ℕ

variable {ω ρ : Type}

/-- The answers come from a table with these rows.  Rows that the sort key does not tell
apart stand in any order, and in another one at the next query.  The texts of a filter are
assumed to be without U+0000, for which PostgreSQL refuses a query. -/
structure ReadClient.Serves (client : ReadClient ω ρ) (meaning : WhereMeaning ω ρ)
    (rows : List (Stamped ρ)) : Prop where
  findMany : ∀ args, meaning.accepts args.whereInput = true →
    ∃ sorted, IsOrdering args.orderBy.Precedes
        (rows.filter (meaning.selects args.whereInput)) sorted ∧
      client.findMany args = .ok ((sorted.drop args.skip).take args.take)
  findMany_rejects : ∀ args, meaning.accepts args.whereInput = false →
    ∃ error, client.findMany args = .error error
  count : ∀ whereInput, meaning.accepts whereInput = true →
    client.count whereInput = .ok (rows.countP (meaning.selects whereInput))
  count_rejects : ∀ whereInput, meaning.accepts whereInput = false →
    ∃ error, client.count whereInput = .error error

/-! ## A page -/

/-- The query that both listings share; nothing depends on the upper bound of `limit`. -/
structure PaginationQueryDto where
  page : ℕ := 1
  limit : ℕ := 20
  page_pos : 1 ≤ page
  limit_pos : 1 ≤ limit

/-- What both listings return. -/
structure Listing (ρ : Type) where
  data : List (Stamped ρ)
  total : ℕ
  page : ℕ
  limit : ℕ

/-- The part of both `findAll` after the `where` argument has been made: `Promise.all` of
two queries, which rejects when one of them does. -/
def findPage (client : ReadClient ω ρ) (whereInput : ω) (query : PaginationQueryDto) :
    Except Err (Listing ρ) := do
  let data ← client.findMany
    { whereInput := whereInput
      skip := (query.page - 1) * query.limit
      take := query.limit
      orderBy := ⟨.desc⟩ }
  let total ← client.count whereInput
  pure { data := data, total := total, page := query.page, limit := query.limit }

/-! ## TransactionService.findAll -/

/-- A string that passes `if (text)`. -/
def truthyText (text : Option String) : Option String := text.filter (· ≠ "")

inductive AccountInput : Type where
  | fromAccount (account : String)
  | toAccount (account : String)

structure DateTimeFilter where
  gte : Option JsDate
  lte : Option JsDate

structure TransactionWhereInput where
  status : Option TransactionStatus
  type : Option TransactionType
  OR : Option (List AccountInput)
  createdAt : Option DateTimeFilter

def AccountInput.selects (row : Transaction) : AccountInput → Bool
  | .fromAccount account => row.fromAccount = some account
  | .toAccount account => row.toAccount = some account

def DateTimeFilter.accepts (filter : DateTimeFilter) : Bool :=
  filter.gte.all JsDate.isValid && filter.lte.all JsDate.isValid

def DateTimeFilter.selects (filter : DateTimeFilter) (t : ℤ) : Bool :=
  filter.gte.all (·.notAfter t) && filter.lte.all (·.notBefore t)

/-- Prisma rejects an invalid date. -/
def transactionWhere : WhereMeaning TransactionWhereInput Transaction where
  accepts whereInput := whereInput.createdAt.all DateTimeFilter.accepts
  selects whereInput r :=
    whereInput.status.all (r.row.status = ·) && whereInput.type.all (r.row.type = ·) &&
      whereInput.OR.all (·.any (·.selects r.row)) &&
      whereInput.createdAt.all (·.selects r.createdAt)

/-- A query that the validation pipe has let through; an empty string is no date. -/
structure ListTransactionsQueryDto extends PaginationQueryDto where
  status : Option TransactionStatus
  type : Option TransactionType
  account : Option String
  startDate : Option String
  endDate : Option String
  account_short : ∀ s ∈ account, s.length ≤ 255
  startDate_ne : startDate ≠ some ""
  endDate_ne : endDate ≠ some ""

namespace TransactionService

/-- The filter is set when one of its bounds is. -/
def createdAtFilter : Option JsDate → Option JsDate → Option DateTimeFilter
  | none, none => none
  | gte, lte => some ⟨gte, lte⟩

/-- `newDate` is `new Date` of a string. -/
def whereInput (newDate : String → JsDate) (query : ListTransactionsQueryDto) :
    TransactionWhereInput where
  status := query.status
  type := query.type
  OR := (truthyText query.account).map fun account ↦ [.fromAccount account, .toAccount account]
  createdAt :=
    createdAtFilter ((truthyText query.startDate).map newDate)
      ((truthyText query.endDate).map newDate)

def findAll (newDate : String → JsDate) (client : ReadClient TransactionWhereInput Transaction)
    (query : ListTransactionsQueryDto) : Except Err (Listing Transaction) :=
  findPage client (whereInput newDate query) query.toPaginationQueryDto

end TransactionService

/-! ## NotificationService.findAll -/

structure NotificationWhereInput where
  status : Option NotificationStatus
  channel : Option NotificationChannel
  transactionId : Option String

/-- The column of `transactionId` is a UUID and this compares texts, so every identifier is
assumed to be spelled in lower case, as PostgreSQL returns it. -/
def notificationWhere : WhereMeaning NotificationWhereInput Notification where
  accepts _ := true
  selects whereInput r :=
    whereInput.status.all (r.row.status = ·) && whereInput.channel.all (r.row.channel = ·) &&
      whereInput.transactionId.all (r.row.transactionId = ·)

/-- A query that the validation pipe has let through; an empty string is no UUID. -/
structure ListNotificationsQueryDto extends PaginationQueryDto where
  status : Option NotificationStatus
  channel : Option NotificationChannel
  transactionId : Option String
  transactionId_ne : transactionId ≠ some ""

namespace NotificationService

def whereInput (query : ListNotificationsQueryDto) : NotificationWhereInput where
  status := query.status
  channel := query.channel
  transactionId := truthyText query.transactionId

def findAll (client : ReadClient NotificationWhereInput Notification)
    (query : ListNotificationsQueryDto) : Except Err (Listing Notification) :=
  findPage client (whereInput query) query.toPaginationQueryDto

end NotificationService

end TransactionLedger
