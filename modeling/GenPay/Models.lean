import Mathlib.Data.Rat.Defs

/-!
# Rows and schemas

The tables of `app/models` and the request and response schemas of `app/schemas`.  Ids are the strings the code
generates with `uuid4`; `createdAt` is the server timestamp of a row.  Columns no modelled function reads
(`Settlement.created_at`, `IdempotencyKey.created_at`, `ProcessedWebhookEvent.processed_at`,
`ApiClient.created_at`) are left out.
-/

namespace GenPay

/-- The settings of `app/config.py` that the modelled code reads. -/
structure Settings where
  webhookSigningSecret : String
  internalApiKey : String
  archiveShareBps : Int
  transcriptionistShareBps : Int
  platformShareBps : Int
  deriving DecidableEq, Repr

/-! ### `app/models` -/

inductive UserRole
  | researcher | transcriptionist | platformAdmin
  deriving DecidableEq, Repr

structure User where
  id : String
  name : String
  email : String
  role : UserRole
  createdAt : Nat
  deriving DecidableEq, Repr

structure HistoricalArchive where
  id : String
  name : String
  description : Option String
  ownerUserId : Option String
  createdAt : Nat
  deriving DecidableEq, Repr

structure ResearchRecord where
  id : String
  archiveId : String
  recordReference : String
  title : String
  priceCents : Int
  transcriptionistUserId : Option String
  createdAt : Nat
  deriving DecidableEq, Repr

inductive LedgerAccountOwnerType
  | user | archive | platform
  deriving DecidableEq, Repr

def LedgerAccountOwnerType.value : LedgerAccountOwnerType → String
  | .user => "user"
  | .archive => "archive"
  | .platform => "platform"

inductive LedgerAccountStatus
  | active | suspended | closed
  deriving DecidableEq, Repr

structure LedgerAccount where
  id : String
  ownerType : LedgerAccountOwnerType
  ownerUserId : Option String
  ownerArchiveId : Option String
  balanceCents : Int
  currency : String
  status : LedgerAccountStatus
  createdAt : Nat
  deriving DecidableEq, Repr

structure ApiClient where
  id : String
  name : String
  apiKeyHash : String
  isActive : Bool
  deriving DecidableEq, Repr

inductive AuthorizationStatus
  | pending | authorized | declined | expired
  deriving DecidableEq, Repr

def AuthorizationStatus.value : AuthorizationStatus → String
  | .pending => "pending"
  | .authorized => "authorized"
  | .declined => "declined"
  | .expired => "expired"

structure Authorization where
  id : String
  researchRecordId : String
  userId : String
  amountCents : Int
  externalReference : String
  declineReason : Option String
  status : AuthorizationStatus
  createdByClientId : Option String
  createdAt : Nat
  deriving DecidableEq, Repr

inductive SettlementStatus
  | settled | failed | reversed
  deriving DecidableEq, Repr

def SettlementStatus.value : SettlementStatus → String
  | .settled => "settled"
  | .failed => "failed"
  | .reversed => "reversed"

structure Settlement where
  id : String
  authorizationId : String
  settledAmountCents : Int
  status : SettlementStatus
  deriving DecidableEq, Repr

inductive TransactionType
  | debit | credit
  deriving DecidableEq, Repr

inductive TransactionStatus
  | pending | posted | reversed
  deriving DecidableEq, Repr

structure Transaction where
  id : String
  ledgerAccountId : String
  settlementId : String
  type : TransactionType
  amountCents : Int
  currency : String
  status : TransactionStatus
  createdAt : Nat
  deriving DecidableEq, Repr

structure ProcessedWebhookEvent where
  eventId : String
  eventType : String
  deriving DecidableEq, Repr

/-! ### `app/schemas` -/

structure UserCreate where
  name : String
  email : String
  role : UserRole
  deriving DecidableEq, Repr

structure HistoricalArchiveCreate where
  name : String
  description : Option String
  ownerUserId : Option String
  deriving DecidableEq, Repr

structure ResearchRecordCreate where
  archiveId : String
  recordReference : String
  title : String
  priceCents : Int
  transcriptionistUserId : Option String
  deriving DecidableEq, Repr

structure PurchaseRequest where
  researchRecordId : String
  userId : String
  deriving DecidableEq, Repr

/-- `TransactionRead` has the columns of `Transaction`, so the row itself stands for it. -/
structure PurchaseResult where
  authorizationId : String
  settlementId : String
  authorizationStatus : AuthorizationStatus
  settlementStatus : SettlementStatus
  recordId : String
  totalCents : Int
  archiveCents : Int
  transcriptionistCents : Int
  platformCents : Int
  createdByClientId : Option String
  transactions : List Transaction
  deriving DecidableEq, Repr

/-- `app/models/idempotency_key.py`.  The response body is the JSON text of a `PurchaseResult`; it is represented
by the result it is the text of (dumping and validating are inverse, and the text is never empty). -/
structure IdempotencyKey where
  key : String
  responseBody : Option PurchaseResult
  deriving DecidableEq, Repr

structure RefundResult where
  authorizationId : String
  settlementId : String
  settlementStatus : SettlementStatus
  refundedCents : Int
  reason : Option String
  transactions : List Transaction
  deriving DecidableEq, Repr

structure AccountDiscrepancy where
  ledgerAccountId : String
  ownerType : String
  storedBalanceCents : Int
  computedBalanceCents : Int
  driftCents : Int
  deriving DecidableEq, Repr

structure ReconciliationReport where
  accountsChecked : Nat
  discrepancies : List AccountDiscrepancy
  deriving DecidableEq, Repr

/-- A `decimal.Decimal`: `coefficient * 10 ^ exponent`. -/
structure Decimal where
  coefficient : Int
  exponent : Int
  deriving DecidableEq, Repr

structure CardAuthorizationEvent where
  eventType : String
  amount : Decimal
  recordId : String
  userId : Option String
  deriving DecidableEq, Repr

inductive ProcessorEventType
  | authorizationCreated | authorizationApproved | authorizationDeclined | settlementCompleted
  deriving DecidableEq, Repr

def ProcessorEventType.value : ProcessorEventType → String
  | .authorizationCreated => "authorization.created"
  | .authorizationApproved => "authorization.approved"
  | .authorizationDeclined => "authorization.declined"
  | .settlementCompleted => "settlement.completed"

/-- A value of the `data: dict` of an envelope, as far as the event schemas look into it. -/
inductive Value
  | str (s : String)
  | int (n : Int)
  | strs (l : List String)
  | obj (l : List (String × String))
  | other
  deriving DecidableEq, Repr

structure ProcessorEventEnvelope where
  eventId : String
  eventType : ProcessorEventType
  data : List (String × Value)
  deriving DecidableEq, Repr

structure MerchantReference where
  researchRecordId : String
  userId : String
  deriving DecidableEq, Repr

structure AuthorizationCreatedData where
  authorizationId : String
  merchantReference : MerchantReference
  amountCents : Int
  currency : String
  cardLast4 : String
  cardNetwork : String
  deriving DecidableEq, Repr

structure AuthorizationApprovedData where
  authorizationId : String
  deriving DecidableEq, Repr

structure AuthorizationDeclinedData where
  authorizationId : String
  declineReason : String
  deriving DecidableEq, Repr

structure SettlementCompletedData where
  settlementBatchId : String
  authorizationIds : List String
  totalAmountCents : Int
  deriving DecidableEq, Repr

/-! ### Exceptions -/

/-- The `detail` of an `HTTPException`: a text, or the error object of the webhook routes. -/
inductive Detail
  | text (s : String)
  | error (code message : String)
  deriving DecidableEq, Repr

/-- What the code raises or lets escape. -/
inductive Exc
  | valueError (msg : String)
  | validationError (msg : String)
  | unicodeDecodeError
  | typeError
  | overflowError
  | integrityError
  /-- a number outside the range of its column -/
  | dataError
  | operationalError
  | requestValidationError
  | httpException (status : Nat) (detail : Detail)
  deriving DecidableEq, Repr

/-- `except ValueError` catches pydantic's `ValidationError` and `UnicodeDecodeError` too, both subclasses of it;
the result is the text `str(exc)`. -/
def Exc.asValueError : Exc → Option String
  | .valueError msg => some msg
  | .validationError msg => some msg
  | .unicodeDecodeError => some "invalid utf-8"
  | _ => none

/-- `raise HTTPException(status_code=status, detail=str)`. -/
def httpError (status : Nat) (s : String) : Exc := .httpException status (.text s)

end GenPay
