import GenPay.Database
import GenPay.RevenueSplit

/-!
# The repositories

`app/repositories`, one namespace a module.  A `flush` sends the pending write; the `refresh` after it reads the
row back and is left out.  `db.get` answers from the session's identity map where the row is already loaded: such
functions take the loaded row.
-/

namespace GenPay

open ReadCommitted

/-- What the code takes from outside `app`: the settings, whether the engine checks foreign keys, the digests of
`hashlib` and `hmac` (as hex text) and pydantic's validation of JSON text and of an event's `data`; the text of an
`Except` is `str(exc)` of the `ValidationError`. -/
structure Env where
  settings : Settings
  foreignKeys : Bool
  sha256 : String → String
  hmacSha256 : String → String → String
  parseCardAuthorization : ByteArray → Except String CardAuthorizationEvent
  parseEnvelope : ByteArray → Except String ProcessorEventEnvelope
  validateCreated : List (String × Value) → Except String AuthorizationCreatedData
  validateApproved : List (String × Value) → Except String AuthorizationApprovedData
  validateDeclined : List (String × Value) → Except String AuthorizationDeclinedData
  validateSettlement : List (String × Value) → Except String SettlementCompletedData

/-! ### Statements -/

/-- What the next statement draws on. -/
def draw : Tx Choice := Prog.query fun c _ => c

/-- `db.scalars(select(table).where(p))` -/
def scalars {β : Type} (table : Db → List β) (p : β → Bool) : Tx (List β) :=
  Prog.query fun c d => c.arrange ((table d).filter p)

/-- `db.scalar(select(table).where(p))`: the first row, if there is one. -/
def scalar {β : Type} (table : Db → List β) (p : β → Bool) : Tx (Option β) :=
  Prog.query fun c d => (c.arrange ((table d).filter p)).head?

/-- `select(table).where(p).order_by(created_at).limit(limit).offset(offset)` -/
def page {β : Type} (table : Db → List β) (createdAt : β → Nat) (p : β → Bool) (limit offset : Nat) : Tx (List β) :=
  Prog.query fun c d => (((c.arrange ((table d).filter p)).insertionSort
    fun r r' => createdAt r ≤ createdAt r').drop offset).take limit

namespace UserRepository

def create (data : UserCreate) : Tx User := do
  let c ← draw
  let user : User := ⟨c.uuid, data.name, data.email, data.role, c.now⟩
  Prog.exec (.insertUser user)
  return user

def get (userId : String) : Tx (Option User) := scalar Db.users (·.id == userId)

def listAll (limit offset : Nat) : Tx (List User) := page Db.users (·.createdAt) (fun _ => true) limit offset

end UserRepository

namespace HistoricalArchiveRepository

def create (data : HistoricalArchiveCreate) : Tx HistoricalArchive := do
  let c ← draw
  let archive : HistoricalArchive := ⟨c.uuid, data.name, data.description, data.ownerUserId, c.now⟩
  Prog.exec (.insertArchive archive)
  return archive

def get (archiveId : String) : Tx (Option HistoricalArchive) := scalar Db.archives (·.id == archiveId)

def listAll (limit offset : Nat) : Tx (List HistoricalArchive) :=
  page Db.archives (·.createdAt) (fun _ => true) limit offset

end HistoricalArchiveRepository

namespace ResearchRecordRepository

def create (data : ResearchRecordCreate) : Tx ResearchRecord := do
  let c ← draw
  let record : ResearchRecord :=
    ⟨c.uuid, data.archiveId, data.recordReference, data.title, data.priceCents, data.transcriptionistUserId, c.now⟩
  Prog.exec (.insertRecord record)
  return record

def get (recordId : String) : Tx (Option ResearchRecord) := scalar Db.records (·.id == recordId)

def getByReference (recordReference : String) : Tx (Option ResearchRecord) :=
  scalar Db.records (·.recordReference == recordReference)

def listAll (limit offset : Nat) : Tx (List ResearchRecord) :=
  page Db.records (·.createdAt) (fun _ => true) limit offset

end ResearchRecordRepository

namespace ApiClientRepository

def hashKey (env : Env) (rawKey : String) : String := env.sha256 rawKey

def create (env : Env) (name rawKey : String) : Tx ApiClient := do
  let c ← draw
  let client : ApiClient := ⟨c.uuid, name, hashKey env rawKey, true⟩
  Prog.exec (.insertClient client)
  return client

def getByKey (env : Env) (rawKey : String) : Tx (Option ApiClient) :=
  scalar Db.clients (·.apiKeyHash == hashKey env rawKey)

def getByName (name : String) : Tx (Option ApiClient) := scalar Db.clients (·.name == name)

end ApiClientRepository

namespace LedgerAccountRepository

/-- The three creators: an active account without money, in the default currency. -/
def createAccount (ownerType : LedgerAccountOwnerType) (ownerUserId ownerArchiveId : Option String) :
    Tx LedgerAccount := do
  let c ← draw
  let account : LedgerAccount := ⟨c.uuid, ownerType, ownerUserId, ownerArchiveId, 0, "USD", .active, c.now⟩
  Prog.exec (.insertAccount account)
  return account

def createForUser (userId : String) : Tx LedgerAccount := createAccount .user (some userId) none

def createForArchive (archiveId : String) : Tx LedgerAccount := createAccount .archive none (some archiveId)

def createPlatformAccount : Tx LedgerAccount := createAccount .platform none none

def get (accountId : String) : Tx (Option LedgerAccount) := scalar Db.accounts (·.id == accountId)

def getByOwnerUser (userId : String) : Tx (Option LedgerAccount) :=
  scalar Db.accounts (·.ownerUserId == some userId)

def getByOwnerArchive (archiveId : String) : Tx (Option LedgerAccount) :=
  scalar Db.accounts (·.ownerArchiveId == some archiveId)

def getPlatformAccount : Tx (Option LedgerAccount) := scalar Db.accounts (·.ownerType == .platform)

def listAll (limit offset : Nat) : Tx (List LedgerAccount) :=
  page Db.accounts (·.createdAt) (fun _ => true) limit offset

def adjustBalance (accountId : String) (deltaCents : Int) : Tx LedgerAccount := do
  Prog.exec (.addBalance accountId deltaCents)
  match ← get accountId with
  | some account => return account
  | none => Prog.raise (.valueError s!"Ledger account not found: {accountId}")

end LedgerAccountRepository

namespace AuthorizationRepository

/-- `uuid.uuid4().hex[:12]` -/
def shortHex (uuid : String) : String := String.ofList ((uuid.toList.filter (· ≠ '-')).take 12)

def create (researchRecordId userId : String) (amountCents : Int) (createdByClientId : Option String) :
    Tx Authorization := do
  let reference ← draw
  let c ← draw
  let authorization : Authorization := ⟨c.uuid, researchRecordId, userId, amountCents,
    "sim_card_auth_" ++ shortHex reference.uuid, none, .authorized, createdByClientId, c.now⟩
  Prog.exec (.insertAuthorization authorization)
  return authorization

def createPending (researchRecordId userId : String) (amountCents : Int) (externalReference : String)
    (createdByClientId : Option String) : Tx Authorization := do
  let c ← draw
  let authorization : Authorization := ⟨c.uuid, researchRecordId, userId, amountCents, externalReference, none,
    .pending, createdByClientId, c.now⟩
  Prog.exec (.insertAuthorization authorization)
  return authorization

def markApproved (authorization : Authorization) : Tx Authorization := do
  Prog.exec (.setAuthorizationStatus authorization.id .authorized none)
  return { authorization with status := .authorized }

def markDeclined (authorization : Authorization) (reason : String) : Tx Authorization := do
  Prog.exec (.setAuthorizationStatus authorization.id .declined (some reason))
  return { authorization with status := .declined, declineReason := some reason }

/-- `db.get`: the row the session has loaded under this id, or else a `SELECT`. -/
def get (loaded : Option Authorization) (authorizationId : String) : Tx (Option Authorization) :=
  match loaded.filter (·.id == authorizationId) with
  | some authorization => return some authorization
  | none => scalar Db.authorizations (·.id == authorizationId)

def getByExternalReference (externalReference : String) : Tx (Option Authorization) :=
  scalar Db.authorizations (·.externalReference == externalReference)

end AuthorizationRepository

namespace SettlementRepository

def create (authorizationId : String) (settledAmountCents : Int) : Tx Settlement := do
  let c ← draw
  let settlement : Settlement := ⟨c.uuid, authorizationId, settledAmountCents, .settled⟩
  Prog.exec (.insertSettlement settlement)
  return settlement

def getByAuthorization (authorizationId : String) : Tx (Option Settlement) :=
  scalar Db.settlements (·.authorizationId == authorizationId)

def markReversed (settlement : Settlement) : Tx Settlement := do
  Prog.exec (.setSettlementStatus settlement.id .reversed)
  return { settlement with status := .reversed }

end SettlementRepository

namespace TransactionRepository

def create (ledgerAccountId settlementId : String) (type : TransactionType) (amountCents : Int)
    (status : TransactionStatus) : Tx Transaction := do
  let c ← draw
  let txn : Transaction := ⟨c.uuid, ledgerAccountId, settlementId, type, amountCents, "USD", status, c.now⟩
  Prog.exec (.insertTransaction txn)
  return txn

def listAll (ledgerAccountId : Option String) (limit offset : Nat) : Tx (List Transaction) :=
  match ledgerAccountId.filter (· ≠ "") with
  | some id => page Db.transactions (·.createdAt) (·.ledgerAccountId == id) limit offset
  | none => page Db.transactions (·.createdAt) (fun _ => true) limit offset

def listForSettlement (settlementId : String) : Tx (List Transaction) :=
  scalars Db.transactions (·.settlementId == settlementId)

/-- `db.get` finds the row that `listForSettlement` has loaded; a row loaded as reversed has no change to flush. -/
def markReversed (loaded : Transaction) : Tx Transaction := do
  if loaded.status ≠ .reversed then
    Prog.exec (.setTransactionStatus loaded.id .reversed)
  return { loaded with status := .reversed }

end TransactionRepository

namespace IdempotencyKeyRepository

def get (key : String) : Tx (Option PurchaseResult) := do
  match ← scalar Db.idempotencyKeys (·.key == key) with
  -- also none where the key is claimed and has no response yet
  | some record => return record.responseBody
  | none => return none

def tryClaim (key : String) : Tx Bool :=
  Prog.write (.insertIdempotencyKey ⟨key, none⟩) fun r => match r with
    | none => Prog.ret true
    -- `db.rollback()`: what follows runs in a transaction without writes
    | some .integrityError => Prog.rollback (Prog.ret false)
    | some e => Prog.raise e

def storeResult (key : String) (responseBody : PurchaseResult) : Tx Unit := do
  match ← scalar Db.idempotencyKeys (·.key == key) with
  | some record => Prog.exec (.setResponseBody record.key responseBody)
  | none => Prog.raise (.valueError s!"No claim exists for idempotency key: {key}")

end IdempotencyKeyRepository

namespace ProcessedWebhookEventRepository

def tryClaim (eventId eventType : String) : Tx Bool :=
  Prog.write (.insertEvent ⟨eventId, eventType⟩) fun r => match r with
    | none => Prog.ret true
    | some .integrityError => Prog.rollback (Prog.ret false)
    | some e => Prog.raise e

end ProcessedWebhookEventRepository

end GenPay
