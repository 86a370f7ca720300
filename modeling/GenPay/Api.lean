import GenPay.Signature

/-!
# The application

The routes of `app/api` and `main.py`, the seeding of `app/database/seed_data.py` and the script
`scripts/reconcile.py`.  `get_db` gives each of them a session of its own: a normal return commits, an exception
rolls back.  A response counts when its session has committed; FastAPI sends it before that.  `genPay` is the service
whose runs are all interleavings of such sessions.
-/

namespace GenPay

open ReadCommitted

structure RefundRequest where
  reason : Option String
  deriving DecidableEq, Repr

/-- The routes with their path, query and body parameters; the body `none` is JSON that does not validate.  A body that
is no JSON is left out: FastAPI answers it 422 before anything else, the key included. -/
inductive Route
  | listUsers (limit offset : Int)
  | createUser (data : Option UserCreate)
  | getUser (userId : String)
  | listArchives (limit offset : Int)
  | createArchive (data : Option HistoricalArchiveCreate)
  | getArchive (archiveId : String)
  | listRecords (limit offset : Int)
  | createRecord (data : Option ResearchRecordCreate)
  | getRecord (recordId : String)
  | listAccounts (limit offset : Int)
  | getAccount (accountId : String)
  | viewLedger (accountId : Option String) (limit offset : Int)
  | purchase (data : Option PurchaseRequest) (idempotencyKey : Option String)
  | getPurchase (authorizationId : String)
  | refundPurchase (authorizationId : String) (data : Option (Option RefundRequest))
  | cardAuthorization
  | processorEvents
  | getReconciliationReport
  | health
  deriving DecidableEq

/-- A request: its headers, its raw body, and what `time.time()` shows while it is handled. -/
structure Request where
  route : Route
  xApiKey : Option String
  xGenPaySignature : Option String
  rawBody : ByteArray
  clock : ℚ

inductive Response
  | user (r : User)
  | users (l : List User)
  | archive (r : HistoricalArchive)
  | archives (l : List HistoricalArchive)
  | record (r : ResearchRecord)
  | records (l : List ResearchRecord)
  | account (r : LedgerAccount)
  | accounts (l : List LedgerAccount)
  | transactions (l : List Transaction)
  | purchase (r : PurchaseResult)
  | purchaseDetail (r : Authorization)
  | refund (r : RefundResult)
  | ignored (eventId : String)
  | processed (eventId : String) (result : EventResult)
  | report (r : ReconciliationReport)
  | health
  | seeded
  | exitCode (code : Nat) (report : ReconciliationReport)
  deriving DecidableEq, Repr

/-- What runs in a session of its own. -/
inductive Job
  | request (r : Request)
  | seed
  | reconcileScript

/-! ### `deps.py` -/

def requireApiKey (env : Env) (xApiKey : Option String) : Tx ApiClient := do
  match xApiKey with
  | none => Prog.raise (httpError 401 "Invalid or missing X-API-Key")
  | some key => do
    match ← ApiClientRepository.getByKey env key with
    | some client =>
      if client.isActive then return client
      else Prog.raise (httpError 401 "Invalid or missing X-API-Key")
    | none => Prog.raise (httpError 401 "Invalid or missing X-API-Key")

/-- A validated parameter, or the 422 of FastAPI. -/
def validated {β : Type} : Option β → Tx β
  | some a => return a
  | none => Prog.raise .requestValidationError

/-- `limit: int = Query(default=50, ge=1, le=200), offset: int = Query(default=0, ge=0)` -/
def paging (limit offset : Int) : Tx (Nat × Nat) :=
  if 1 ≤ limit ∧ limit ≤ 200 ∧ 0 ≤ offset then return (limit.toNat, offset.toNat)
  else Prog.raise .requestValidationError

/-- A row, or 404. -/
def found {β : Type} (what : String) : Option β → Tx β
  | some a => return a
  | none => Prog.raise (httpError 404 s!"{what} not found")

/-! ### `payments.py` -/

/-- `purchase` once the key is claimed. -/
def purchaseClaimed (env : Env) (data : PurchaseRequest) (idempotencyKey : String) (client : ApiClient) :
    Tx PurchaseResult := do
  let result ← exceptValueError
    (purchaseRecord env data.researchRecordId data.userId none (some client.id)) (httpError 400)
  IdempotencyKeyRepository.storeResult idempotencyKey result
  return result

def purchase (env : Env) (data : PurchaseRequest) (idempotencyKey : String) (client : ApiClient) :
    Tx PurchaseResult := do
  match ← IdempotencyKeyRepository.get idempotencyKey with
  | some cached => return cached
  | none => do
    if ← IdempotencyKeyRepository.tryClaim idempotencyKey then purchaseClaimed env data idempotencyKey client
    else Prog.raise (httpError 409 "A request with this Idempotency-Key is already in progress or has completed")

def refundPurchase (authorizationId : String) (data : Option RefundRequest) : Tx RefundResult :=
  exceptValueError (refundSettlement authorizationId (data.bind (·.reason))) (httpError 400)

/-! ### `webhooks.py` -/

def cardAuthorization (env : Env) (rawBody : ByteArray) : Tx PurchaseResult :=
  match env.parseCardAuthorization rawBody with
  | .error msg => Prog.raise (httpError 422 msg)
  | .ok event => exceptValueError (handleCardAuthorization env event) (httpError 400)

/-- `processor_events` once the event is claimed. -/
def processClaimed (env : Env) (envelope : ProcessorEventEnvelope) : Tx Response := do
  let result ← exceptValueError (handleEvent env envelope)
    fun msg => .httpException 400 (.error "event_processing_failed" msg)
  return .processed envelope.eventId result

/-- `processor_events` once the envelope is parsed. -/
def processEnvelope (env : Env) (envelope : ProcessorEventEnvelope) : Tx Response := do
  if ← ProcessedWebhookEventRepository.tryClaim envelope.eventId envelope.eventType.value then
    processClaimed env envelope
  else return .ignored envelope.eventId

def processorEvents (env : Env) (rawBody : ByteArray) : Tx Response :=
  match env.parseEnvelope rawBody with
  | .error _ =>
    Prog.raise (.httpException 400 (.error "malformed_payload" "Could not parse webhook payload"))
  | .ok envelope => processEnvelope env envelope

/-! ### The routes -/

/-- A route behind `Depends(require_api_key)`. -/
def withApiKey {β : Type} (env : Env) (r : Request) (p : ApiClient → Tx β) : Tx β := do
  let client ← requireApiKey env r.xApiKey
  p client

def respond {β : Type} (f : β → Response) (p : Tx β) : Tx Response := do
  let a ← p
  return f a

def route (env : Env) (r : Request) : Tx Response :=
  match r.route with
  | .listUsers limit offset => withApiKey env r fun _ => respond .users do
      let (limit, offset) ← paging limit offset
      UserRepository.listAll limit offset
  | .createUser data => withApiKey env r fun _ => respond .user do
      createUser (← validated data)
  | .getUser userId => withApiKey env r fun _ => respond .user do
      found "User" (← UserRepository.get userId)
  | .listArchives limit offset => respond .archives do
      let (limit, offset) ← paging limit offset
      HistoricalArchiveRepository.listAll limit offset
  | .createArchive data => withApiKey env r fun _ => respond .archive do
      createArchive (← validated data)
  | .getArchive archiveId => respond .archive do
      found "Archive" (← HistoricalArchiveRepository.get archiveId)
  | .listRecords limit offset => respond .records do
      let (limit, offset) ← paging limit offset
      ResearchRecordRepository.listAll limit offset
  | .createRecord data => withApiKey env r fun _ => respond .record do
      createRecord (← validated data)
  | .getRecord recordId => respond .record do
      found "Record" (← ResearchRecordRepository.get recordId)
  | .listAccounts limit offset => withApiKey env r fun _ => respond .accounts do
      let (limit, offset) ← paging limit offset
      LedgerAccountRepository.listAll limit offset
  | .getAccount accountId => withApiKey env r fun _ => respond .account do
      found "Account" (← LedgerAccountRepository.get accountId)
  | .viewLedger accountId limit offset => withApiKey env r fun _ => respond .transactions do
      let (limit, offset) ← paging limit offset
      TransactionRepository.listAll accountId limit offset
  | .purchase data idempotencyKey => withApiKey env r fun client => respond .purchase do
      purchase env (← validated data) (← validated idempotencyKey) client
  | .getPurchase authorizationId => withApiKey env r fun _ => respond .purchaseDetail do
      found "Purchase" (← AuthorizationRepository.get none authorizationId)
  | .refundPurchase authorizationId data => withApiKey env r fun _ => respond .refund do
      refundPurchase authorizationId (← validated data)
  | .cardAuthorization => respond .purchase (cardAuthorization env r.rawBody)
  | .processorEvents => do
      let rawBody ← ofExcept
        (verify env env.settings.webhookSigningSecret r.clock r.xGenPaySignature r.rawBody)
      processorEvents env rawBody
  | .getReconciliationReport => withApiKey env r fun _ => respond .report reconcileAll
  | .health => return .health

/-- A delivery whose signature verifies and whose body parses. -/
theorem route_processorEvents {env : Env} {r : Request} {rawBody : ByteArray} {envelope : ProcessorEventEnvelope}
    (hr : r.route = .processorEvents)
    (hv : verify env env.settings.webhookSigningSecret r.clock r.xGenPaySignature r.rawBody = .ok rawBody)
    (hp : env.parseEnvelope rawBody = .ok envelope) : route env r = processEnvelope env envelope := by
  unfold route
  rw [hr]
  show (ofExcept (verify env _ _ _ _) >>= processorEvents env) = _
  rw [hv]
  show processorEvents env rawBody = _
  unfold processorEvents
  rw [hp]

/-! ### `seed_data.py` and `scripts/reconcile.py` -/

/-- The rows of the `try` block. -/
def seedRows (env : Env) : Tx Response := do
  let _ ← ApiClientRepository.create env internalAdminClientName env.settings.internalApiKey
  let key ← draw
  let _ ← ApiClientRepository.create env processorWebhookClientName key.uuid
  let _ ← LedgerAccountRepository.createPlatformAccount
  let archive ← createArchive
    ⟨"National Census Archive", some "Digitized census records for genealogy research.", none⟩
  let transcriptionist ← createUser ⟨"Mark Reyes", "mark@example.com", .transcriptionist⟩
  let _ ← createUser ⟨"Jane Ancestry", "jane@example.com", .researcher⟩
  let _ ← createRecord
    ⟨archive.id, "CENSUS-1880-004", "1880 Census, District 4", 599, some transcriptionist.id⟩
  return .seeded

/-- `seed` has its own session, which it commits itself. -/
def seed (env : Env) : Tx Response := do
  match ← LedgerAccountRepository.getPlatformAccount with
  | some _ => return .seeded
  | none => (seedRows env).tryCatch fun e => match e with
    | .integrityError => Prog.rollback (Prog.ret .seeded)
    | e => Prog.raise e

/-- `main` of the script; the exit code is 0 iff the report is clean. -/
def reconcileScript : Tx Response := do
  let report ← reconcileAll
  return .exitCode (if report.discrepancies.isEmpty then 0 else 1) report

def handle (env : Env) : Job → Tx Response
  | .request r => route env r
  | .seed => seed env
  | .reconcileScript => reconcileScript

def genPay (env : Env) : Service Db Write Exc Choice Job Response :=
  { engine env.foreignKeys with handle := handle env }

end GenPay
