import GenPay.Repositories
import Mathlib.Algebra.Ring.Int.Defs

/-!
# The services

`app/services`: posting entries, settling and refunding a purchase, the handlers of processor events, the card
authorization path and reconciliation.
-/

namespace GenPay

open ReadCommitted

/-- `raise ValueError(msg)` -/
def valueError {β : Type} (msg : String) : Tx β := Prog.raise (.valueError msg)

/-- A result, or its exception. -/
def ofExcept {β : Type} : Except Exc β → Tx β
  | .ok a => .ret a
  | .error e => .raise e

/-- `try: p except ValueError as exc: raise h(str(exc))` -/
def exceptValueError {β : Type} (p : Tx β) (h : String → Exc) : Tx β :=
  p.tryCatch fun e => match e.asValueError with
    | some msg => Prog.raise (h msg)
    | none => Prog.raise e

/-! ### `ledger_service.py` -/

structure LedgerEntry where
  ledgerAccountId : String
  type : TransactionType
  amountCents : Int
  deriving DecidableEq, Repr

def totalOf (type : TransactionType) (entries : List LedgerEntry) : Int :=
  ((entries.filter (·.type == type)).map (·.amountCents)).sum

/-- What an entry adds to the balance of its account. -/
def LedgerEntry.delta (e : LedgerEntry) : Int := if e.type = .credit then e.amountCents else -e.amountCents

/-- The body of the posting loop. -/
def postEntry (settlementId : String) (entry : LedgerEntry) : Tx Transaction := do
  let txn ← TransactionRepository.create entry.ledgerAccountId settlementId entry.type entry.amountCents .posted
  let _ ← LedgerAccountRepository.adjustBalance entry.ledgerAccountId entry.delta
  return txn

def postEach (settlementId : String) : List LedgerEntry → Tx (List Transaction)
  | [] => return []
  | entry :: entries => do
    let txn ← postEntry settlementId entry
    let transactions ← postEach settlementId entries
    return txn :: transactions

def postEntries (settlementId : String) (entries : List LedgerEntry) : Tx (List Transaction) :=
  if totalOf .debit entries ≠ totalOf .credit entries then
    valueError s!"Unbalanced entries: debits={totalOf .debit entries} credits={totalOf .credit entries}"
  else postEach settlementId entries

/-! ### `payment_service.py` -/

/-- The entry set of a settlement on the accounts of these ids; a share of zero cents has no entry. -/
def settlementEntries (researcher archive : String) (transcriptionist : Option String) (platform : String)
    (totalCents : Int) (shares : RevenueSplitResult) : List LedgerEntry :=
  [⟨researcher, .debit, totalCents⟩] ++
  (if shares.archiveCents ≠ 0 then [⟨archive, .credit, shares.archiveCents⟩] else []) ++
  (match transcriptionist with
    | some account =>
      if shares.transcriptionistCents ≠ 0 then [⟨account, .credit, shares.transcriptionistCents⟩] else []
    | none => []) ++
  (if shares.platformCents ≠ 0 then [⟨platform, .credit, shares.platformCents⟩] else [])

/-- The account of the record's transcriptionist; the empty id is no transcriptionist. -/
def transcriptionistAccount (record : ResearchRecord) : Tx (Option LedgerAccount) :=
  match record.transcriptionistUserId.filter (· ≠ "") with
  | some userId => LedgerAccountRepository.getByOwnerUser userId
  | none => return none

/-- The shares posted: without a transcriptionist account their share goes to the platform. -/
def postedShares (split : RevenueSplitResult) (transcriptionist : Option String) : RevenueSplitResult :=
  match transcriptionist with
  | some _ => split
  | none => ⟨split.archiveCents, 0, split.platformCents + split.transcriptionistCents⟩

/-- `settle_authorization` from the checks on: the accounts, the settlement row and the entry set. -/
def settleChecked (env : Env) (authorization : Authorization) (record : ResearchRecord) (totalCents : Int)
    (splitConfig : Option RevenueSplitConfig) : Tx PurchaseResult := do
  let split ← ofExcept (splitAmount env.settings totalCents splitConfig)
  let researcher ← LedgerAccountRepository.getByOwnerUser authorization.userId
  let archive ← LedgerAccountRepository.getByOwnerArchive record.archiveId
  let platform ← LedgerAccountRepository.getPlatformAccount
  match researcher, archive, platform with
  | some researcher, some archive, some platform => do
    let transcriptionist ← transcriptionistAccount record
    let shares := postedShares split (transcriptionist.map (·.id))
    let settlement ← SettlementRepository.create authorization.id totalCents
    let transactions ← postEntries settlement.id (settlementEntries researcher.id archive.id
      (transcriptionist.map (·.id)) platform.id totalCents shares)
    return ⟨authorization.id, settlement.id, authorization.status, settlement.status, record.id, totalCents,
      shares.archiveCents, shares.transcriptionistCents, shares.platformCents, authorization.createdByClientId,
      transactions⟩
  | _, _, _ => valueError "Required ledger accounts are missing (researcher, archive, or platform)"

/-- `loaded` is the authorization row the session holds, if it has loaded it. -/
def settleAuthorization (env : Env) (loaded : Option Authorization) (authorizationId : String)
    (settledAmountCents : Option Int) (splitConfig : Option RevenueSplitConfig) : Tx PurchaseResult := do
  match ← AuthorizationRepository.get loaded authorizationId with
  | none => valueError s!"Authorization not found: {authorizationId}"
  | some authorization => do
    if authorization.status ≠ .authorized then
      valueError s!"Cannot settle authorization {authorizationId} in status '{authorization.status.value}'"
    else do
      match ← SettlementRepository.getByAuthorization authorizationId with
      | some _ => valueError s!"Authorization {authorizationId} has already been settled"
      | none => do
        match ← ResearchRecordRepository.get authorization.researchRecordId with
        | none => valueError s!"Research record not found: {authorization.researchRecordId}"
        | some record =>
          settleChecked env authorization record (settledAmountCents.getD authorization.amountCents) splitConfig

def purchaseRecord (env : Env) (researchRecordId userId : String) (amountCents : Option Int)
    (createdByClientId : Option String) : Tx PurchaseResult := do
  match ← ResearchRecordRepository.get researchRecordId with
  | none => valueError s!"Research record not found: {researchRecordId}"
  | some record => do
    match ← UserRepository.get userId with
    | none => valueError s!"User not found: {userId}"
    | some _ => do
      let authorization ← AuthorizationRepository.create researchRecordId userId
        (amountCents.getD record.priceCents) createdByClientId
      settleAuthorization env (some authorization) authorization.id none none

def opposite (type : TransactionType) : TransactionType := if type = .credit then .debit else .credit

/-- The entry that offsets a transaction. -/
def reversalEntry (txn : Transaction) : LedgerEntry := ⟨txn.ledgerAccountId, opposite txn.type, txn.amountCents⟩

def markEachReversed : List Transaction → Tx Unit
  | [] => return ()
  | txn :: txns => do
    let _ ← TransactionRepository.markReversed txn
    markEachReversed txns

def refundSettlement (authorizationId : String) (reason : Option String) : Tx RefundResult := do
  match ← AuthorizationRepository.get none authorizationId with
  | none => valueError s!"Authorization not found: {authorizationId}"
  | some authorization => do
    match ← SettlementRepository.getByAuthorization authorizationId with
    | none => valueError s!"Authorization {authorizationId} has not been settled; nothing to refund"
    | some settlement => do
      if settlement.status ≠ .settled then
        valueError s!"Cannot refund a settlement in status '{settlement.status.value}'"
      else do
        let originalTransactions ← TransactionRepository.listForSettlement settlement.id
        -- the status read above is not checked again, nor is the row locked
        let reversalTransactions ← postEntries settlement.id (originalTransactions.map reversalEntry)
        markEachReversed originalTransactions
        let settlement ← SettlementRepository.markReversed settlement
        return ⟨authorization.id, settlement.id, settlement.status, settlement.settledAmountCents, reason,
          reversalTransactions⟩

/-! ### `settlement_service.py` -/

/-- `n / 10 ^ k`, halves to even. -/
def roundHalfEven (n : Int) (k : Nat) : Int :=
  let q := n / 10 ^ k
  let r := n % 10 ^ k
  if 2 * r < 10 ^ k ∨ (2 * r = 10 ^ k ∧ q % 2 = 0) then q else q + 1

/-- The number of decimal digits of the coefficient. -/
def Decimal.digits (d : Decimal) : Nat := (Nat.toDigits 10 d.coefficient.natAbs).length

/-- A result under the default decimal context: 28 digits, halves to even, exponents up to 999999. -/
def Decimal.inContext (d : Decimal) : Except Exc Decimal :=
  let e := if d.digits ≤ 28 then d
    else ⟨roundHalfEven d.coefficient (d.digits - 28), d.exponent + (d.digits - 28 : Nat)⟩
  if e.coefficient ≠ 0 ∧ 999999 < e.exponent + e.digits - 1 then .error .overflowError else .ok e

/-- `round(d)`, halves to even. -/
def Decimal.round (d : Decimal) : Int :=
  if 0 ≤ d.exponent then d.coefficient * 10 ^ d.exponent.toNat
  else roundHalfEven d.coefficient (-d.exponent).toNat

/-- `round(amount * 100)` -/
def centsOf (amount : Decimal) : Except Exc Int :=
  match Decimal.inContext ⟨amount.coefficient * 100, amount.exponent⟩ with
  | .ok d => .ok d.round
  | .error e => .error e

example : centsOf ⟨599, -2⟩ = .ok 599 := by decide
example : centsOf ⟨2125, -3⟩ = .ok 212 := by decide

def processorWebhookClientName : String := "processor-webhook"
def internalAdminClientName : String := "internal-admin"

def settlingUser (event : CardAuthorizationEvent) : Tx String := do
  match event.userId with
  | some userId => return userId
  | none => do
    -- the first page only: `list_all` has its default limit
    let users ← UserRepository.listAll 50 0
    match (users.filter (·.role == .researcher)).head? with
    | some researcher => return researcher.id
    | none => valueError "No researcher account available to settle against"

def handleCardAuthorization (env : Env) (event : CardAuthorizationEvent) : Tx PurchaseResult := do
  if event.eventType ≠ "card_authorization" then
    valueError s!"Unsupported event_type: {event.eventType}"
  else do
    match ← ResearchRecordRepository.getByReference event.recordId with
    | none => valueError s!"Unknown record_id: {event.recordId}"
    | some record => do
      let userId ← settlingUser event
      let processorClient ← ApiClientRepository.getByName processorWebhookClientName
      let amountCents ← ofExcept (centsOf event.amount)
      purchaseRecord env record.id userId (some amountCents) (processorClient.map (·.id))

/-! ### `processor_event_service.py` -/

/-- What the event handlers return. -/
inductive EventResult
  | authorization (authorizationId : String) (status : AuthorizationStatus)
  | settlements (settlementBatchId : String) (results : List PurchaseResult)
  deriving DecidableEq, Repr

/-- `Model.model_validate(data)` -/
def modelValidate {β : Type} (r : Except String β) : Tx β :=
  match r with
  | .ok a => .ret a
  | .error msg => .raise (.validationError msg)

def requireAuthorization (processorAuthorizationId : String) : Tx Authorization := do
  match ← AuthorizationRepository.getByExternalReference processorAuthorizationId with
  | some authorization => return authorization
  | none => valueError s!"Unknown authorization_id: {processorAuthorizationId}"

def handleAuthorizationCreated (env : Env) (data : List (String × Value)) : Tx EventResult := do
  let payload ← modelValidate (env.validateCreated data)
  match ← AuthorizationRepository.getByExternalReference payload.authorizationId with
  | some _ => valueError s!"Authorization already exists: {payload.authorizationId}"
  | none => do
    match ← ResearchRecordRepository.get payload.merchantReference.researchRecordId with
    | none => valueError s!"Unknown research_record_id: {payload.merchantReference.researchRecordId}"
    | some _ => do
      match ← UserRepository.get payload.merchantReference.userId with
      | none => valueError s!"Unknown user_id: {payload.merchantReference.userId}"
      | some _ => do
        let processorClient ← ApiClientRepository.getByName processorWebhookClientName
        let authorization ← AuthorizationRepository.createPending payload.merchantReference.researchRecordId
          payload.merchantReference.userId payload.amountCents payload.authorizationId
          (processorClient.map (·.id))
        return .authorization authorization.id authorization.status

/-- The guard of the two decisions: only a pending authorization is approved or declined. -/
def requirePending (verb processorAuthorizationId : String) : Tx Authorization := do
  let authorization ← requireAuthorization processorAuthorizationId
  if authorization.status ≠ .pending then
    valueError s!"Cannot {verb} authorization {processorAuthorizationId} in status '{authorization.status.value}'"
  else return authorization

def handleAuthorizationApproved (env : Env) (data : List (String × Value)) : Tx EventResult := do
  let payload ← modelValidate (env.validateApproved data)
  let authorization ← requirePending "approve" payload.authorizationId
  let authorization ← AuthorizationRepository.markApproved authorization
  return .authorization authorization.id authorization.status

def handleAuthorizationDeclined (env : Env) (data : List (String × Value)) : Tx EventResult := do
  let payload ← modelValidate (env.validateDeclined data)
  let authorization ← requirePending "decline" payload.authorizationId
  let authorization ← AuthorizationRepository.markDeclined authorization payload.declineReason
  return .authorization authorization.id authorization.status

/-- The loop over `payload.authorization_ids`; settling finds the row that `requireAuthorization` has loaded. -/
def settleEach (env : Env) : List String → Tx (List PurchaseResult)
  | [] => return []
  | processorAuthorizationId :: ids => do
    let authorization ← requireAuthorization processorAuthorizationId
    let result ← settleAuthorization env (some authorization) authorization.id none none
    let results ← settleEach env ids
    return result :: results

def handleSettlementCompleted (env : Env) (data : List (String × Value)) : Tx EventResult := do
  let payload ← modelValidate (env.validateSettlement data)
  let results ← settleEach env payload.authorizationIds
  return .settlements payload.settlementBatchId results

/-- `_HANDLERS[event_type](db, data)` -/
def handler (env : Env) : ProcessorEventType → List (String × Value) → Tx EventResult
  | .authorizationCreated => handleAuthorizationCreated env
  | .authorizationApproved => handleAuthorizationApproved env
  | .authorizationDeclined => handleAuthorizationDeclined env
  | .settlementCompleted => handleSettlementCompleted env

def handleEvent (env : Env) (envelope : ProcessorEventEnvelope) : Tx EventResult :=
  (handler env envelope.eventType envelope.data).tryCatch fun e => match e with
    | .validationError msg => valueError s!"Invalid payload for {envelope.eventType.value}: {msg}"
    | e => Prog.raise e

/-! ### `reconciliation_service.py` -/

/-- What a transaction contributes to the balance of its account. -/
def Transaction.delta (t : Transaction) : Int := if t.type = .credit then t.amountCents else -t.amountCents

/-- The transactions that count for an account. -/
def Db.counted (d : Db) (ledgerAccountId : String) : List Transaction :=
  d.transactions.filter fun t => t.ledgerAccountId == ledgerAccountId && t.status != .pending

def computedBalance (ledgerAccountId : String) : Tx Int := do
  let transactions ← scalars Db.transactions fun t => t.ledgerAccountId == ledgerAccountId && t.status != .pending
  return (transactions.map (·.delta)).sum

def discrepancy (account : LedgerAccount) (computed : Int) : AccountDiscrepancy :=
  ⟨account.id, account.ownerType.value, account.balanceCents, computed, account.balanceCents - computed⟩

def reconcileEach : List LedgerAccount → Tx (List AccountDiscrepancy)
  | [] => return []
  | account :: accounts => do
    let computed ← computedBalance account.id
    let discrepancies ← reconcileEach accounts
    return if computed ≠ account.balanceCents then discrepancy account computed :: discrepancies else discrepancies

def reconcileAll : Tx ReconciliationReport := do
  let accounts ← scalars Db.accounts fun _ => true
  let discrepancies ← reconcileEach accounts
  return ⟨accounts.length, discrepancies⟩

/-! ### `user_service.py`, `archive_service.py`, `record_service.py` -/

def createUser (data : UserCreate) : Tx User := do
  let user ← UserRepository.create data
  let _ ← LedgerAccountRepository.createForUser user.id
  return user

def createArchive (data : HistoricalArchiveCreate) : Tx HistoricalArchive := do
  let archive ← HistoricalArchiveRepository.create data
  let _ ← LedgerAccountRepository.createForArchive archive.id
  return archive

def createRecord (data : ResearchRecordCreate) : Tx ResearchRecord := ResearchRecordRepository.create data

end GenPay
