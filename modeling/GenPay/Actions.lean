import GenPay.Tables

/-!
# What a committed job has done

An `Action` is what one committed session did to the database, in the words of the domain.  `Action.writes` is
the list of its statements, `Action.Grounded` what it had read before (each fact in some committed database that
one of its statements saw), and `Answers` relates it to the job and its response.
-/

namespace GenPay

open ReadCommitted

/-! ### Accounts by owner -/

def Db.userAccount (d : Db) (userId id : String) : Prop := ∃ a ∈ d.accounts, a.ownerUserId = some userId ∧ a.id = id

def Db.archiveAccount (d : Db) (archiveId id : String) : Prop :=
  ∃ a ∈ d.accounts, a.ownerArchiveId = some archiveId ∧ a.id = id

def Db.platformAccount (d : Db) (id : String) : Prop := ∃ a ∈ d.accounts, a.ownerType = .platform ∧ a.id = id

/-- An account as the creators insert it. -/
def LedgerAccount.IsNew (a : LedgerAccount) (ownerType : LedgerAccountOwnerType)
    (ownerUserId ownerArchiveId : Option String) : Prop :=
  a.ownerType = ownerType ∧ a.ownerUserId = ownerUserId ∧ a.ownerArchiveId = ownerArchiveId ∧ a.balanceCents = 0

/-! ### Postings -/

def Transaction.entry (t : Transaction) : LedgerEntry := ⟨t.ledgerAccountId, t.type, t.amountCents⟩

/-- The statements that post transactions. -/
def postings (ts : List Transaction) : List Write :=
  ts.flatMap fun t => [.insertTransaction t, .addBalance t.ledgerAccountId t.delta]

/-- `ts` are the posted rows of `entries` for one settlement. -/
structure Posted (settlementId : String) (entries : List LedgerEntry) (ts : List Transaction) : Prop where
  balanced : totalOf .debit entries = totalOf .credit entries
  rows : ts.map Transaction.entry = entries
  settlement : ∀ t ∈ ts, t.settlementId = settlementId
  status : ∀ t ∈ ts, t.status = .posted

/-- The statements that flag transactions. -/
def marks (ts : List Transaction) : List Write :=
  ts.filterMap fun t => if t.status ≠ .reversed then some (.setTransactionStatus t.id .reversed) else none

/-! ### Settled purchases -/

/-- A settlement with its entry set, and the rows it was computed from. -/
structure Purchase where
  authorization : Authorization
  record : ResearchRecord
  researcher : String
  archive : String
  transcriptionist : Option String
  platform : String
  split : RevenueSplitResult
  settlement : Settlement
  transactions : List Transaction

namespace Purchase

def shares (p : Purchase) : RevenueSplitResult := postedShares p.split p.transcriptionist

def entries (p : Purchase) : List LedgerEntry :=
  settlementEntries p.researcher p.archive p.transcriptionist p.platform p.authorization.amountCents p.shares

def result (p : Purchase) : PurchaseResult :=
  ⟨p.authorization.id, p.settlement.id, p.authorization.status, p.settlement.status, p.record.id,
    p.authorization.amountCents, p.shares.archiveCents, p.shares.transcriptionistCents, p.shares.platformCents,
    p.authorization.createdByClientId, p.transactions⟩

def writes (p : Purchase) : List Write := .insertSettlement p.settlement :: postings p.transactions

/-- What settling has checked and read, in the databases `ds`. -/
structure Grounded (env : Env) (ds : List Db) (p : Purchase) : Prop where
  authorized : p.authorization.status = .authorized
  record : ∃ d ∈ ds, p.record ∈ d.records ∧ p.record.id = p.authorization.researchRecordId
  split : splitAmount env.settings p.authorization.amountCents none = .ok p.split
  researcher : ∃ d ∈ ds, d.userAccount p.authorization.userId p.researcher
  archive : ∃ d ∈ ds, d.archiveAccount p.record.archiveId p.archive
  platform : ∃ d ∈ ds, d.platformAccount p.platform
  transcriptionist : ∀ id, p.transcriptionist = some id →
    ∃ u, p.record.transcriptionistUserId = some u ∧ u ≠ "" ∧ ∃ d ∈ ds, d.userAccount u id
  noTranscriptionist : p.transcriptionist = none → ∀ u, p.record.transcriptionistUserId = some u → u ≠ "" →
    ∃ d ∈ ds, ∀ id, ¬ d.userAccount u id
  settlement : p.settlement.authorizationId = p.authorization.id ∧
    p.settlement.settledAmountCents = p.authorization.amountCents ∧ p.settlement.status = .settled
  posted : Posted p.settlement.id p.entries p.transactions

theorem Grounded.mono {env : Env} {ds ds' : List Db} {p : Purchase} (h : p.Grounded env ds)
    (hs : ∀ d ∈ ds, d ∈ ds') : p.Grounded env ds' := by
  have mono : ∀ P : Db → Prop, (∃ d ∈ ds, P d) → ∃ d ∈ ds', P d := fun P ⟨d, hd, hP⟩ => ⟨d, hs d hd, hP⟩
  exact
    { authorized := h.authorized
      record := mono _ h.record
      split := h.split
      researcher := mono _ h.researcher
      archive := mono _ h.archive
      platform := mono _ h.platform
      transcriptionist := by
        intro id hid
        obtain ⟨u, hu, hne, hd⟩ := h.transcriptionist id hid
        exact ⟨u, hu, hne, mono _ hd⟩
      noTranscriptionist := fun hn u hu hne => mono _ (h.noTranscriptionist hn u hu hne)
      settlement := h.settlement
      posted := h.posted }

theorem mem_settlementEntries {r a : String} {t : Option String} {p : String} {n : Int} {s : RevenueSplitResult}
    {e : LedgerEntry} (h : e ∈ settlementEntries r a t p n s) :
    e.ledgerAccountId = r ∨ e.ledgerAccountId = a ∨ t = some e.ledgerAccountId ∨ e.ledgerAccountId = p := by
  simp only [settlementEntries, List.mem_append, List.mem_singleton] at h
  rcases h with ((rfl | h) | h) | h
  · exact Or.inl rfl
  · split at h
    · rw [List.mem_singleton] at h
      exact Or.inr (Or.inl (by rw [h]))
    · cases h
  · split at h
    · split at h
      · rw [List.mem_singleton] at h
        exact Or.inr (Or.inr (Or.inl (by rw [h])))
      · cases h
    · cases h
  · split at h
    · rw [List.mem_singleton] at h
      exact Or.inr (Or.inr (Or.inr (by rw [h])))
    · cases h

/-- The accounts a purchase posts to have been read. -/
theorem Grounded.account {env : Env} {ds : List Db} {p : Purchase} (h : p.Grounded env ds) {t : Transaction}
    (ht : t ∈ p.transactions) : ∃ d ∈ ds, t.ledgerAccountId ∈ d.column .accountsId := by
  have he : t.entry ∈ p.entries := by
    rw [← h.posted.rows]
    exact List.mem_map_of_mem ht
  have column : ∀ P : LedgerAccount → Prop, ∀ id, (∃ d ∈ ds, ∃ a ∈ d.accounts, P a ∧ a.id = id) →
      ∃ d ∈ ds, id ∈ d.column .accountsId := by
    rintro P _ ⟨d, hd, a, ha, -, rfl⟩
    exact ⟨d, hd, List.mem_map_of_mem (f := LedgerAccount.id) ha⟩
  rcases mem_settlementEntries he with he | he | he | he
  · exact column _ _ (he ▸ h.researcher)
  · exact column _ _ (he ▸ h.archive)
  · obtain ⟨u, -, -, hu⟩ := h.transcriptionist _ he
    exact column _ _ hu
  · exact column _ _ (he ▸ h.platform)

theorem writes_kind {p : Purchase} {w : Write} (h : w ∈ p.writes) :
    w.isEntity = false ∧ w.isAuthorization = false := by
  rcases List.mem_cons.1 h with rfl | h
  · exact ⟨rfl, rfl⟩
  · obtain ⟨t, -, ht⟩ := List.mem_flatMap.1 h
    rcases List.mem_pair.1 ht with rfl | rfl <;> exact ⟨rfl, rfl⟩

end Purchase

/-! ### Actions -/

inductive Action
  | quiet
  | user (u : User) (account : LedgerAccount)
  | archive (a : HistoricalArchive) (account : LedgerAccount)
  | record (r : ResearchRecord)
  | seeded (admin processor : ApiClient) (platform : LedgerAccount) (a : HistoricalArchive)
      (aAccount : LedgerAccount) (u : User) (uAccount : LedgerAccount) (v : User) (vAccount : LedgerAccount)
      (r : ResearchRecord)
  | purchase (key : Option String) (p : Purchase)
  | created (event : ProcessedWebhookEvent) (a : Authorization)
  | decided (event : ProcessedWebhookEvent) (a : Authorization) (status : AuthorizationStatus)
      (declineReason : Option String)
  | batch (event : ProcessedWebhookEvent) (ps : List Purchase)
  | refund (s : Settlement) (originals reversals : List Transaction)

namespace Action

def writes : Action → List Write
  | quiet => []
  | user u account => [.insertUser u, .insertAccount account]
  | archive a account => [.insertArchive a, .insertAccount account]
  | record r => [.insertRecord r]
  | seeded admin processor platform a aAccount u uAccount v vAccount r =>
    [.insertClient admin, .insertClient processor, .insertAccount platform, .insertArchive a,
      .insertAccount aAccount, .insertUser u, .insertAccount uAccount, .insertUser v, .insertAccount vAccount,
      .insertRecord r]
  | purchase none p => .insertAuthorization p.authorization :: p.writes
  | purchase (some key) p =>
    .insertIdempotencyKey ⟨key, none⟩ :: .insertAuthorization p.authorization :: p.writes ++
      [.setResponseBody key p.result]
  | created event a => [.insertEvent event, .insertAuthorization a]
  | decided event a status reason => [.insertEvent event, .setAuthorizationStatus a.id status reason]
  | batch event ps => .insertEvent event :: ps.flatMap Purchase.writes
  | refund s originals reversals =>
    postings reversals ++ marks originals ++ [.setSettlementStatus s.id .reversed]

/-- What an action has read and checked, in the databases `ds` its statements saw. -/
def Grounded (env : Env) (ds : List Db) : Action → Prop
  | quiet => True
  | user u account => account.IsNew .user (some u.id) none
  | archive a account => account.IsNew .archive none (some a.id)
  | record _ => True
  | seeded admin processor platform a aAccount u uAccount v vAccount _ =>
    (admin.name = internalAdminClientName ∧ admin.apiKeyHash = env.sha256 env.settings.internalApiKey ∧
      admin.isActive = true) ∧ processor.name = processorWebhookClientName ∧
    platform.IsNew .platform none none ∧ aAccount.IsNew .archive none (some a.id) ∧
    uAccount.IsNew .user (some u.id) none ∧ vAccount.IsNew .user (some v.id) none
  | purchase _ p => p.Grounded env ds
  | created _ a => a.status = .pending
  | decided _ a status _ =>
    (∃ d ∈ ds, a ∈ d.authorizations) ∧ a.status = .pending ∧ (status = .authorized ∨ status = .declined)
  | batch _ ps => ∀ p ∈ ps, p.Grounded env ds ∧ ∃ d ∈ ds, p.authorization ∈ d.authorizations
  | refund s originals reversals =>
    (∃ d d', [d, d'].Sublist ds ∧ s ∈ d.settlements ∧
      originals.Perm (d'.transactions.filter (·.settlementId == s.id))) ∧
    s.status = .settled ∧ Posted s.id (originals.map reversalEntry) reversals

/-- The actions that insert rows of the users, archives and records only. -/
def isEntity : Action → Bool
  | user .. | archive .. | record .. => true
  | _ => false

end Action

/-! ### Responses -/

/-- The API key of the request is that of an active client. -/
def KeyAccepted (env : Env) (r : Request) (d : Db) : Prop :=
  ∃ key, r.xApiKey = some key ∧ ∃ c ∈ d.clients, c.apiKeyHash = env.sha256 key ∧ c.isActive = true

/-- Reconciling accounts read first, each with the database that its own `SELECT` of transactions saw. -/
def discrepanciesOf : List LedgerAccount → List Db → List AccountDiscrepancy
  | a :: as, d :: ds =>
    let computed := ((d.counted a.id).map (·.delta)).sum
    if computed ≠ a.balanceCents then discrepancy a computed :: discrepanciesOf as ds else discrepanciesOf as ds
  | _, _ => []

/-- The report on the accounts of the first database, whose transactions are read in the following ones. -/
def Reports (report : ReconciliationReport) : List Db → Prop
  | [] => False
  | d :: ds => ∃ accounts : List LedgerAccount, accounts.Perm d.accounts ∧ ds.length = accounts.length ∧
      report = ⟨accounts.length, discrepanciesOf accounts ds⟩

/-- How a purchase request under a key is answered: from the stored response, or by a purchase of its own. -/
def AnswersPurchase (key : String) (result : PurchaseResult) (act : Action) (ds : List Db) : Prop :=
  (act = .quiet ∧ ∃ d ∈ ds, ⟨key, some result⟩ ∈ d.idempotencyKeys) ∨
    ∃ p, act = .purchase (some key) p ∧ result = p.result

/-- How the handler of an event acts. -/
def AnswersEvent (env : Env) (envelope : ProcessorEventEnvelope) (act : Action) : Prop :=
  match envelope.eventType with
  | .authorizationCreated => ∃ data a, env.validateCreated envelope.data = .ok data ∧
      a.externalReference = data.authorizationId ∧
      act = .created ⟨envelope.eventId, envelope.eventType.value⟩ a
  | .authorizationApproved => ∃ data a, env.validateApproved envelope.data = .ok data ∧
      a.externalReference = data.authorizationId ∧
      act = .decided ⟨envelope.eventId, envelope.eventType.value⟩ a .authorized none
  | .authorizationDeclined => ∃ data a, env.validateDeclined envelope.data = .ok data ∧
      a.externalReference = data.authorizationId ∧
      act = .decided ⟨envelope.eventId, envelope.eventType.value⟩ a .declined (some data.declineReason)
  | .settlementCompleted => ∃ data ps, env.validateSettlement envelope.data = .ok data ∧
      ps.map (·.authorization.externalReference) = data.authorizationIds ∧
      act = .batch ⟨envelope.eventId, envelope.eventType.value⟩ ps

/-- How a delivery to the processor webhook is answered. -/
def AnswersDelivery (env : Env) (rawBody : ByteArray) (a : Response) (act : Action) (ds : List Db) : Prop :=
  ∃ envelope, env.parseEnvelope rawBody = .ok envelope ∧
    ((act = .quiet ∧ a = .ignored envelope.eventId ∧ ∃ d ∈ ds, envelope.eventId ∈ d.column .eventsEventId) ∨
      ((∃ result, a = .processed envelope.eventId result) ∧ AnswersEvent env envelope act))

def AnswersRequest (env : Env) (r : Request) (a : Response) (act : Action) (ds : List Db) : Prop :=
  match r.route with
  | .createUser _ | .createArchive _ | .createRecord _ => (∃ d ∈ ds, KeyAccepted env r d) ∧ act.isEntity = true
  | .purchase _ key => (∃ d ∈ ds, KeyAccepted env r d) ∧
      ∃ k result, key = some k ∧ a = .purchase result ∧ AnswersPurchase k result act ds
  | .refundPurchase authorizationId _ => (∃ d ∈ ds, KeyAccepted env r d) ∧
      ∃ s originals reversals, s.authorizationId = authorizationId ∧ act = .refund s originals reversals
  | .cardAuthorization => ∃ p, a = .purchase p.result ∧ act = .purchase none p
  | .processorEvents => Verifies env env.settings.webhookSigningSecret r.clock r.xGenPaySignature r.rawBody ∧
      AnswersDelivery env r.rawBody a act ds
  | .getReconciliationReport => act = .quiet ∧ ∃ report, a = .report report ∧ Reports report ds.tail
  | _ => act = .quiet

def Answers (env : Env) (a : Response) (act : Action) (ds : List Db) : Job → Prop
  | .request r => AnswersRequest env r a act ds
  | .seed => match act with
    | .quiet => True
    | .seeded .. => True
    | _ => False
  | .reconcileScript => act = .quiet ∧ ∃ report,
      a = .exitCode (if report.discrepancies.isEmpty then 0 else 1) report ∧ Reports report ds

/-- What is known of a transaction that is about to commit. -/
def Committed (env : Env) (job : Job) (a : Response) (t : Txn Db Write) : Prop :=
  ∃ act : Action, t.writes = act.writes ∧ act.Grounded env t.seen ∧ Answers env a act t.seen job

end GenPay
