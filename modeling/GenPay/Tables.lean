import GenPay.Api
import GenPay.ReadCommitted.Tables

/-!
# The tables of the database

The tables as `ReadCommitted.Table`s: what each write inserts and updates.  Only accounts, authorizations,
settlements, transactions and idempotency keys are ever updated, and each of them in few columns; what an update
keeps of a row is its `core`.
-/

namespace GenPay

open ReadCommitted

/-! ### Inserts and updates of single tables -/

namespace Write

def user? : Write → Option User
  | .insertUser r => some r
  | _ => none

def archive? : Write → Option HistoricalArchive
  | .insertArchive r => some r
  | _ => none

def record? : Write → Option ResearchRecord
  | .insertRecord r => some r
  | _ => none

def client? : Write → Option ApiClient
  | .insertClient r => some r
  | _ => none

def event? : Write → Option ProcessedWebhookEvent
  | .insertEvent r => some r
  | _ => none

def account? : Write → Option LedgerAccount
  | .insertAccount r => some r
  | _ => none

def authorization? : Write → Option Authorization
  | .insertAuthorization r => some r
  | _ => none

def settlement? : Write → Option Settlement
  | .insertSettlement r => some r
  | _ => none

def transaction? : Write → Option Transaction
  | .insertTransaction r => some r
  | _ => none

def idempotencyKey? : Write → Option IdempotencyKey
  | .insertIdempotencyKey r => some r
  | _ => none

def onAccount : Write → LedgerAccount → LedgerAccount
  | .addBalance id delta, a => if a.id = id then { a with balanceCents := a.balanceCents + delta } else a
  | _, a => a

def onAuthorization : Write → Authorization → Authorization
  | .setAuthorizationStatus id status reason, a =>
    if a.id = id then { a with status := status, declineReason := reason.orElse fun _ => a.declineReason } else a
  | _, a => a

def onSettlement : Write → Settlement → Settlement
  | .setSettlementStatus id status, s => if s.id = id then { s with status := status } else s
  | _, s => s

def onTransaction : Write → Transaction → Transaction
  | .setTransactionStatus id status, t => if t.id = id then { t with status := status } else t
  | _, t => t

def onIdempotencyKey : Write → IdempotencyKey → IdempotencyKey
  | .setResponseBody key body, k => if k.key = key then { k with responseBody := some body } else k
  | _, k => k

end Write

/-! ### The tables -/

section Instances

variable (fk : Bool)

def userTable : Table (engine fk) User where
  rows := Db.users
  inserted := Write.user?
  update _ r := r
  rows_apply d w := by cases w <;> simp [engine, Db.apply, Write.user?]

def archiveTable : Table (engine fk) HistoricalArchive where
  rows := Db.archives
  inserted := Write.archive?
  update _ r := r
  rows_apply d w := by cases w <;> simp [engine, Db.apply, Write.archive?]

def recordTable : Table (engine fk) ResearchRecord where
  rows := Db.records
  inserted := Write.record?
  update _ r := r
  rows_apply d w := by cases w <;> simp [engine, Db.apply, Write.record?]

def clientTable : Table (engine fk) ApiClient where
  rows := Db.clients
  inserted := Write.client?
  update _ r := r
  rows_apply d w := by cases w <;> simp [engine, Db.apply, Write.client?]

def eventTable : Table (engine fk) ProcessedWebhookEvent where
  rows := Db.events
  inserted := Write.event?
  update _ r := r
  rows_apply d w := by cases w <;> simp [engine, Db.apply, Write.event?]

def accountTable : Table (engine fk) LedgerAccount where
  rows := Db.accounts
  inserted := Write.account?
  update := Write.onAccount
  rows_apply d w := by
    cases w with
    | addBalance id delta => simp [engine, Db.apply, Write.account?, Write.onAccount, updateWhere]
    | _ =>
      show (Db.apply d _).accounts = d.accounts.map id ++ _
      simp [Db.apply, Write.account?]

def authorizationTable : Table (engine fk) Authorization where
  rows := Db.authorizations
  inserted := Write.authorization?
  update := Write.onAuthorization
  rows_apply d w := by
    cases w with
    | setAuthorizationStatus id status reason =>
      simp [engine, Db.apply, Write.authorization?, Write.onAuthorization, updateWhere]
    | _ =>
      show (Db.apply d _).authorizations = d.authorizations.map id ++ _
      simp [Db.apply, Write.authorization?]

def settlementTable : Table (engine fk) Settlement where
  rows := Db.settlements
  inserted := Write.settlement?
  update := Write.onSettlement
  rows_apply d w := by
    cases w with
    | setSettlementStatus id status =>
      simp [engine, Db.apply, Write.settlement?, Write.onSettlement, updateWhere]
    | _ =>
      show (Db.apply d _).settlements = d.settlements.map id ++ _
      simp [Db.apply, Write.settlement?]

def transactionTable : Table (engine fk) Transaction where
  rows := Db.transactions
  inserted := Write.transaction?
  update := Write.onTransaction
  rows_apply d w := by
    cases w with
    | setTransactionStatus id status =>
      simp [engine, Db.apply, Write.transaction?, Write.onTransaction, updateWhere]
    | _ =>
      show (Db.apply d _).transactions = d.transactions.map id ++ _
      simp [Db.apply, Write.transaction?]

def idempotencyKeyTable : Table (engine fk) IdempotencyKey where
  rows := Db.idempotencyKeys
  inserted := Write.idempotencyKey?
  update := Write.onIdempotencyKey
  rows_apply d w := by
    cases w with
    | setResponseBody key body =>
      simp [engine, Db.apply, Write.idempotencyKey?, Write.onIdempotencyKey, updateWhere]
    | _ =>
      show (Db.apply d _).idempotencyKeys = d.idempotencyKeys.map id ++ _
      simp [Db.apply, Write.idempotencyKey?]

end Instances

/-! ### What updates keep -/

def LedgerAccount.core (a : LedgerAccount) : LedgerAccount := { a with balanceCents := 0 }

def Authorization.core (a : Authorization) : Authorization := { a with status := .pending, declineReason := none }

def Settlement.core (s : Settlement) : Settlement := { s with status := .settled }

def Transaction.core (t : Transaction) : Transaction := { t with status := .posted }

/-- Rows with the same core agree in what the core keeps. -/
theorem of_core {α β : Type} {core : α → α} (f : α → β) {x y : α} (h : core x = core y)
    (hf : ∀ x, f (core x) = f x := by exact fun _ => rfl) : f x = f y := by
  rw [← hf x, h, hf y]

theorem Write.onAccount_core (w : Write) (a : LedgerAccount) : (w.onAccount a).core = a.core := by
  cases w with
  | addBalance id delta =>
    simp only [Write.onAccount]
    split <;> rfl
  | _ => rfl

theorem Write.onAccount_id (w : Write) (a : LedgerAccount) : (w.onAccount a).id = a.id :=
  of_core LedgerAccount.id (w.onAccount_core a)

theorem Write.onAuthorization_core (w : Write) (a : Authorization) : (w.onAuthorization a).core = a.core := by
  cases w with
  | setAuthorizationStatus id status reason =>
    simp only [Write.onAuthorization]
    split <;> rfl
  | _ => rfl

theorem Write.onSettlement_core (w : Write) (s : Settlement) : (w.onSettlement s).core = s.core := by
  cases w with
  | setSettlementStatus id status =>
    simp only [Write.onSettlement]
    split <;> rfl
  | _ => rfl

theorem Write.onTransaction_core (w : Write) (t : Transaction) : (w.onTransaction t).core = t.core := by
  cases w with
  | setTransactionStatus id status =>
    simp only [Write.onTransaction]
    split <;> rfl
  | _ => rfl

/-! ### The row an update changes -/

theorem Write.onAuthorization_cases (w : Write) (a : Authorization) :
    w.onAuthorization a = a ∨ ∃ status reason, w = .setAuthorizationStatus a.id status reason := by
  cases w with
  | setAuthorizationStatus id status reason =>
    simp only [Write.onAuthorization]
    split
    · rename_i hid
      exact Or.inr ⟨status, reason, by rw [hid]⟩
    · exact Or.inl rfl
  | _ => exact Or.inl rfl

theorem Write.onSettlement_cases (w : Write) (s : Settlement) :
    w.onSettlement s = s ∨ ∃ status, w = .setSettlementStatus s.id status := by
  cases w with
  | setSettlementStatus id status =>
    simp only [Write.onSettlement]
    split
    · rename_i hid
      exact Or.inr ⟨status, by rw [hid]⟩
    · exact Or.inl rfl
  | _ => exact Or.inl rfl

theorem Write.onTransaction_cases (w : Write) (t : Transaction) :
    w.onTransaction t = t ∨ ∃ status, w = .setTransactionStatus t.id status := by
  cases w with
  | setTransactionStatus id status =>
    simp only [Write.onTransaction]
    split
    · rename_i hid
      exact Or.inr ⟨status, by rw [hid]⟩
    · exact Or.inl rfl
  | _ => exact Or.inl rfl

theorem Write.onIdempotencyKey_cases (w : Write) (k : IdempotencyKey) :
    w.onIdempotencyKey k = k ∨ ∃ body, w = .setResponseBody k.key body := by
  cases w with
  | setResponseBody key body =>
    simp only [Write.onIdempotencyKey]
    split
    · rename_i hkey
      exact Or.inr ⟨body, by rw [hkey]⟩
    · exact Or.inl rfl
  | _ => exact Or.inl rfl

theorem Write.onIdempotencyKey_key (w : Write) (k : IdempotencyKey) : (w.onIdempotencyKey k).key = k.key := by
  cases w with
  | setResponseBody key body =>
    simp only [Write.onIdempotencyKey]
    split <;> rfl
  | _ => rfl

/-! ### Writes without entities -/

/-- The inserts of the tables that describe users, archives and records, and of their accounts. -/
def Write.isEntity : Write → Bool
  | .insertUser _ | .insertArchive _ | .insertRecord _ | .insertAccount _ | .insertClient _ => true
  | _ => false

/-- The writes of the authorizations table. -/
def Write.isAuthorization : Write → Bool
  | .insertAuthorization _ | .setAuthorizationStatus .. => true
  | _ => false

section View

variable {fk : Bool} {d : Db} {ws : List Write}

theorem view_records (h : ∀ w ∈ ws, w.isEntity = false) : ((engine fk).view d ws).records = d.records := by
  have hv : ((engine fk).view d ws).records = d.records ++ ws.filterMap Write.record? :=
    (recordTable fk).rows_view_of_untouched (fun _ _ _ => rfl) d
  have hnone : ws.filterMap Write.record? = [] := List.filterMap_eq_nil_iff.2 fun w hw => by
    have := h w hw
    cases w <;> first | rfl | simp [Write.isEntity] at this
  rw [hv, hnone, List.append_nil]

theorem view_accounts_core (h : ∀ w ∈ ws, w.isEntity = false) :
    ((engine fk).view d ws).accounts.map LedgerAccount.core = d.accounts.map LedgerAccount.core := by
  have hv : ((engine fk).view d ws).accounts.map LedgerAccount.core =
      d.accounts.map LedgerAccount.core ++ (ws.filterMap Write.account?).map LedgerAccount.core :=
    (accountTable fk).map_rows_view (fun w _ => w.onAccount_core) d
  have hnone : ws.filterMap Write.account? = [] := List.filterMap_eq_nil_iff.2 fun w hw => by
    have := h w hw
    cases w <;> first | rfl | simp [Write.isEntity] at this
  rw [hv, hnone, List.map_nil, List.append_nil]

theorem view_authorizations (h : ∀ w ∈ ws, w.isAuthorization = false) :
    ((engine fk).view d ws).authorizations = d.authorizations := by
  have hfix : ∀ w ∈ ws, ∀ a, Write.onAuthorization w a = a := fun w hw a => by
    have := h w hw
    cases w <;> first | rfl | simp [Write.isAuthorization] at this
  have hv : ((engine fk).view d ws).authorizations = d.authorizations ++ ws.filterMap Write.authorization? :=
    (authorizationTable fk).rows_view_of_untouched hfix d
  have hnone : ws.filterMap Write.authorization? = [] := List.filterMap_eq_nil_iff.2 fun w hw => by
    have := h w hw
    cases w <;> first | rfl | simp [Write.isAuthorization] at this
  rw [hv, hnone, List.append_nil]

end View

end GenPay
