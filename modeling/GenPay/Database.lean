import GenPay.Models
import GenPay.ReadCommitted.Serial
import Mathlib.Algebra.Ring.Int.Defs
import Mathlib.Logic.Equiv.Fin.Basic
import Mathlib.Data.List.FinRange

/-!
# The database

The tables, the single-row writes the ORM sends, and the constraints of `app/models`: primary keys, unique
columns, the owner check of `ledger_accounts`, and foreign keys where the engine enforces them (PostgreSQL does,
SQLite does not unless asked).  An `UPDATE` locks its row and an insert its unique values until the transaction
ends.

`apply` and `violation` take the cents columns for integers of any size.  PostgreSQL's `INTEGER` ends at 2 ^ 31 - 1
and refuses the writes that do not fit (`Write.fits`): such an engine is the service `bounded`, whose runs reach no
other databases (`bounded_run`).  What holds in every state that a run reaches holds with it; that a request is
answered is said without it, but for settling (`authorized_settles`), and `adjusted_in_range` says when the balances
fit.
-/

namespace GenPay

open ReadCommitted

structure Db where
  users : List User
  archives : List HistoricalArchive
  records : List ResearchRecord
  accounts : List LedgerAccount
  clients : List ApiClient
  authorizations : List Authorization
  settlements : List Settlement
  transactions : List Transaction
  idempotencyKeys : List IdempotencyKey
  events : List ProcessedWebhookEvent
  deriving DecidableEq

/-- The tables after `create_all`. -/
def Db.empty : Db := ⟨[], [], [], [], [], [], [], [], [], []⟩

/-- An `INSERT` of one row, or an `UPDATE` of one row by primary key. -/
inductive Write
  | insertUser (r : User)
  | insertArchive (r : HistoricalArchive)
  | insertRecord (r : ResearchRecord)
  | insertAccount (r : LedgerAccount)
  | insertClient (r : ApiClient)
  | insertAuthorization (r : Authorization)
  | insertSettlement (r : Settlement)
  | insertTransaction (r : Transaction)
  | insertIdempotencyKey (r : IdempotencyKey)
  | insertEvent (r : ProcessedWebhookEvent)
  /-- `SET balance_cents = balance_cents + delta` -/
  | addBalance (id : String) (delta : Int)
  /-- `SET status = status`, and `decline_reason` if one is given -/
  | setAuthorizationStatus (id : String) (status : AuthorizationStatus) (declineReason : Option String)
  | setSettlementStatus (id : String) (status : SettlementStatus)
  | setTransactionStatus (id : String) (status : TransactionStatus)
  | setResponseBody (key : String) (body : PurchaseResult)
  deriving DecidableEq

/-- `UPDATE ... WHERE p`. -/
def updateWhere {β : Type} (p : β → Bool) (f : β → β) (l : List β) : List β :=
  l.map fun r => if p r then f r else r

def Db.apply (d : Db) : Write → Db
  | .insertUser r => { d with users := d.users ++ [r] }
  | .insertArchive r => { d with archives := d.archives ++ [r] }
  | .insertRecord r => { d with records := d.records ++ [r] }
  | .insertAccount r => { d with accounts := d.accounts ++ [r] }
  | .insertClient r => { d with clients := d.clients ++ [r] }
  | .insertAuthorization r => { d with authorizations := d.authorizations ++ [r] }
  | .insertSettlement r => { d with settlements := d.settlements ++ [r] }
  | .insertTransaction r => { d with transactions := d.transactions ++ [r] }
  | .insertIdempotencyKey r => { d with idempotencyKeys := d.idempotencyKeys ++ [r] }
  | .insertEvent r => { d with events := d.events ++ [r] }
  | .addBalance id delta =>
    { d with
      accounts := updateWhere (·.id == id) (fun a => { a with balanceCents := a.balanceCents + delta }) d.accounts }
  | .setAuthorizationStatus id status reason =>
    { d with
      authorizations := updateWhere (·.id == id)
        (fun a => { a with status := status, declineReason := reason.orElse fun _ => a.declineReason })
        d.authorizations }
  | .setSettlementStatus id status =>
    { d with settlements := updateWhere (·.id == id) (fun s => { s with status := status }) d.settlements }
  | .setTransactionStatus id status =>
    { d with transactions := updateWhere (·.id == id) (fun t => { t with status := status }) d.transactions }
  | .setResponseBody key body =>
    { d with
      idempotencyKeys := updateWhere (·.key == key) (fun k => { k with responseBody := some body })
        d.idempotencyKeys }

/-! ### Constraints -/

/-- The columns with a unique constraint. -/
inductive Column
  | usersId | usersEmail | archivesId | recordsId | recordsReference
  | accountsId | accountsOwnerUser | accountsOwnerArchive
  | clientsId | clientsName | clientsKeyHash
  | authorizationsId | authorizationsExternalReference
  | settlementsId | settlementsAuthorization | transactionsId
  | idempotencyKeysKey | eventsEventId
  deriving DecidableEq, Repr

/-- The values of a unique column; `NULL` is no value. -/
def Db.column (d : Db) : Column → List String
  | .usersId => d.users.map (·.id)
  | .usersEmail => d.users.map (·.email)
  | .archivesId => d.archives.map (·.id)
  | .recordsId => d.records.map (·.id)
  | .recordsReference => d.records.map (·.recordReference)
  | .accountsId => d.accounts.map (·.id)
  | .accountsOwnerUser => d.accounts.filterMap (·.ownerUserId)
  | .accountsOwnerArchive => d.accounts.filterMap (·.ownerArchiveId)
  | .clientsId => d.clients.map (·.id)
  | .clientsName => d.clients.map (·.name)
  | .clientsKeyHash => d.clients.map (·.apiKeyHash)
  | .authorizationsId => d.authorizations.map (·.id)
  | .authorizationsExternalReference => d.authorizations.map (·.externalReference)
  | .settlementsId => d.settlements.map (·.id)
  | .settlementsAuthorization => d.settlements.map (·.authorizationId)
  | .transactionsId => d.transactions.map (·.id)
  | .idempotencyKeysKey => d.idempotencyKeys.map (·.key)
  | .eventsEventId => d.events.map (·.eventId)

/-- The unique values a write inserts. -/
def Write.keys : Write → List (Column × String)
  | .insertUser r => [(.usersId, r.id), (.usersEmail, r.email)]
  | .insertArchive r => [(.archivesId, r.id)]
  | .insertRecord r => [(.recordsId, r.id), (.recordsReference, r.recordReference)]
  | .insertAccount r => [(.accountsId, r.id)] ++ (r.ownerUserId.map fun u => (.accountsOwnerUser, u)).toList ++
      (r.ownerArchiveId.map fun a => (.accountsOwnerArchive, a)).toList
  | .insertClient r => [(.clientsId, r.id), (.clientsName, r.name), (.clientsKeyHash, r.apiKeyHash)]
  | .insertAuthorization r =>
    [(.authorizationsId, r.id), (.authorizationsExternalReference, r.externalReference)]
  | .insertSettlement r => [(.settlementsId, r.id), (.settlementsAuthorization, r.authorizationId)]
  | .insertTransaction r => [(.transactionsId, r.id)]
  | .insertIdempotencyKey r => [(.idempotencyKeysKey, r.key)]
  | .insertEvent r => [(.eventsEventId, r.eventId)]
  | _ => []

/-- The rows a write references by foreign key. -/
def Write.references : Write → List (Column × String)
  | .insertArchive r => (r.ownerUserId.map fun u => (.usersId, u)).toList
  | .insertRecord r =>
    (.archivesId, r.archiveId) :: (r.transcriptionistUserId.map fun u => (.usersId, u)).toList
  | .insertAccount r => (r.ownerUserId.map fun u => (.usersId, u)).toList ++
      (r.ownerArchiveId.map fun a => (.archivesId, a)).toList
  | .insertAuthorization r => (.recordsId, r.researchRecordId) :: (.usersId, r.userId) ::
      (r.createdByClientId.map fun c => (.clientsId, c)).toList
  | .insertSettlement r => [(.authorizationsId, r.authorizationId)]
  | .insertTransaction r => [(.accountsId, r.ledgerAccountId), (.settlementsId, r.settlementId)]
  | _ => []

/-- `ck_ledger_account_owner_matches_type`. -/
def LedgerAccount.ownerMatchesType (r : LedgerAccount) : Bool :=
  match r.ownerType with
  | .user => r.ownerUserId.isSome && r.ownerArchiveId.isNone
  | .archive => r.ownerArchiveId.isSome && r.ownerUserId.isNone
  | .platform => r.ownerUserId.isNone && r.ownerArchiveId.isNone

def Write.checked : Write → Bool
  | .insertAccount r => r.ownerMatchesType
  | _ => true

/-- The row an `UPDATE` locks. -/
def Write.lockedRow : Write → Option (Column × String)
  | .addBalance id _ => some (.accountsId, id)
  | .setAuthorizationStatus id _ _ => some (.authorizationsId, id)
  | .setSettlementStatus id _ => some (.settlementsId, id)
  | .setTransactionStatus id _ => some (.transactionsId, id)
  | .setResponseBody key _ => some (.idempotencyKeysKey, key)
  | _ => none

def Db.violation (foreignKeys : Bool) (d : Db) (w : Write) : Option Exc :=
  if w.keys.any (fun k => decide (k.2 ∈ d.column k.1)) ||
      foreignKeys && w.references.any (fun k => decide (k.2 ∉ d.column k.1)) || !w.checked then
    some .integrityError
  else none

/-- What an `INTEGER` column holds. -/
def InRange (n : Int) : Prop := -2 ^ 31 ≤ n ∧ n ≤ 2 ^ 31 - 1

instance (n : Int) : Decidable (InRange n) := inferInstanceAs (Decidable (_ ∧ _))

/-- The numbers that a write sends and those that it leaves are in the range of their columns. -/
def Write.fits (d : Db) : Write → Bool
  | .insertRecord r => decide (InRange r.priceCents)
  | .insertAccount r => decide (InRange r.balanceCents)
  | .insertAuthorization r => decide (InRange r.amountCents)
  | .insertSettlement r => decide (InRange r.settledAmountCents)
  | .insertTransaction r => decide (InRange r.amountCents)
  | .addBalance id delta => decide (InRange delta) && d.accounts.all fun a =>
      a.id != id || decide (InRange (a.balanceCents + delta))
  | _ => true

/-- A write waits for the open transaction that inserted one of its unique values or locked its row. -/
def Write.waits (w w' : Write) : Bool :=
  w.keys.any (fun k => decide (k ∈ w'.keys)) || (w.lockedRow.isSome && decide (w.lockedRow = w'.lockedRow))

/-- PostgreSQL (`foreignKeys = true`) or an engine that does not check foreign keys; no number is out of range. -/
def engine (foreignKeys : Bool) : Engine Db Write Exc where
  apply := Db.apply
  violation := Db.violation foreignKeys
  waits := Write.waits
  aborted := .operationalError

/-! ### Unique columns -/

theorem map_updateWhere {β γ : Type} {p : β → Bool} {f : β → β} {g : β → γ} (h : ∀ r, g (f r) = g r)
    (l : List β) : (updateWhere p f l).map g = l.map g := by
  unfold updateWhere
  rw [List.map_map]
  refine List.map_congr_left fun r _ => ?_
  simp only [Function.comp]
  split
  · exact h r
  · rfl

theorem filterMap_updateWhere {β γ : Type} {p : β → Bool} {f : β → β} {g : β → Option γ} (h : ∀ r, g (f r) = g r)
    (l : List β) : (updateWhere p f l).filterMap g = l.filterMap g := by
  unfold updateWhere
  rw [List.filterMap_map]
  refine List.filterMap_congr fun r _ => ?_
  simp only [Function.comp]
  split
  · exact h r
  · rfl

/-- The values a write adds to a unique column. -/
def Write.valuesIn (w : Write) (c : Column) : List String :=
  (w.keys.filter fun k => decide (k.1 = c)).map (·.2)

theorem Write.mem_valuesIn {w : Write} {c : Column} {x : String} : x ∈ w.valuesIn c ↔ (c, x) ∈ w.keys := by
  unfold Write.valuesIn
  simp

theorem Write.keys_nodup (w : Write) : w.keys.Nodup := by
  cases w with
  | insertAccount r => cases h : r.ownerUserId <;> cases h' : r.ownerArchiveId <;> simp [Write.keys, h, h']
  | _ => simp [Write.keys]

/-- Updates leave the unique columns alone, inserts append. -/
theorem Db.column_apply (d : Db) (w : Write) (c : Column) :
    (d.apply w).column c = d.column c ++ w.valuesIn c := by
  cases w with
  | insertAccount r =>
    cases hu : r.ownerUserId <;> cases ha : r.ownerArchiveId <;> cases c <;>
      simp [Db.apply, Db.column, Write.valuesIn, Write.keys, hu, ha]
  | addBalance id delta =>
    cases c <;> simp [Db.apply, Db.column, Write.valuesIn, Write.keys, map_updateWhere, filterMap_updateWhere]
  | setAuthorizationStatus id status reason =>
    cases c <;> simp [Db.apply, Db.column, Write.valuesIn, Write.keys, map_updateWhere]
  | setSettlementStatus id status =>
    cases c <;> simp [Db.apply, Db.column, Write.valuesIn, Write.keys, map_updateWhere]
  | setTransactionStatus id status =>
    cases c <;> simp [Db.apply, Db.column, Write.valuesIn, Write.keys, map_updateWhere]
  | setResponseBody key body =>
    cases c <;> simp [Db.apply, Db.column, Write.valuesIn, Write.keys, map_updateWhere]
  | _ => cases c <;> simp [Db.apply, Db.column, Write.valuesIn, Write.keys]

theorem Db.violation_eq_none {fk : Bool} {d : Db} {w : Write} : d.violation fk w = none ↔
    (∀ k ∈ w.keys, k.2 ∉ d.column k.1) ∧ (fk = true → ∀ k ∈ w.references, k.2 ∈ d.column k.1) ∧ w.checked = true := by
  unfold Db.violation
  cases fk <;> simp [and_assoc]

/-- The unique constraints as keys. -/
def uniqueKeys (foreignKeys : Bool) : Keys (engine foreignKeys) (Column × String) where
  of := Write.keys
  mem d k := k.2 ∈ d.column k.1
  unique d := ∀ c, (d.column c).Nodup
  nodup := Write.keys_nodup
  mem_apply d w k := by
    show k.2 ∈ (d.apply w).column k.1 ↔ _
    rw [Db.column_apply, List.mem_append, Write.mem_valuesIn]
  unique_apply d w hd hfresh c := by
    show ((d.apply w).column c).Nodup
    rw [Db.column_apply, List.nodup_append]
    refine ⟨hd c, ?_, fun x hx y hy hxy => hfresh (c, y) (Write.mem_valuesIn.1 hy) (hxy ▸ hx)⟩
    refine List.Nodup.map_on ?_ (w.keys_nodup.filter _)
    intro k hk k' hk' he
    simp only [List.mem_filter, decide_eq_true_eq] at hk hk'
    exact Prod.ext (hk.2.trans hk'.2.symm) he
  free d w h := (Db.violation_eq_none.1 h).1
  waits w w' k hk hk' := by
    show Write.waits w w' = true
    unfold Write.waits
    rw [List.any_eq_true.2 ⟨k, hk, by simpa using hk'⟩, Bool.true_or]

/-! ### What a statement draws on -/

/-- What `uuid4` returns, the server clock, and the order in which a `SELECT` returns `m` rows it does not sort. -/
structure Choice where
  uuid : String
  now : Nat
  order : (m : Nat) → Equiv.Perm (Fin m)

/-- The rows in the order chosen. -/
def Choice.arrange {β : Type} (c : Choice) (l : List β) : List β :=
  List.ofFn fun i => l.get (c.order l.length i)

theorem Choice.arrange_perm {β : Type} (c : Choice) (l : List β) : (c.arrange l).Perm l := by
  unfold Choice.arrange
  have h := (Equiv.Perm.ofFn_comp_perm (c.order l.length) l.get)
  rw [List.ofFn_get] at h
  exact h

theorem Choice.mem_arrange {β : Type} {c : Choice} {l : List β} {x : β} : x ∈ c.arrange l ↔ x ∈ l :=
  (c.arrange_perm l).mem_iff

/-- Programs of a request's session. -/
abbrev Tx := Prog Db Write Exc Choice

end GenPay
