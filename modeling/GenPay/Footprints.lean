import GenPay.ReadCommitted.Alike
import GenPay.Tables
import Mathlib.Data.Set.Lattice
import Mathlib.Order.CompletePartialOrder

/-!
# Footprints

A footprint is a set of values of the unique columns of the ledger's tables: the authorizations, references,
settlements, transactions, keys and events a request is about.  Databases agree on a footprint if they have the
same entities, the same accounts up to their balances, and the same rows under the values in it.  The payment code
reads nothing else (`handle_alike`): within its footprint it is a `Frame`'s job.
-/

namespace GenPay

open ReadCommitted

variable {fk : Bool} {F G : Set (Column × String)} {d d' : Db} {w : Write}

/-! ### Lookups -/

/-- The columns of the tables that requests about authorizations insert into. -/
def Column.isLedger : Column → Bool
  | .authorizationsId | .authorizationsExternalReference | .settlementsId | .settlementsAuthorization
  | .transactionsId | .idempotencyKeysKey | .eventsEventId => true
  | _ => false

/-- The ways in which rows of these tables are found. -/
inductive Lookup
  | authorization | reference | settlement | settlementOf | transaction | transactionsOf | idempotencyKey | event

namespace Lookup

abbrev Row : Lookup → Type
  | authorization | reference => Authorization
  | settlement | settlementOf => Settlement
  | transaction | transactionsOf => Transaction
  | idempotencyKey => IdempotencyKey
  | event => ProcessedWebhookEvent

def table (fk : Bool) : (l : Lookup) → Table (engine fk) l.Row
  | authorization | reference => authorizationTable fk
  | settlement | settlementOf => settlementTable fk
  | transaction | transactionsOf => transactionTable fk
  | idempotencyKey => idempotencyKeyTable fk
  | event => eventTable fk

/-- The value under which a row is found. -/
def value : (l : Lookup) → l.Row → String
  | authorization => Authorization.id
  | reference => Authorization.externalReference
  | settlement => Settlement.id
  | settlementOf => Settlement.authorizationId
  | transaction => Transaction.id
  | transactionsOf => Transaction.settlementId
  | idempotencyKey => IdempotencyKey.key
  | event => ProcessedWebhookEvent.eventId

/-- The unique column whose values these are. -/
def column : Lookup → Column
  | authorization => .authorizationsId
  | reference => .authorizationsExternalReference
  | settlement | transactionsOf => .settlementsId
  | settlementOf => .settlementsAuthorization
  | transaction => .transactionsId
  | idempotencyKey => .idempotencyKeysKey
  | event => .eventsEventId

/-- The primary key of a row. -/
def primary : (l : Lookup) → l.Row → Column × String
  | authorization, a | reference, a => (.authorizationsId, a.id)
  | settlement, x | settlementOf, x => (.settlementsId, x.id)
  | transaction, t | transactionsOf, t => (.transactionsId, t.id)
  | idempotencyKey, k => (.idempotencyKeysKey, k.key)
  | event, e => (.eventsEventId, e.eventId)

theorem primary_isLedger (l : Lookup) (r : l.Row) : (l.primary r).1.isLedger = true := by cases l <;> rfl

theorem value_update (l : Lookup) (w : Write) (r : l.Row) : l.value ((l.table fk).update w r) = l.value r := by
  cases l with
  | authorization => exact of_core Authorization.id (w.onAuthorization_core r)
  | reference => exact of_core Authorization.externalReference (w.onAuthorization_core r)
  | settlement => exact of_core Settlement.id (w.onSettlement_core r)
  | settlementOf => exact of_core Settlement.authorizationId (w.onSettlement_core r)
  | transaction => exact of_core Transaction.id (w.onTransaction_core r)
  | transactionsOf => exact of_core Transaction.settlementId (w.onTransaction_core r)
  | idempotencyKey => exact w.onIdempotencyKey_key r
  | event => rfl

theorem primary_update (l : Lookup) (w : Write) (r : l.Row) : l.primary ((l.table fk).update w r) = l.primary r := by
  have hid : ∀ l : Lookup, ∀ r : l.Row, l.value ((l.table fk).update w r) = l.value r := fun l r => l.value_update w r
  cases l with
  | authorization | reference => exact congrArg (Prod.mk _) (hid .authorization r)
  | settlement | settlementOf => exact congrArg (Prod.mk _) (hid .settlement r)
  | transaction | transactionsOf => exact congrArg (Prod.mk _) (hid .transaction r)
  | idempotencyKey => exact congrArg (Prod.mk _) (hid .idempotencyKey r)
  | event => rfl

/-- An update changes the row it locks only. -/
theorem untouched (l : Lookup) {r : l.Row} (h : w.lockedRow ≠ some (l.primary r)) : (l.table fk).update w r = r := by
  cases l with
  | authorization | reference => exact (w.onAuthorization_cases r).resolve_right fun ⟨_, _, hw⟩ => h (by rw [hw]; rfl)
  | settlement | settlementOf => exact (w.onSettlement_cases r).resolve_right fun ⟨_, hw⟩ => h (by rw [hw]; rfl)
  | transaction | transactionsOf => exact (w.onTransaction_cases r).resolve_right fun ⟨_, hw⟩ => h (by rw [hw]; rfl)
  | idempotencyKey => exact (w.onIdempotencyKey_cases r).resolve_right fun ⟨_, hw⟩ => h (by rw [hw]; rfl)
  | event => rfl

/-- A row is inserted together with its unique values, and refers to the row it may be found by. -/
theorem inserted (l : Lookup) {r : l.Row} (h : (l.table fk).inserted w = some r) :
    l.primary r ∈ w.keys ∧ (l.column, l.value r) ∈ w.keys ++ w.references := by
  cases l with
  | authorization | reference =>
    cases w <;> cases h
    simp [primary, column, value, Write.keys]
  | settlement | settlementOf =>
    cases w <;> cases h
    simp [primary, column, value, Write.keys]
  | transaction | transactionsOf =>
    cases w <;> cases h
    simp [primary, column, value, Write.keys, Write.references]
  | idempotencyKey | event =>
    cases w <;> cases h
    simp [primary, column, value, Write.keys]

end Lookup

/-! ### Agreement -/

/-- A write of requests about authorizations, all of whose ledger rows are in the footprint. -/
structure Write.Within (F : Set (Column × String)) (w : Write) : Prop where
  ledger : w.isEntity = false
  keys : ∀ k ∈ w.keys, k ∈ F
  references : ∀ k ∈ w.references, k.1.isLedger = true → k ∈ F
  locked : ∀ k, w.lockedRow = some k → k.1.isLedger = true → k ∈ F

structure Agree (fk : Bool) (F : Set (Column × String)) (d d' : Db) : Prop where
  users : d'.users = d.users
  archives : d'.archives = d.archives
  records : d'.records = d.records
  clients : d'.clients = d.clients
  accounts : d'.accounts.map LedgerAccount.core = d.accounts.map LedgerAccount.core
  lookup : ∀ (l : Lookup) x, (l.column, x) ∈ F →
    ((l.table fk).rows d').filter (l.value · == x) = ((l.table fk).rows d).filter (l.value · == x)
  /-- What is found under a value of the footprint is in it. -/
  closed : ∀ (l : Lookup), ∀ r ∈ (l.table fk).rows d, (l.column, l.value r) ∈ F → l.primary r ∈ F

theorem Write.Within.value (h : w.Within F) (l : Lookup) {r : l.Row} (hr : (l.table fk).inserted w = some r) :
    l.primary r ∈ F ∧ (l.column, l.value r) ∈ F := by
  obtain ⟨hp, hv⟩ := l.inserted hr
  refine ⟨h.keys _ hp, ?_⟩
  rcases List.mem_append.1 hv with hv | hv
  · exact h.keys _ hv
  · exact h.references _ hv (by cases l <;> rfl)

/-- Writes of the payment code leave the entities alone. -/
theorem Db.apply_entities (h : w.isEntity = false) (d : Db) :
    (d.apply w).users = d.users ∧ (d.apply w).archives = d.archives ∧ (d.apply w).records = d.records ∧
      (d.apply w).clients = d.clients ∧ (d.apply w).accounts = d.accounts.map w.onAccount := by
  have haccounts : (d.apply w).accounts = d.accounts.map w.onAccount ++ w.account?.toList :=
    (accountTable true).rows_apply d w
  have hnone : w.account? = none := by cases w <;> first | rfl | cases h
  rw [hnone, Option.toList_none, List.append_nil] at haccounts
  refine ⟨?_, ?_, ?_, ?_, haccounts⟩ <;> cases w <;> first | rfl | cases h

theorem Db.apply_accounts_core (h : w.isEntity = false) (d : Db) :
    (d.apply w).accounts.map LedgerAccount.core = d.accounts.map LedgerAccount.core := by
  rw [(d.apply_entities h).2.2.2.2, List.map_map]
  exact List.map_congr_left fun a _ => w.onAccount_core a

/-- The rows found under a value, after a write. -/
theorem Lookup.filter_apply (l : Lookup) (d : Db) (w : Write) (x : String) :
    ((l.table fk).rows (d.apply w)).filter (l.value · == x) =
      (((l.table fk).rows d).filter (l.value · == x)).map ((l.table fk).update w) ++
        ((l.table fk).inserted w).toList.filter (l.value · == x) := by
  have hrows : (l.table fk).rows (d.apply w) = ((l.table fk).rows d).map ((l.table fk).update w) ++
      ((l.table fk).inserted w).toList := (l.table fk).rows_apply d w
  rw [hrows, List.filter_append, List.filter_map]
  congr 3
  funext r
  simp only [Function.comp, l.value_update]

namespace Agree

theorem column (h : Agree fk F d d') {c : Column} {x : String} (hx : c.isLedger = true → (c, x) ∈ F) :
    x ∈ d'.column c ↔ x ∈ d.column c := by
  have hledger : ∀ l : Lookup, (l.column, x) ∈ F →
      (x ∈ ((l.table fk).rows d').map l.value ↔ x ∈ ((l.table fk).rows d).map l.value) := by
    intro l hl
    have hmem : ∀ rows : List l.Row, x ∈ rows.map l.value ↔ rows.filter (l.value · == x) ≠ [] := by
      intro rows
      rw [Ne, List.filter_eq_nil_iff]
      simp
    rw [hmem, hmem, h.lookup l x hl]
  have haccounts : ∀ {β : Type} (f : LedgerAccount → β), (∀ a, f a.core = f a) →
      d'.accounts.map f = d.accounts.map f := by
    intro β f hf
    have := congrArg (List.map f) h.accounts
    simpa only [List.map_map, Function.comp_def, hf] using this
  have howners : ∀ f : LedgerAccount → Option String, (∀ a, f a.core = f a) →
      d'.accounts.filterMap f = d.accounts.filterMap f := by
    intro f hf
    have := congrArg (List.filterMap id) (haccounts f hf)
    simpa only [List.filterMap_map, Function.id_comp] using this
  cases c with
  | usersId | usersEmail => simp only [Db.column, h.users]
  | archivesId => simp only [Db.column, h.archives]
  | recordsId | recordsReference => simp only [Db.column, h.records]
  | clientsId | clientsName | clientsKeyHash => simp only [Db.column, h.clients]
  | accountsId => simp only [Db.column, haccounts LedgerAccount.id fun _ => rfl]
  | accountsOwnerUser => simp only [Db.column, howners LedgerAccount.ownerUserId fun _ => rfl]
  | accountsOwnerArchive => simp only [Db.column, howners LedgerAccount.ownerArchiveId fun _ => rfl]
  | authorizationsId => exact hledger .authorization (hx rfl)
  | authorizationsExternalReference => exact hledger .reference (hx rfl)
  | settlementsId => exact hledger .settlement (hx rfl)
  | settlementsAuthorization => exact hledger .settlementOf (hx rfl)
  | transactionsId => exact hledger .transaction (hx rfl)
  | idempotencyKeysKey => exact hledger .idempotencyKey (hx rfl)
  | eventsEventId => exact hledger .event (hx rfl)

theorem violation (h : Agree fk F d d') (hw : w.Within F) : d'.violation fk w = d.violation fk w := by
  have hsome : ∀ x : Db, x.violation fk w ≠ none → x.violation fk w = some .integrityError := by
    intro x hx
    unfold Db.violation at hx ⊢
    split at hx
    · rename_i hc
      rw [if_pos hc]
    · exact absurd rfl hx
  have hiff : d'.violation fk w = none ↔ d.violation fk w = none := by
    rw [Db.violation_eq_none, Db.violation_eq_none]
    refine and_congr (forall₂_congr fun k hk => not_congr (h.column fun _ => hw.keys k hk)) (and_congr ?_ Iff.rfl)
    exact imp_congr_right fun _ => forall₂_congr fun k hk => h.column (hw.references k hk)
  by_cases hn : d.violation fk w = none
  · rw [hn, hiff.2 hn]
  · rw [hsome d hn, hsome d' (mt hiff.1 hn)]

theorem closed_apply (h : Agree fk F d d') (hw : w.Within F) (l : Lookup) :
    ∀ r ∈ (l.table fk).rows (d.apply w), (l.column, l.value r) ∈ F → l.primary r ∈ F := by
  have hrows : (l.table fk).rows (d.apply w) = ((l.table fk).rows d).map ((l.table fk).update w) ++
      ((l.table fk).inserted w).toList := (l.table fk).rows_apply d w
  intro r hr hv
  rw [hrows, List.mem_append] at hr
  rcases hr with hr | hr
  · obtain ⟨x, hx, rfl⟩ := List.mem_map.1 hr
    rw [l.value_update] at hv
    rw [l.primary_update]
    exact h.closed l x hx hv
  · exact (hw.value l (Option.mem_toList.1 hr)).1

/-- One write within the footprint on both sides. -/
theorem apply (h : Agree fk F d d') (hw : w.Within F) : Agree fk F (d.apply w) (d'.apply w) := by
  obtain ⟨hu, ha, hr, hc, -⟩ := d.apply_entities hw.ledger
  obtain ⟨hu', ha', hr', hc', -⟩ := d'.apply_entities hw.ledger
  exact
    { users := by rw [hu, hu', h.users]
      archives := by rw [ha, ha', h.archives]
      records := by rw [hr, hr', h.records]
      clients := by rw [hc, hc', h.clients]
      accounts := by rw [d.apply_accounts_core hw.ledger, d'.apply_accounts_core hw.ledger, h.accounts]
      lookup := fun l x hx => by rw [l.filter_apply, l.filter_apply, h.lookup l x hx]
      closed := h.closed_apply hw }

/-- One write within another footprint on one side. -/
theorem apply_foreign (h : Agree fk F d d') (hFG : Disjoint F G) (hw : w.Within G) : Agree fk F d (d'.apply w) := by
  obtain ⟨hu, ha, hr, hc, -⟩ := d'.apply_entities hw.ledger
  refine
    { users := by rw [hu, h.users]
      archives := by rw [ha, h.archives]
      records := by rw [hr, h.records]
      clients := by rw [hc, h.clients]
      accounts := by rw [d'.apply_accounts_core hw.ledger, h.accounts]
      lookup := fun l x hx => ?_
      closed := h.closed }
  have hinserted : ((l.table fk).inserted w).toList.filter (l.value · == x) = [] := by
    rw [List.filter_eq_nil_iff]
    intro r hr hv
    have hG := (hw.value l (Option.mem_toList.1 hr)).2
    exact Set.disjoint_left.1 hFG (beq_iff_eq.1 hv ▸ hx) hG
  -- the rows found are those of `d`, whose primary keys are in the footprint
  have hupdated : (((l.table fk).rows d).filter (l.value · == x)).map ((l.table fk).update w) =
      ((l.table fk).rows d).filter (l.value · == x) := by
    refine (List.map_congr_left fun r hr => ?_).trans (List.map_id _)
    obtain ⟨hmem, hv⟩ := List.mem_filter.1 hr
    have hF := h.closed l r hmem (beq_iff_eq.1 hv ▸ hx)
    exact l.untouched fun hlock => Set.disjoint_left.1 hFG hF (hw.locked _ hlock (l.primary_isLedger r))
  rw [l.filter_apply, hinserted, List.append_nil, h.lookup l x hx, hupdated]

end Agree

/-- The job of a footprint. -/
def frame (fk : Bool) (F : Set (Column × String)) : Frame (engine fk) where
  agree := Agree fk F
  own := Write.Within F
  violation h hw := h.violation hw
  apply h hw := h.apply hw

end GenPay
