import GenPay.Ledger

/-!
# The invariant of the database

`Db.Sound` is what every committed database satisfies, `Db.Extends` how a later one extends an earlier one: rows
stay, and only statuses, decline reasons and balances of them change.  Each committed action keeps the first
(`sound_after`) and moves along the second (`extends_after`), so that `ledger` is a discipline of the service: both
hold in every run.
-/

namespace GenPay

open ReadCommitted DoubleEntry

/-! ### How rows change -/

def Transaction.reverse (t : Transaction) : Transaction := { t with status := .reversed }

def Settlement.reverse (s : Settlement) : Settlement := { s with status := .reversed }

/-- Unchanged, or from posted to reversed. -/
def Transaction.Step (t t' : Transaction) : Prop := t' = t ∨ (t.status = .posted ∧ t' = t.reverse)

/-- Unchanged, or from settled to reversed. -/
def Settlement.Step (s s' : Settlement) : Prop := s' = s ∨ (s.status = .settled ∧ s' = s.reverse)

def Authorization.Step (a a' : Authorization) : Prop := a'.core = a.core

def LedgerAccount.Step (a a' : LedgerAccount) : Prop := a'.core = a.core

theorem Transaction.Step.trans {t t' t'' : Transaction} (h : t.Step t') (h' : t'.Step t'') : t.Step t'' := by
  rcases h with rfl | ⟨hp, rfl⟩
  · exact h'
  · rcases h' with rfl | ⟨hp', -⟩
    · exact Or.inr ⟨hp, rfl⟩
    · cases hp'

theorem Settlement.Step.trans {s s' s'' : Settlement} (h : s.Step s') (h' : s'.Step s'') : s.Step s'' := by
  rcases h with rfl | ⟨hp, rfl⟩
  · exact h'
  · rcases h' with rfl | ⟨hp', -⟩
    · exact Or.inr ⟨hp, rfl⟩
    · cases hp'

theorem Transaction.Step.core_eq {t t' : Transaction} (h : t.Step t') : t'.core = t.core := by
  rcases h with rfl | ⟨-, rfl⟩ <;> rfl

theorem Settlement.Step.core_eq {s s' : Settlement} (h : s.Step s') : s'.core = s.core := by
  rcases h with rfl | ⟨-, rfl⟩ <;> rfl

namespace LedgerAccount.Step

variable {a a' : LedgerAccount}

theorem id (h : a.Step a') : a'.id = a.id := of_core LedgerAccount.id h

theorem ownerType (h : a.Step a') : a'.ownerType = a.ownerType := of_core LedgerAccount.ownerType h

theorem ownerUserId (h : a.Step a') : a'.ownerUserId = a.ownerUserId :=
  of_core LedgerAccount.ownerUserId h

theorem ownerArchiveId (h : a.Step a') : a'.ownerArchiveId = a.ownerArchiveId :=
  of_core LedgerAccount.ownerArchiveId h

theorem ownerMatchesType (h : a.Step a') : a'.ownerMatchesType = a.ownerMatchesType :=
  of_core LedgerAccount.ownerMatchesType h

end LedgerAccount.Step

/-! ### The invariant and the order -/

/-- The rows with a property that no two of them have are one. -/
theorem filter_eq_singleton {β γ : Type} {l : List β} {p : β → Bool} {f : β → γ} {x : β} (hnodup : (l.map f).Nodup)
    (hx : x ∈ l) (hp : p x = true) (hone : ∀ y ∈ l, p y = true → f y = f x) : l.filter p = [x] := by
  have hall : ∀ y ∈ l.filter p, y = x := by
    intro y hy
    obtain ⟨hy, hpy⟩ := List.mem_filter.1 hy
    exact List.inj_on_of_nodup_map hnodup hy hx (hone y hy hpy)
  have hmem : x ∈ l.filter p := List.mem_filter.2 ⟨hx, hp⟩
  have hnodup' : (l.filter p).Nodup := (List.Nodup.of_map f hnodup).filter p
  match hl : l.filter p with
  | [] => rw [hl] at hmem; cases hmem
  | [y] => rw [hl, List.mem_singleton] at hmem; rw [hmem]
  | y :: z :: rest =>
    rw [hl] at hall hnodup'
    have hyz : y = z := (hall y (by simp)).trans (hall z (by simp)).symm
    rw [hyz] at hnodup'
    simp at hnodup'

/-- The transactions of a settlement. -/
def Db.rowsOf (d : Db) (settlementId : String) : List Transaction :=
  d.transactions.filter (·.settlementId == settlementId)

structure Db.Sound (d : Db) : Prop where
  unique : ∀ c, (d.column c).Nodup
  posted : ∀ t ∈ d.transactions, t.status ≠ .pending
  account : ∀ t ∈ d.transactions, t.ledgerAccountId ∈ d.column .accountsId
  settlement : ∀ t ∈ d.transactions, t.settlementId ∈ d.column .settlementsId
  authorization : ∀ s ∈ d.settlements, s.authorizationId ∈ d.column .authorizationsId
  notFailed : ∀ s ∈ d.settlements, s.status ≠ .failed
  balanced : ∀ a ∈ d.accounts, a.balanceCents = accountNet a.id d.transactions
  neutral : ∀ id, settlementNet id d.transactions = 0
  cached : ∀ k ∈ d.idempotencyKeys, ∃ result, k.responseBody = some result ∧
    result.settlementId ∈ d.column .settlementsId
  cachedOnce : d.idempotencyKeys.Pairwise fun k k' =>
    ∀ r r', k.responseBody = some r → k'.responseBody = some r' → r.settlementId ≠ r'.settlementId
  owned : ∀ a ∈ d.accounts, a.ownerMatchesType = true
  seeded : ∀ a ∈ d.accounts, a.ownerType = .platform → internalAdminClientName ∈ d.column .clientsName
  platform : ∀ a ∈ d.accounts, ∀ b ∈ d.accounts, a.ownerType = .platform → b.ownerType = .platform → a.id = b.id

structure Db.Extends (d d' : Db) : Prop where
  column : ∀ c, ∀ x ∈ d.column c, x ∈ d'.column c
  records : Grows Eq d.records d'.records
  clients : Grows Eq d.clients d'.clients
  idempotencyKeys : Grows Eq d.idempotencyKeys d'.idempotencyKeys
  accounts : Grows LedgerAccount.Step d.accounts d'.accounts
  authorizations : Grows Authorization.Step d.authorizations d'.authorizations
  settlements : Grows Settlement.Step d.settlements d'.settlements
  transactions : Grows Transaction.Step d.transactions d'.transactions
  /-- A settlement that is still settled has been settled ever since it exists, with the same rows. -/
  settled : ∀ s ∈ d'.settlements, s.status = .settled → s.id ∈ d.column .settlementsId →
    s ∈ d.settlements ∧ d'.rowsOf s.id = d.rowsOf s.id

theorem Db.Extends.refl (d : Db) : d.Extends d where
  column _ _ h := h
  records := Grows.refl (fun _ => rfl) _
  clients := Grows.refl (fun _ => rfl) _
  idempotencyKeys := Grows.refl (fun _ => rfl) _
  accounts := Grows.refl (r := LedgerAccount.Step) (fun _ => rfl) _
  authorizations := Grows.refl (r := Authorization.Step) (fun _ => rfl) _
  settlements := Grows.refl (r := Settlement.Step) (fun _ => Or.inl rfl) _
  transactions := Grows.refl (r := Transaction.Step) (fun _ => Or.inl rfl) _
  settled _ hs _ _ := ⟨hs, rfl⟩

theorem Db.Extends.trans {d d' d'' : Db} (h : d.Extends d') (h' : d'.Extends d'') : d.Extends d'' where
  column c x hx := h'.column c x (h.column c x hx)
  records := h.records.trans (fun _ _ _ => Eq.trans) h'.records
  clients := h.clients.trans (fun _ _ _ => Eq.trans) h'.clients
  idempotencyKeys := h.idempotencyKeys.trans (fun _ _ _ => Eq.trans) h'.idempotencyKeys
  accounts := h.accounts.trans (fun _ _ _ h₁ h₂ => Eq.trans h₂ h₁) h'.accounts
  authorizations := h.authorizations.trans (fun _ _ _ h₁ h₂ => Eq.trans h₂ h₁) h'.authorizations
  settlements := h.settlements.trans (fun _ _ _ => Settlement.Step.trans) h'.settlements
  transactions := h.transactions.trans (fun _ _ _ => Transaction.Step.trans) h'.transactions
  settled s hs hst hid := by
    obtain ⟨hs', hr'⟩ := h'.settled s hs hst (h.column _ _ hid)
    obtain ⟨hs'', hr''⟩ := h.settled s hs' hst hid
    exact ⟨hs'', hr'.trans hr''⟩

theorem Db.sound_empty : Db.empty.Sound where
  unique c := by cases c <;> exact List.nodup_nil
  posted t ht := by cases ht
  account t ht := by cases ht
  settlement t ht := by cases ht
  authorization s hs := by cases hs
  notFailed s hs := by cases hs
  balanced a ha := by cases ha
  neutral id := rfl
  cached k hk := by cases hk
  cachedOnce := List.Pairwise.nil
  owned a ha := by cases ha
  seeded a ha := by cases ha
  platform a ha := by cases ha

/-! ### A commit -/

/-- The action of a transaction that commits on `d`, having seen the databases `ds`. -/
structure Action.Commits (env : Env) (ds : List Db) (d : Db) (act : Action) : Prop where
  grounded : act.Grounded env ds
  sound : d.Sound
  seen : ∀ d' ∈ ds, d'.Sound ∧ d'.Extends d
  ordered : ds.Pairwise Db.Extends
  free : (uniqueKeys env.foreignKeys).Free d act.writes

namespace Action.Commits

variable {env : Env} {ds : List Db} {d : Db} {act : Action}

/-- The database after the commit. -/
abbrev after (env : Env) (d : Db) (act : Action) : Db := (engine env.foreignKeys).view d act.writes

theorem column_after {c : Column} {x : String} :
    x ∈ (after env d act).column c ↔ x ∈ d.column c ∨ (c, x) ∈ (uniqueKeys env.foreignKeys).all act.writes :=
  (uniqueKeys env.foreignKeys).mem_view (k := (c, x))

theorem fresh (h : act.Commits env ds d) {c : Column} {x : String} {w : Write} (hw : w ∈ act.writes)
    (hx : (c, x) ∈ w.keys) : x ∉ d.column c :=
  h.free.fresh (c, x) (List.mem_flatMap.2 ⟨w, hw, hx⟩)

theorem inserted {c : Column} {x : String} {w : Write} (hw : w ∈ act.writes) (hx : (c, x) ∈ w.keys) :
    x ∈ (after env d act).column c :=
  column_after.2 (Or.inr (List.mem_flatMap.2 ⟨w, hw, hx⟩))

/-- A key seen committed is in the database after the commit. -/
theorem seen_column (h : act.Commits env ds d) {c : Column} {x : String} {d' : Db} (hd' : d' ∈ ds)
    (hx : x ∈ d'.column c) : x ∈ d.column c := (h.seen d' hd').2.column c x hx

/-! ### The tables after the commit -/

/-- How the commit changes an old transaction. -/
theorem transaction_cases (h : act.Commits env ds d) {t : Transaction} (ht : t ∈ d.transactions) :
    (transactionTable env.foreignKeys).updateAll act.writes t = t ∨
      (t.status = .posted ∧ (transactionTable env.foreignKeys).updateAll act.writes t = t.reverse ∧
        ∃ s xs ys, act = .refund s xs ys ∧ ∃ x ∈ xs, x.id = t.id) := by
  have hw : ∀ w ∈ act.writes, ∀ r : Transaction, w.onTransaction r = r ∨ w.onTransaction r = r.reverse := by
    intro w hw r
    rcases w.onTransaction_cases r with he | ⟨status, rfl⟩
    · exact Or.inl he
    · obtain ⟨rfl, -⟩ := mem_setTransactionStatus.1 hw
      exact Or.inr (if_pos rfl)
  -- an update that changes nothing is no flag: the row was reversed before
  rcases (transactionTable env.foreignKeys).updateAll_cases (g := Transaction.reverse) (fun _ => rfl) hw t with
    ⟨he, -⟩ | ⟨he, w, hmem, hu⟩
  · exact Or.inl he
  · by_cases hst : t.status = .reversed
    · refine Or.inl (he.trans ?_)
      unfold Transaction.reverse
      rw [← hst]
    · refine Or.inr ⟨?_, he, ?_⟩
      · have := h.sound.posted t ht
        cases hs : t.status with
        | pending => exact absurd hs this
        | posted => rfl
        | reversed => exact absurd hs hst
      · change w.onTransaction t = t.reverse at hu
        have hne : t ≠ t.reverse := fun he => hst (congrArg Transaction.status he)
        rcases w.onTransaction_cases t with hfix | ⟨status, rfl⟩
        · exact absurd (hfix.symm.trans hu) hne
        · obtain ⟨-, s, xs, ys, rfl, x, hx, hid, -⟩ := mem_setTransactionStatus.1 hmem
          exact ⟨s, xs, ys, rfl, x, hx, hid⟩

/-- How the commit changes an old settlement. -/
theorem settlement_cases (h : act.Commits env ds d) {s : Settlement} (hs : s ∈ d.settlements) :
    ((settlementTable env.foreignKeys).updateAll act.writes s = s ∧ ∀ s' xs ys, act = .refund s' xs ys →
      s'.id = s.id → s.status = .reversed) ∨
      (s.status = .settled ∧ (settlementTable env.foreignKeys).updateAll act.writes s = s.reverse ∧
        ∃ s' xs ys, act = .refund s' xs ys ∧ s'.id = s.id) := by
  have hw : ∀ w ∈ act.writes, ∀ r : Settlement, w.onSettlement r = r ∨ w.onSettlement r = r.reverse := by
    intro w hw r
    rcases w.onSettlement_cases r with he | ⟨status, rfl⟩
    · exact Or.inl he
    · obtain ⟨rfl, -⟩ := mem_setSettlementStatus.1 hw
      exact Or.inr (if_pos rfl)
  rcases (settlementTable env.foreignKeys).updateAll_cases (g := Settlement.reverse) (fun _ => rfl) hw s with
    ⟨he, hall⟩ | ⟨he, w, hmem, hu⟩
  · refine Or.inl ⟨he, fun s' xs ys hact hid => ?_⟩
    have hmem : .setSettlementStatus s.id .reversed ∈ act.writes :=
      mem_setSettlementStatus.2 ⟨rfl, s', xs, ys, hact, hid⟩
    have hfix : Write.onSettlement (.setSettlementStatus s.id .reversed) s = s := hall _ hmem
    simp only [Write.onSettlement, ↓reduceIte] at hfix
    exact (congrArg Settlement.status hfix).symm
  · by_cases hst : s.status = .reversed
    · refine Or.inl ⟨he.trans ?_, fun _ _ _ _ _ => hst⟩
      unfold Settlement.reverse
      rw [← hst]
    · refine Or.inr ⟨?_, he, ?_⟩
      · have := h.sound.notFailed s hs
        cases hs' : s.status with
        | settled => rfl
        | failed => exact absurd hs' this
        | reversed => exact absurd hs' hst
      · change w.onSettlement s = s.reverse at hu
        have hne : s ≠ s.reverse := fun he => hst (congrArg Settlement.status he)
        rcases w.onSettlement_cases s with hfix | ⟨status, rfl⟩
        · exact absurd (hfix.symm.trans hu) hne
        · obtain ⟨-, s', xs, ys, rfl, hid⟩ := mem_setSettlementStatus.1 hmem
          exact ⟨s', xs, ys, rfl, hid⟩

/-- The rows a refund lists are those of its settlement, in some database it saw. -/
theorem originals {s : Settlement} {xs ys : List Transaction} (h : (Action.refund s xs ys).Commits env ds d) :
    ∃ d₁ ∈ ds, ∃ d₂ ∈ ds, d₁.Extends d₂ ∧ s ∈ d₁.settlements ∧ xs.Perm (d₂.rowsOf s.id) := by
  obtain ⟨⟨d₁, d₂, hsub, hs, hperm⟩, -, -⟩ := h.grounded
  have hpair : [d₁, d₂].Pairwise Db.Extends := h.ordered.sublist hsub
  exact ⟨d₁, hsub.subset (by simp), d₂, hsub.subset (by simp), by simpa using hpair, hs, hperm⟩

theorem mem_originals {s : Settlement} {xs ys : List Transaction} (h : (Action.refund s xs ys).Commits env ds d)
    {x : Transaction} (hx : x ∈ xs) : ∃ d' ∈ ds, x ∈ d'.transactions ∧ x.settlementId = s.id := by
  obtain ⟨-, -, d', hd', -, -, hperm⟩ := h.originals
  have hmem := List.mem_filter.1 (hperm.mem_iff.1 hx)
  exact ⟨d', hd', hmem.1, by simpa using hmem.2⟩

private theorem mem_of_filterMap {Row : Type} {inserted : Write → Option Row} {insert : Row → Write}
    {rows : List Row} (hrows : act.writes.filterMap inserted = rows)
    (hinsert : ∀ w r, inserted w = some r → w = insert r) {r : Row} (hr : r ∈ rows) : insert r ∈ act.writes := by
  rw [← hrows, List.mem_filterMap] at hr
  obtain ⟨w, hw, hi⟩ := hr
  rwa [← hinsert w r hi]

theorem mem_transactions {t : Transaction} (ht : t ∈ act.transactions) : .insertTransaction t ∈ act.writes :=
  mem_of_filterMap (filterMap_transaction act) (fun w r h => by cases w <;> cases h; rfl) ht

theorem mem_settlements {s : Settlement} (hs : s ∈ act.settlements) : .insertSettlement s ∈ act.writes :=
  mem_of_filterMap (filterMap_settlement act) (fun w r h => by cases w <;> cases h; rfl) hs

theorem mem_authorizations {a : Authorization} (ha : a ∈ act.authorizations) :
    .insertAuthorization a ∈ act.writes :=
  mem_of_filterMap (filterMap_authorization act) (fun w r h => by cases w <;> cases h; rfl) ha

theorem mem_accounts {a : LedgerAccount} (ha : a ∈ act.accounts) : .insertAccount a ∈ act.writes :=
  mem_of_filterMap (filterMap_account act) (fun w r h => by cases w <;> cases h; rfl) ha

theorem transactions_after (h : act.Commits env ds d) : (after env d act).transactions =
    d.transactions.map ((transactionTable env.foreignKeys).updateAll act.writes) ++ act.transactions := by
  rw [← filterMap_transaction]
  refine (transactionTable env.foreignKeys).rows_view_of_fixed (fun w hw r hr => ?_) d
  change r ∈ act.writes.filterMap Write.transaction? at hr
  rw [filterMap_transaction] at hr
  rcases w.onTransaction_cases r with he | ⟨status, rfl⟩
  · exact he
  · -- only rows that were there before are flagged
    obtain ⟨-, s, xs, ys, rfl, x, hx, hid, -⟩ := mem_setTransactionStatus.1 hw
    obtain ⟨d', hd', hmem, -⟩ := h.mem_originals hx
    have hold : x.id ∈ d.column .transactionsId :=
      h.seen_column hd' (List.mem_map_of_mem (f := Transaction.id) hmem)
    exact absurd (hid ▸ hold) (h.fresh (mem_transactions hr) (by simp [Write.keys]))

theorem settlements_after (env : Env) (d : Db) (act : Action) : (after env d act).settlements =
    d.settlements.map ((settlementTable env.foreignKeys).updateAll act.writes) ++ act.settlements := by
  rw [← filterMap_settlement]
  refine (settlementTable env.foreignKeys).rows_view_of_fixed (fun w hw r hr => ?_) d
  change r ∈ act.writes.filterMap Write.settlement? at hr
  rw [filterMap_settlement] at hr
  rcases w.onSettlement_cases r with he | ⟨status, rfl⟩
  · exact he
  · obtain ⟨-, s, xs, ys, rfl, -⟩ := mem_setSettlementStatus.1 hw
    cases hr

theorem authorizations_after (env : Env) (d : Db) (act : Action) : (after env d act).authorizations =
    d.authorizations.map ((authorizationTable env.foreignKeys).updateAll act.writes) ++ act.authorizations := by
  rw [← filterMap_authorization]
  refine (authorizationTable env.foreignKeys).rows_view_of_fixed (fun w hw r hr => ?_) d
  change r ∈ act.writes.filterMap Write.authorization? at hr
  rw [filterMap_authorization] at hr
  rcases w.onAuthorization_cases r with he | ⟨status, reason, rfl⟩
  · exact he
  · obtain ⟨e, a, rfl, -⟩ := mem_setAuthorizationStatus.1 hw
    cases hr

theorem accounts_after (env : Env) (d : Db) (act : Action) : (after env d act).accounts =
    d.accounts.map ((accountTable env.foreignKeys).updateAll act.writes) ++ act.accounts := by
  rw [← filterMap_account]
  refine (accountTable env.foreignKeys).rows_view_of_fixed (fun w hw r hr => ?_) d
  change r ∈ act.writes.filterMap Write.account? at hr
  rw [filterMap_account] at hr
  cases w with
  | addBalance id n =>
    rw [accounts_eq_nil_of_added hw] at hr
    cases hr
  | _ => rfl

/-- Stored responses are added, each with its key. -/
theorem idempotencyKeys_after (h : act.Commits env ds d) :
    (after env d act).idempotencyKeys = d.idempotencyKeys ++ act.stored := by
  have hold : ∀ k ∈ d.idempotencyKeys, (idempotencyKeyTable env.foreignKeys).updateAll act.writes k = k := by
    intro k hk
    refine (idempotencyKeyTable env.foreignKeys).updateAll_of_fixed fun w hw => ?_
    rcases w.onIdempotencyKey_cases k with he | ⟨body, rfl⟩
    · exact he
    · obtain ⟨p, rfl, -⟩ := mem_setResponseBody.1 hw
      have hfresh : k.key ∉ d.column .idempotencyKeysKey :=
        h.fresh (w := .insertIdempotencyKey ⟨k.key, none⟩) (by simp [writes]) (by simp [Write.keys])
      exact absurd (List.mem_map_of_mem (f := IdempotencyKey.key) hk) hfresh
  have hv := (idempotencyKeyTable env.foreignKeys).rows_view d act.writes
  rw [stored_eq_insertedAll env.foreignKeys]
  change (after env d act).idempotencyKeys =
    d.idempotencyKeys.map ((idempotencyKeyTable env.foreignKeys).updateAll act.writes) ++ _ at hv
  rw [hv, List.map_congr_left hold, List.map_id']

/-! ### References -/

theorem account_known (h : act.Commits env ds d) {t : Transaction} (ht : t ∈ act.transactions) :
    t.ledgerAccountId ∈ d.column .accountsId := by
  have purchase : ∀ p : Purchase, p.Grounded env ds → t ∈ p.transactions →
      t.ledgerAccountId ∈ d.column .accountsId := by
    intro p hp ht
    obtain ⟨d', hd', hx⟩ := hp.account ht
    exact h.seen_column hd' hx
  cases act with
  | purchase key p => exact purchase p h.grounded ht
  | batch e ps =>
    obtain ⟨p, hp, ht⟩ := List.mem_flatMap.1 ht
    exact purchase p (h.grounded p hp).1 ht
  | refund s xs ys =>
    have hrow : t.entry ∈ xs.map reversalEntry := by
      rw [← h.grounded.2.2.rows]
      exact List.mem_map_of_mem ht
    obtain ⟨x, hx, he⟩ := List.mem_map.1 hrow
    obtain ⟨d', hd', hmem, -⟩ := h.mem_originals hx
    have hid : t.ledgerAccountId = x.ledgerAccountId := (congrArg LedgerEntry.ledgerAccountId he).symm
    rw [hid]
    exact h.seen_column hd' ((h.seen d' hd').1.account x hmem)
  | _ => cases ht

theorem settlement_known (h : act.Commits env ds d) {t : Transaction} (ht : t ∈ act.transactions) :
    t.settlementId ∈ (after env d act).column .settlementsId := by
  cases act with
  | purchase key p =>
    have hp : p.Grounded env ds := h.grounded
    rw [hp.posted.settlement t ht]
    exact inserted (mem_settlements (s := p.settlement) (List.mem_singleton.2 rfl)) (by simp [Write.keys])
  | batch e ps =>
    obtain ⟨p, hp, ht⟩ := List.mem_flatMap.1 ht
    rw [(h.grounded p hp).1.posted.settlement t ht]
    exact inserted (mem_settlements (List.mem_map_of_mem hp)) (by simp [Write.keys])
  | refund s xs ys =>
    rw [h.grounded.2.2.settlement t ht]
    obtain ⟨d', hd', -, -, -, hs, -⟩ := h.originals
    exact column_after.2 (Or.inl (h.seen_column hd' (List.mem_map_of_mem (f := Settlement.id) hs)))
  | _ => cases ht

theorem authorization_known (h : act.Commits env ds d) {s : Settlement} (hs : s ∈ act.settlements) :
    s.authorizationId ∈ (after env d act).column .authorizationsId := by
  cases act with
  | purchase key p =>
    rw [List.mem_singleton.1 hs, h.grounded.settlement.1]
    exact inserted (mem_authorizations (a := p.authorization) (List.mem_singleton.2 rfl)) (by simp [Write.keys])
  | batch e ps =>
    obtain ⟨p, hp, rfl⟩ := List.mem_map.1 hs
    obtain ⟨hgr, d', hd', ha⟩ := h.grounded p hp
    rw [hgr.settlement.1]
    exact column_after.2 (Or.inl (h.seen_column hd' (List.mem_map_of_mem (f := Authorization.id) ha)))
  | _ => cases hs

theorem status_of_new (h : act.Commits env ds d) :
    (∀ t ∈ act.transactions, t.status = .posted) ∧ ∀ s ∈ act.settlements, s.status = .settled := by
  cases act with
  | purchase key p =>
    have hp : p.Grounded env ds := h.grounded
    exact ⟨hp.posted.status, fun s hs => by rw [List.mem_singleton.1 hs]; exact hp.settlement.2.2⟩
  | batch e ps =>
    refine ⟨fun t ht => ?_, fun s hs => ?_⟩
    · obtain ⟨p, hp, ht⟩ := List.mem_flatMap.1 ht
      exact (h.grounded p hp).1.posted.status t ht
    · obtain ⟨p, hp, rfl⟩ := List.mem_map.1 hs
      exact (h.grounded p hp).1.settlement.2.2
  | refund s xs ys => exact ⟨h.grounded.2.2.status, fun s hs => by cases hs⟩
  | _ => exact ⟨(fun t ht => by cases ht), (fun s hs => by cases hs)⟩

theorem balance_of_new (h : act.Commits env ds d) : ∀ a ∈ act.accounts, a.balanceCents = 0 := by
  cases act with
  | user u x =>
    have hx : x.IsNew .user (some u.id) none := h.grounded
    simpa [accounts] using hx.2.2.2
  | archive a x =>
    have hx : x.IsNew .archive none (some a.id) := h.grounded
    simpa [accounts] using hx.2.2.2
  | seeded admin processor x₀ a x₁ u x₂ v x₃ r =>
    obtain ⟨-, -, h₀, h₁, h₂, h₃⟩ := h.grounded
    simpa [accounts] using ⟨h₀.2.2.2, h₁.2.2.2, h₂.2.2.2, h₃.2.2.2⟩
  | _ => intro a ha; cases ha

theorem owner_of_new (h : act.Commits env ds d) : ∀ a ∈ act.accounts, a.ownerMatchesType = true := by
  have new : ∀ {a : LedgerAccount} {type : LedgerAccountOwnerType} {u x : Option String}, a.IsNew type u x →
      (∀ b : LedgerAccount, b.ownerType = type → b.ownerUserId = u → b.ownerArchiveId = x →
        b.ownerMatchesType = true) → a.ownerMatchesType = true :=
    fun ⟨ht, hu, hx, _⟩ hmatch => hmatch _ ht hu hx
  have user : ∀ {a : LedgerAccount} {u : String}, a.IsNew .user (some u) none → a.ownerMatchesType = true :=
    fun ha => new ha fun b ht hu hx => by simp [LedgerAccount.ownerMatchesType, ht, hu, hx]
  have archive : ∀ {a : LedgerAccount} {x : String}, a.IsNew .archive none (some x) → a.ownerMatchesType = true :=
    fun ha => new ha fun b ht hu hx => by simp [LedgerAccount.ownerMatchesType, ht, hu, hx]
  have platform : ∀ {a : LedgerAccount}, a.IsNew .platform none none → a.ownerMatchesType = true :=
    fun ha => new ha fun b ht hu hx => by simp [LedgerAccount.ownerMatchesType, ht, hu, hx]
  cases act with
  | user u x =>
    have hx : x.IsNew .user (some u.id) none := h.grounded
    simpa [accounts] using user hx
  | archive a x =>
    have hx : x.IsNew .archive none (some a.id) := h.grounded
    simpa [accounts] using archive hx
  | seeded admin processor x₀ a x₁ u x₂ v x₃ r =>
    obtain ⟨-, -, h₀, h₁, h₂, h₃⟩ := h.grounded
    simpa [accounts] using ⟨platform h₀, archive h₁, user h₂, user h₃⟩
  | _ => intro a ha; cases ha

/-- A platform account is created by seeding only, together with the admin client. -/
theorem platform_of_new (h : act.Commits env ds d) {a : LedgerAccount} (ha : a ∈ act.accounts)
    (hp : a.ownerType = .platform) : internalAdminClientName ∉ d.column .clientsName ∧
      internalAdminClientName ∈ (after env d act).column .clientsName ∧
      ∀ b ∈ act.accounts, b.ownerType = .platform → b = a := by
  cases act with
  | user u x =>
    have hx : x.IsNew .user (some u.id) none := h.grounded
    rw [List.mem_singleton.1 ha, hx.1] at hp
    cases hp
  | archive x y =>
    have hy : y.IsNew .archive none (some x.id) := h.grounded
    rw [List.mem_singleton.1 ha, hy.1] at hp
    cases hp
  | seeded admin processor x₀ x x₁ u x₂ v x₃ r =>
    obtain ⟨hadmin, -, -, h₁, h₂, h₃⟩ := h.grounded
    have only : ∀ b ∈ accounts (.seeded admin processor x₀ x x₁ u x₂ v x₃ r), b.ownerType = .platform → b = x₀ := by
      intro b hb hbp
      simp only [accounts, List.mem_cons, List.not_mem_nil, or_false] at hb
      rcases hb with rfl | rfl | rfl | rfl
      · rfl
      · rw [h₁.1] at hbp; cases hbp
      · rw [h₂.1] at hbp; cases hbp
      · rw [h₃.1] at hbp; cases hbp
    have hkey : (Column.clientsName, internalAdminClientName) ∈ (Write.insertClient admin).keys := by
      simp [Write.keys, hadmin.1]
    have hw : .insertClient admin ∈ writes (.seeded admin processor x₀ x x₁ u x₂ v x₃ r) := by simp [writes]
    refine ⟨h.fresh hw hkey, inserted hw hkey, fun b hb hbp => ?_⟩
    rw [only b hb hbp, only a ha hp]
  | _ => cases ha

/-! ### The invariant is kept -/

theorem column_mono {c : Column} {x : String} (hx : x ∈ d.column c) : x ∈ (after env d act).column c :=
  column_after.2 (Or.inl hx)

theorem transaction_core (t : Transaction) :
    ((transactionTable env.foreignKeys).updateAll act.writes t).core = t.core :=
  (transactionTable env.foreignKeys).updateAll_keeps (fun w _ r => w.onTransaction_core r) t

theorem settlement_core (s : Settlement) :
    ((settlementTable env.foreignKeys).updateAll act.writes s).core = s.core :=
  (settlementTable env.foreignKeys).updateAll_keeps (fun w _ r => w.onSettlement_core r) s

theorem authorization_core (a : Authorization) :
    ((authorizationTable env.foreignKeys).updateAll act.writes a).core = a.core :=
  (authorizationTable env.foreignKeys).updateAll_keeps (fun w _ r => w.onAuthorization_core r) a

/-- The balances follow the rows. -/
theorem balanced_after (h : act.Commits env ds d) :
    ∀ a ∈ (after env d act).accounts, a.balanceCents = accountNet a.id (after env d act).transactions := by
  have hnet : ∀ id, accountNet id (after env d act).transactions =
      accountNet id d.transactions + accountNet id act.transactions := by
    intro id
    rw [accountNet_view, filterMap_transaction]
  intro a ha
  rw [accounts_after, List.mem_append, List.mem_map] at ha
  rcases ha with ⟨a, ha, rfl⟩ | ha
  · rw [hnet, updateAll_balance, updateAll_account_id, h.sound.balanced a ha, act.paired a.id,
      filterMap_transaction]
  · -- a new account: no row names its id yet
    have hnew : a.id ∉ d.column .accountsId := h.fresh (mem_accounts ha) (by simp [Write.keys])
    have hold : accountNet a.id d.transactions = 0 :=
      net_eq_zero fun t ht he => hnew (he ▸ h.sound.account t ht)
    have hposted : accountNet a.id act.transactions = 0 :=
      net_eq_zero fun t ht he => hnew (he ▸ h.account_known ht)
    rw [hnet, hold, hposted, h.balance_of_new a ha, add_zero]

/-- A transaction after the commit: an old one, perhaps flagged, or a new one. -/
theorem mem_transactions_after (h : act.Commits env ds d) {t : Transaction}
    (ht : t ∈ (after env d act).transactions) : (∃ x ∈ d.transactions, x.Step t) ∨ t ∈ act.transactions := by
  rw [h.transactions_after, List.mem_append, List.mem_map] at ht
  rcases ht with ⟨x, hx, rfl⟩ | ht
  · refine Or.inl ⟨x, hx, ?_⟩
    rcases h.transaction_cases hx with he | ⟨hst, he, -⟩
    · exact Or.inl he
    · exact Or.inr ⟨hst, he⟩
  · exact Or.inr ht

/-- A settlement after the commit: an old one, perhaps reversed, or a new one. -/
theorem mem_settlements_after (h : act.Commits env ds d) {s : Settlement}
    (hs : s ∈ (after env d act).settlements) : (∃ x ∈ d.settlements, x.Step s) ∨ s ∈ act.settlements := by
  rw [settlements_after, List.mem_append, List.mem_map] at hs
  rcases hs with ⟨x, hx, rfl⟩ | hs
  · refine Or.inl ⟨x, hx, ?_⟩
    rcases h.settlement_cases hx with ⟨he, -⟩ | ⟨hst, he, -⟩
    · exact Or.inl he
    · exact Or.inr ⟨hst, he⟩
  · exact Or.inr hs

/-- An account after the commit: an old one with another balance, or a new one. -/
theorem mem_accounts_after {a : LedgerAccount} (ha : a ∈ (after env d act).accounts) :
    (∃ b ∈ d.accounts, b.Step a) ∨ a ∈ act.accounts := by
  rw [accounts_after, List.mem_append, List.mem_map] at ha
  rcases ha with ⟨b, hb, rfl⟩ | ha
  · exact Or.inl ⟨b, hb, updateAll_account_core b⟩
  · exact Or.inr ha

theorem sound_after (h : act.Commits env ds d) : (after env d act).Sound where
  unique := h.free.unique h.sound.unique
  posted t ht := by
    rcases h.mem_transactions_after ht with ⟨x, hx, rfl | ⟨-, rfl⟩⟩ | ht
    · exact h.sound.posted _ hx
    · exact TransactionStatus.noConfusion
    · rw [h.status_of_new.1 t ht]; decide
  account t ht := by
    rcases h.mem_transactions_after ht with ⟨x, hx, hstep⟩ | ht
    · rw [of_core Transaction.ledgerAccountId hstep.core_eq]
      exact column_mono (h.sound.account x hx)
    · exact column_mono (h.account_known ht)
  settlement t ht := by
    rcases h.mem_transactions_after ht with ⟨x, hx, hstep⟩ | ht
    · rw [of_core Transaction.settlementId hstep.core_eq]
      exact column_mono (h.sound.settlement x hx)
    · exact h.settlement_known ht
  authorization s hs := by
    rcases h.mem_settlements_after hs with ⟨x, hx, hstep⟩ | hs
    · rw [of_core Settlement.authorizationId hstep.core_eq]
      exact column_mono (h.sound.authorization x hx)
    · exact h.authorization_known hs
  notFailed s hs := by
    rcases h.mem_settlements_after hs with ⟨x, hx, rfl | ⟨-, rfl⟩⟩ | hs
    · exact h.sound.notFailed _ hx
    · exact SettlementStatus.noConfusion
    · rw [h.status_of_new.2 s hs]; decide
  balanced := h.balanced_after
  neutral id := by
    rw [settlementNet_view, filterMap_transaction, h.sound.neutral id, neutral h.grounded id, add_zero]
  cached k hk := by
    rw [h.idempotencyKeys_after, List.mem_append] at hk
    rcases hk with hk | hk
    · obtain ⟨result, hr, hid⟩ := h.sound.cached k hk
      exact ⟨result, hr, column_mono hid⟩
    · obtain ⟨key, p, rfl, rfl⟩ := mem_stored.1 hk
      exact ⟨p.result, rfl, inserted (mem_settlements (s := p.settlement) (List.mem_singleton.2 rfl))
        (by simp [Write.keys, Purchase.result])⟩
  cachedOnce := by
    rw [h.idempotencyKeys_after, List.pairwise_append]
    refine ⟨h.sound.cachedOnce, act.stored_pairwise, fun k hk k' hk' r r' hr hr' he => ?_⟩
    obtain ⟨key, p, rfl, rfl⟩ := mem_stored.1 hk'
    obtain ⟨r₀, hr₀, hid⟩ := h.sound.cached k hk
    rw [hr] at hr₀
    cases hr₀
    cases hr'
    exact h.fresh (mem_settlements (s := p.settlement) (List.mem_singleton.2 rfl))
      (by simp [Write.keys, Purchase.result]) (he ▸ hid)
  owned a ha := by
    rcases mem_accounts_after ha with ⟨b, hb, hstep⟩ | ha
    · rw [hstep.ownerMatchesType]
      exact h.sound.owned b hb
    · exact h.owner_of_new a ha
  seeded a ha hp := by
    rcases mem_accounts_after ha with ⟨b, hb, hstep⟩ | ha
    · exact column_mono (h.sound.seeded b hb (hstep.ownerType ▸ hp))
    · exact (h.platform_of_new ha hp).2.1
  platform a ha b hb hap hbp := by
    -- an old platform account proves that seeding has been done, a new one that it had not
    rcases mem_accounts_after ha with ⟨a', ha', hstep⟩ | ha'
    · rcases mem_accounts_after hb with ⟨b', hb', hstep'⟩ | hb'
      · rw [hstep.id, hstep'.id]
        exact h.sound.platform a' ha' b' hb' (hstep.ownerType ▸ hap) (hstep'.ownerType ▸ hbp)
      · exact absurd (h.sound.seeded a' ha' (hstep.ownerType ▸ hap)) (h.platform_of_new hb' hbp).1
    · rcases mem_accounts_after hb with ⟨b', hb', hstep'⟩ | hb'
      · exact absurd (h.sound.seeded b' hb' (hstep'.ownerType ▸ hbp)) (h.platform_of_new ha' hap).1
      · rw [(h.platform_of_new ha' hap).2.2 b hb' hbp]

/-- No row of a settlement that stays settled is added or flagged. -/
theorem rows_after (h : act.Commits env ds d) {s : Settlement} (hs : s ∈ d.settlements)
    (hkeep : ∀ s' xs ys, act = .refund s' xs ys → s'.id ≠ s.id) :
    (after env d act).rowsOf s.id = d.rowsOf s.id := by
  have hnew : ∀ t ∈ act.transactions, t.settlementId ≠ s.id := by
    intro t ht he
    have fresh : ∀ p : Purchase, .insertSettlement p.settlement ∈ act.writes → p.Grounded env ds →
        t ∈ p.transactions → False := by
      intro p hw hp ht
      rw [hp.posted.settlement t ht] at he
      refine h.fresh hw (c := .settlementsId) (x := p.settlement.id) (by simp [Write.keys]) ?_
      rw [he]
      exact List.mem_map_of_mem (f := Settlement.id) hs
    cases act with
    | purchase key p => exact fresh p (mem_settlements (List.mem_singleton.2 rfl)) h.grounded ht
    | batch e ps =>
      obtain ⟨p, hp, ht⟩ := List.mem_flatMap.1 ht
      exact fresh p (mem_settlements (List.mem_map_of_mem hp)) (h.grounded p hp).1 ht
    | refund s' xs ys => exact hkeep s' xs ys rfl ((h.grounded.2.2.settlement t ht).symm.trans he)
    | _ => cases ht
  have hold : ∀ t ∈ d.transactions, t.settlementId = s.id →
      (transactionTable env.foreignKeys).updateAll act.writes t = t := by
    intro t ht hid
    rcases h.transaction_cases ht with he | ⟨-, -, s', xs, ys, rfl, x, hx, hxt⟩
    · exact he
    · -- a flagged row belongs to the settlement that is refunded
      obtain ⟨d', hd', hmem, hxs⟩ := h.mem_originals hx
      obtain ⟨y, hy, hstep⟩ := (h.seen d' hd').2.transactions.mem hmem
      have hyid : y.id = x.id := of_core Transaction.id hstep.core_eq
      have hys : y.settlementId = x.settlementId := of_core Transaction.settlementId hstep.core_eq
      have hyt : y = t := List.inj_on_of_nodup_map (h.sound.unique .transactionsId) hy ht (hyid.trans hxt)
      rw [hyt, hxs] at hys
      exact absurd (hys.symm.trans hid) (hkeep s' xs ys rfl)
  have hcore : ∀ t : Transaction,
      ((transactionTable env.foreignKeys).updateAll act.writes t).settlementId = t.settlementId :=
    fun t => of_core Transaction.settlementId (transaction_core t)
  unfold Db.rowsOf
  rw [h.transactions_after, List.filter_append, List.filter_map]
  have hnone : act.transactions.filter (·.settlementId == s.id) = [] :=
    List.filter_eq_nil_iff.2 fun t ht => by simpa using hnew t ht
  have hsame : d.transactions.filter ((fun t : Transaction => t.settlementId == s.id) ∘
      (transactionTable env.foreignKeys).updateAll act.writes) = d.transactions.filter (·.settlementId == s.id) :=
    List.filter_congr fun t _ => by simp [hcore]
  rw [hnone, hsame, List.append_nil, List.map_congr_left (g := id), List.map_id]
  intro t ht
  obtain ⟨ht, hid⟩ := List.mem_filter.1 ht
  exact hold t ht (by simpa using hid)

theorem extends_after (h : act.Commits env ds d) : d.Extends (after env d act) where
  column _ _ hx := column_mono hx
  records := Grows.of_view (recordTable env.foreignKeys) fun _ _ =>
    ((recordTable env.foreignKeys).updateAll_of_fixed fun _ _ => rfl).symm
  clients := Grows.of_view (clientTable env.foreignKeys) fun _ _ =>
    ((clientTable env.foreignKeys).updateAll_of_fixed fun _ _ => rfl).symm
  idempotencyKeys := ⟨id, act.stored, by rw [h.idempotencyKeys_after, List.map_id], fun _ _ => rfl⟩
  accounts := Grows.of_view (accountTable env.foreignKeys) fun a _ => updateAll_account_core a
  authorizations := Grows.of_view (authorizationTable env.foreignKeys) fun a _ => authorization_core a
  settlements := Grows.of_view (settlementTable env.foreignKeys) fun s hs => by
    rcases h.settlement_cases hs with ⟨he, -⟩ | ⟨hst, he, -⟩
    · exact Or.inl he
    · exact Or.inr ⟨hst, he⟩
  transactions := Grows.of_view (transactionTable env.foreignKeys) fun t ht => by
    rcases h.transaction_cases ht with he | ⟨hst, he, -⟩
    · exact Or.inl he
    · exact Or.inr ⟨hst, he⟩
  settled s hs hst hid := by
    rw [settlements_after, List.mem_append, List.mem_map] at hs
    rcases hs with ⟨s, hs, rfl⟩ | hs
    · rcases h.settlement_cases hs with ⟨he, hkeep⟩ | ⟨-, he, -⟩
      · rw [he] at hst ⊢
        refine ⟨hs, h.rows_after hs fun s' xs ys hact he => ?_⟩
        rw [hkeep s' xs ys hact he] at hst
        cases hst
      · rw [he] at hst
        cases hst
    · exact absurd hid (h.fresh (mem_settlements hs) (by simp [Write.keys]))

end Action.Commits

/-! ### The discipline -/

/-- The service keeps the invariant and extends the database, under any interleaving. -/
def ledger (env : Env) (G : Session Db Write Exc Choice Job Response → Db → Prop) :
    Discipline (genPay env) (uniqueKeys env.foreignKeys) G where
  inv := Db.Sound
  evolves := Db.Extends
  post := Committed env
  refl := Db.Extends.refl
  trans := Db.Extends.trans
  program := fun r o => handle_spec env r o
  commit := by
    rintro t a d ⟨act, hw, hgr, -⟩ - hd hseen hord hfree
    rw [hw] at hfree ⊢
    have h : act.Commits env t.txn.seen d := ⟨hgr, hd, hseen, hord, hfree⟩
    exact ⟨h.sound_after, h.extends_after⟩

end GenPay
