import GenPay.Specs
import GenPay.DoubleEntry

/-!
# The ledger of the database

Balances and postings as sums of entries: a list of writes changes the balance of an account by what it adds to
it, and the net of its rows by the rows it inserts.  For the writes of an action the two agree (`Action.paired`),
and the rows cancel settlement by settlement (`Action.neutral`).
-/

namespace GenPay

open ReadCommitted DoubleEntry

/-- Credits minus debits of the rows of an account. -/
def accountNet (id : String) (ts : List Transaction) : Int :=
  net (fun t : Transaction => t.ledgerAccountId) Transaction.delta id ts

/-- Credits minus debits of the rows of a settlement. -/
def settlementNet (id : String) (ts : List Transaction) : Int :=
  net (fun t : Transaction => t.settlementId) Transaction.delta id ts

/-- What a list of writes adds to the balance of an account. -/
def Write.added (id : String) : Write → Int
  | .addBalance i delta => if i = id then delta else 0
  | _ => 0

def added (id : String) (ws : List Write) : Int := (ws.map (Write.added id)).sum

@[simp] theorem added_nil (id : String) : added id [] = 0 := rfl

@[simp] theorem added_cons (id : String) (w : Write) (ws : List Write) :
    added id (w :: ws) = w.added id + added id ws := by simp [added]

@[simp] theorem added_append (id : String) (ws ws' : List Write) :
    added id (ws ++ ws') = added id ws + added id ws' := by simp [added]

section View

variable {fk : Bool} {d : Db} {ws : List Write}

theorem view_transactions_core : ((engine fk).view d ws).transactions.map Transaction.core =
    (d.transactions ++ ws.filterMap Write.transaction?).map Transaction.core := by
  rw [List.map_append]
  exact (transactionTable fk).map_rows_view (fun w _ => w.onTransaction_core) d

theorem accountNet_core {ts ts' : List Transaction} (h : ts.map Transaction.core = ts'.map Transaction.core)
    (id : String) : accountNet id ts = accountNet id ts' :=
  net_congr (f := Transaction.core) (g := Transaction.core) (c := fun t : Transaction => t.ledgerAccountId)
    (e := Transaction.delta) (fun _ => rfl) (fun _ => rfl) (fun _ => rfl) (fun _ => rfl) h

theorem settlementNet_core {ts ts' : List Transaction} (h : ts.map Transaction.core = ts'.map Transaction.core)
    (id : String) : settlementNet id ts = settlementNet id ts' :=
  net_congr (f := Transaction.core) (g := Transaction.core) (c := fun t : Transaction => t.settlementId)
    (e := Transaction.delta) (fun _ => rfl) (fun _ => rfl) (fun _ => rfl) (fun _ => rfl) h

theorem accountNet_view (id : String) : accountNet id ((engine fk).view d ws).transactions =
    accountNet id d.transactions + accountNet id (ws.filterMap Write.transaction?) :=
  (accountNet_core view_transactions_core id).trans net_append

theorem settlementNet_view (id : String) : settlementNet id ((engine fk).view d ws).transactions =
    settlementNet id d.transactions + settlementNet id (ws.filterMap Write.transaction?) :=
  (settlementNet_core view_transactions_core id).trans net_append

theorem updateAll_account_core (a : LedgerAccount) : ((accountTable fk).updateAll ws a).core = a.core :=
  (accountTable fk).updateAll_keeps (fun w _ r => w.onAccount_core r) a

theorem updateAll_account_id (a : LedgerAccount) : ((accountTable fk).updateAll ws a).id = a.id :=
  (accountTable fk).updateAll_keeps (f := LedgerAccount.id) (fun w _ r => w.onAccount_id r) a

theorem updateAll_balance (a : LedgerAccount) :
    ((accountTable fk).updateAll ws a).balanceCents = a.balanceCents + added a.id ws := by
  induction ws generalizing a with
  | nil => simp [Table.updateAll]
  | cons w ws ih =>
    have hw : (w.onAccount a).balanceCents = a.balanceCents + w.added a.id := by
      cases w with
      | addBalance id delta =>
        simp only [Write.onAccount, Write.added]
        by_cases h : a.id = id
        · simp [h]
        · simp [h, Ne.symm h]
      | _ => exact (add_zero _).symm
    rw [Table.updateAll_cons, ih]
    change (w.onAccount a).balanceCents + added (w.onAccount a).id ws = _
    rw [w.onAccount_id, hw, added_cons, add_assoc]

end View

/-! ### Postings -/

/-- The writes move the balances exactly by the rows they insert. -/
def Paired (ws : List Write) : Prop := ∀ id, added id ws = accountNet id (ws.filterMap Write.transaction?)

theorem Paired.append {ws ws' : List Write} (h : Paired ws) (h' : Paired ws') : Paired (ws ++ ws') := by
  intro id
  rw [added_append, List.filterMap_append, accountNet, net_append, h id, h' id]
  rfl

theorem paired_of_none {ws : List Write} (h : ∀ w ∈ ws, w.transaction? = none ∧ ∀ id, w.added id = 0) :
    Paired ws := by
  intro id
  rw [List.filterMap_eq_nil_iff.2 fun w hw => (h w hw).1]
  induction ws with
  | nil => rfl
  | cons w ws ih =>
    rw [added_cons, (h w (by simp)).2 id, ih fun w' hw' => h w' (by simp [hw'])]
    rfl

@[simp] theorem filterMap_postings (ts : List Transaction) : (postings ts).filterMap Write.transaction? = ts := by
  induction ts with
  | nil => rfl
  | cons t ts ih =>
    show (Write.insertTransaction t :: Write.addBalance _ _ :: postings ts).filterMap Write.transaction? = _
    simp [List.filterMap_cons, Write.transaction?, ih]

theorem paired_postings (ts : List Transaction) : Paired (postings ts) := by
  intro id
  rw [filterMap_postings]
  induction ts with
  | nil => rfl
  | cons t ts ih =>
    show added id (.insertTransaction t :: .addBalance t.ledgerAccountId t.delta :: postings ts) = _
    rw [added_cons, added_cons, ih, accountNet, accountNet, net_cons]
    simp [Write.added]

theorem sum_delta_eq (es : List LedgerEntry) :
    (es.map LedgerEntry.delta).sum = totalOf .credit es - totalOf .debit es := by
  induction es with
  | nil => rfl
  | cons e es ih =>
    have htotal : ∀ type, totalOf type (e :: es) = (if e.type = type then e.amountCents else 0) + totalOf type es := by
      intro type
      by_cases h : e.type = type
      · simp [totalOf, h]
      · simp [totalOf, h]
    rw [List.map_cons, List.sum_cons, ih, htotal, htotal]
    unfold LedgerEntry.delta
    cases e.type <;> simp <;> omega

namespace Posted

variable {sid : String} {es : List LedgerEntry} {ts : List Transaction}

theorem sum_delta (h : Posted sid es ts) : (ts.map Transaction.delta).sum = 0 := by
  have he : ts.map Transaction.delta = es.map LedgerEntry.delta := by
    rw [← h.rows, List.map_map]
    rfl
  rw [he, sum_delta_eq, h.balanced, sub_self]

theorem settlementNet_eq (h : Posted sid es ts) (id : String) : settlementNet id ts = 0 := by
  by_cases hid : sid = id
  · rw [settlementNet, net_eq_sum fun t ht => (h.settlement t ht).trans hid]
    exact h.sum_delta
  · exact net_eq_zero fun t ht => by rw [h.settlement t ht]; exact hid

end Posted

/-! ### The rows an action inserts -/

namespace Action

/-- The transactions an action posts. -/
def transactions : Action → List Transaction
  | purchase _ p => p.transactions
  | batch _ ps => ps.flatMap (·.transactions)
  | refund _ _ reversals => reversals
  | _ => []

/-- The settlements an action creates. -/
def settlements : Action → List Settlement
  | purchase _ p => [p.settlement]
  | batch _ ps => ps.map (·.settlement)
  | _ => []

/-- The authorizations an action creates. -/
def authorizations : Action → List Authorization
  | purchase _ p => [p.authorization]
  | created _ a => [a]
  | _ => []

/-- The responses an action stores. -/
def stored : Action → List IdempotencyKey
  | purchase (some key) p => [⟨key, some p.result⟩]
  | _ => []

/-- The accounts an action creates. -/
def accounts : Action → List LedgerAccount
  | user _ a => [a]
  | archive _ a => [a]
  | seeded _ _ platform _ aAccount _ uAccount _ vAccount _ => [platform, aAccount, uAccount, vAccount]
  | _ => []

end Action

private theorem filterMap_postings_none {β : Type} {f : Write → Option β} (ts : List Transaction)
    (h₁ : ∀ t, f (.insertTransaction t) = none) (h₂ : ∀ i n, f (.addBalance i n) = none) :
    (postings ts).filterMap f = [] := by
  refine List.filterMap_eq_nil_iff.2 fun w hw => ?_
  obtain ⟨t, -, ht⟩ := List.mem_flatMap.1 hw
  rcases List.mem_pair.1 ht with rfl | rfl
  · exact h₁ t
  · exact h₂ _ _

private theorem filterMap_marks_none {β : Type} {f : Write → Option β} (ts : List Transaction)
    (h : ∀ i s, f (.setTransactionStatus i s) = none) : (marks ts).filterMap f = [] := by
  refine List.filterMap_eq_nil_iff.2 fun w hw => ?_
  obtain ⟨t, -, ht⟩ := List.mem_filterMap.1 hw
  split at ht
  · cases ht; exact h _ _
  · cases ht

theorem Purchase.filterMap_transaction (p : Purchase) :
    p.writes.filterMap Write.transaction? = p.transactions := by
  simp [Purchase.writes, List.filterMap_cons, Write.transaction?]

theorem Purchase.filterMap_settlement (p : Purchase) : p.writes.filterMap Write.settlement? = [p.settlement] := by
  simp [Purchase.writes, Write.settlement?,
    filterMap_postings_none (f := Write.settlement?) p.transactions (fun _ => rfl) (fun _ _ => rfl)]

/-- Other tables get no row from a settlement. -/
theorem Purchase.filterMap_none {β : Type} {f : Write → Option β} (p : Purchase)
    (h₀ : ∀ s, f (.insertSettlement s) = none) (h₁ : ∀ t, f (.insertTransaction t) = none)
    (h₂ : ∀ i n, f (.addBalance i n) = none) : p.writes.filterMap f = [] := by
  simp [Purchase.writes, h₀, filterMap_postings_none p.transactions h₁ h₂]

namespace Action

theorem filterMap_transaction (act : Action) : act.writes.filterMap Write.transaction? = act.transactions := by
  cases act with
  | purchase key p =>
    cases key <;>
      simp [writes, transactions, List.filterMap_cons, Write.transaction?, Purchase.filterMap_transaction]
  | batch e ps =>
    simp only [writes, transactions, List.filterMap_cons, Write.transaction?]
    rw [List.filterMap_flatMap]
    simp only [Purchase.filterMap_transaction]
  | refund s xs ys =>
    simp [writes, transactions, Write.transaction?,
      filterMap_marks_none (f := Write.transaction?) xs fun _ _ => rfl]
  | _ => rfl

theorem filterMap_settlement (act : Action) : act.writes.filterMap Write.settlement? = act.settlements := by
  cases act with
  | purchase key p =>
    cases key <;>
      simp [writes, settlements, List.filterMap_cons, Write.settlement?, Purchase.filterMap_settlement]
  | batch e ps =>
    simp only [writes, settlements, List.filterMap_cons, Write.settlement?]
    rw [List.filterMap_flatMap]
    simp only [Purchase.filterMap_settlement, ← List.map_eq_flatMap]
  | refund s xs ys =>
    simp [writes, settlements, Write.settlement?,
      filterMap_marks_none (f := Write.settlement?) xs fun _ _ => rfl,
      filterMap_postings_none (f := Write.settlement?) ys (fun _ => rfl) (fun _ _ => rfl)]
  | _ => rfl

theorem filterMap_authorization (act : Action) :
    act.writes.filterMap Write.authorization? = act.authorizations := by
  have none (p : Purchase) : p.writes.filterMap Write.authorization? = [] :=
    p.filterMap_none (fun _ => rfl) (fun _ => rfl) fun _ _ => rfl
  cases act with
  | purchase key p =>
    cases key <;> simp [writes, authorizations, List.filterMap_cons, Write.authorization?, none]
  | batch e ps =>
    simp only [writes, authorizations, List.filterMap_cons, Write.authorization?]
    rw [List.filterMap_flatMap]
    simp [none]
  | refund s xs ys =>
    simp [writes, authorizations, Write.authorization?,
      filterMap_marks_none (f := Write.authorization?) xs fun _ _ => rfl,
      filterMap_postings_none (f := Write.authorization?) ys (fun _ => rfl) (fun _ _ => rfl)]
  | _ => rfl

theorem filterMap_account (act : Action) : act.writes.filterMap Write.account? = act.accounts := by
  have none (p : Purchase) : p.writes.filterMap Write.account? = [] :=
    p.filterMap_none (fun _ => rfl) (fun _ => rfl) fun _ _ => rfl
  cases act with
  | purchase key p => cases key <;> simp [writes, accounts, List.filterMap_cons, Write.account?, none]
  | batch e ps =>
    simp only [writes, accounts, List.filterMap_cons, Write.account?]
    rw [List.filterMap_flatMap]
    simp [none]
  | refund s xs ys =>
    simp [writes, accounts, Write.account?,
      filterMap_marks_none (f := Write.account?) xs fun _ _ => rfl,
      filterMap_postings_none (f := Write.account?) ys (fun _ => rfl) (fun _ _ => rfl)]
  | _ => rfl

theorem mem_stored {act : Action} {k : IdempotencyKey} :
    k ∈ act.stored ↔ ∃ key p, act = .purchase (some key) p ∧ k = ⟨key, some p.result⟩ := by
  cases act with
  | purchase key p => cases key <;> simp [stored]
  | _ => simp [stored]

theorem stored_pairwise (act : Action) {r : IdempotencyKey → IdempotencyKey → Prop} : act.stored.Pairwise r := by
  cases act with
  | purchase key p => cases key <;> simp [stored]
  | _ => exact List.Pairwise.nil

end Action

/-! ### The updates of an action -/

theorem mem_postings {ts : List Transaction} {w : Write} :
    w ∈ postings ts ↔ ∃ t ∈ ts, w = .insertTransaction t ∨ w = .addBalance t.ledgerAccountId t.delta := by
  simp [postings]

theorem mem_marks {ts : List Transaction} {w : Write} :
    w ∈ marks ts ↔ ∃ t ∈ ts, t.status ≠ .reversed ∧ w = .setTransactionStatus t.id .reversed := by
  unfold marks
  rw [List.mem_filterMap]
  refine exists_congr fun t => and_congr_right fun _ => ?_
  by_cases h : t.status = .reversed
  · simp [h]
  · simp [h, eq_comm]

theorem Purchase.mem_writes {p : Purchase} {w : Write} :
    w ∈ p.writes ↔ w = .insertSettlement p.settlement ∨
      ∃ t ∈ p.transactions, w = .insertTransaction t ∨ w = .addBalance t.ledgerAccountId t.delta := by
  rw [Purchase.writes, List.mem_cons, mem_postings]

namespace Action

/-- Transactions are flagged by refunds only, as reversed. -/
theorem mem_setTransactionStatus {act : Action} {id : String} {status : TransactionStatus} :
    .setTransactionStatus id status ∈ act.writes ↔ status = .reversed ∧
      ∃ s xs ys, act = .refund s xs ys ∧ ∃ x ∈ xs, x.id = id ∧ x.status ≠ .reversed := by
  cases act with
  | purchase key p => cases key <;> simp [writes, Purchase.mem_writes]
  | batch e ps => simp [writes, Purchase.mem_writes]
  | refund s xs ys =>
    simp only [writes, List.mem_append, mem_postings, mem_marks, List.mem_singleton]
    constructor
    · rintro ((⟨t, -, h | h⟩ | ⟨t, ht, hst, h⟩) | h)
      · cases h
      · cases h
      · cases h
        exact ⟨rfl, s, xs, ys, rfl, t, ht, rfl, hst⟩
      · cases h
    · rintro ⟨rfl, _, _, _, h, x, hx, rfl, hst⟩
      cases h
      exact Or.inl (Or.inr ⟨x, hx, hst, rfl⟩)
  | _ => simp [writes]

/-- Settlements are updated by refunds only, to reversed. -/
theorem mem_setSettlementStatus {act : Action} {id : String} {status : SettlementStatus} :
    .setSettlementStatus id status ∈ act.writes ↔ status = .reversed ∧
      ∃ s xs ys, act = .refund s xs ys ∧ s.id = id := by
  cases act with
  | purchase key p => cases key <;> simp [writes, Purchase.mem_writes]
  | batch e ps => simp [writes, Purchase.mem_writes]
  | refund s xs ys =>
    simp only [writes, List.mem_append, mem_postings, mem_marks, List.mem_singleton]
    constructor
    · rintro ((⟨t, -, h | h⟩ | ⟨t, -, -, h⟩) | h)
      · cases h
      · cases h
      · cases h
      · cases h
        exact ⟨rfl, s, xs, ys, rfl, rfl⟩
    · rintro ⟨rfl, _, _, _, h, rfl⟩
      cases h
      exact Or.inr rfl
  | _ => simp [writes]

/-- Authorizations are updated by decisions only. -/
theorem mem_setAuthorizationStatus {act : Action} {id : String} {status : AuthorizationStatus}
    {reason : Option String} : .setAuthorizationStatus id status reason ∈ act.writes ↔
      ∃ e a, act = .decided e a status reason ∧ a.id = id := by
  cases act with
  | purchase key p => cases key <;> simp [writes, Purchase.mem_writes]
  | batch e ps => simp [writes, Purchase.mem_writes]
  | refund s xs ys => simp [writes, mem_postings, mem_marks]
  | decided e a st reason' =>
    simp only [writes, List.mem_cons, List.not_mem_nil, or_false]
    constructor
    · rintro (h | h)
      · cases h
      · cases h
        exact ⟨e, a, rfl, rfl⟩
    · rintro ⟨_, _, h, rfl⟩
      cases h
      exact Or.inr rfl
  | _ => simp [writes]

/-- Responses are stored by purchases, each under the key it has claimed. -/
theorem mem_setResponseBody {act : Action} {key : String} {body : PurchaseResult} :
    .setResponseBody key body ∈ act.writes ↔ ∃ p, act = .purchase (some key) p ∧ body = p.result := by
  cases act with
  | purchase key' p =>
    cases key' with
    | none => simp [writes, Purchase.mem_writes]
    | some key' =>
      simp only [writes, List.mem_append, List.mem_cons, Purchase.mem_writes, List.not_mem_nil, or_false]
      constructor
      · rintro ((h | h | h | ⟨t, -, h | h⟩) | h)
        · cases h
        · cases h
        · cases h
        · cases h
        · cases h
        · cases h
          exact ⟨p, rfl, rfl⟩
      · rintro ⟨_, h, rfl⟩
        cases h
        exact Or.inr rfl
  | batch e ps => simp [writes, Purchase.mem_writes]
  | refund s xs ys => simp [writes, mem_postings, mem_marks]
  | _ => simp [writes]

/-- Keys are inserted by purchases under them. -/
theorem mem_insertIdempotencyKey {act : Action} {k : IdempotencyKey} (h : .insertIdempotencyKey k ∈ act.writes) :
    ∃ p, act = .purchase (some k.key) p := by
  cases act with
  | purchase key p =>
    cases key with
    | none => simp [writes, Purchase.mem_writes] at h
    | some key =>
      simp only [writes, List.mem_append, List.mem_cons, Purchase.mem_writes] at h
      rcases h with ((h | h | h | ⟨t, -, h | h⟩) | h | h) <;> cases h
      exact ⟨p, rfl⟩
  | batch e ps => simp [writes, Purchase.mem_writes] at h
  | refund s xs ys => simp [writes, mem_postings, mem_marks] at h
  | _ => simp [writes] at h

/-- The claim of a key is stored with its response, which the last write sets. -/
theorem stored_eq_insertedAll (fk : Bool) (act : Action) :
    act.stored = (idempotencyKeyTable fk).insertedAll act.writes := by
  by_cases hact : ∃ key p, act = .purchase (some key) p
  · obtain ⟨key, p, rfl⟩ := hact
    -- between the claim and the last write nothing concerns the table
    have hrest : ∀ w ∈ .insertAuthorization p.authorization :: p.writes,
        w.idempotencyKey? = none ∧ ∀ k, w.onIdempotencyKey k = k := by
      intro w hw
      rcases List.mem_cons.1 hw with rfl | hw
      · exact ⟨rfl, fun _ => rfl⟩
      · rcases Purchase.mem_writes.1 hw with rfl | ⟨t, -, rfl | rfl⟩ <;> exact ⟨rfl, fun _ => rfl⟩
    show [(⟨key, some p.result⟩ : IdempotencyKey)] =
      [(idempotencyKeyTable fk).updateAll (.insertAuthorization p.authorization :: p.writes ++
        [.setResponseBody key p.result]) ⟨key, none⟩] ++
      (idempotencyKeyTable fk).insertedAll (.insertAuthorization p.authorization :: p.writes ++
        [.setResponseBody key p.result])
    rw [Table.updateAll_append, Table.updateAll_of_fixed _ fun w hw => (hrest w hw).2 _,
      Table.insertedAll_of_none, List.append_nil]
    · exact congrArg (fun k => [k]) (if_pos rfl).symm
    · intro w hw
      rcases List.mem_append.1 hw with hw | hw
      · exact (hrest w hw).1
      · rw [List.mem_singleton.1 hw]
        rfl
  · have hstored : act.stored = [] := List.eq_nil_iff_forall_not_mem.2 fun k hk => by
      obtain ⟨key, p, he, -⟩ := mem_stored.1 hk
      exact hact ⟨key, p, he⟩
    rw [hstored, Table.insertedAll_of_none]
    intro w hw
    cases w with
    | insertIdempotencyKey k =>
      obtain ⟨p, hp⟩ := mem_insertIdempotencyKey hw
      exact absurd ⟨k.key, p, hp⟩ hact
    | _ => rfl

/-- An action that creates accounts moves no money. -/
theorem accounts_eq_nil_of_added {act : Action} {id : String} {n : Int} (h : .addBalance id n ∈ act.writes) :
    act.accounts = [] := by
  cases act with
  | user => simp [writes] at h
  | archive => simp [writes] at h
  | seeded => simp [writes] at h
  | _ => rfl

theorem paired (act : Action) : Paired act.writes := by
  have single {w : Write} (h : w.transaction? = none ∧ ∀ id, w.added id = 0) : Paired [w] :=
    paired_of_none (by simpa using h)
  have purchase (p : Purchase) : Paired p.writes :=
    (single (w := .insertSettlement p.settlement) ⟨rfl, fun _ => rfl⟩).append (paired_postings p.transactions)
  cases act with
  | purchase key p =>
    cases key with
    | none => exact (single ⟨rfl, fun _ => rfl⟩).append (purchase p)
    | some key =>
      exact ((single ⟨rfl, fun _ => rfl⟩).append ((single ⟨rfl, fun _ => rfl⟩).append (purchase p))).append
        (single ⟨rfl, fun _ => rfl⟩)
  | batch e ps =>
    refine (single ⟨rfl, fun _ => rfl⟩).append ?_
    induction ps with
    | nil => exact paired_of_none (by simp)
    | cons p ps ih => exact (purchase p).append ih
  | refund s xs ys =>
    refine ((paired_postings ys).append (paired_of_none fun w hw => ?_)).append (single ⟨rfl, fun _ => rfl⟩)
    obtain ⟨t, -, -, rfl⟩ := mem_marks.1 hw
    exact ⟨rfl, fun _ => rfl⟩
  | _ => exact paired_of_none (by simp [writes, Write.transaction?, Write.added])

/-- The rows an action posts cancel settlement by settlement. -/
theorem neutral {env : Env} {ds : List Db} {act : Action} (h : act.Grounded env ds) (id : String) :
    settlementNet id act.transactions = 0 := by
  cases act with
  | purchase key p =>
    have hp : p.Grounded env ds := h
    exact hp.posted.settlementNet_eq id
  | batch e ps =>
    have hps : ∀ p ∈ ps, p.Grounded env ds ∧ ∃ d ∈ ds, p.authorization ∈ d.authorizations := h
    show settlementNet id (ps.flatMap (·.transactions)) = 0
    clear h
    induction ps with
    | nil => rfl
    | cons p ps ih =>
      rw [List.flatMap_cons, settlementNet, net_append]
      have hhead := (hps p (by simp)).1.posted.settlementNet_eq id
      have htail := ih fun q hq => hps q (by simp [hq])
      simp only [settlementNet] at hhead htail
      rw [hhead, htail, add_zero]
  | refund s xs ys => exact h.2.2.settlementNet_eq id
  | _ => rfl

end Action

end GenPay
