import GenPay.EndToEnd

/-!
# The refund of a purchase

`refund_settlement` on an undisturbed database returns whenever the authorization has a settled settlement, and takes
back what the settlement has posted (`Reverses`).  After any sequence of requests a settled settlement still has the
rows of its sale (`Db.Recorded`), so that a refund is the exact inverse of a settlement (`refund_inverts`).
-/

namespace GenPay

open ReadCommitted DoubleEntry
open Prog (ends_seq ends_exec)

variable {fk : Bool} {o : Nat → Choice} {d : Db} {t : Txn Db Write} {env : Env}

/-! ### The run -/

theorem scalars_ends {β : Type} {table : Db → List β} {p : β → Bool} : (scalars table p).Ends (engine fk) o d
    (fun l t' => t' = t.saw d ∧ l.Perm ((table (t.view (engine fk) d)).filter p)) False t :=
  ⟨rfl, Choice.arrange_perm _ _⟩

theorem markReversed_ends {x : Transaction} : (TransactionRepository.markReversed x).Ends (engine fk) o d
    (fun _ t' => Advances fk o d t t' (marks [x])) False t := by
  unfold TransactionRepository.markReversed
  split
  · rename_i hx
    have hm : marks [x] = [.setTransactionStatus x.id .reversed] := by simp [marks, hx]
    rw [hm]
    refine ends_seq (ends_exec _) (fun hv => hv ?_) ?_
    · exact Db.violation_eq_none.2 ⟨by simp [Write.keys], by simp [Write.references], rfl⟩
    rintro _ _ ⟨rfl, -⟩
    exact Advances.wrote (by simp [Write.keys])
  · rename_i hx
    have hm : marks [x] = [] := by simp [marks, hx]
    rw [hm]
    exact Advances.refl t

theorem markEachReversed_ends (xs : List Transaction) : ∀ t : Txn Db Write,
    (markEachReversed xs).Ends (engine fk) o d (fun _ t' => Advances fk o d t t' (marks xs)) False t := by
  induction xs with
  | nil => exact fun t => Advances.refl t
  | cons x xs ih =>
    intro t
    refine ends_seq markReversed_ends False.elim ?_
    intro _ t₁ hx
    refine (ih t₁).mono ?_ id
    intro _ t₂ hxs
    rw [marks_cons]
    exact hx.trans hxs

/-- The rows of a settlement cancel, and so do their reversals: `post_entries` has no reason to refuse them. -/
theorem Db.Sound.reversal_balanced (hd : d.Sound) {sid : String} {xs : List Transaction} (hxs : xs.Perm (d.rowsOf sid)) :
    totalOf .debit (xs.map reversalEntry) = totalOf .credit (xs.map reversalEntry) := by
  have hrows : (xs.map Transaction.delta).sum = 0 := by
    rw [(hxs.map _).sum_eq, ← hd.neutral sid]
    simp [Db.rowsOf, settlementNet, net, beq_eq_decide]
  have hneg : (xs.map reversalEntry).map LedgerEntry.delta = xs.map fun x => -x.delta := by
    rw [List.map_map]
    refine List.map_congr_left fun x _ => ?_
    cases hx : x.type <;> simp [reversalEntry, LedgerEntry.delta, Transaction.delta, opposite, hx]
  have hsum : ((xs.map reversalEntry).map LedgerEntry.delta).sum = 0 := by
    have hmap : (xs.map fun x => -x.delta) = (xs.map Transaction.delta).map fun n => -n := by
      rw [List.map_map]
      rfl
    rw [hneg, hmap, ← List.sum_neg, hrows, neg_zero]
  rw [sum_delta_eq] at hsum
  omega

/-- A refund returns exactly when the authorization has a settlement that is settled (and ids are new), and posts
the reversals of the rows of that settlement. -/
theorem refundSettlement_ends {id : String} {reason : Option String} (hd : (t.view (engine fk) d).Sound) :
    (refundSettlement id reason).Ends (engine fk) o d
      (fun res t' => ∃ x xs ys, x ∈ (t.view (engine fk) d).settlements ∧ x.authorizationId = id ∧ x.status = .settled ∧
        xs.Perm ((t.view (engine fk) d).rowsOf x.id) ∧ Posted x.id (xs.map reversalEntry) ys ∧
        (∀ y ∈ ys, y.currency = "USD") ∧ res = ⟨id, x.id, .reversed, x.settledAmountCents, reason, ys⟩ ∧
        Advances fk o d t t' (postings ys ++ marks xs ++ [.setSettlementStatus x.id .reversed]))
      (¬ (FreshFrom o t.seen.length (t.view (engine fk) d) ∧ (t.view (engine fk) d).Refundable id)) t := by
  unfold refundSettlement
  refine ends_seq (P := fun a t' => t' = t.saw d ∧ (∀ a', a = some a' → a'.id = id) ∧
    (a = none → ∀ a' ∈ (t.view (engine fk) d).authorizations, a'.id ≠ id)) ?_ False.elim ?_
  · refine scalar_ends.mono ?_ False.elim
    rintro r _ ⟨rfl, hs, hn⟩
    exact ⟨rfl, fun a ha => by simpa using (hs a ha).2, fun hr a ha => by simpa using hn hr a ha⟩
  rintro authorization _ ⟨rfl, hid, hnone⟩
  cases authorization with
  | none =>
    rintro ⟨-, x, hx, hxa, -⟩
    obtain ⟨a, ha, hax⟩ := List.mem_map.1 (hd.authorization x hx)
    exact hnone rfl a ha (hax.trans hxa)
  | some a =>
  have hid : a.id = id := hid a rfl
  refine ends_seq scalar_ends False.elim ?_
  rintro settlement _ ⟨rfl, hsome, hnone⟩
  rw [Txn.view_saw] at hsome hnone
  cases settlement with
  | none =>
    rintro ⟨-, x, hx, hxa, -⟩
    simpa [hxa] using hnone rfl x hx
  | some x =>
  obtain ⟨hx, hxa⟩ := hsome x rfl
  have hxa : x.authorizationId = id := by simpa using hxa
  show Prog.Ends _ _ _ (if x.status ≠ .settled then _ else _) _ _ _
  split
  · rename_i hst
    rintro ⟨-, y, hy, hya, hyst⟩
    have hyx : y = x := List.inj_on_of_nodup_map (hd.unique .settlementsAuthorization) hy hx (hya.trans hxa.symm)
    exact hst (hyx ▸ hyst)
  rename_i hst
  refine ends_seq scalars_ends False.elim ?_
  rintro xs _ ⟨rfl, hxs⟩
  have hread : Advances fk o d t (((t.saw d).saw d).saw d) _ :=
    ((Advances.saw t).trans (Advances.saw _)).trans (Advances.saw _)
  have hview : (((t.saw d).saw d).saw d).view (engine fk) d = t.view (engine fk) d := hread.view
  simp only [Txn.view_saw] at hxs
  refine ends_seq (postEntries_ends (hd.reversal_balanced hxs)) ?_ ?_
  · rintro hno ⟨hfresh, -⟩
    refine hno ⟨hread.fresh hfresh, ?_, fun e he => ?_⟩
    · rw [hview]
      exact List.mem_map_of_mem (f := Settlement.id) hx
    · obtain ⟨y, hy, rfl⟩ := List.mem_map.1 he
      rw [hview]
      exact hd.account y (List.mem_of_mem_filter (hxs.mem_iff.1 hy))
  rintro ys t₄ ⟨hpost, hposted, hcurrency⟩
  refine ends_seq (markEachReversed_ends xs t₄) False.elim ?_
  intro _ t₅ hmark
  refine ends_seq (P := fun y t' => y = { x with status := .reversed } ∧
    t' = t₅.wrote d (.setSettlementStatus x.id .reversed)) ?_ False.elim ?_
  · refine ends_seq (ends_exec _) (fun hv => hv ?_) ?_
    · exact Db.violation_eq_none.2 ⟨by simp [Write.keys], by simp [Write.references], rfl⟩
    rintro _ _ ⟨rfl, -⟩
    exact ⟨rfl, rfl⟩
  rintro _ _ ⟨rfl, rfl⟩
  have hflag : Advances fk o d t₅ _ [.setSettlementStatus x.id .reversed] := Advances.wrote (by simp [Write.keys])
  refine ⟨x, xs, ys, hx, hxa, not_not.1 hst, hxs, hposted, hcurrency, by rw [hid], ?_⟩
  exact hread.trans ((hpost.trans hmark).trans hflag)

/-! ### The rows -/

/-- What a transaction says, whatever id and time the row has. -/
def Transaction.content (t : Transaction) : Transaction := { t with id := "", createdAt := 0 }

/-- The rows `d'` are the rows `d` after the refund of the settlement `x`. -/
structure Reverses (d d' : Db) (x : Settlement) (reason : Option String) (result : RefundResult) : Prop where
  result_eq : result = ⟨x.authorizationId, x.id, .reversed, x.settledAmountCents, reason, result.transactions⟩
  /-- One row of the opposite type for each row of the settlement, for the same account and amount. -/
  reversals : (result.transactions.map Transaction.entry).Perm ((d.rowsOf x.id).map reversalEntry)
  posted : ∀ t ∈ result.transactions, t.settlementId = x.id ∧ t.status = .posted ∧ t.currency = "USD"
  transactions : d'.transactions =
    (d.transactions.map fun t => if t.settlementId = x.id then t.reverse else t) ++ result.transactions
  /-- On every account the effect of the settlement is taken back. -/
  accounts : d'.accounts = d.accounts.map fun b => { b with balanceCents := b.balanceCents - d.effect x.id b.id }
  settlements : d'.settlements = d.settlements.map fun y => if y.id = x.id then y.reverse else y
  others : { d' with settlements := d.settlements, transactions := d.transactions, accounts := d.accounts } = d

theorem view_marks (d : Db) (xs : List Transaction) : (engine fk).view d (marks xs) = { d with
    transactions := d.transactions.map fun t =>
      if ∃ x ∈ xs, x.id = t.id ∧ x.status ≠ .reversed then t.reverse else t } := by
  induction xs generalizing d with
  | nil => simp [marks]
  | cons x xs ih =>
    rw [marks_cons, Engine.view_append, ih]
    by_cases hx : x.status = .reversed
    · have hm : marks [x] = [] := by simp [marks, hx]
      rw [hm, Engine.view_nil]
      simp [hx]
    · have hm : marks [x] = [.setTransactionStatus x.id .reversed] := by simp [marks, hx]
      have happly : (engine fk).view d [.setTransactionStatus x.id .reversed] =
          d.apply (.setTransactionStatus x.id .reversed) := rfl
      rw [hm, happly]
      simp only [Db.apply, updateWhere, List.map_map]
      congr 1
      refine List.map_congr_left fun t _ => ?_
      simp only [Function.comp]
      by_cases hid : x.id = t.id
      · have hupdate : (t.id == x.id) = true := by simp [hid]
        have hflag : ∃ y ∈ x :: xs, y.id = t.id ∧ y.status ≠ .reversed := ⟨x, by simp, hid, hx⟩
        simp only [hupdate, ↓reduceIte]
        rw [if_pos hflag]
        split <;> rfl
      · have hupdate : (t.id == x.id) = false := by simp [Ne.symm hid]
        have hrest : (∃ y ∈ x :: xs, y.id = t.id ∧ y.status ≠ .reversed) ↔
            ∃ y ∈ xs, y.id = t.id ∧ y.status ≠ .reversed := by
          simp [hid]
        simp only [hupdate, hrest, Bool.false_eq_true, ↓reduceIte]

/-- Exactly the rows listed are flagged. -/
private theorem flagged_rows (hd : d.Sound) {sid : String} {xs ys : List Transaction} (hxs : xs.Perm (d.rowsOf sid))
    (hys : ∀ y ∈ ys, y.id ∉ d.column .transactionsId) :
    ((d.transactions ++ ys).map fun t => if ∃ x ∈ xs, x.id = t.id ∧ x.status ≠ .reversed then t.reverse else t) =
      (d.transactions.map fun t => if t.settlementId = sid then t.reverse else t) ++ ys := by
  have hmem : ∀ {x}, x ∈ xs ↔ x ∈ d.transactions ∧ x.settlementId = sid := by
    intro x
    rw [hxs.mem_iff, Db.rowsOf, List.mem_filter, beq_iff_eq]
  have hold : ∀ t ∈ d.transactions, (if ∃ x ∈ xs, x.id = t.id ∧ x.status ≠ .reversed then t.reverse else t) =
      if t.settlementId = sid then t.reverse else t := by
    intro t ht
    by_cases hsid : t.settlementId = sid
    · rw [if_pos hsid]
      by_cases hst : t.status = .reversed
      · -- flagged before: the update changes nothing
        have hsame : t.reverse = t := by
          unfold Transaction.reverse
          rw [← hst]
        rw [hsame, ite_self]
      · rw [if_pos ⟨t, hmem.2 ⟨ht, hsid⟩, rfl, hst⟩]
    · rw [if_neg hsid, if_neg]
      rintro ⟨x, hx, hid, -⟩
      obtain ⟨hx, hxsid⟩ := hmem.1 hx
      have hxt : x = t := List.inj_on_of_nodup_map (hd.unique .transactionsId) hx ht hid
      exact hsid (hxt ▸ hxsid)
  have hnew : ∀ y ∈ ys, (if ∃ x ∈ xs, x.id = y.id ∧ x.status ≠ .reversed then y.reverse else y) = y := by
    intro y hy
    rw [if_neg]
    rintro ⟨x, hx, hid, -⟩
    exact hys y hy (hid ▸ List.mem_map_of_mem (f := Transaction.id) (hmem.1 hx).1)
  rw [List.map_append, List.map_congr_left hold, List.map_congr_left hnew, List.map_id']

/-- What a refund that has returned has done. -/
theorem reverses_of_posted (hd : d.Sound) {x : Settlement} {xs ys : List Transaction} {reason : Option String}
    (hxs : xs.Perm (d.rowsOf x.id)) (hposted : Posted x.id (xs.map reversalEntry) ys) (husd : ∀ y ∈ ys, y.currency = "USD")
    (hys : ∀ y ∈ ys, y.id ∉ d.column .transactionsId) :
    Reverses d ((engine fk).view d (postings ys ++ marks xs ++ [.setSettlementStatus x.id .reversed])) x reason
      ⟨x.authorizationId, x.id, .reversed, x.settledAmountCents, reason, ys⟩ := by
  have heffect : ∀ id, accountNet id ys = -d.effect x.id id := by
    intro id
    rw [accountNet_reversal hposted.rows, Db.effect, accountNet, net_perm hxs]
    rfl
  rw [Engine.view_append, Engine.view_append, view_postings, view_marks]
  exact
    { result_eq := rfl
      reversals := by
        rw [hposted.rows]
        exact hxs.map _
      posted := fun y hy => ⟨hposted.settlement y hy, hposted.status y hy, husd y hy⟩
      transactions := flagged_rows hd hxs hys
      accounts := by
        refine List.map_congr_left fun b _ => ?_
        rw [heffect]
        rfl
      settlements := by
        refine List.map_congr_left fun y _ => ?_
        simp only [beq_iff_eq]
        rfl
      others := rfl }

/-! ### What is credited back -/

theorem postedTo_perm {type : TransactionType} {id : String} {ts ts' : List Transaction} (h : ts.Perm ts') :
    postedTo type id ts = postedTo type id ts' :=
  ((h.filter _).map _).sum_eq

/-- What the reversals credit is what the rows had debited. -/
theorem postedTo_reversals {id : String} {xs ys : List Transaction}
    (h : ys.map Transaction.entry = xs.map reversalEntry) : postedTo .credit id ys = postedTo .debit id xs := by
  rw [postedTo_eq_creditTo, h]
  unfold creditTo postedTo
  rw [List.filter_map, List.map_map]
  refine congrArg List.sum (congrArg (List.map _) (List.filter_congr fun x _ => ?_))
  simp only [Function.comp, reversalEntry]
  cases x.type <;> rfl

/-- The only debit of a sale is that of the buyer. -/
theorem Sale.postedTo_buyer {s : Sale} {ts : List Transaction} (h : ts.map Transaction.entry = s.entries) :
    postedTo .debit s.buyer ts = s.amountCents := by
  have hcredit : ∀ {account : Option String} {cents : Int}, ∀ e ∈ roleCredit account cents, e.type = .credit := by
    intro account cents e he
    unfold roleCredit at he
    split at he
    · split at he
      · rw [List.mem_singleton.1 he]
      · cases he
    · cases he
  have hposted : postedTo .debit s.buyer ts =
      ((s.entries.filter fun e => e.type == .debit && e.ledgerAccountId == s.buyer).map (·.amountCents)).sum := by
    rw [← h]
    unfold postedTo
    rw [List.filter_map, List.map_map]
    rfl
  have hrest : (roleCredit (some s.archive) s.shares.archiveCents ++
      roleCredit s.transcriptionist s.shares.transcriptionistCents ++
      roleCredit (some s.platform) s.shares.platformCents).filter
        (fun e => e.type == .debit && e.ledgerAccountId == s.buyer) = [] := by
    refine List.filter_eq_nil_iff.2 fun e he => ?_
    have htype : e.type = .credit := by
      rw [List.mem_append, List.mem_append] at he
      rcases he with (he | he) | he <;> exact hcredit e he
    simp [htype]
  rw [hposted, s.entries_eq, List.filter_cons_of_pos (by simp), hrest]
  simp

/-! ### What a settled settlement has posted -/

/-- The settlements that are settled have the rows of a sale to the buyer of their authorization. -/
def Db.Recorded (d : Db) : Prop :=
  ∀ x ∈ d.settlements, x.status = .settled → ∃ a ∈ d.authorizations, ∃ s : Sale, d.userAccount a.userId s.buyer ∧
    s.BookedAs a x (d.rowsOf x.id)

namespace Action.Commits

variable {ds : List Db} {act : Action}

theorem recorded (h : act.Commits env ds d) (hd : d.Recorded) : (after env d act).Recorded := by
  intro x hx hst
  have hext := h.extends_after
  by_cases hid : x.id ∈ d.column .settlementsId
  · obtain ⟨hold, hrows⟩ := hext.settled x hx hst hid
    obtain ⟨a, ha, s, hbuyer, hbooked⟩ := hd x hold hst
    obtain ⟨b, hb, hstep⟩ := hext.authorizations.mem ha
    refine ⟨b, hb, s, ?_, ?_, hbooked.amount, hst, ?_⟩
    · rw [of_core Authorization.userId hstep]
      exact hext.userAccount hbuyer
    · rw [of_core Authorization.id hstep]
      exact hbooked.authorization
    · rw [hrows]
      exact hbooked.posted
  · rw [settlements_after, List.mem_append, List.mem_map] at hx
    rcases hx with ⟨y, hy, rfl⟩ | hx
    · rw [of_core Settlement.id (settlement_core y)] at hid
      exact absurd (List.mem_map_of_mem (f := Settlement.id) hy) hid
    rw [settlements_eq, List.mem_map] at hx
    obtain ⟨p, hp, rfl⟩ := hx
    have hgr := h.grounded.purchase hp
    obtain ⟨a, ha, hcore⟩ := h.authorization_of_purchase hp
    obtain ⟨d', hd', hbuyer⟩ := hgr.researcher
    refine ⟨a, ha, p.sale, ?_, ?_, hgr.settlement.2.1, hst, ?_⟩
    · rw [of_core Authorization.userId hcore]
      exact hext.userAccount ((h.seen d' hd').2.userAccount hbuyer)
    · rw [of_core Authorization.id hcore]
      exact hgr.settlement.1
    · rw [h.rows_of_new hp]
      exact hgr.posted

/-- The balances after a commit that settles purchases. -/
theorem balance_of_settled (h : act.Commits env ds d) (hnorefund : ∀ s xs ys, act ≠ .refund s xs ys)
    (b : LedgerAccount) : ((accountTable env.foreignKeys).updateAll act.writes b).balanceCents =
      b.balanceCents + (act.settlements.map fun x => (after env d act).effect x.id b.id).sum := by
  have hsum : accountNet b.id (act.purchases.flatMap (·.transactions)) =
      (act.purchases.map fun p => accountNet b.id p.transactions).sum := by
    generalize act.purchases = ps
    induction ps with
    | nil => rfl
    | cons p ps ih => rw [List.flatMap_cons, List.map_cons, List.sum_cons, ← ih, accountNet, net_append]; rfl
  have heffect : act.settlements.map (fun x => (after env d act).effect x.id b.id) =
      act.purchases.map fun p => accountNet b.id p.transactions := by
    rw [settlements_eq, List.map_map]
    refine List.map_congr_left fun p hp => ?_
    rw [Function.comp, Db.effect, h.rows_of_new hp]
  rw [updateAll_balance, act.paired b.id, filterMap_transaction, transactions_eq hnorefund, hsum, heffect]

end Action.Commits

theorem recorded_of_serveAll {d₀ : Db} (h₀ : Seeded env d₀) (rs : List (Job × (Nat → Choice))) :
    ((genPay env).serveAll d₀ rs).Recorded := by
  have hstep : ∀ (_ : List Db) (d : Db) (r : Job) (o : Nat → Choice), d.Sound ∧ d.Recorded →
      ((genPay env).serve r o d).2.Sound ∧ ((genPay env).serve r o d).2.Recorded := by
    intro _ d r o ⟨hd, hrec⟩
    refine ⟨serve_sound hd r o, ?_⟩
    rcases hs : (genPay env).serve r o d with ⟨e | a, d'⟩
    · rw [Service.serve_error hs]
      exact hrec
    · obtain ⟨act, ds, hc, -, -, rfl⟩ := serve_commits hd hs
      exact hc.recorded hrec
  have hnone : d₀.Recorded := fun x hx => by simp [h₀.no_ledger.2.1] at hx
  exact ((genPay env).history_induction (P := fun _ d => d.Sound ∧ d.Recorded) hstep rs (h := [])
    ⟨h₀.sound, hnone⟩).2

/-! ### The inverse -/

/-- The request that takes `d₁` to `d₂` has settled `x`. -/
structure SettledBetween (d₁ d₂ : Db) (x : Settlement) : Prop where
  new : x.id ∉ d₁.column .settlementsId
  settlement : x ∈ d₂.settlements
  /-- The accounts move by the effects of what the request has settled. -/
  balance : ∀ b ∈ d₁.accounts, ∃ c ∈ d₂.accounts, c.id = b.id ∧ c.balanceCents = b.balanceCents +
    ((d₂.settlements.filter fun y => decide (y.id ∉ d₁.column .settlementsId)).map fun y => d₂.effect y.id b.id).sum

/-- A request after which there is a settlement has settled it. -/
theorem settledBetween_of_serve {d₁ d₂ : Db} (hd : d₁.Sound) {r : Job × (Nat → Choice)} (he : ((genPay env).serve r.1 r.2 d₁).2 = d₂)
    {x : Settlement} (hnew : x.id ∉ d₁.column .settlementsId) (hx : x ∈ d₂.settlements) : SettledBetween d₁ d₂ x := by
  refine ⟨hnew, hx, fun b hb => ?_⟩
  rcases hs : (genPay env).serve r.1 r.2 d₁ with ⟨e | a, d'⟩
  · -- a request that fails settles nothing
    have hsame : d₂ = d₁ := by rw [← he, hs, Service.serve_error hs]
    exact absurd (List.mem_map_of_mem (f := Settlement.id) (hsame ▸ hx)) hnew
  obtain ⟨act, ds, hc, -, -, rfl⟩ := serve_commits hd hs
  rw [hs] at he
  subst he
  have hmem : x ∈ act.settlements := by
    rw [Action.Commits.settlements_after, List.mem_append, List.mem_map] at hx
    rcases hx with ⟨y, hy, rfl⟩ | hx
    · rw [of_core Settlement.id (Action.Commits.settlement_core y)] at hnew
      exact absurd (List.mem_map_of_mem (f := Settlement.id) hy) hnew
    · exact hx
  have hnorefund : ∀ s xs ys, act ≠ .refund s xs ys := by
    rintro s xs ys rfl
    cases hmem
  have hfilter : (Action.Commits.after env d₁ act).settlements.filter
      (fun y => decide (y.id ∉ d₁.column .settlementsId)) = act.settlements := by
    have hold : (d₁.settlements.map ((settlementTable env.foreignKeys).updateAll act.writes)).filter
        (fun y => decide (y.id ∉ d₁.column .settlementsId)) = [] := by
      refine List.filter_eq_nil_iff.2 fun y hy he => ?_
      obtain ⟨z, hz, rfl⟩ := List.mem_map.1 hy
      rw [of_core Settlement.id (Action.Commits.settlement_core z), decide_eq_true_eq] at he
      exact he (List.mem_map_of_mem (f := Settlement.id) hz)
    have hnews : act.settlements.filter (fun y => decide (y.id ∉ d₁.column .settlementsId)) = act.settlements := by
      refine List.filter_eq_self.2 fun y hy => ?_
      rw [decide_eq_true_eq]
      exact hc.fresh (Action.Commits.mem_settlements hy) (by simp [Write.keys])
    rw [Action.Commits.settlements_after, List.filter_append, hold, hnews, List.nil_append]
  refine ⟨(accountTable env.foreignKeys).updateAll act.writes b, ?_, updateAll_account_id b, ?_⟩
  · rw [Action.Commits.accounts_after]
    exact List.mem_append_left _ (List.mem_map_of_mem hb)
  · rw [hfilter]
    exact hc.balance_of_settled hnorefund b

/-- The same rows, up to the order and the generated columns of the transactions. -/
def Db.SameRows (d d' : Db) : Prop :=
  { d with transactions := [] } = { d' with transactions := [] } ∧
    (d.transactions.map Transaction.content).Perm (d'.transactions.map Transaction.content)

/-- The content of a posted row is in its entry. -/
theorem map_content {sid : String} {ts : List Transaction}
    (h : ∀ t ∈ ts, t.settlementId = sid ∧ t.status = .posted ∧ t.currency = "USD") : ts.map Transaction.content =
      (ts.map Transaction.entry).map fun e => ⟨"", e.ledgerAccountId, sid, e.type, e.amountCents, "USD", .posted, 0⟩ := by
  rw [List.map_map]
  refine List.map_congr_left fun t ht => ?_
  obtain ⟨hsid, hst, husd⟩ := h t ht
  simp [Transaction.content, Transaction.entry, hsid, hst, husd]

/-- However the rows of the settlement are ordered when they are read, the refund leaves the same rows. -/
theorem Reverses.sameRows {d' d'' : Db} {x : Settlement} {reason : Option String} {result result' : RefundResult}
    (h : Reverses d d' x reason result) (h' : Reverses d d'' x reason result') : d'.SameRows d'' := by
  have hothers : { d' with transactions := [] } = { d'' with transactions := [] } := by
    have he := congrArg (fun b : Db => { b with
      settlements := d'.settlements, transactions := [], accounts := d'.accounts }) (h.others.trans h'.others.symm)
    have hs : d'.settlements = d''.settlements := h.settlements.trans h'.settlements.symm
    have ha : d'.accounts = d''.accounts := h.accounts.trans h'.accounts.symm
    cases d'
    cases d''
    simp_all
  refine ⟨hothers, ?_⟩
  rw [h.transactions, h'.transactions, List.map_append, List.map_append, map_content h.posted, map_content h'.posted]
  exact ((h.reversals.trans h'.reversals.symm).map _).append_left _

theorem view_of_unwritten (ht : t.writes = []) : t.view (engine fk) d = d := by
  rw [Txn.view, ht, Engine.view_nil]

/-- A refund that returns has reversed the settlement of its authorization. -/
theorem reverses_of_run (hd : d.Sound) {x : Settlement} (hx : x ∈ d.settlements) {reason : Option String}
    {t' : Txn Db Write} {result : RefundResult} (ht : t.writes = [])
    (hrun : (refundSettlement x.authorizationId reason).run (engine fk) o d t = (.ok result, t')) :
    Reverses d (t'.view (engine fk) d) x reason result ∧
      ∃ xs : List Transaction, xs.Perm (d.rowsOf x.id) ∧ result.transactions.map Transaction.entry = xs.map reversalEntry := by
  have hview : t.view (engine fk) d = d := view_of_unwritten ht
  have hends := @refundSettlement_ends fk o d t x.authorizationId reason (hview.symm ▸ hd)
  obtain ⟨y, xs, ys, hy, hya, -, hxs, hposted, husd, rfl, hadv⟩ := Prog.ends_ok hends hrun
  rw [hview] at hy hxs
  have hyx : y = x := List.inj_on_of_nodup_map (hd.unique .settlementsAuthorization) hy hx hya
  subst hyx
  have hfree : (uniqueKeys fk).Free d t'.writes := by
    have hkeys := Prog.run_free (o := o) (uniqueKeys fk) (refundSettlement y.authorizationId reason) t
      (d := d) (ht ▸ Keys.free_nil d)
    rwa [hrun] at hkeys
  have hnew : ∀ z ∈ ys, z.id ∉ d.column .transactionsId := by
    intro z hz
    refine hfree.fresh (.transactionsId, z.id) (List.mem_flatMap.2 ⟨.insertTransaction z, ?_, List.mem_singleton.2 rfl⟩)
    rw [hadv.writes]
    have hmem : .insertTransaction z ∈ postings ys := List.mem_flatMap.2 ⟨z, hz, by simp⟩
    simp [hmem]
  refine ⟨?_, xs, hxs, hposted.rows⟩
  rw [hadv.view, hview]
  exact reverses_of_posted hd hxs hposted husd hnew

/-- Some request has settled a settlement that is still settled, and its rows are still the same. -/
theorem exists_settledBetween {d₀ : Db} (h₀ : Seeded env d₀) {rs : List (Job × (Nat → Choice))}
    (hd : (genPay env).serveAll d₀ rs = d) {x : Settlement} (hx : x ∈ d.settlements) (hst : x.status = .settled) :
    ∃ rs₁ r rs₂ d₂, rs = rs₁ ++ r :: rs₂ ∧ ((genPay env).serve r.1 r.2 ((genPay env).serveAll d₀ rs₁)).2 = d₂ ∧
      SettledBetween ((genPay env).serveAll d₀ rs₁) d₂ x ∧ d₂.rowsOf x.id = d.rowsOf x.id := by
  have hbefore : ¬ x.id ∈ d₀.column .settlementsId := by simp [Db.column, h₀.no_ledger.2.1]
  have hafter : x.id ∈ ((genPay env).serveAll d₀ rs).column .settlementsId :=
    hd ▸ List.mem_map_of_mem (f := Settlement.id) hx
  obtain ⟨rs₁, r, rs₂, rfl, hnew, hthere⟩ :=
    (genPay env).exists_first (P := fun d => x.id ∈ d.column .settlementsId) hbefore hafter
  have hsound : ((genPay env).serveAll d₀ rs₁).Sound := serveAll_sound h₀.sound rs₁
  have hserved : ((genPay env).serve r.1 r.2 ((genPay env).serveAll d₀ rs₁)).2.Sound := serve_sound hsound r.1 r.2
  have hlater := @serveAll_extends env _ hserved rs₂
  rw [Service.serveAll_append] at hd
  change (genPay env).serveAll ((genPay env).serve r.1 r.2 _).2 rs₂ = d at hd
  rw [hd] at hlater
  obtain ⟨hx₂, hrows⟩ := hlater.settled x hx hst hthere
  exact ⟨rs₁, r, rs₂, _, rfl, rfl, settledBetween_of_serve hsound rfl hnew hx₂, hrows.symm⟩

/-- A refund is the inverse of its purchase: after any requests, the settlement that some request has settled, and that
is still settled, is taken back by a refund, in whatever order the refund reads the rows. -/
theorem refund_inverts {d₀ : Db} (h₀ : Seeded env d₀) (rs : List (Job × (Nat → Choice)))
    (hd : (genPay env).serveAll d₀ rs = d) {a : Authorization} {x : Settlement} (ha : a ∈ d.authorizations)
    (hx : x ∈ d.settlements) (hxa : x.authorizationId = a.id) (hst : x.status = .settled) (reason : Option String) :
    (∃ rs₁ r rs₂ d₂, rs = rs₁ ++ r :: rs₂ ∧ ((genPay env).serve r.1 r.2 ((genPay env).serveAll d₀ rs₁)).2 = d₂ ∧
      SettledBetween ((genPay env).serveAll d₀ rs₁) d₂ x ∧ d₂.rowsOf x.id = d.rowsOf x.id) ∧
    (∀ (o : Nat → Choice) (t : Txn Db Write), t.writes = [] → FreshFrom o t.seen.length d → ∃ result t',
      (refundSettlement a.id reason).run (engine env.foreignKeys) o d t = (.ok result, t')) ∧
    (∃ buyer, d.userAccount a.userId buyer ∧ ∀ (o : Nat → Choice) (t t' : Txn Db Write) (result : RefundResult),
      t.writes = [] → (refundSettlement a.id reason).run (engine env.foreignKeys) o d t = (.ok result, t') →
      Reverses d (t'.view (engine env.foreignKeys) d) x reason result ∧
      result.refundedCents = postedTo .credit buyer result.transactions) ∧
    (∀ (o o' : Nat → Choice) (t t' u u' : Txn Db Write) (result result' : RefundResult), t.writes = [] → u.writes = [] →
      (refundSettlement a.id reason).run (engine env.foreignKeys) o d t = (.ok result, t') →
      (refundSettlement a.id reason).run (engine env.foreignKeys) o' d u = (.ok result', u') →
      Db.SameRows (t'.view (engine env.foreignKeys) d) (u'.view (engine env.foreignKeys) d)) := by
  have hsound : d.Sound := hd ▸ serveAll_sound h₀.sound rs
  have hrecorded : d.Recorded := hd ▸ recorded_of_serveAll h₀ rs
  obtain ⟨b, hb, s, hbuyer, hbooked⟩ := hrecorded x hx hst
  have hba : b = a := List.inj_on_of_nodup_map (hsound.unique .authorizationsId) hb ha
    (hbooked.authorization.symm.trans hxa)
  subst hba
  rw [← hxa]
  refine ⟨exists_settledBetween h₀ hd hx hst, ?_, ⟨s.buyer, hbuyer, ?_⟩, ?_⟩
  · intro o t ht hfresh
    have hview : t.view (engine env.foreignKeys) d = d := view_of_unwritten ht
    have hends := @refundSettlement_ends env.foreignKeys o d t x.authorizationId reason (hview.symm ▸ hsound)
    rw [hview] at hends
    obtain ⟨result, t', hrun, -⟩ := Prog.exists_ok hends fun hno => hno ⟨hfresh, x, hx, rfl, hst⟩
    exact ⟨result, t', hrun⟩
  · intro o t t' result ht hrun
    obtain ⟨hrev, xs, hxs, hrows⟩ := reverses_of_run hsound hx ht hrun
    have hdebit := s.postedTo_buyer hbooked.posted.rows
    refine ⟨hrev, ?_⟩
    rw [postedTo_reversals hrows, postedTo_perm hxs, hdebit, ← hbooked.amount, hrev.result_eq]
  · intro o o' t t' u u' result result' ht hu hrun hrun'
    exact (reverses_of_run hsound hx ht hrun).1.sameRows (reverses_of_run hsound hx hu hrun').1

/-- A purchase and a card authorization. -/
def Sample.bothBought : List (Job × (Nat → Choice)) :=
  [((Case.buys "key").job, oracle 1), (Case.card.job, oracle 2)]

theorem refund_inverts_bothBought : ∃ d, (genPay Sample.env).serveAll Sample.seeded Sample.bothBought = d ∧
    ∃ a ∈ d.authorizations, ∃ x ∈ d.settlements, x.authorizationId = a.id ∧ ∃ result t',
      (refundSettlement a.id none).run (engine true) (Sample.oracle 3) d Txn.fresh = (.ok result, t') ∧
      Reverses d (t'.view (engine true) d) x none result := by
  obtain ⟨d, hd⟩ : ∃ d, (genPay Sample.env).serveAll Sample.seeded Sample.bothBought = d := ⟨_, rfl⟩
  have hpair : ∃ a ∈ d.authorizations, ∃ x ∈ d.settlements, x.authorizationId = a.id ∧ x.status = .settled := by
    rw [← hd]
    decide +kernel
  obtain ⟨a, ha, x, hx, hxa, hst⟩ := hpair
  obtain ⟨-, hreturns, ⟨_, -, hreverses⟩, -⟩ :=
    refund_inverts Sample.seeded_env Sample.bothBought hd ha hx hxa hst none
  have hfresh : FreshFrom (Sample.oracle 3) 0 d := by
    refine Sample.freshFrom_oracle 0 (List.range 40 ++ (List.range 40).map (1000 + ·) ++ (List.range 40).map (2000 + ·))
      (by decide +kernel) ?_
    rw [← hd]
    decide +kernel
  obtain ⟨result, t', hrun⟩ := hreturns (Sample.oracle 3) Txn.fresh rfl hfresh
  exact ⟨d, hd, a, ha, x, hx, hxa, result, t', hrun, (hreverses _ _ _ _ rfl hrun).1⟩

end GenPay
