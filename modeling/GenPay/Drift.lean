import GenPay.ReadCommitted.Alone
import GenPay.Reconciliation

/-!
# Drifts

An account may have come to a balance that its transactions do not add up to, by an edit of the database say.  No
request repairs that or adds to it: the drifts of the accounts stay what they are in every run (`run_drifts`), so
that each later reconciliation lists exactly those (`drifts_reported`).
-/

namespace GenPay

open ReadCommitted DoubleEntry

/-- The stored balance of an account minus that which its transactions add up to. -/
def Db.drift (d : Db) (a : LedgerAccount) : Int := a.balanceCents - ((d.counted a.id).map (·.delta)).sum

/-- The accounts with a drift, each with its drift. -/
def Db.drifts (d : Db) : List (String × Int) := (d.accounts.filter fun a => d.drift a ≠ 0).map fun a => (a.id, d.drift a)

/-- All transactions count, and their accounts are there; the balances may be anything. -/
structure Db.Countable (d : Db) : Prop where
  posted : ∀ t ∈ d.transactions, t.status ≠ .pending
  account : ∀ t ∈ d.transactions, t.ledgerAccountId ∈ d.column .accountsId

instance (d : Db) : Decidable d.Countable :=
  decidable_of_iff ((∀ t ∈ d.transactions, t.status ≠ .pending) ∧
    ∀ t ∈ d.transactions, t.ledgerAccountId ∈ d.column .accountsId) ⟨fun h => ⟨h.1, h.2⟩, fun h => ⟨h.1, h.2⟩⟩

namespace Db.Countable

variable {d : Db}

theorem drift_eq (h : d.Countable) (a : LedgerAccount) : d.drift a = a.balanceCents - accountNet a.id d.transactions := by
  have hcounted : d.counted a.id = d.transactions.filter fun t => decide (t.ledgerAccountId = a.id) := by
    refine List.filter_congr fun t ht => ?_
    simp [h.posted t ht, beq_eq_decide]
  rw [Db.drift, hcounted]
  rfl

/-- An account that is not there has no transactions. -/
theorem accountNet_eq_zero (h : d.Countable) {id : String} (hno : id ∉ d.column .accountsId) :
    accountNet id d.transactions = 0 := net_eq_zero fun t ht he => hno (he ▸ h.account t ht)

end Db.Countable

/-! ### A commit -/

namespace Action

variable {env : Env} {ds : List Db} {d : Db} {act : Action}

theorem Grounded.posted (h : act.Grounded env ds) : ∀ t ∈ act.transactions, t.status = .posted := by
  cases act with
  | purchase key p =>
    have hp : p.Grounded env ds := h
    exact hp.posted.status
  | batch e ps =>
    intro t ht
    obtain ⟨p, hp, ht⟩ := List.mem_flatMap.1 ht
    exact (h p hp).1.posted.status t ht
  | refund s xs ys => exact h.2.2.status
  | _ => exact fun t ht => by cases ht

/-- What is posted is posted to accounts that some statement has seen. -/
theorem Grounded.account (h : act.Grounded env ds) (hds : ∀ d' ∈ ds, d'.Countable) :
    ∀ t ∈ act.transactions, ∃ d' ∈ ds, t.ledgerAccountId ∈ d'.column .accountsId := by
  intro t ht
  cases act with
  | purchase key p =>
    have hp : p.Grounded env ds := h
    exact hp.account ht
  | batch e ps =>
    obtain ⟨p, hp, ht⟩ := List.mem_flatMap.1 ht
    exact (h p hp).1.account ht
  | refund s xs ys =>
    obtain ⟨⟨d₁, d₂, hsub, -, hperm⟩, -, hposted⟩ := h
    have hrow : t.entry ∈ xs.map reversalEntry := by
      rw [← hposted.rows]
      exact List.mem_map_of_mem ht
    obtain ⟨u, hu, he⟩ := List.mem_map.1 hrow
    have hmem : u ∈ d₂.transactions := List.mem_of_mem_filter (hperm.mem_iff.1 hu)
    have hd₂ : d₂ ∈ ds := hsub.subset (by simp)
    refine ⟨d₂, hd₂, ?_⟩
    have hid : u.ledgerAccountId = t.ledgerAccountId := congrArg LedgerEntry.ledgerAccountId he
    exact hid ▸ (hds d₂ hd₂).account u hmem
  | _ => cases ht

theorem Grounded.balance_of_new (h : act.Grounded env ds) : ∀ a ∈ act.accounts, a.balanceCents = 0 := by
  cases act with
  | user u x =>
    have hx : x.IsNew .user (some u.id) none := h
    simpa [accounts] using hx.2.2.2
  | archive a x =>
    have hx : x.IsNew .archive none (some a.id) := h
    simpa [accounts] using hx.2.2.2
  | seeded admin processor x₀ a x₁ u x₂ v x₃ r =>
    obtain ⟨-, -, h₀, h₁, h₂, h₃⟩ := h
    simpa [accounts] using ⟨h₀.2.2.2, h₁.2.2.2, h₂.2.2.2, h₃.2.2.2⟩
  | _ => intro a ha; cases ha

/-- A row is flagged as reversed, or left alone. -/
theorem onTransaction_reverse : ∀ w ∈ act.writes, ∀ t : Transaction, w.onTransaction t = t ∨ w.onTransaction t = t.reverse := by
  intro w hw t
  rcases w.onTransaction_cases t with he | ⟨status, rfl⟩
  · exact Or.inl he
  · obtain ⟨rfl, -⟩ := mem_setTransactionStatus.1 hw
    exact Or.inr (if_pos rfl)

/-- The transactions after the commit count, and their accounts are there. -/
theorem Grounded.countable (h : act.Grounded env ds) (hd : d.Countable)
    (hds : ∀ d' ∈ ds, d'.Countable ∧ ∀ x ∈ d'.column .accountsId, x ∈ d.column .accountsId) :
    (Commits.after env d act).Countable where
  posted t ht := by
    have hflag : ∀ ws, (∀ w ∈ ws, w ∈ act.writes) → ∀ u : Transaction, u.status ≠ .pending →
        ((transactionTable env.foreignKeys).updateAll ws u).status ≠ .pending := by
      intro ws hws u hu
      rcases (transactionTable env.foreignKeys).updateAll_cases (g := Transaction.reverse) (fun _ => rfl)
        (fun w hw r => onTransaction_reverse w (hws w hw) r) u with ⟨he, -⟩ | ⟨he, -⟩
      · rwa [he]
      · rw [he]
        exact TransactionStatus.noConfusion
    have hrows := (transactionTable env.foreignKeys).rows_view d act.writes
    change (Commits.after env d act).transactions = _ at hrows
    rw [hrows, List.mem_append, List.mem_map] at ht
    rcases ht with ⟨u, hu, rfl⟩ | ht
    · exact hflag _ (fun _ hw => hw) u (hd.posted u hu)
    · obtain ⟨ws₁, w, ws₂, u, he, hu, rfl⟩ := (transactionTable env.foreignKeys).mem_insertedAll ht
      have hmem : u ∈ act.transactions := by
        rw [← filterMap_transaction]
        exact List.mem_filterMap.2 ⟨w, by rw [he]; simp, hu⟩
      refine hflag ws₂ (fun w' hw' => by rw [he]; simp [hw']) u ?_
      rw [h.posted u hmem]
      exact TransactionStatus.noConfusion
  account t ht := by
    have hcore := @view_transactions_core env.foreignKeys d act.writes
    have hmem : t.core ∈ (d.transactions ++ act.writes.filterMap Write.transaction?).map Transaction.core := by
      rw [← hcore]
      exact List.mem_map_of_mem ht
    obtain ⟨u, hu, he⟩ := List.mem_map.1 hmem
    rw [← of_core Transaction.ledgerAccountId he, Commits.column_after]
    rw [filterMap_transaction, List.mem_append] at hu
    rcases hu with hu | hu
    · exact Or.inl (hd.account u hu)
    · obtain ⟨d', hd', hx⟩ := h.account (fun d' hd' => (hds d' hd').1) u hu
      exact Or.inl ((hds d' hd').2 _ hx)

/-- The drifts after the commit are those before. -/
theorem Grounded.drifts (h : act.Grounded env ds) (hd : d.Countable)
    (hds : ∀ d' ∈ ds, d'.Countable ∧ ∀ x ∈ d'.column .accountsId, x ∈ d.column .accountsId)
    (hfree : (uniqueKeys env.foreignKeys).Free d act.writes) : (Commits.after env d act).drifts = d.drifts := by
  have hafter := h.countable hd hds
  have hnet : ∀ id, accountNet id (Commits.after env d act).transactions =
      accountNet id d.transactions + accountNet id act.transactions := by
    intro id
    rw [accountNet_view, filterMap_transaction]
  have hold : ∀ a : LedgerAccount, (Commits.after env d act).drift ((accountTable env.foreignKeys).updateAll act.writes a) =
      d.drift a := by
    intro a
    rw [hafter.drift_eq, hd.drift_eq, updateAll_account_id, updateAll_balance, hnet, act.paired a.id, filterMap_transaction]
    omega
  have hnew : ∀ a ∈ act.accounts, (Commits.after env d act).drift a = 0 := by
    intro a ha
    have hno : a.id ∉ d.column .accountsId := by
      refine hfree.fresh (.accountsId, a.id) (List.mem_flatMap.2 ⟨.insertAccount a, Commits.mem_accounts ha, ?_⟩)
      simp [uniqueKeys, Write.keys]
    have hposted : accountNet a.id act.transactions = 0 := by
      refine net_eq_zero fun t ht he => ?_
      obtain ⟨d', hd', hx⟩ := h.account (fun d' hd' => (hds d' hd').1) t ht
      exact hno (he ▸ (hds d' hd').2 _ hx)
    rw [hafter.drift_eq, hnet, hd.accountNet_eq_zero hno, hposted, h.balance_of_new a ha]
    rfl
  unfold Db.drifts
  rw [Commits.accounts_after, List.filter_append, List.map_append, List.filter_map, List.map_map]
  have hnone : act.accounts.filter (fun a => decide ((Commits.after env d act).drift a ≠ 0)) = [] := by
    refine List.filter_eq_nil_iff.2 fun a ha => ?_
    simp [hnew a ha]
  rw [hnone, List.map_nil, List.append_nil]
  have hkept : d.accounts.filter ((fun a => decide ((Commits.after env d act).drift a ≠ 0)) ∘
      (accountTable env.foreignKeys).updateAll act.writes) = d.accounts.filter fun a => d.drift a ≠ 0 := by
    refine List.filter_congr fun a _ => ?_
    rw [Function.comp, hold]
  rw [hkept]
  refine List.map_congr_left fun a _ => ?_
  rw [Function.comp, hold, updateAll_account_id]

end Action

/-! ### Runs -/

/-- No request changes the drifts. -/
def driftRule (env : Env) (G : AppSession → Db → Prop) : Discipline (genPay env) (uniqueKeys env.foreignKeys) G where
  inv d := d.Countable
  evolves d d' := (∀ x ∈ d.column .accountsId, x ∈ d'.column .accountsId) ∧ d'.drifts = d.drifts
  post := Committed env
  refl _ := ⟨fun _ hx => hx, rfl⟩
  trans h h' := ⟨fun x hx => h'.1 x (h.1 x hx), h'.2.trans h.2⟩
  program := fun r o => handle_spec env r o
  commit := by
    rintro t a d ⟨act, hw, hgr, -⟩ - hd hseen - hfree
    have hds : ∀ d' ∈ t.txn.seen, d'.Countable ∧ ∀ x ∈ d'.column .accountsId, x ∈ d.column .accountsId :=
      fun d' hd' => ⟨(hseen d' hd').1, (hseen d' hd').2.1⟩
    rw [hw] at hfree ⊢
    exact ⟨hgr.countable hd hds, fun x hx => Action.Commits.column_after.2 (Or.inl hx), hgr.drifts hd hds hfree⟩

/-- A discrepancy is listed for each account with a drift. -/
theorem discrepanciesOf_alone {d : Db} {as : List LedgerAccount} {ds : List Db} (hlen : ds.length = as.length)
    (hds : ∀ d' ∈ ds, d' = d) : (discrepanciesOf as ds).map (fun x => (x.ledgerAccountId, x.driftCents)) =
      (as.filter fun a => d.drift a ≠ 0).map fun a => (a.id, d.drift a) := by
  induction as generalizing ds with
  | nil => simp [discrepanciesOf]
  | cons a as ih =>
    cases ds with
    | nil => simp at hlen
    | cons d' ds =>
      have hd' : d' = d := hds d' List.mem_cons_self
      subst hd'
      have htail := ih (by simpa using hlen) fun d'' hd'' => hds d'' (List.mem_cons_of_mem _ hd'')
      simp only [discrepanciesOf]
      by_cases hdrift : d'.drift a = 0
      · have heq : ¬ ((d'.counted a.id).map (·.delta)).sum ≠ a.balanceCents := by
          unfold Db.drift at hdrift
          omega
        rw [if_neg heq, htail, List.filter_cons_of_neg (by simpa using hdrift)]
      · have hne : ((d'.counted a.id).map (·.delta)).sum ≠ a.balanceCents := by
          unfold Db.drift at hdrift
          omega
        rw [if_pos hne, List.map_cons, htail, List.filter_cons_of_pos (by simpa using hdrift), List.map_cons]
        rfl

/-- A reconciliation that no one disturbs lists the accounts with a drift. -/
theorem reconcileAll_lists (fk : Bool) (d : Db) (o : Nat → Choice) : ∃ report t,
    Prog.run (engine fk) o d reconcileAll Txn.fresh = (.ok report, t) ∧ t.writes = [] ∧
      report.accountsChecked = d.accounts.length ∧ (report.discrepancies.map fun x => (x.ledgerAccountId, x.driftCents)).Perm d.drifts := by
  have hreturns : Returns fk o reconcileAll Txn.fresh := reconcileAll_returns Txn.fresh
  obtain ⟨report, hr⟩ := Prog.run_wp (d := d) hreturns
  have hspec := Prog.run_wp (E := engine fk) (o := o) (d := d) (reconcileAll_spec (t := Txn.fresh) rfl)
  have hseen := Prog.run_seen (E := engine fk) (o := o) (d := d) reconcileAll Txn.fresh
  rw [hr] at hspec
  obtain ⟨hwrites, ds, hds, hreport⟩ := hspec
  have hall : ∀ x ∈ ds, x = d := fun x hx => by
    simpa using hseen x (by rw [hds]; exact List.mem_append_right _ hx)
  refine ⟨report, _, Prod.ext hr rfl, hwrites, ?_⟩
  cases ds with
  | nil => exact hreport.elim
  | cons d₁ ds =>
    obtain ⟨as, hperm, hlen, rfl⟩ := hreport
    have hd₁ : d₁ = d := hall d₁ List.mem_cons_self
    subst hd₁
    refine ⟨hperm.length_eq, ?_⟩
    rw [discrepanciesOf_alone hlen fun d' hd' => hall d' (List.mem_cons_of_mem _ hd')]
    exact (hperm.filter _).map _

section Runs

variable {env : Env} {G : AppSession → Db → Prop} {d₀ : Db} {s : AppSystem}

theorem run_drifts (hd : d₀.Countable) (h : Run (genPay env) G (System.initial d₀) s) : s.db.drifts = d₀.drifts :=
  (Discipline.evolves_run (D := driftRule env G) hd (.refl _) h).1.2

/-- Whatever the balances are at first, and whatever is requested meanwhile: a later reconciliation lists the accounts
that had a drift at first, each with that drift, and no others, and the script fails iff there are any. -/
theorem drifts_reported (hd : d₀.Countable) (h : Reachable (genPay env) d₀ s) (o : Nat → Choice) : ∃ report,
    (genPay env).serve .reconcileScript o s.db = (.ok (.exitCode (if d₀.drifts = [] then 0 else 1) report), s.db) ∧
      report.accountsChecked = s.db.accounts.length ∧
      (report.discrepancies.map fun x => (x.ledgerAccountId, x.driftCents)).Perm d₀.drifts := by
  obtain ⟨report, t, hrun, hwrites, hchecked, hlist⟩ := reconcileAll_lists env.foreignKeys s.db o
  change Prog.run (genPay env).toEngine o s.db reconcileAll Txn.fresh = _ at hrun
  rw [run_drifts hd h] at hlist
  have hempty : report.discrepancies.isEmpty = true ↔ d₀.drifts = [] := by
    rw [List.isEmpty_iff, ← List.map_eq_nil_iff (f := fun x : AccountDiscrepancy => (x.ledgerAccountId, x.driftCents))]
    constructor
    · intro he
      rw [he] at hlist
      exact hlist.symm.eq_nil
    · intro he
      rw [he] at hlist
      exact hlist.eq_nil
  refine ⟨report, ?_, hchecked, hlist⟩
  have hscript : ((genPay env).handle .reconcileScript).run (genPay env).toEngine o s.db Txn.fresh =
      (.ok (.exitCode (if report.discrepancies.isEmpty then 0 else 1) report), t) := by
    refine (Prog.run_bind reconcileAll _ Txn.fresh).trans ?_
    rw [hrun]
    rfl
  have hview : (genPay env).view s.db t.writes = s.db := by rw [hwrites, Engine.view_nil]
  unfold Service.serve
  rw [hscript]
  simp only [hview, hempty]

end Runs

/-- Someone has given the platform a dollar. -/
def Sample.edited : Db :=
  { seeded with accounts := seeded.accounts.map fun a =>
    if a.ownerType = .platform then { a with balanceCents := a.balanceCents + 100 } else a }

/-- A purchase on the edited database. -/
def Sample.editedBought : AppSystem :=
  scheduled Sample.env edited (fun _ _ => true) (.start (Case.buys "key").job (oracle 1) :: List.replicate 35 (.exec 0))

theorem drifts_reported_edited : Sample.editedBought.db.transactions.length = 4 ∧ ∃ id report,
    (genPay Sample.env).serve .reconcileScript (Sample.oracle 2) Sample.editedBought.db =
      (.ok (.exitCode 1 report), Sample.editedBought.db) ∧
    report.discrepancies.map (fun x => (x.ledgerAccountId, x.driftCents)) = [(id, 100)] := by
  have hedited : Sample.edited.Countable ∧ (Sample.edited.drifts.map (·.2) = [100]) := by decide +kernel
  obtain ⟨⟨id, n⟩, hone⟩ := List.length_eq_one_iff.1 (by simpa using congrArg List.length hedited.2)
  have hn : n = 100 := by simpa [hone] using hedited.2
  subst hn
  obtain ⟨report, hserve, -, hlist⟩ := drifts_reported hedited.1
    (Sample.run_scheduled (fun _ _ _ => True.intro) _ : Reachable (genPay Sample.env) Sample.edited Sample.editedBought)
    (Sample.oracle 2)
  rw [hone] at hserve hlist
  exact ⟨by decide +kernel, id, report, hserve, List.perm_singleton.1 hlist⟩

end GenPay
