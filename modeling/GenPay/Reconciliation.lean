import GenPay.Runs

/-!
# Reconciliation

Every committed database reconciles: its balances are the sums of its transactions, settlement by settlement the
debits are the credits, and the balances cancel (`reconciled`).  A reconciliation that runs while others commit
reads the balances and the transactions of each account in different databases; its report is clean if and only
if no balance it has read differs from the one at the time the transactions were read (`report_clean_iff`).
-/

namespace GenPay

open ReadCommitted DoubleEntry

/-! ### Committed databases reconcile -/

/-- What reconciliation checks. -/
def Db.Reconciled (d : Db) : Prop := ∀ a ∈ d.accounts, a.balanceCents = ((d.counted a.id).map (·.delta)).sum

theorem sum_delta_rows (ts : List Transaction) : (ts.map (·.delta)).sum =
    totalOf .credit (ts.map Transaction.entry) - totalOf .debit (ts.map Transaction.entry) := by
  rw [← sum_delta_eq, List.map_map]
  rfl

namespace Db.Sound

variable {d : Db}

theorem sum_counted (h : d.Sound) (id : String) :
    ((d.counted id).map (·.delta)).sum = accountNet id d.transactions := by
  have hcounted : d.counted id = d.transactions.filter fun t => decide (t.ledgerAccountId = id) := by
    refine List.filter_congr fun t ht => ?_
    simp [h.posted t ht, beq_eq_decide]
  rw [hcounted]
  rfl

theorem reconciles (h : d.Sound) : d.Reconciled := fun a ha => by rw [h.sum_counted, h.balanced a ha]

theorem debits_eq_credits (h : d.Sound) (id : String) :
    totalOf .debit ((d.rowsOf id).map Transaction.entry) = totalOf .credit ((d.rowsOf id).map Transaction.entry) := by
  have hnet : ((d.rowsOf id).map (·.delta)).sum = 0 := by
    rw [← h.neutral id]
    simp [Db.rowsOf, settlementNet, net, beq_eq_decide]
  rw [sum_delta_rows] at hnet
  omega

theorem sum_balances (h : d.Sound) : (d.accounts.map (·.balanceCents)).sum = 0 := by
  calc (d.accounts.map (·.balanceCents)).sum
      = ((d.column .accountsId).map fun id => accountNet id d.transactions).sum := by
        rw [Db.column, List.map_map]
        exact congrArg List.sum (List.map_congr_left h.balanced)
    _ = (d.transactions.map (·.delta)).sum := sum_net (h.unique .accountsId) h.account
    _ = 0 := total_eq_zero h.neutral

end Db.Sound

/-! ### Reconciling -/

section Returns

variable {fk : Bool} {o : Nat → Choice}

/-- The program returns, whatever the others do. -/
def Returns {β : Type} (fk : Bool) (o : Nat → Choice) (p : Tx β) (t : Txn Db Write) : Prop :=
  p.wp (engine fk) o (fun r _ => ∃ a, r = .ok a) t

theorem Returns.bind {β γ : Type} {p : Tx β} {f : β → Tx γ} {t : Txn Db Write} (hp : Returns fk o p t)
    (hf : ∀ a t', Returns fk o (f a) t') : Returns fk o (p >>= f) t := by
  refine Prog.wp_bind (Prog.wp_mono hp ?_)
  rintro _ t' ⟨a, rfl⟩
  exact hf a t'

theorem scalars_returns {β : Type} {table : Db → List β} {p : β → Bool} (t : Txn Db Write) :
    Returns fk o (scalars table p) t := fun _ => ⟨_, rfl⟩

theorem reconcileEach_returns (as : List LedgerAccount) (t : Txn Db Write) : Returns fk o (reconcileEach as) t := by
  induction as generalizing t with
  | nil => exact ⟨_, rfl⟩
  | cons a as ih =>
    have hcomputed : Returns fk o (computedBalance a.id) t := (scalars_returns t).bind fun _ _ => ⟨_, rfl⟩
    exact hcomputed.bind fun _ t₁ => (ih t₁).bind fun _ _ => ⟨_, rfl⟩

theorem reconcileAll_returns (t : Txn Db Write) : Returns fk o reconcileAll t :=
  (scalars_returns t).bind fun as t₁ => (reconcileEach_returns as t₁).bind fun _ _ => ⟨_, rfl⟩

end Returns

/-- No account is listed iff each of them has the sum that its own database gives. -/
theorem discrepanciesOf_eq_nil {as : List LedgerAccount} {ds : List Db} (hlen : ds.length = as.length) :
    discrepanciesOf as ds = [] ↔
      ∀ x ∈ as.zip ds, x.1.balanceCents = ((x.2.counted x.1.id).map (·.delta)).sum := by
  induction as generalizing ds with
  | nil => simp [discrepanciesOf]
  | cons a as ih =>
    cases ds with
    | nil => simp at hlen
    | cons d ds =>
      have htail : discrepanciesOf as ds = [] ↔
          ∀ x ∈ as.zip ds, x.1.balanceCents = ((x.2.counted x.1.id).map (·.delta)).sum := ih (by simpa using hlen)
      simp only [discrepanciesOf, List.zip_cons_cons, List.forall_mem_cons]
      split
      · rename_i hne
        exact iff_of_false (by simp) fun hall => hne hall.1.symm
      · rename_i heq
        rw [htail]
        exact (and_iff_right (not_not.1 heq).symm).symm

/-- Reconciling a database that no one changes. -/
theorem reconcileAll_run {fk : Bool} {d : Db} (hd : d.Reconciled) (o : Nat → Choice) :
    (Prog.run (engine fk) o d reconcileAll Txn.fresh).1 = .ok ⟨d.accounts.length, []⟩ := by
  have hreturns : Returns fk o reconcileAll Txn.fresh := reconcileAll_returns Txn.fresh
  obtain ⟨report, hr⟩ := Prog.run_wp (d := d) hreturns
  have hspec := Prog.run_wp (E := engine fk) (o := o) (d := d) (reconcileAll_spec (t := Txn.fresh) rfl)
  have hseen := Prog.run_seen (E := engine fk) (o := o) (d := d) reconcileAll Txn.fresh
  rw [hr] at hspec ⊢
  obtain ⟨-, ds, hds, hreport⟩ := hspec
  -- every statement sees `d`
  have hall : ∀ x ∈ ds, x = d := fun x hx => by
    simpa using hseen x (by rw [hds]; exact List.mem_append_right _ hx)
  cases ds with
  | nil => exact hreport.elim
  | cons d₁ ds =>
    obtain ⟨as, hperm, hlen, rfl⟩ := hreport
    have hd₁ : d₁ = d := hall d₁ (by simp)
    subst hd₁
    rw [(discrepanciesOf_eq_nil hlen).2, hperm.length_eq]
    intro x hx
    obtain ⟨ha, hd'⟩ := List.of_mem_zip hx
    rw [hall x.2 (List.mem_cons_of_mem _ hd')]
    exact hd x.1 (hperm.mem_iff.1 ha)

section Runs

variable {env : Env} {G : AppSession → Db → Prop} {d₀ : Db} {s : AppSystem}

theorem run_reconciled (h₀ : Seeded env d₀) (h : Run (genPay env) G (System.initial d₀) s) : s.db.Reconciled :=
  (run_sound h₀.sound h).reconciles

/-- Under any interleaving each committed database reconciles, its settlements are balanced and its balances
cancel. -/
theorem reconciled (h₀ : Seeded env d₀) (h : Reachable (genPay env) d₀ s) :
    (∀ a ∈ s.db.accounts, a.balanceCents = totalOf .credit ((s.db.counted a.id).map Transaction.entry) -
      totalOf .debit ((s.db.counted a.id).map Transaction.entry)) ∧
    (∀ o, (Prog.run (engine env.foreignKeys) o s.db reconcileAll Txn.fresh).1 = .ok ⟨s.db.accounts.length, []⟩) ∧
    (∀ x ∈ s.db.settlements, totalOf .debit ((s.db.rowsOf x.id).map Transaction.entry) =
      totalOf .credit ((s.db.rowsOf x.id).map Transaction.entry)) ∧
    (s.db.accounts.map (·.balanceCents)).sum = 0 := by
  have hd : s.db.Sound := run_sound h₀.sound h
  refine ⟨fun a ha => ?_, reconcileAll_run hd.reconciles, fun x _ => hd.debits_eq_credits x.id, hd.sum_balances⟩
  rw [← sum_delta_rows]
  exact hd.reconciles a ha

end Runs

/-- Two purchases whose statements alternate: the second waits for the balances the first has changed. -/
def Sample.twoPurchases : AppSystem :=
  after (fun _ _ => true) ([.start 0 (.buys "first"), .start 1 (.buys "second")] ++
    (List.replicate 14 [.steps 0 1, .steps 1 1]).flatten ++ [.steps 0 21, .steps 1 21])

theorem reconciled_twoPurchases : Sample.twoPurchases.db.transactions.length = 8 ∧
    (Sample.twoPurchases.db.accounts.map (·.balanceCents)).sum = 0 := by
  refine ⟨?_, (reconciled Sample.seeded_env (Sample.reachable_after _)).2.2.2⟩
  rw [Sample.twoPurchases, Sample.after_eq]
  decide +kernel

/-! ### Reconciling while others commit -/

/-- The endpoint and the script. -/
def Job.reconciles : Job → Prop
  | .request r => r.route = .getReconciliationReport
  | .seed => False
  | .reconcileScript => True

instance (job : Job) : Decidable job.reconciles :=
  match job with
  | .request r => inferInstanceAs (Decidable (r.route = .getReconciliationReport))
  | .seed => inferInstanceAs (Decidable False)
  | .reconcileScript => inferInstanceAs (Decidable True)

def Response.report? : Response → Option ReconciliationReport
  | .report r => some r
  | .exitCode _ r => some r
  | _ => none

/-- The account has the balance that was read of it. -/
def Db.Shows (d : Db) (a : LedgerAccount) : Prop := ∃ b ∈ d.accounts, b.id = a.id ∧ b.balanceCents = a.balanceCents

theorem Db.Sound.shows_iff {d d' : Db} (hd' : d'.Sound) (hext : d.Extends d') {a : LedgerAccount}
    (ha : a ∈ d.accounts) : d'.Shows a ↔ a.balanceCents = ((d'.counted a.id).map (·.delta)).sum := by
  obtain ⟨b, hb, hstep⟩ := hext.accounts.mem ha
  have hbal := hd'.reconciles b hb
  rw [hstep.id] at hbal
  constructor
  · rintro ⟨c, hc, hid, hcb⟩
    rw [← hcb, hd'.reconciles c hc, hid]
  · intro h
    exact ⟨b, hb, hstep.id, hbal.trans h.symm⟩

section Runs

variable {env : Env} {d₀ : Db} {s : AppSystem} {t : AppSession} {a : Response}

/-- What a reconciliation that has ended has read, and what it reports. -/
theorem reconciliation_reports (h₀ : Seeded env d₀) (h : Reachable (genPay env) d₀ s) (ht : t ∈ s.sessions)
    (hjob : t.job.reconciles) (ha : t.phase = .committed a) :
    ∃ report ds, a.report? = some report ∧ ds <:+ t.txn.seen ∧ Reports report ds := by
  obtain ⟨act, -, -, hans⟩ := committed_action h₀.sound h ht ha
  cases hj : t.job with
  | seed =>
    rw [hj] at hjob
    exact hjob.elim
  | reconcileScript =>
    rw [hj] at hans
    obtain ⟨-, report, rfl, hrep⟩ := hans
    exact ⟨report, t.txn.seen, rfl, List.suffix_rfl, hrep⟩
  | request r =>
    rw [hj] at hans hjob
    have hroute : r.route = .getReconciliationReport := hjob
    simp only [Answers, AnswersRequest, hroute] at hans
    obtain ⟨-, report, rfl, hrep⟩ := hans
    exact ⟨report, t.txn.seen.tail, rfl, List.tail_suffix _, hrep⟩

/-- A reconciliation reads the accounts in one database and the transactions of each in a later one; its report
is clean iff each of these still shows the balance read of its account. -/
theorem report_clean_iff (h₀ : Seeded env d₀) (h : Reachable (genPay env) d₀ s) (ht : t ∈ s.sessions)
    (hjob : t.job.reconciles) (ha : t.phase = .committed a) :
    ∃ report accounts d ds, a.report? = some report ∧ d :: ds <:+ t.txn.seen ∧ accounts.Perm d.accounts ∧
      ds.length = accounts.length ∧ report = ⟨accounts.length, discrepanciesOf accounts ds⟩ ∧
      (report.discrepancies = [] ↔ ∀ x ∈ accounts.zip ds, x.2.Shows x.1) := by
  obtain ⟨report, ds, hrep, hsuff, hreport⟩ := reconciliation_reports h₀ h ht hjob ha
  cases ds with
  | nil => exact hreport.elim
  | cons d ds =>
    obtain ⟨accounts, hperm, hlen, rfl⟩ := hreport
    refine ⟨_, accounts, d, ds, hrep, hsuff, hperm, hlen, rfl, (discrepanciesOf_eq_nil hlen).trans ?_⟩
    have hinv := Discipline.inv_run (D := ledger env fun _ _ => True) h₀.sound h
    -- the databases of the later statements extend the one the balances are from
    have hord : (d :: ds).Pairwise Db.Extends := (hinv.ordered t ht).sublist hsuff.sublist
    refine forall₂_congr fun x hx => ?_
    obtain ⟨hx₁, hx₂⟩ := List.of_mem_zip hx
    have hsound : x.2.Sound := (hinv.seen t ht x.2 (hsuff.subset (List.mem_cons_of_mem _ hx₂))).1
    exact (hsound.shows_iff (List.rel_of_pairwise_cons hord hx₂) (hperm.mem_iff.1 hx₁)).symm

end Runs

/-- The script reads the accounts, a purchase runs from its first statement to its commit, the script goes on. -/
def Sample.falseAlarm : AppSystem :=
  after (fun _ _ => true)
    [.start 0 .reconciles, .steps 0 1, .start 1 (.buys "key"), .steps 1 35, .steps 0 5]

theorem report_clean_iff_falseAlarm : ∃ t ∈ Sample.falseAlarm.sessions, ∃ a report accounts d ds,
    t.phase = .committed a ∧ a.report? = some report ∧ d :: ds <:+ t.txn.seen ∧ accounts.Perm d.accounts ∧
      ds.length = accounts.length ∧ report = ⟨accounts.length, discrepanciesOf accounts ds⟩ ∧
      (report.discrepancies = [] ↔ ∀ x ∈ accounts.zip ds, x.2.Shows x.1) := by
  obtain ⟨t, ht, a, ha, hjob⟩ := exists_committed (s := Sample.falseAlarm)
    (p := fun t _ => decide t.job.reconciles) (by rw [Sample.falseAlarm, Sample.after_eq]; decide +kernel)
  obtain ⟨report, accounts, d, ds, hall⟩ :=
    report_clean_iff Sample.seeded_env (Sample.reachable_after _) ht (of_decide_eq_true hjob) ha
  exact ⟨t, ht, a, report, accounts, d, ds, ha, hall⟩

/-- All four accounts are reported although every committed database reconciles. -/
theorem reconcile_falseAlarm :
    (∀ s, Reachable (genPay Sample.env) Sample.seeded s → s.db.Reconciled) ∧
    Reachable (genPay Sample.env) Sample.seeded Sample.falseAlarm ∧
    ∃ t ∈ Sample.falseAlarm.sessions, ∃ a report, t.job.reconciles ∧ t.phase = .committed a ∧
      a.report? = some report ∧ report.discrepancies.length = 4 := by
  refine ⟨fun s h => run_reconciled Sample.seeded_env h, Sample.reachable_after _, ?_⟩
  obtain ⟨t, ht, a, ha, hp⟩ := exists_committed (s := Sample.falseAlarm)
    (p := fun t a => decide t.job.reconciles && a.report?.any fun r => r.discrepancies.length == 4)
    (by rw [Sample.falseAlarm, Sample.after_eq]; decide +kernel)
  obtain ⟨hjob, hany⟩ := Bool.and_eq_true_iff.1 hp
  obtain ⟨report, hreport, hlen⟩ := (Option.any_eq_true _ _).1 hany
  exact ⟨t, ht, a, report, of_decide_eq_true hjob, ha, hreport, by simpa using hlen⟩

end GenPay
