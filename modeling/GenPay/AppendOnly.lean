import GenPay.Runs

/-!
# The ledger is append-only

Along every run the rows of the transactions, settlements and authorizations stay, with all columns that are no
status (`Db.Appends`).  A step that flags transactions is the commit of a refund of their settlement, which posts
an offsetting row for each of them (`append_only`).
-/

namespace GenPay

open ReadCommitted

/-- Rows of the ledger stay; a status changes at most from posted or settled to reversed. -/
structure Db.Appends (d d' : Db) : Prop where
  transactions : ∀ t ∈ d.transactions, ∃ t' ∈ d'.transactions, t'.id = t.id ∧
    t'.ledgerAccountId = t.ledgerAccountId ∧ t'.settlementId = t.settlementId ∧ t'.type = t.type ∧
    t'.amountCents = t.amountCents ∧ t'.currency = t.currency ∧
    (t'.status = t.status ∨ (t.status = .posted ∧ t'.status = .reversed))
  settlements : ∀ x ∈ d.settlements, ∃ x' ∈ d'.settlements, x'.id = x.id ∧
    x'.authorizationId = x.authorizationId ∧ x'.settledAmountCents = x.settledAmountCents ∧
    (x'.status = x.status ∨ (x.status = .settled ∧ x'.status = .reversed))
  authorizations : ∀ a ∈ d.authorizations, ∃ a' ∈ d'.authorizations, a'.id = a.id ∧
    a'.researchRecordId = a.researchRecordId ∧ a'.userId = a.userId ∧ a'.amountCents = a.amountCents ∧
    a'.externalReference = a.externalReference ∧ a'.createdByClientId = a.createdByClientId

/-- The transactions of `d` that `d'` has flagged as reversed. -/
def Db.flagged (d d' : Db) : List Transaction :=
  d.transactions.filter fun t => decide (t.status = .posted ∧ t.reverse ∈ d'.transactions)

/-- The transactions of `d'` that `d` does not have. -/
def Db.posted (d d' : Db) : List Transaction :=
  d'.transactions.filter fun t => decide (t.id ∉ d.column .transactionsId)

theorem Db.Extends.appends {d d' : Db} (h : d.Extends d') : d.Appends d' where
  transactions t ht := by
    obtain ⟨t', ht', rfl | ⟨hp, rfl⟩⟩ := h.transactions.mem ht
    · exact ⟨t', ht', rfl, rfl, rfl, rfl, rfl, rfl, Or.inl rfl⟩
    · exact ⟨_, ht', rfl, rfl, rfl, rfl, rfl, rfl, Or.inr ⟨hp, rfl⟩⟩
  settlements x hx := by
    obtain ⟨x', hx', rfl | ⟨hs, rfl⟩⟩ := h.settlements.mem hx
    · exact ⟨x', hx', rfl, rfl, rfl, Or.inl rfl⟩
    · exact ⟨_, hx', rfl, rfl, rfl, Or.inr ⟨hs, rfl⟩⟩
  authorizations a ha := by
    obtain ⟨a', ha', hstep⟩ := h.authorizations.mem ha
    exact ⟨a', ha', of_core (·.id) hstep, of_core (·.researchRecordId) hstep,
      of_core (·.userId) hstep, of_core (·.amountCents) hstep,
      of_core (·.externalReference) hstep, of_core (·.createdByClientId) hstep⟩

theorem Db.Sound.flagged_self {d : Db} (h : d.Sound) : d.flagged d = [] := by
  refine List.filter_eq_nil_iff.2 fun t ht hflag => ?_
  obtain ⟨hposted, hrev⟩ := of_decide_eq_true hflag
  have heq : t = t.reverse := List.inj_on_of_nodup_map (h.unique .transactionsId) ht hrev rfl
  have hst := congrArg Transaction.status heq
  rw [hposted] at hst
  cases hst

namespace Action.Commits

variable {env : Env} {ds : List Db} {d : Db} {act : Action}

/-- The settlement that a refund has read, as it is now. -/
theorem refunded {s : Settlement} {xs ys : List Transaction} (h : (Action.refund s xs ys).Commits env ds d) :
    ∃ x ∈ d.settlements, x.id = s.id ∧ x.authorizationId = s.authorizationId := by
  obtain ⟨d₁, hd₁, -, -, -, hs, -⟩ := h.originals
  obtain ⟨x, hx, hstep⟩ := (h.seen d₁ hd₁).2.settlements.mem hs
  exact ⟨x, hx, of_core Settlement.id hstep.core_eq, of_core Settlement.authorizationId hstep.core_eq⟩

/-- The rows a commit adds are those of its action. -/
theorem posted_after (h : act.Commits env ds d) : d.posted (after env d act) = act.transactions := by
  unfold Db.posted
  have hold : (d.transactions.map ((transactionTable env.foreignKeys).updateAll act.writes)).filter
      (fun t => decide (t.id ∉ d.column .transactionsId)) = [] := by
    rw [List.filter_eq_nil_iff]
    intro t' ht'
    obtain ⟨t, ht, rfl⟩ := List.mem_map.1 ht'
    rw [of_core Transaction.id (transaction_core t)]
    exact fun hnew => of_decide_eq_true hnew (List.mem_map_of_mem (f := Transaction.id) ht)
  have hnew : act.transactions.filter (fun t => decide (t.id ∉ d.column .transactionsId)) = act.transactions := by
    rw [List.filter_eq_self]
    intro t ht
    simpa using h.fresh (mem_transactions ht) (c := .transactionsId) (x := t.id) (by simp [Write.keys])
  rw [h.transactions_after, List.filter_append, hold, hnew, List.nil_append]

/-- A row that a commit flags is listed by its refund. -/
theorem mem_flagged (h : act.Commits env ds d) {t : Transaction} (ht : t ∈ d.flagged (after env d act)) :
    t ∈ d.transactions ∧ ∃ s xs ys, act = .refund s xs ys ∧ t.settlementId = s.id ∧ ∃ x ∈ xs, x.core = t.core := by
  obtain ⟨hold, hflag⟩ := List.mem_filter.1 ht
  refine ⟨hold, ?_⟩
  obtain ⟨hposted, hrev⟩ := of_decide_eq_true hflag
  have hupdated : (transactionTable env.foreignKeys).updateAll act.writes t ∈ (after env d act).transactions := by
    rw [h.transactions_after]
    exact List.mem_append_left _ (List.mem_map_of_mem hold)
  have heq : (transactionTable env.foreignKeys).updateAll act.writes t = t.reverse :=
    List.inj_on_of_nodup_map (h.sound_after.unique .transactionsId) hupdated hrev
      (of_core Transaction.id (transaction_core t))
  rcases h.transaction_cases hold with he | ⟨-, -, s, xs, ys, rfl, x, hx, hxid⟩
  · -- the row has not changed
    have hst : t.status = .reversed := by rw [← he, heq]; rfl
    rw [hposted] at hst
    cases hst
  · obtain ⟨d', hd', hmem, hxs⟩ := h.mem_originals hx
    obtain ⟨y, hy, hstep⟩ := (h.seen d' hd').2.transactions.mem hmem
    have hyid : y.id = x.id := of_core Transaction.id hstep.core_eq
    have hyt : y = t := List.inj_on_of_nodup_map (h.sound.unique .transactionsId) hy hold (hyid.trans hxid)
    subst hyt
    have hsid : y.settlementId = x.settlementId := of_core Transaction.settlementId hstep.core_eq
    exact ⟨s, xs, ys, rfl, hsid.trans hxs, x, hx, hstep.core_eq.symm⟩

/-- The rows of a refund offset those it flags, one by one. -/
theorem offsets {s : Settlement} {xs ys : List Transaction} (h : (Action.refund s xs ys).Commits env ds d) :
    ((d.flagged (after env d (.refund s xs ys))).map reversalEntry).Subperm (ys.map Transaction.entry) := by
  have hnodup : ((d.flagged (after env d (.refund s xs ys))).map Transaction.core).Nodup := by
    have hids : ((d.flagged (after env d (.refund s xs ys))).map Transaction.id).Nodup :=
      (h.sound.unique .transactionsId).sublist (List.filter_sublist.map _)
    refine List.Nodup.of_map Transaction.id ?_
    rw [List.map_map]
    exact hids
  have hcore : ((d.flagged (after env d (.refund s xs ys))).map Transaction.core).Subperm (xs.map Transaction.core) := by
    refine List.subperm_of_subset hnodup fun c hc => ?_
    obtain ⟨t, ht, rfl⟩ := List.mem_map.1 hc
    obtain ⟨-, s', xs', ys', hact, -, x, hx, hxt⟩ := h.mem_flagged ht
    cases hact
    exact List.mem_map.2 ⟨x, hx, hxt⟩
  obtain ⟨l, hperm, hsub⟩ := hcore
  have hperm' := hperm.map reversalEntry
  have hsub' := hsub.map reversalEntry
  rw [List.map_map] at hperm' hsub'
  rw [h.grounded.2.2.rows]
  exact ⟨l.map reversalEntry, hperm', hsub'⟩

end Action.Commits

section Runs

variable {env : Env} {d₀ : Db} {s : AppSystem}

/-- Rows are never removed or changed but in their status; and a step that flags rows is the commit of a refund
of their settlement, which posts for each of them a row of the same account and amount and the opposite type. -/
theorem append_only (h₀ : Seeded env d₀) (h : Reachable (genPay env) d₀ s) :
    (∀ s', Run (genPay env) (fun _ _ => True) s s' → s.db.Appends s'.db) ∧
    ∀ l s', s.step (genPay env) l = some s' → s.db.flagged s'.db = [] ∨
      ∃ i t r x data, l = .exec i ∧ s.sessions[i]? = some t ∧ t.job = .request r ∧ x ∈ s.db.settlements ∧
        r.route = .refundPurchase x.authorizationId data ∧
        (∀ f ∈ s.db.flagged s'.db, f.settlementId = x.id) ∧
        (∀ n ∈ s.db.posted s'.db, n.settlementId = x.id ∧ n.status = .posted) ∧
        ((s.db.flagged s'.db).map reversalEntry).Subperm ((s.db.posted s'.db).map Transaction.entry) := by
  refine ⟨fun s' hrun => ?_, fun l s' hstep => ?_⟩
  · exact (Discipline.evolves_run (D := ledger env fun _ _ => True) h₀.sound h hrun).1.appends
  · rcases step_commits h₀.sound h hstep (fun _ _ => True.intro) with he | ⟨i, t, a, act, rfl, ht, -, hc, hans, he⟩
    · rw [he]
      exact Or.inl (run_sound h₀.sound h).flagged_self
    · rw [he]
      rcases List.eq_nil_or_concat' (s.db.flagged (Action.Commits.after env s.db act)) with hnil | ⟨_, f, hf⟩
      · exact Or.inl hnil
      · obtain ⟨-, x, xs, ys, rfl, -⟩ := hc.mem_flagged (t := f) (by rw [hf]; simp)
        obtain ⟨r, data, hjob, hroute, -⟩ := hans.refund
        obtain ⟨x', hx', hid, haid⟩ := hc.refunded
        refine Or.inr ⟨i, t, r, x', data, rfl, ht, hjob, hx', haid ▸ hroute, fun f hf => ?_, fun n hn => ?_, ?_⟩
        · obtain ⟨-, s', xs', ys', hact, hfs, -⟩ := hc.mem_flagged hf
          cases hact
          rw [hfs, hid]
        · rw [hc.posted_after] at hn
          have hposted := hc.grounded.2.2
          rw [hid]
          exact ⟨hposted.settlement n hn, hposted.status n hn⟩
        · rw [hc.posted_after]
          exact hc.offsets

end Runs

/-- A purchase, and its refund up to the commit. -/
def Sample.refunding : AppSystem :=
  after (fun _ _ => true) [.start 0 (.buys "key"), .steps 0 35, .start 1 .refunds, .steps 1 25]

theorem append_only_refunding :
    ((Sample.refunding.step (genPay Sample.env) (.exec 1)).any fun s' =>
      (Sample.refunding.db.flagged s'.db).length == 4 && (Sample.refunding.db.posted s'.db).length == 4) = true ∧
    ∀ l s', Sample.refunding.step (genPay Sample.env) l = some s' → Sample.refunding.db.flagged s'.db = [] ∨
      ∃ i t r x data, l = .exec i ∧ Sample.refunding.sessions[i]? = some t ∧ t.job = .request r ∧
        x ∈ Sample.refunding.db.settlements ∧ r.route = .refundPurchase x.authorizationId data ∧
        (∀ f ∈ Sample.refunding.db.flagged s'.db, f.settlementId = x.id) ∧
        (∀ n ∈ Sample.refunding.db.posted s'.db, n.settlementId = x.id ∧ n.status = .posted) ∧
        ((Sample.refunding.db.flagged s'.db).map reversalEntry).Subperm
          ((Sample.refunding.db.posted s'.db).map Transaction.entry) := by
  refine ⟨?_, (append_only Sample.seeded_env (Sample.reachable_after _)).2⟩
  rw [Sample.refunding, Sample.after_eq]
  decide +kernel

end GenPay
