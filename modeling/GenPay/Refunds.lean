import GenPay.AppendOnly

/-!
# Refunds

The effect of a settlement on an account is the net of its rows there.  A refund of a settlement that is still
settled when it commits offsets the effect on every account (`Commits.reversed_after`).  The guard in
`refund_settlement` reads the status earlier: a refund that commits in between goes unnoticed and the settlement
is refunded twice (`refunds_race`).  As long as no refund of an authorization commits on a settlement that is not
settled any more, at most one of them commits, and the net effect afterwards is zero (`refund_once`).
-/

namespace GenPay

open ReadCommitted DoubleEntry

/-- Credits minus debits of a settlement on an account. -/
def Db.effect (d : Db) (settlementId accountId : String) : Int := accountNet accountId (d.rowsOf settlementId)

/-- The net of posted rows is the net of their entries. -/
theorem accountNet_entries (ts : List Transaction) (id : String) :
    accountNet id ts = net LedgerEntry.ledgerAccountId LedgerEntry.delta id (ts.map Transaction.entry) :=
  net_congr (f := Transaction.entry) (g := fun e => e) (fun _ => rfl) (fun _ => rfl) (fun _ => rfl) (fun _ => rfl)
    (by simp)

theorem accountNet_reversal {xs ys : List Transaction} (h : ys.map Transaction.entry = xs.map reversalEntry)
    (id : String) : accountNet id ys = -accountNet id xs := by
  have hrev : xs.map reversalEntry =
      (xs.map Transaction.entry).map fun e => ⟨e.ledgerAccountId, opposite e.type, e.amountCents⟩ := by
    rw [List.map_map]
    rfl
  rw [accountNet_entries, h, hrev, net_map_neg, accountNet_entries]
  · exact fun e _ => rfl
  · intro e _
    cases ht : e.type <;> simp [LedgerEntry.delta, opposite, ht]

namespace Action.Commits

variable {env : Env} {ds : List Db} {d : Db} {act : Action}

/-- The rows of a settlement after the commit. -/
theorem rowsOf_after (h : act.Commits env ds d) (settlementId : String) :
    (after env d act).rowsOf settlementId = (d.rowsOf settlementId).map
      ((transactionTable env.foreignKeys).updateAll act.writes) ++
        act.transactions.filter (·.settlementId == settlementId) := by
  have hold : (d.transactions.map ((transactionTable env.foreignKeys).updateAll act.writes)).filter
      (·.settlementId == settlementId) =
      (d.rowsOf settlementId).map ((transactionTable env.foreignKeys).updateAll act.writes) := by
    rw [List.filter_map]
    refine congrArg (List.map _) (List.filter_congr fun t _ => ?_)
    simp only [Function.comp, of_core Transaction.settlementId (transaction_core t)]
  rw [Db.rowsOf, h.transactions_after, List.filter_append, hold]

theorem effect_after (h : act.Commits env ds d) (settlementId accountId : String) :
    (after env d act).effect settlementId accountId = d.effect settlementId accountId +
      accountNet accountId (act.transactions.filter (·.settlementId == settlementId)) := by
  have hold : accountNet accountId ((d.rowsOf settlementId).map
      ((transactionTable env.foreignKeys).updateAll act.writes)) = accountNet accountId (d.rowsOf settlementId) :=
    accountNet_core (by rw [List.map_map]; exact List.map_congr_left fun t _ => transaction_core t) accountId
  rw [Db.effect, h.rowsOf_after, accountNet, net_append]
  exact congrArg (· + _) hold

/-- A refund that commits while its settlement is settled offsets the effect of the settlement. -/
theorem refund_effect {s : Settlement} {xs ys : List Transaction} (h : (Action.refund s xs ys).Commits env ds d)
    (hs : s ∈ d.settlements) (accountId : String) :
    (after env d (.refund s xs ys)).effect s.id accountId = 0 := by
  obtain ⟨d₁, hd₁, d₂, hd₂, h₁₂, hs₁, hperm⟩ := h.originals
  have hst : s.status = .settled := h.grounded.2.1
  have hposted := h.grounded.2.2
  -- the rows listed are still all rows of the settlement
  have hrows : d.rowsOf s.id = d₂.rowsOf s.id :=
    ((h.seen d₂ hd₂).2.settled s hs hst (h₁₂.column _ _ (List.mem_map_of_mem (f := Settlement.id) hs₁))).2
  have hnew : (transactions (.refund s xs ys)).filter (·.settlementId == s.id) = ys :=
    List.filter_eq_self.2 fun t ht => by simpa using hposted.settlement t ht
  have hxs : accountNet accountId xs = d.effect s.id accountId := by
    rw [Db.effect, hrows]
    exact net_perm hperm
  rw [h.effect_after, hnew, accountNet_reversal hposted.rows, hxs]
  exact add_neg_cancel _

/-- Reversed settlements keep or get the effect zero, if those refunded are still settled. -/
theorem reversed_after (h : act.Commits env ds d) {P : String → Prop}
    (hsettled : ∀ s xs ys, act = .refund s xs ys → P s.authorizationId → s ∈ d.settlements)
    (hd : ∀ x ∈ d.settlements, P x.authorizationId → x.status = .reversed → ∀ id, d.effect x.id id = 0) :
    ∀ x ∈ (after env d act).settlements, P x.authorizationId → x.status = .reversed →
      ∀ id, (after env d act).effect x.id id = 0 := by
  intro x hx hP hrev id
  rw [settlements_after, List.mem_append, List.mem_map] at hx
  rcases hx with ⟨x, hx, rfl⟩ | hx
  · rw [of_core Settlement.authorizationId (settlement_core x)] at hP
    rw [of_core Settlement.id (settlement_core x)]
    -- a refund of this settlement is one of `x` itself
    have same : ∀ s xs ys, act = .refund s xs ys → s.id = x.id → s = x := by
      intro s xs ys hact hid
      have hc : (Action.refund s xs ys).Commits env ds d := hact ▸ h
      obtain ⟨y, hy, hyid, hyaid⟩ := hc.refunded
      have hyx : y = x := List.inj_on_of_nodup_map (h.sound.unique .settlementsId) hy hx (hyid.trans hid)
      subst hyx
      have hs := hsettled s xs ys hact (hyaid ▸ hP)
      exact List.inj_on_of_nodup_map (h.sound.unique .settlementsId) hs hx hid
    rcases h.settlement_cases hx with ⟨he, -⟩ | ⟨hst, -, s, xs, ys, rfl, hid⟩
    · rw [he] at hrev
      have hrows : (after env d act).rowsOf x.id = d.rowsOf x.id := by
        refine h.rows_after hx fun s xs ys hact hid => ?_
        have hsx := same s xs ys hact hid
        subst hsx hact
        have hst : s.status = .settled := h.grounded.2.1
        rw [hst] at hrev
        cases hrev
      rw [Db.effect, hrows]
      exact hd x hx hP hrev id
    · have hsx := same s xs ys rfl hid
      subst hsx
      exact h.refund_effect hx id
  · rw [h.status_of_new.2 x hx] at hrev
    cases hrev

end Action.Commits

/-- The authorization has a settlement that is settled. -/
def Db.Refundable (d : Db) (authorizationId : String) : Prop :=
  ∃ x ∈ d.settlements, x.authorizationId = authorizationId ∧ x.status = .settled

instance (d : Db) (authorizationId : String) : Decidable (d.Refundable authorizationId) :=
  inferInstanceAs (Decidable (∃ x ∈ d.settlements, _))

namespace Action.Commits

variable {env : Env} {ds : List Db} {d : Db} {s : Settlement} {xs ys : List Transaction}

/-- The settlement a refund has read is still the same if the authorization has one that is settled. -/
theorem mem_of_refundable (h : (Action.refund s xs ys).Commits env ds d) (hr : d.Refundable s.authorizationId) :
    s ∈ d.settlements := by
  obtain ⟨d₁, hd₁, -, -, -, hs, -⟩ := h.originals
  obtain ⟨y, hy, hstep⟩ := (h.seen d₁ hd₁).2.settlements.mem hs
  obtain ⟨x, hx, haid, hst⟩ := hr
  have hyx : y = x := List.inj_on_of_nodup_map (h.sound.unique .settlementsAuthorization) hy hx
    ((of_core Settlement.authorizationId hstep.core_eq).trans haid.symm)
  subst hyx
  rcases hstep with rfl | ⟨-, rfl⟩
  · exact hy
  · cases hst

/-- A refund leaves its settlement reversed. -/
theorem reversed (h : (Action.refund s xs ys).Commits env ds d) :
    ∃ x ∈ (after env d (.refund s xs ys)).settlements, x.authorizationId = s.authorizationId ∧
      x.status = .reversed := by
  obtain ⟨y, hy, hid, haid⟩ := h.refunded
  refine ⟨(settlementTable env.foreignKeys).updateAll (writes (.refund s xs ys)) y, ?_,
    (of_core Settlement.authorizationId (settlement_core y)).trans haid, ?_⟩
  · rw [settlements_after]
    exact List.mem_append_left _ (List.mem_map_of_mem hy)
  · rcases h.settlement_cases hy with ⟨he, hkeep⟩ | ⟨-, he, -⟩
    · rw [he]
      exact hkeep s xs ys rfl hid.symm
    · rw [he]
      rfl

end Action.Commits

/-! ### At most one refund -/

/-- A refund of the purchase with this authorization. -/
def Job.refunds (authorizationId : String) : Job → Prop
  | .request r =>
    match r.route with
    | .refundPurchase id _ => id = authorizationId
    | _ => False
  | _ => False

instance (authorizationId : String) (job : Job) : Decidable (job.refunds authorizationId) := by
  unfold Job.refunds
  split
  · split <;> infer_instance
  · infer_instance

/-- A refund commits only while there is a settlement to refund. -/
def RefundsSettled (authorizationId : String) (t : AppSession) (d : Db) : Prop :=
  t.job.refunds authorizationId → d.Refundable authorizationId

instance (authorizationId : String) (t : AppSession) (d : Db) : Decidable (RefundsSettled authorizationId t d) :=
  inferInstanceAs (Decidable (_ → _))

/-- At most one refund of the authorization commits, the others leave no trace, and after a refund its settlement
has no effect on any account. -/
structure RefundedOnce (env : Env) (G : AppSession → Db → Prop) (d₀ : Db) (authorizationId : String)
    (s : AppSystem) : Prop where
  once : ∀ (i j : Nat) t u a b, s.sessions[i]? = some t → s.sessions[j]? = some u →
    t.job.refunds authorizationId → u.job.refunds authorizationId → t.phase = .committed a →
    u.phase = .committed b → i = j
  others : ∀ (i : Nat) t, s.sessions[i]? = some t → t.job.refunds authorizationId →
    (∀ a, t.phase ≠ .committed a) → Erasable (genPay env) G d₀ i s
  neutral : ∀ t ∈ s.sessions, ∀ a, t.job.refunds authorizationId → t.phase = .committed a →
    ∀ x ∈ s.db.settlements, x.authorizationId = authorizationId →
      x.status = .reversed ∧ ∀ id, s.db.effect x.id id = 0

section Runs

variable {env : Env} {d₀ : Db} {s : AppSystem} {authorizationId : String}

/-- What a committing refund does. -/
theorem refund_commits {G : AppSession → Db → Prop} {t : AppSession} {a : Response} {d : Db}
    (h : (ledger env G).AtCommit t a d) (hjob : t.job.refunds authorizationId) :
    ∃ x xs ys, t.txn.writes = Action.writes (.refund x xs ys) ∧ x.authorizationId = authorizationId ∧
      (Action.refund x xs ys).Commits env t.txn.seen d := by
  obtain ⟨act, hw, hc, hans⟩ := commits_of_atCommit h
  cases hj : t.job with
  | request r =>
    rw [hj] at hans hjob
    simp only [Job.refunds] at hjob
    split at hjob
    · rename_i id data hr
      simp only [Answers, AnswersRequest, hr] at hans
      obtain ⟨-, x, xs, ys, hid, rfl⟩ := hans
      exact ⟨x, xs, ys, hw, hid.trans hjob, hc⟩
    · exact hjob.elim
  | seed => rw [hj] at hjob; exact hjob.elim
  | reconcileScript => rw [hj] at hjob; exact hjob.elim

theorem Answers.refunds {a : Response} {ds : List Db} {job : Job} {x : Settlement} {xs ys : List Transaction}
    (h : Answers env a (.refund x xs ys) ds job) : job.refunds x.authorizationId := by
  obtain ⟨r, data, rfl, hr, -⟩ := h.refund
  simp [Job.refunds, hr]

/-- Refunds that commit on a settled settlement only keep reversed settlements without effect. -/
def refundOnce (env : Env) (authorizationId : String) :
    Discipline (genPay env) (uniqueKeys env.foreignKeys) (RefundsSettled authorizationId) where
  inv d := d.Sound ∧ ∀ x ∈ d.settlements, x.authorizationId = authorizationId → x.status = .reversed →
    ∀ id, d.effect x.id id = 0
  evolves := Db.Extends
  post := Committed env
  refl := Db.Extends.refl
  trans := Db.Extends.trans
  program := fun r o => handle_spec env r o
  commit := by
    rintro t a d hpost hG ⟨hd, hrev⟩ hseen hord hfree
    obtain ⟨act, hw, h, hans⟩ := Committed.commits hpost hd
      (fun d' hd' => ⟨(hseen d' hd').1.1, (hseen d' hd').2⟩) hord hfree
    rw [hw]
    refine ⟨⟨h.sound_after, h.reversed_after (P := (· = authorizationId)) ?_ hrev⟩, h.extends_after⟩
    rintro x xs ys rfl rfl
    exact h.mem_of_refundable (hG hans.refunds)

/-- A refund of the authorization that has committed has left its settlement reversed. -/
theorem reversed_of_refunded {G : AppSession → Db → Prop} (h₀ : Seeded env d₀)
    (h : Run (genPay env) G (System.initial d₀) s) {t : AppSession} (ht : t ∈ s.sessions) {a : Response}
    (ha : t.phase = .committed a) (hjob : t.job.refunds authorizationId) :
    ∃ x ∈ s.db.settlements, x.authorizationId = authorizationId ∧ x.status = .reversed := by
  refine Discipline.facts (D := ledger env G) (fun t d => t.job.refunds authorizationId →
    ∃ x ∈ d.settlements, x.authorizationId = authorizationId ∧ x.status = .reversed) ?_ ?_ h₀.sound h t ht a ha hjob
  · intro t a d hat hjob
    obtain ⟨x, xs, ys, hw, haid, hc⟩ := refund_commits hat hjob
    rw [hw, ← haid]
    exact hc.reversed
  · rintro t a d d' - hx - hext hjob
    obtain ⟨x, hx, haid, hst⟩ := hx hjob
    obtain ⟨y, hy, rfl | ⟨hst', -⟩⟩ := hext.settlements.mem hx
    · exact ⟨y, hy, haid, hst⟩
    · rw [hst] at hst'
      cases hst'

/-- As long as refunds of the authorization commit on a settled settlement only, there is at most one. -/
theorem refund_once (h₀ : Seeded env d₀)
    (h : Run (genPay env) (RefundsSettled authorizationId) (System.initial d₀) s) :
    RefundedOnce env (RefundsSettled authorizationId) d₀ authorizationId s where
  once i j t u a b hi hj ht hu ha hb := by
    by_contra hij
    refine Discipline.pairwise (D := ledger env (RefundsSettled authorizationId))
      (fun u d => u.job.refunds authorizationId →
        ∃ x ∈ d.settlements, x.authorizationId = authorizationId ∧ x.status = .reversed)
      (fun t u => ¬ (t.job.refunds authorizationId ∧ u.job.refunds authorizationId))
      (fun t u hn hut => hn hut.symm) (fun s' hrun t ht a ha => reversed_of_refunded h₀ hrun ht ha) ?_ h₀.sound h
      i j t u a b hij hi hj ha hb ⟨ht, hu⟩
    rintro t a d u b hat - hF ⟨ht, hu⟩
    obtain ⟨x, hx, hxid, hsettled⟩ := hat.guard ht
    obtain ⟨y, hy, hyid, hreversed⟩ := hF hu
    have hxy : x = y := List.inj_on_of_nodup_map (hat.inv.unique .settlementsAuthorization) hx hy
      (hxid.trans hyid.symm)
    subst hxy
    rw [hsettled] at hreversed
    cases hreversed
  others i t ht hjob hn := Run.erase h ht (published_of_not_committed hn)
  neutral t ht a hjob ha x hx haid := by
    have h₀' : (refundOnce env authorizationId).inv d₀ := ⟨h₀.sound, by simp [h₀.no_ledger.2.1]⟩
    have hinv := (Discipline.inv_run (D := refundOnce env authorizationId) h₀' h).db
    obtain ⟨y, hy, hyid, hst⟩ := reversed_of_refunded h₀ h ht ha hjob
    have hxy : x = y := List.inj_on_of_nodup_map (hinv.1.unique .settlementsAuthorization) hx hy
      (haid.trans hyid.symm)
    subst hxy
    exact ⟨hst, hinv.2 x hx haid hst⟩

end Runs

/-- A purchase, and two refunds of it one after the other. -/
def Sample.refundedTwice : AppSystem :=
  after (fun t d => decide (RefundsSettled (uuid 1 6) t d))
    [.start 0 (.buys "key"), .steps 0 35, .start 1 .refunds, .steps 1 26, .start 2 .refunds, .steps 2 4]

theorem refund_once_refundedTwice :
    RefundedOnce Sample.env (RefundsSettled (Sample.uuid 1 6)) Sample.seeded (Sample.uuid 1 6) Sample.refundedTwice :=
  refund_once Sample.seeded_env (Sample.run_after (fun _ _ _ _ h => of_decide_eq_true h) _)

/-- Two refunds of one purchase that both read the settlement before one of them commits. -/
def Sample.refundRace : AppSystem :=
  after (fun _ _ => true)
    [.start 0 (.buys "key"), .steps 0 35, .start 1 .refunds, .start 2 .refunds, .steps 2 4, .steps 1 26, .steps 2 22]

/-- Both refunds commit, and the archive has paid its share back twice. -/
theorem refunds_race : Reachable (genPay Sample.env) Sample.seeded Sample.refundRace ∧
    ¬ RefundedOnce Sample.env (fun _ _ => True) Sample.seeded (Sample.uuid 1 6) Sample.refundRace ∧
    ∃ x ∈ Sample.refundRace.db.settlements, Sample.refundRace.db.effect x.id (Sample.uuid 0 10) = -419 := by
  refine ⟨Sample.reachable_after _, fun h => ?_, by rw [Sample.refundRace, Sample.after_eq]; decide +kernel⟩
  obtain ⟨t, a, ht, ha, htj⟩ := committed_at (s := Sample.refundRace) (i := 1)
    (p := fun t _ => decide (t.job.refunds (Sample.uuid 1 6)))
    (by rw [Sample.refundRace, Sample.after_eq]; decide +kernel)
  obtain ⟨u, b, hu, hb, huj⟩ := committed_at (s := Sample.refundRace) (i := 2)
    (p := fun t _ => decide (t.job.refunds (Sample.uuid 1 6)))
    (by rw [Sample.refundRace, Sample.after_eq]; decide +kernel)
  have h12 := h.once 1 2 t u a b ht hu (of_decide_eq_true htj) (of_decide_eq_true huj) ha hb
  exact absurd h12 (by decide)

end GenPay
