import GenPay.ReadCommitted.Past
import GenPay.Reversal

/-!
# The books under interleaving

What `ledger_refines` says of requests served one after the other holds of interleaved ones too, as long as every
refund that commits finds its settlement still settled: each settlement is a sale, its rows are the entries of the
sale and, once it is reversed, their opposites, and the balances are the sums over the settled ones (`books_kept`).
What an archive has earned is then its share of what was settled from it, up to a cent a purchase
(`archive_earns`).
-/

namespace GenPay

open ReadCommitted DoubleEntry

/-- The sale of a settlement; the transcriptionist's account is read on a database that the run has passed before
the settlement was there. -/
def Sale.For (env : Env) (G : AppSession → Db → Prop) (d₀ : Db) (s : AppSystem) (x : Settlement) (sale : Sale) : Prop :=
  ∃ before, Passed (genPay env) G (System.initial d₀) s before ∧ x.id ∉ before.column .settlementsId ∧
    sale.Of env before s.db x

/-- The rows of a settlement are the entries of its sale and, once it is reversed, their opposites. -/
structure Sale.Rows (s : Sale) (d : Db) (x : Settlement) : Prop where
  settled : x.status = .settled → (d.rowsOf x.id).map Transaction.entry = s.entries ∧
    ∀ t ∈ d.rowsOf x.id, t.status = .posted
  reversed : x.status = .reversed → ∃ xs ys, d.rowsOf x.id = xs ++ ys ∧ xs.map Transaction.entry = s.entries ∧
    (ys.map Transaction.entry).Perm (xs.map reversalEntry) ∧ (∀ t ∈ xs, t.status = .reversed) ∧
    ∀ t ∈ ys, t.status = .posted

/-- The authorization whose purchase a job refunds. -/
def Job.refunded : Job → Option String
  | .request r =>
    match r.route with
    | .refundPurchase id _ => some id
    | _ => none
  | _ => none

theorem Job.refunds_iff {id : String} {job : Job} : job.refunds id ↔ job.refunded = some id := by
  cases job with
  | request r =>
    cases hr : r.route with
    | _ => simp [Job.refunds, Job.refunded, hr]
  | _ => simp [Job.refunds, Job.refunded]

/-- A refund commits only while its settlement is settled. -/
def RefundsOfSettled (t : AppSession) (d : Db) : Prop := ∀ id, t.job.refunds id → d.Refundable id

instance (t : AppSession) (d : Db) : Decidable (RefundsOfSettled t d) :=
  decidable_of_iff (t.job.refunded.all fun id => decide (d.Refundable id)) (by
    simp [RefundsOfSettled, Job.refunds_iff, Option.all_eq_true])

/-- Every settlement is a sale, its rows are those of the sale, and the balances add up. -/
structure BooksKept (env : Env) (G : AppSession → Db → Prop) (d₀ : Db) (s : AppSystem) (sale : Settlement → Sale) :
    Prop where
  sold : ∀ x ∈ s.db.settlements, (sale x).For env G d₀ s x
  rows : ∀ x ∈ s.db.settlements, (sale x).Rows s.db x
  balance : ∀ a ∈ s.db.accounts, a.balanceCents =
    ((s.db.settlements.filter fun x => x.status = .settled).map fun x => (sale x).contribution a.id).sum

namespace Action.Commits

variable {env : Env} {ds : List Db} {d : Db} {act : Action}

/-- The settlement of a purchase is its sale, whatever has been committed while it was read. -/
theorem sold_of_new (h : act.Commits env ds d) {p : Purchase} (hp : p ∈ act.purchases) :
    ∃ before ∈ ds, p.settlement.id ∉ before.column .settlementsId ∧
      p.sale.Of env before (after env d act) p.settlement := by
  have hgr := h.grounded.purchase hp
  have hext : ∀ d' ∈ ds, d'.Extends (after env d act) := fun d' hd' => (h.seen d' hd').2.trans h.extends_after
  have htranscribed : ∃ before ∈ ds, p.record.TranscribedBy before p.transcriptionist := by
    cases ht : p.transcriptionist with
    | some id =>
      obtain ⟨u, hu, hne, d', hd', ha⟩ := hgr.transcriptionist id ht
      exact ⟨d', hd', u, hu, hne, ha⟩
    | none =>
      by_cases hu : ∃ u, p.record.transcriptionistUserId = some u ∧ u ≠ ""
      · obtain ⟨u, hu, hne⟩ := hu
        obtain ⟨d', hd', hnone⟩ := hgr.noTranscriptionist ht u hu hne
        refine ⟨d', hd', fun u' hu' _ => ?_⟩
        rw [hu] at hu'
        cases hu'
        exact hnone
      · obtain ⟨d', hd', -⟩ := hgr.record
        exact ⟨d', hd', fun u hu' hne => absurd ⟨u, hu', hne⟩ hu⟩
  obtain ⟨before, hbefore, htranscribed⟩ := htranscribed
  obtain ⟨d₁, hd₁, hr, hrid⟩ := hgr.record
  obtain ⟨d₂, hd₂, hbuyer⟩ := hgr.researcher
  obtain ⟨d₃, hd₃, harchive⟩ := hgr.archive
  obtain ⟨d₄, hd₄, hplatform⟩ := hgr.platform
  obtain ⟨a, ha, hcore⟩ := h.authorization_of_purchase hp
  refine ⟨before, hbefore, fun hmem => ?_, ⟨a, ha, p.record, (hext d₁ hd₁).records.mem_of_eq hr, ?_, ?_, ?_,
    (hext d₃ hd₃).archiveAccount harchive, htranscribed⟩, (hext d₄ hd₄).platformAccount hplatform,
    hgr.settlement.2.1.symm, ?_⟩
  · exact h.fresh (mem_insertSettlement.2 ⟨p, hp, rfl⟩) (by simp [Write.keys]) (h.seen_column hbefore hmem)
  · rw [of_core Authorization.id hcore, hgr.settlement.1]
  · rw [of_core Authorization.researchRecordId hcore, hrid]
  · rw [of_core Authorization.userId hcore]
    exact (hext d₂ hd₂).userAccount hbuyer
  · rw [hgr.settlement.2.1]
    exact hgr.split

theorem rows_of_sold (h : act.Commits env ds d) {p : Purchase} (hp : p ∈ act.purchases) :
    p.sale.Rows (after env d act) p.settlement := by
  have hposted := (h.grounded.purchase hp).posted
  have hstatus := (h.grounded.purchase hp).settlement.2.2
  refine ⟨fun _ => ?_, fun hrev => ?_⟩
  · rw [h.rows_of_new hp]
    exact ⟨hposted.rows, hposted.status⟩
  · rw [hstatus] at hrev
    cases hrev

/-- A refund of a settled settlement flags all its rows and adds their opposites. -/
theorem rows_of_refunded {s : Settlement} {xs ys : List Transaction} (h : (Action.refund s xs ys).Commits env ds d)
    (hs : s ∈ d.settlements) (hposted : ∀ t ∈ d.rowsOf s.id, t.status = .posted) :
    ∃ zs, (after env d (.refund s xs ys)).rowsOf s.id = zs ++ ys ∧
      zs.map Transaction.entry = (d.rowsOf s.id).map Transaction.entry ∧ (ys.map Transaction.entry).Perm (zs.map reversalEntry) ∧
      (∀ t ∈ zs, t.status = .reversed) ∧ ∀ t ∈ ys, t.status = .posted := by
  obtain ⟨d₁, hd₁, d₂, hd₂, h₁₂, hs₁, hperm⟩ := h.originals
  have hst : s.status = .settled := h.grounded.2.1
  have hpost := h.grounded.2.2
  have hrows : d.rowsOf s.id = d₂.rowsOf s.id :=
    ((h.seen d₂ hd₂).2.settled s hs hst (h₁₂.column _ _ (List.mem_map_of_mem (f := Settlement.id) hs₁))).2
  have hnew : (transactions (.refund s xs ys)).filter (·.settlementId == s.id) = ys :=
    List.filter_eq_self.2 fun t ht => by simpa using hpost.settlement t ht
  have hentry : ∀ t, ((transactionTable env.foreignKeys).updateAll (writes (.refund s xs ys)) t).entry = t.entry :=
    fun t => of_core Transaction.entry (transaction_core t)
  refine ⟨_, by rw [h.rowsOf_after, hnew], ?_, ?_, fun t ht => ?_, hpost.status⟩
  · rw [List.map_map]
    exact List.map_congr_left fun t _ => hentry t
  · -- the rows listed are those of the settlement, in another order perhaps
    have hreversal : ∀ t, reversalEntry ((transactionTable env.foreignKeys).updateAll (writes (.refund s xs ys)) t) =
        reversalEntry t := fun t => of_core reversalEntry (transaction_core t)
    have hmap : ((d.rowsOf s.id).map ((transactionTable env.foreignKeys).updateAll (writes (.refund s xs ys)))).map
        reversalEntry = (d.rowsOf s.id).map reversalEntry := by
      rw [List.map_map]
      exact List.map_congr_left fun t _ => hreversal t
    rw [hpost.rows, hmap, hrows]
    exact hperm.map reversalEntry
  · obtain ⟨u, hu, rfl⟩ := List.mem_map.1 ht
    have hmem : u ∈ xs := hperm.mem_iff.2 (hrows ▸ hu)
    have hopen : u.status ≠ .reversed := by
      rw [hposted u hu]
      simp
    have hflag : Write.setTransactionStatus u.id .reversed ∈ writes (.refund s xs ys) :=
      mem_setTransactionStatus.2 ⟨rfl, s, xs, ys, rfl, u, hmem, rfl, hopen⟩
    have hw : ∀ w ∈ writes (.refund s xs ys), ∀ r : Transaction, w.onTransaction r = r ∨ w.onTransaction r = r.reverse := by
      intro w hw r
      rcases w.onTransaction_cases r with he | ⟨status, rfl⟩
      · exact Or.inl he
      · obtain ⟨rfl, -⟩ := mem_setTransactionStatus.1 hw
        exact Or.inr (if_pos rfl)
    rcases (transactionTable env.foreignKeys).updateAll_cases (g := Transaction.reverse) (fun _ => rfl) hw u with
      ⟨he, hfixed⟩ | ⟨he, -⟩
    · have hfix : Write.onTransaction (.setTransactionStatus u.id .reversed) u = u := hfixed _ hflag
      simp only [Write.onTransaction, ↓reduceIte] at hfix
      exact absurd (congrArg Transaction.status hfix).symm hopen
    · rw [he]
      rfl

end Action.Commits

/-! ### Runs -/

section Runs

variable {env : Env} {G : AppSession → Db → Prop} {d₀ : Db} {s : AppSystem}

theorem Sale.Rows.of_rows {d d' : Db} {x : Settlement} {sale : Sale} (h : sale.Rows d x)
    (hrows : d'.rowsOf x.id = d.rowsOf x.id) : sale.Rows d' x := by
  refine ⟨?_, ?_⟩
  · rw [hrows]
    exact h.settled
  · rw [hrows]
    exact h.reversed

/-- A commit keeps the rows of the sales, if what it refunds is there as it was read. -/
theorem Action.Commits.rows_kept {ds : List Db} {d : Db} {act : Action} (h : act.Commits env ds d) {x : Settlement}
    (hsettled : ∀ y xs ys, act = .refund y xs ys → y ∈ d.settlements) (hx : x ∈ d.settlements) {sale : Sale}
    (hrows : sale.Rows d x) :
    sale.Rows (after env d act) ((settlementTable env.foreignKeys).updateAll act.writes x) := by
  have same : ∀ y xs ys, act = .refund y xs ys → y.id = x.id → y = x := fun y xs ys hact hid =>
    List.inj_on_of_nodup_map (h.sound.unique .settlementsId) (hsettled y xs ys hact) hx hid
  rcases h.settlement_cases hx with ⟨he, hkeep⟩ | ⟨hst, he, y, xs, ys, rfl, hid⟩
  · rw [he]
    refine hrows.of_rows (h.rows_after hx fun y xs ys hact hid => ?_)
    -- the settlement of a refund was settled when it was read
    have hrev := hkeep y xs ys hact hid
    have hyx := same y xs ys hact hid
    subst hyx hact
    have hst : y.status = .settled := h.grounded.2.1
    rw [hst] at hrev
    cases hrev
  · have hyx := same y xs ys rfl hid
    subst hyx
    obtain ⟨hentries, hposted⟩ := hrows.settled hst
    obtain ⟨zs, hzs, hkept, hperm, hreversed, hnew⟩ := h.rows_of_refunded hx hposted
    rw [he]
    refine ⟨fun hst' => ?_, fun _ => ⟨zs, ys, hzs, hkept.trans hentries, hperm, hreversed, hnew⟩⟩
    cases hst'

theorem sales_of_run (h₀ : Seeded env d₀) (hG : ∀ t d, G t d → RefundsOfSettled t d)
    (h : Run (genPay env) G (System.initial d₀) s) : ∀ x ∈ s.db.settlements, ∃ sale : Sale,
      sale.For env G d₀ s x ∧ sale.Rows s.db x := by
  induction h with
  | refl => simp [System.initial, h₀.no_ledger.2.1]
  | @tail s s' l hrun hstep hguard ih =>
    have hpassed : ∀ {d}, Passed (genPay env) G (System.initial d₀) s d →
        Passed (genPay env) G (System.initial d₀) s' d := fun hd => hd.tail l hstep hguard
    rcases step_commits h₀.sound hrun hstep hguard with he | ⟨i, t, a, act, rfl, ht, hp, hc, hans, he⟩
    · intro x hx
      rw [he] at hx
      obtain ⟨sale, ⟨before, hbefore, hnew, hof⟩, hrows⟩ := ih x hx
      refine ⟨sale, ⟨before, hpassed hbefore, hnew, ?_⟩, ?_⟩
      · rw [he]
        exact hof
      · rw [he]
        exact hrows
    · have hsettled : ∀ y xs ys, act = .refund y xs ys → y ∈ s.db.settlements := by
        rintro y xs ys rfl
        exact hc.mem_of_refundable (hG t s.db (hguard t (System.committing_exec ht hp)) _ hans.refunds)
      intro x hx
      rw [he, Action.Commits.settlements_after, List.mem_append, List.mem_map] at hx
      rcases hx with ⟨x, hx, rfl⟩ | hx
      · obtain ⟨sale, ⟨before, hbefore, hnew, hof⟩, hrows⟩ := ih x hx
        have hstep : x.Step ((settlementTable env.foreignKeys).updateAll act.writes x) := by
          rcases hc.settlement_cases hx with ⟨he, -⟩ | ⟨hst, he, -⟩
          · exact Or.inl he
          · exact Or.inr ⟨hst, he⟩
        refine ⟨sale, ⟨before, hpassed hbefore, ?_, ?_⟩, ?_⟩
        · rw [of_core Settlement.id hstep.core_eq]
          exact hnew
        · rw [he]
          exact hof.mono hc.extends_after hstep
        · rw [he]
          exact hc.rows_kept hsettled hx hrows
      · rw [Action.settlements_eq, List.mem_map] at hx
        obtain ⟨p, hp', rfl⟩ := hx
        obtain ⟨before, hbefore, hnew, hof⟩ := hc.sold_of_new hp'
        refine ⟨p.sale, ⟨before, ?_, hnew, ?_⟩, ?_⟩
        · exact hpassed (hrun.seen_passed (List.mem_of_getElem? ht) hbefore)
        · rw [he]
          exact hof
        · rw [he]
          exact hc.rows_of_sold hp'

/-- The effect of a settlement is that of its sale, or nothing once it is reversed. -/
theorem Sale.Rows.effect_eq {d : Db} {x : Settlement} {sale : Sale} (h : sale.Rows d x) (id : String) :
    (x.status = .settled → d.effect x.id id = sale.contribution id) ∧ (x.status = .reversed → d.effect x.id id = 0) := by
  refine ⟨fun hst => ?_, fun hst => ?_⟩
  · rw [Db.effect, accountNet_entries, (h.settled hst).1]
    exact net_settlementEntries sale id
  · obtain ⟨xs, ys, hrows, -, hperm, -⟩ := h.reversed hst
    have hys : accountNet id ys = -accountNet id xs := by
      have hopposite : (xs.map fun t => { t with type := opposite t.type }).map Transaction.entry = xs.map reversalEntry := by
        rw [List.map_map]
        rfl
      rw [← accountNet_reversal hopposite, accountNet_entries, accountNet_entries, hopposite]
      exact net_perm hperm
    rw [Db.effect, hrows, accountNet, net_append]
    exact (congrArg (_ + ·) hys).trans (add_neg_cancel _)

/-- As long as refunds commit on settled settlements only, the settlements of every reachable state are sales, with
the rows of the sales, and the balances are the sums over those that are settled. -/
theorem books_kept (h₀ : Seeded env d₀) (h : Run (genPay env) RefundsOfSettled (System.initial d₀) s) :
    ∃ sale, BooksKept env RefundsOfSettled d₀ s sale := by
  have hsound := run_sound h₀.sound h
  have : Nonempty Sale := ⟨⟨"", "", none, "", 0, ⟨0, 0, 0⟩⟩⟩
  choose! sale hsale using sales_of_run h₀ (fun _ _ hg => hg) h
  refine ⟨sale, fun x hx => (hsale x hx).1, fun x hx => (hsale x hx).2, fun a ha => ?_⟩
  have hsettled : (s.db.settlements.filter fun x => x.status = .settled).map (fun x => s.db.effect x.id a.id) =
      (s.db.settlements.filter fun x => x.status = .settled).map fun x => (sale x).contribution a.id := by
    refine List.map_congr_left fun x hx => ?_
    obtain ⟨hx, hst⟩ := List.mem_filter.1 hx
    exact ((hsale x hx).2.effect_eq a.id).1 (of_decide_eq_true hst)
  have hreversed : ((s.db.settlements.filter fun x => ¬ x.status = .settled).map fun x => s.db.effect x.id a.id).sum =
      0 := by
    refine List.sum_eq_zero fun n hn => ?_
    obtain ⟨x, hx, rfl⟩ := List.mem_map.1 hn
    obtain ⟨hx, hst⟩ := List.mem_filter.1 hx
    exact ((hsale x hx).2.effect_eq a.id).2 (hsound.reversed_of_ne hx (by simpa using hst))
  rw [hsound.balance_eq ha, ← List.sum_map_filter_add_sum_map_filter_not fun x : Settlement => x.status = .settled,
    hreversed, hsettled, add_zero]

end Runs

/-- Two purchases whose statements alternate, and a refund of the first one. -/
def Sample.booked : AppSystem :=
  after (fun t d => decide (RefundsOfSettled t d))
    [.start 0 (.buys "key"), .steps 0 9, .start 1 (.buys "other"), .steps 1 14, .steps 0 26, .steps 1 21,
      .start 2 .refunds, .steps 2 26]

theorem Sample.run_booked : Run (genPay env) RefundsOfSettled (System.initial seeded) booked :=
  run_after (fun _ _ _ _ h => of_decide_eq_true h) _

theorem books_kept_booked : Sample.booked.db.settlements.map (·.status) = [.reversed, .settled] ∧
    ∃ sale, BooksKept Sample.env RefundsOfSettled Sample.seeded Sample.booked sale :=
  ⟨by decide +kernel, books_kept Sample.seeded_env Sample.run_booked⟩

/-! ### What an archive has earned -/

/-- The settlement is one of a record of the archive. -/
def Settlement.Sells (x : Settlement) (d : Db) (archiveId : String) : Prop :=
  ∃ b ∈ d.authorizations, ∃ r ∈ d.records, b.id = x.authorizationId ∧ r.id = b.researchRecordId ∧ r.archiveId = archiveId

instance (x : Settlement) (d : Db) (archiveId : String) : Decidable (x.Sells d archiveId) :=
  inferInstanceAs (Decidable (∃ b ∈ d.authorizations, ∃ r ∈ d.records, _))

/-- The settlements of the records of an archive that are settled. -/
def Db.soldFrom (d : Db) (archiveId : String) : List Settlement :=
  (d.settlements.filter fun x => x.status = .settled).filter fun x => x.Sells d archiveId

/-- A share is less than a cent off the exact one. -/
theorem share_near {n : Int} {c : RevenueSplitConfig} (hn : 0 < n) (p : Party) :
    |((splitWith n c).share p : ℚ) - exactShare n c p| ≤ 1 := by
  have hfloor := Int.floor_le (exactShare n c p)
  have hfloor' := Int.lt_floor_add_one (exactShare n c p)
  have hceil := Int.le_ceil (exactShare n c p)
  have hceil' := Int.ceil_lt_add_one (exactShare n c p)
  rw [abs_le]
  rcases (splitWith_isHamilton (c := c) hn).rounded p with h | h
  · rw [h]
    constructor <;> linarith
  · rw [h]
    constructor <;> linarith

theorem abs_sum_sub_sum_le {β : Type} {f : β → Int} {g : β → ℚ} {l : List β} (h : ∀ x ∈ l, |(f x : ℚ) - g x| ≤ 1) :
    |((l.map f).sum : ℚ) - (l.map g).sum| ≤ l.length := by
  induction l with
  | nil => simp
  | cons x l ih =>
    have hx := h x List.mem_cons_self
    have hl := ih fun y hy => h y (List.mem_cons_of_mem _ hy)
    have hsplit : (((x :: l).map f).sum : ℚ) - ((x :: l).map g).sum =
        ((f x : ℚ) - g x) + (((l.map f).sum : ℚ) - (l.map g).sum) := by
      push_cast [List.map_cons, List.sum_cons]
      ring
    rw [hsplit]
    refine (abs_add_le _ _).trans ?_
    rw [List.length_cons, Nat.cast_succ]
    linarith

/-- Without a configuration of its own a split is that of the settings. -/
theorem splitAmount_settings {settings : Settings} {c : RevenueSplitConfig} {n : Int} {split : RevenueSplitResult}
    (hc : RevenueSplitConfig.fromSettings settings = .ok c) (h : splitAmount settings n none = .ok split) :
    0 < n ∧ split = splitWith n c := by
  unfold splitAmount at h
  by_cases hn : n ≤ 0
  · rw [if_pos hn] at h
    cases h
  · rw [if_neg hn] at h
    simp only [hc] at h
    cases h
    exact ⟨by omega, rfl⟩

section Archives

variable {env : Env} {before d : Db} {x : Settlement} {sale : Sale} {a : LedgerAccount} {archiveId : String}

/-- A sale is one of a record of the archive whose account it credits. -/
theorem Sale.Of.sells_iff (h : sale.Of env before d x) (hd : d.Sound) (ha : a ∈ d.accounts)
    (howner : a.ownerArchiveId = some archiveId) : x.Sells d archiveId ↔ sale.archive = a.id := by
  obtain ⟨b, hb, r, hr, hbx, hrb, -, harchive, -⟩ := h.parties
  constructor
  · rintro ⟨b', hb', r', hr', hbx', hrb', rfl⟩
    have hbb : b' = b := List.inj_on_of_nodup_map (hd.unique .authorizationsId) hb' hb (hbx'.trans hbx.symm)
    subst hbb
    have hrr : r' = r := List.inj_on_of_nodup_map (hd.unique .recordsId) hr' hr (hrb'.trans hrb.symm)
    subst hrr
    exact hd.archiveAccount_unique harchive ⟨a, ha, howner, rfl⟩
  · intro he
    obtain ⟨a', ha', howner', hid⟩ := harchive
    have haa : a' = a := hd.consistent.account_eq ha' ha (hid.trans he)
    subst haa
    rw [howner] at howner'
    cases howner'
    exact ⟨b, hb, r, hr, hbx, hrb, rfl⟩

/-- A sale brings the archive its share, and other archives nothing. -/
theorem Sale.Of.contribution_archive (h : sale.Of env before d x) (hd : d.Sound) (hbefore : before.Extends d)
    (ha : a ∈ d.accounts) (howner : a.ownerArchiveId = some archiveId) :
    sale.contribution a.id = if x.Sells d archiveId then sale.split.archiveCents else 0 := by
  have harchive : d.archiveAccount archiveId a.id := ⟨a, ha, howner, rfl⟩
  obtain ⟨b, hb, r, hr, -, -, hbuyer, -, htranscribed⟩ := h.parties
  have hb : a.id ≠ sale.buyer := fun he => hd.consistent.not_user_archive (he ▸ hbuyer) harchive
  have hp : a.id ≠ sale.platform := fun he => hd.consistent.not_archive_platform harchive (he ▸ h.platform)
  have ht : a.id ≠ sale.transcriptionist.getD sale.platform := by
    cases htr : sale.transcriptionist with
    | none => exact hp
    | some id =>
      rw [htr] at htranscribed
      obtain ⟨u, -, -, hu⟩ := htranscribed
      intro he
      have hid : a.id = id := he
      exact hd.consistent.not_user_archive (hbefore.userAccount hu) (hid ▸ harchive)
  unfold Sale.contribution
  rw [if_neg hb, if_neg ht, if_neg hp]
  by_cases hs : x.Sells d archiveId
  · rw [if_pos hs, if_pos ((h.sells_iff hd ha howner).1 hs).symm]
    omega
  · rw [if_neg hs, if_neg fun he => hs ((h.sells_iff hd ha howner).2 he.symm)]
    omega

/-- What an archive has earned is its share of what was settled from its records, up to a cent a purchase. -/
theorem archive_earns {d₀ : Db} {s : AppSystem} {c : RevenueSplitConfig} (h₀ : Seeded env d₀)
    (hc : RevenueSplitConfig.fromSettings env.settings = .ok c)
    (h : Run (genPay env) RefundsOfSettled (System.initial d₀) s) (ha : a ∈ s.db.accounts)
    (howner : a.ownerArchiveId = some archiveId) :
    |(a.balanceCents : ℚ) - ((s.db.soldFrom archiveId).map fun x => exactShare x.settledAmountCents c .archive).sum| ≤
      (s.db.soldFrom archiveId).length := by
  have hsound := run_sound h₀.sound h
  obtain ⟨sale, hbooks⟩ := books_kept h₀ h
  have hcontribution : ∀ x ∈ s.db.settlements, (sale x).contribution a.id =
      if x.Sells s.db archiveId then (sale x).split.archiveCents else 0 := by
    intro x hx
    obtain ⟨before, hbefore, -, hof⟩ := hbooks.sold x hx
    have hext := (hbefore.evolves (ledger env RefundsOfSettled) h₀.sound (.refl _)).2.2
    exact hof.contribution_archive hsound hext ha howner
  have hsum : a.balanceCents = ((s.db.soldFrom archiveId).map fun x => (sale x).split.archiveCents).sum := by
    rw [hbooks.balance a ha, ← List.sum_map_filter_add_sum_map_filter_not fun x : Settlement => x.Sells s.db archiveId]
    have hothers : (((s.db.settlements.filter fun x => x.status = .settled).filter fun x => ¬ x.Sells s.db archiveId).map
        fun x => (sale x).contribution a.id).sum = 0 := by
      refine List.sum_eq_zero fun n hn => ?_
      obtain ⟨x, hx, rfl⟩ := List.mem_map.1 hn
      obtain ⟨hx, hsells⟩ := List.mem_filter.1 hx
      rw [hcontribution x (List.mem_of_mem_filter hx), if_neg (of_decide_eq_true hsells)]
    rw [hothers, add_zero]
    refine congrArg List.sum (List.map_congr_left fun x hx => ?_)
    obtain ⟨hx, hsells⟩ := List.mem_filter.1 hx
    rw [hcontribution x (List.mem_of_mem_filter hx), if_pos (of_decide_eq_true hsells)]
  rw [hsum]
  refine abs_sum_sub_sum_le fun x hx => ?_
  have hx : x ∈ s.db.settlements := List.mem_of_mem_filter (List.mem_of_mem_filter hx)
  obtain ⟨before, -, -, hof⟩ := hbooks.sold x hx
  obtain ⟨hpos, hsplit⟩ := splitAmount_settings hc hof.split
  rw [hsplit]
  exact share_near hpos .archive

end Archives

theorem archive_earns_booked : ∃ c, RevenueSplitConfig.fromSettings Sample.env.settings = .ok c ∧
    ∃ a ∈ Sample.booked.db.accounts, ∃ archiveId, (Sample.booked.db.soldFrom archiveId).length = 1 ∧
      |(a.balanceCents : ℚ) - ((Sample.booked.db.soldFrom archiveId).map fun x =>
        exactShare x.settledAmountCents c .archive).sum| ≤ (Sample.booked.db.soldFrom archiveId).length := by
  obtain ⟨c, hc⟩ : ∃ c, RevenueSplitConfig.fromSettings Sample.env.settings = .ok c := ⟨_, rfl⟩
  obtain ⟨a, ha, howner, hone⟩ : ∃ a ∈ Sample.booked.db.accounts, a.ownerArchiveId.isSome = true ∧
      (Sample.booked.db.soldFrom (a.ownerArchiveId.getD "")).length = 1 := by
    decide +kernel
  obtain ⟨archiveId, harchive⟩ := Option.isSome_iff_exists.1 howner
  rw [harchive] at hone
  exact ⟨c, hc, a, ha, archiveId, hone, archive_earns Sample.seeded_env hc Sample.run_booked ha harchive⟩

end GenPay
