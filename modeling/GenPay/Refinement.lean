import GenPay.Deliveries
import Mathlib.Algebra.Order.BigOperators.Group.List

/-!
# The ledger refines the settled purchases

What the ledger is for: an account holds what the purchases that are settled, and not reversed, have brought it.
`Sale` is a purchase in these terms, `Sale.Of` says which sale a settlement is, and `Refines` that the balances are
the sums of the contributions of the sales.  It holds after every sequence of requests answered one after the
other (`ledger_refines`).
-/

namespace GenPay

open ReadCommitted DoubleEntry

/-- Who pays whom how much: the accounts of a purchase, its amount and its split. -/
structure Sale where
  buyer : String
  archive : String
  transcriptionist : Option String
  platform : String
  amountCents : Int
  split : RevenueSplitResult

/-- What a sale brings an account; without a transcriptionist's account the platform gets that share. -/
def Sale.contribution (s : Sale) (accountId : String) : Int :=
  (if accountId = s.buyer then -s.amountCents else 0) +
    (if accountId = s.archive then s.split.archiveCents else 0) +
    (if accountId = s.transcriptionist.getD s.platform then s.split.transcriptionistCents else 0) +
    (if accountId = s.platform then s.split.platformCents else 0)

/-- The account of the record's transcriptionist, or that there is none. -/
def ResearchRecord.TranscribedBy (r : ResearchRecord) (d : Db) : Option String → Prop
  | some id => ∃ u, r.transcriptionistUserId = some u ∧ u ≠ "" ∧ d.userAccount u id
  | none => ∀ u, r.transcriptionistUserId = some u → u ≠ "" → ∀ id, ¬ d.userAccount u id

/-- The sale of a settlement of `d` that was settled on the database `before`. -/
structure Sale.Of (env : Env) (before d : Db) (x : Settlement) (s : Sale) : Prop where
  parties : ∃ a ∈ d.authorizations, ∃ r ∈ d.records, a.id = x.authorizationId ∧ r.id = a.researchRecordId ∧
    d.userAccount a.userId s.buyer ∧ d.archiveAccount r.archiveId s.archive ∧
    r.TranscribedBy before s.transcriptionist
  platform : d.platformAccount s.platform
  amount : s.amountCents = x.settledAmountCents
  split : splitAmount env.settings x.settledAmountCents none = .ok s.split

/-- The last database without the settlement. -/
def settledOn (history : List Db) (settlementId : String) : Db :=
  ((history.filter fun d => decide (settlementId ∉ d.column .settlementsId)).getLast?).getD Db.empty

/-- The transactions of the settlements of an authorization. -/
def Db.transactionsOf (d : Db) (authorizationId : String) : List Transaction :=
  d.transactions.filter fun t =>
    d.settlements.any fun x => x.id == t.settlementId && x.authorizationId == authorizationId

/-- The database `d`, reached through those of `history`, says what its settled sales say. -/
structure Refines (env : Env) (history : List Db) (d : Db) : Prop where
  sale : ∀ x ∈ d.settlements, ∃! s : Sale, s.Of env (settledOn history x.id) d x
  balance : ∀ sale : Settlement → Sale, (∀ x ∈ d.settlements, (sale x).Of env (settledOn history x.id) d x) →
    ∀ a ∈ d.accounts, a.balanceCents =
      ((d.settlements.filter fun x => x.status = .settled).map fun x => (sale x).contribution a.id).sum
  reversed : ∀ x ∈ d.settlements, x.status ≠ .settled → ∀ id, d.effect x.id id = 0
  authorized : ∀ x ∈ d.settlements, ∃ a ∈ d.authorizations, a.id = x.authorizationId ∧ a.status = .authorized
  undecided : ∀ a ∈ d.authorizations, a.status ≠ .authorized →
    (∀ x ∈ d.settlements, x.authorizationId ≠ a.id) ∧ d.transactionsOf a.id = []
  nonneg : ∀ a ∈ d.accounts, a.ownerType = .archive ∨ a.ownerType = .platform → 0 ≤ a.balanceCents

/-! ### Sales -/

namespace Db.Sound

variable {d : Db}

private theorem eq_of_nodup_filterMap {α β : Type} {f : α → Option β} {l : List α} (h : (l.filterMap f).Nodup)
    {x y : α} (hx : x ∈ l) (hy : y ∈ l) {b : β} (hfx : f x = some b) (hfy : f y = some b) : x = y := by
  by_contra hne
  unfold List.Nodup at h
  rw [List.pairwise_filterMap] at h
  have : Std.Symm fun a a' : α => ∀ b ∈ f a, ∀ b' ∈ f a', b ≠ b' :=
    ⟨fun _ _ hab c hc c' hc' he => hab c' hc' c hc he.symm⟩
  exact h.forall hx hy hne b hfx b hfy rfl

theorem userAccount_unique (h : d.Sound) {u id id' : String} (hid : d.userAccount u id) (hid' : d.userAccount u id') :
    id = id' := by
  obtain ⟨a, ha, hu, rfl⟩ := hid
  obtain ⟨b, hb, hu', rfl⟩ := hid'
  rw [eq_of_nodup_filterMap (h.unique .accountsOwnerUser) ha hb hu hu']

theorem archiveAccount_unique (h : d.Sound) {x id id' : String} (hid : d.archiveAccount x id)
    (hid' : d.archiveAccount x id') : id = id' := by
  obtain ⟨a, ha, hx, rfl⟩ := hid
  obtain ⟨b, hb, hx', rfl⟩ := hid'
  rw [eq_of_nodup_filterMap (h.unique .accountsOwnerArchive) ha hb hx hx']

theorem platformAccount_unique (h : d.Sound) {id id' : String} (hid : d.platformAccount id)
    (hid' : d.platformAccount id') : id = id' := by
  obtain ⟨a, ha, hp, rfl⟩ := hid
  obtain ⟨b, hb, hp', rfl⟩ := hid'
  exact h.platform a ha b hb hp hp'

theorem transcribedBy_unique (h : d.Sound) {r : ResearchRecord} {id id' : Option String}
    (hid : r.TranscribedBy d id) (hid' : r.TranscribedBy d id') : id = id' := by
  cases id with
  | none =>
    cases id' with
    | none => rfl
    | some id' =>
      obtain ⟨u, hu, hne, ha⟩ := hid'
      exact absurd ha (hid u hu hne id')
  | some id =>
    obtain ⟨u, hu, hne, ha⟩ := hid
    cases id' with
    | none => exact absurd ha (hid' u hu hne id)
    | some id' =>
      obtain ⟨u', hu', -, ha'⟩ := hid'
      rw [hu] at hu'
      cases hu'
      rw [h.userAccount_unique ha ha']

end Db.Sound

theorem Db.Extends.userAccount {d d' : Db} (h : d.Extends d') {u id : String} (ha : d.userAccount u id) :
    d'.userAccount u id := by
  obtain ⟨a, ha, hu, rfl⟩ := ha
  obtain ⟨b, hb, hstep⟩ := h.accounts.mem ha
  exact ⟨b, hb, hstep.ownerUserId.trans hu, hstep.id⟩

theorem Db.Extends.archiveAccount {d d' : Db} (h : d.Extends d') {x id : String} (ha : d.archiveAccount x id) :
    d'.archiveAccount x id := by
  obtain ⟨a, ha, hx, rfl⟩ := ha
  obtain ⟨b, hb, hstep⟩ := h.accounts.mem ha
  exact ⟨b, hb, hstep.ownerArchiveId.trans hx, hstep.id⟩

theorem Db.Extends.platformAccount {d d' : Db} (h : d.Extends d') {id : String} (ha : d.platformAccount id) :
    d'.platformAccount id := by
  obtain ⟨a, ha, hp, rfl⟩ := ha
  obtain ⟨b, hb, hstep⟩ := h.accounts.mem ha
  exact ⟨b, hb, hstep.ownerType.trans hp, hstep.id⟩

namespace Sale.Of

variable {env : Env} {before d d' : Db} {x x' : Settlement} {s s' : Sale}

theorem unique (h : s.Of env before d x) (h' : s'.Of env before d x) (hd : d.Sound) (hb : before.Sound) : s = s' := by
  obtain ⟨a, ha, r, hr, haid, hrid, hbuyer, harchive, htrans⟩ := h.parties
  obtain ⟨a', ha', r', hr', haid', hrid', hbuyer', harchive', htrans'⟩ := h'.parties
  have haa : a = a' := List.inj_on_of_nodup_map (hd.unique .authorizationsId) ha ha' (haid.trans haid'.symm)
  subst haa
  have hrr : r = r' := List.inj_on_of_nodup_map (hd.unique .recordsId) hr hr' (hrid.trans hrid'.symm)
  subst hrr
  have hsplit : s.split = s'.split := Except.ok.inj (h.split.symm.trans h'.split)
  cases s
  cases s'
  rw [Sale.mk.injEq]
  exact ⟨hd.userAccount_unique hbuyer hbuyer', hd.archiveAccount_unique harchive harchive',
    hb.transcribedBy_unique htrans htrans', hd.platformAccount_unique h.platform h'.platform,
    h.amount.trans h'.amount.symm, hsplit⟩

end Sale.Of

/-- A settlement stays the same sale. -/
theorem Sale.Of.mono {env : Env} {before d d' : Db} {x x' : Settlement} {s : Sale} (h : s.Of env before d x)
    (hext : d.Extends d') (hx : x.Step x') : s.Of env before d' x' where
  parties := by
    obtain ⟨a, ha, r, hr, haid, hrid, hbuyer, harchive, htrans⟩ := h.parties
    obtain ⟨b, hb, hstep⟩ := hext.authorizations.mem ha
    refine ⟨b, hb, r, hext.records.mem_of_eq hr, ?_, ?_, ?_, hext.archiveAccount harchive, htrans⟩
    · rw [of_core Authorization.id hstep, haid, of_core Settlement.authorizationId hx.core_eq]
    · rw [of_core Authorization.researchRecordId hstep, hrid]
    · rw [of_core Authorization.userId hstep]
      exact hext.userAccount hbuyer
  platform := hext.platformAccount h.platform
  amount := h.amount.trans (of_core Settlement.settledAmountCents hx.core_eq).symm
  split := by
    rw [of_core Settlement.settledAmountCents hx.core_eq]
    exact h.split

/-! ### The sale of a purchase -/

def Purchase.sale (p : Purchase) : Sale :=
  ⟨p.researcher, p.archive, p.transcriptionist, p.platform, p.authorization.amountCents, p.split⟩

theorem net_credit (account : String) (n : Int) (id : String) :
    net LedgerEntry.ledgerAccountId LedgerEntry.delta id (if n ≠ 0 then [⟨account, .credit, n⟩] else []) =
      if id = account then n else 0 := by
  by_cases hn : n = 0
  · simp [hn]
  · simp [hn, net_cons, LedgerEntry.delta, eq_comm]

/-- The entry set says what the sale says; accounts may coincide. -/
theorem net_settlementEntries (s : Sale) (id : String) : net LedgerEntry.ledgerAccountId LedgerEntry.delta id
    (settlementEntries s.buyer s.archive s.transcriptionist s.platform s.amountCents
      (postedShares s.split s.transcriptionist)) = s.contribution id := by
  have hdebit : net LedgerEntry.ledgerAccountId LedgerEntry.delta id [⟨s.buyer, .debit, s.amountCents⟩] =
      if id = s.buyer then -s.amountCents else 0 := by
    simp [net_cons, LedgerEntry.delta, eq_comm]
  unfold settlementEntries Sale.contribution
  simp only [net_append, hdebit, net_credit]
  cases s.transcriptionist with
  | some account =>
    rw [net_credit]
    rfl
  | none =>
    -- the platform has one entry for both shares
    simp only [net_nil, postedShares, Option.getD_none]
    by_cases hp : id = s.platform
    · simp only [if_pos hp]
      omega
    · simp only [if_neg hp]

theorem Purchase.Grounded.accountNet_eq {env : Env} {ds : List Db} {p : Purchase} (h : p.Grounded env ds)
    (id : String) : accountNet id p.transactions = p.sale.contribution id := by
  rw [accountNet_entries, h.posted.rows]
  exact net_settlementEntries p.sale id

/-! ### One request -/

namespace Action.Commits

variable {env : Env} {ds : List Db} {d : Db} {act : Action}

/-- The authorization of a purchase is there after the commit. -/
theorem authorization_of_purchase (h : act.Commits env ds d) {p : Purchase} (hp : p ∈ act.purchases) :
    ∃ a ∈ (after env d act).authorizations, a.core = p.authorization.core := by
  cases act with
  | purchase key q =>
    cases List.mem_singleton.1 hp
    refine ⟨p.authorization, ?_, rfl⟩
    rw [authorizations_after]
    exact List.mem_append_right _ (List.mem_singleton.2 rfl)
  | batch e ps =>
    obtain ⟨-, d', hd', hmem⟩ := h.grounded p hp
    exact ((h.seen d' hd').2.trans h.extends_after).authorizations.mem hmem
  | _ => cases hp

/-- The rows of a new settlement are those of its purchase. -/
theorem rows_of_new (h : act.Commits env ds d) {p : Purchase} (hp : p ∈ act.purchases) :
    (after env d act).rowsOf p.settlement.id = p.transactions := by
  have hnorefund : ∀ s xs ys, act ≠ .refund s xs ys := by
    rintro s xs ys rfl
    cases hp
  have hids : (act.purchases.map (·.settlement.id)).Nodup := by
    have hn := settlements_nodup h.free.nodup
    rw [filterMap_settlement, settlements_eq, List.map_map] at hn
    exact hn
  have hfresh : p.settlement.id ∉ d.column .settlementsId :=
    h.fresh (mem_insertSettlement.2 ⟨p, hp, rfl⟩) (by simp [Write.keys])
  -- no row of the database before names the new settlement
  have hold : d.rowsOf p.settlement.id = [] := by
    refine List.filter_eq_nil_iff.2 fun t ht he => hfresh ?_
    exact beq_iff_eq.1 he ▸ h.sound.settlement t ht
  rw [h.rowsOf_after, hold, List.map_nil, List.nil_append, transactions_eq hnorefund]
  exact rows_of_purchase hids (fun q hq => (h.grounded.purchase hq).posted) hp

/-- The effect of a new settlement is that of its purchase. -/
theorem effect_of_new (h : act.Commits env ds d) {p : Purchase} (hp : p ∈ act.purchases) (id : String) :
    (after env d act).effect p.settlement.id id = p.sale.contribution id := by
  rw [Db.effect, h.rows_of_new hp, (h.grounded.purchase hp).accountNet_eq]

section Serial

variable (hds : ∀ d' ∈ ds, d' = d)

include hds

/-- The settlement of a purchase is its sale, settled on the database before the commit. -/
theorem sale_of_new (h : act.Commits env ds d) {p : Purchase} (hp : p ∈ act.purchases) :
    p.sale.Of env d (after env d act) p.settlement := by
  have hgr := h.grounded.purchase hp
  have here : ∀ {P : Db → Prop}, (∃ d' ∈ ds, P d') → P d := by
    rintro P ⟨d', hd', hP⟩
    exact hds d' hd' ▸ hP
  have hext := h.extends_after
  obtain ⟨a, ha, hcore⟩ := h.authorization_of_purchase hp
  obtain ⟨hr, hrid⟩ := here hgr.record
  refine ⟨⟨a, ha, p.record, hext.records.mem_of_eq hr, ?_, ?_, ?_, hext.archiveAccount (here hgr.archive), ?_⟩,
    hext.platformAccount (here hgr.platform), hgr.settlement.2.1.symm, ?_⟩
  · rw [of_core Authorization.id hcore, hgr.settlement.1]
  · rw [of_core Authorization.researchRecordId hcore, hrid]
  · rw [of_core Authorization.userId hcore]
    exact hext.userAccount (here hgr.researcher)
  · show p.record.TranscribedBy d p.transcriptionist
    cases ht : p.transcriptionist with
    | some id =>
      obtain ⟨u, hu, hne, ha⟩ := hgr.transcriptionist id ht
      exact ⟨u, hu, hne, here ha⟩
    | none => exact fun u hu hne => here (hgr.noTranscriptionist ht u hu hne)
  · rw [hgr.settlement.2.1]
    exact hgr.split

/-- A request that runs alone decides pending authorizations only. -/
theorem keepsDecided (h : act.Commits env ds d) (reference : String) :
    Db.KeepsDecided reference d (after env d act) := by
  refine fun a ha href hst => h.decided_stays (fun e b status reason hact hb => ?_) ha href hst
  subst hact
  obtain ⟨⟨d', hd', hmem⟩, hpending, -⟩ := h.grounded
  exact ⟨b, hds d' hd' ▸ hmem, hb, hpending⟩

theorem settledAuthorized_serial (h : act.Commits env ds d) {reference : String} (hd : d.SettledAuthorized reference) :
    (after env d act).SettledAuthorized reference := by
  refine h.settledAuthorized hd (fun d' hd' => ?_) (h.keepsDecided hds reference)
  rw [hds d' hd']
  exact fun a ha _ _ => ha

/-- A request that runs alone refunds settled settlements only. -/
theorem reversed_serial (h : act.Commits env ds d)
    (hd : ∀ x ∈ d.settlements, x.status = .reversed → ∀ id, d.effect x.id id = 0) :
    ∀ x ∈ (after env d act).settlements, x.status = .reversed → ∀ id, (after env d act).effect x.id id = 0 := by
  intro x hx hst id
  refine h.reversed_after (P := fun _ => True) ?_ (fun x hx _ => hd x hx) x hx True.intro hst id
  rintro s xs ys rfl -
  obtain ⟨d', hd', -, -, -, hs, -⟩ := h.originals
  exact hds d' hd' ▸ hs

end Serial

end Action.Commits

/-! ### The past of a settlement -/

section Past

variable {history : List Db} {d : Db} {id : String}

theorem settledOn_of_mem (h : id ∈ d.column .settlementsId) : settledOn (history ++ [d]) id = settledOn history id := by
  simp [settledOn, List.filter_append, h]

theorem settledOn_of_not_mem (h : id ∉ d.column .settlementsId) : settledOn (history ++ [d]) id = d := by
  simp [settledOn, List.filter_append, h]

theorem settledOn_sound (h : ∀ d' ∈ history, d'.Sound) (id : String) : (settledOn history id).Sound := by
  unfold settledOn
  cases hlast : (history.filter fun d => decide (id ∉ d.column .settlementsId)).getLast? with
  | none => exact Db.sound_empty
  | some d' => exact h d' (List.mem_of_mem_filter (List.mem_of_getLast? hlast))

end Past

/-- What holds after each of a sequence of requests. -/
structure Booked (env : Env) (history : List Db) (d : Db) : Prop where
  sound : d.Sound
  past : ∀ d' ∈ history, d'.Sound
  authorized : ∀ reference, d.SettledAuthorized reference
  sales : ∀ x ∈ d.settlements, ∃ s : Sale, s.Of env (settledOn history x.id) d x ∧
    (x.status = .settled → ∀ id, d.effect x.id id = s.contribution id)
  reversed : ∀ x ∈ d.settlements, x.status = .reversed → ∀ id, d.effect x.id id = 0

namespace Booked

variable {env : Env} {history ds : List Db} {d : Db} {act : Action}

theorem commit (hb : Booked env history d) (h : act.Commits env ds d) (hds : ∀ d' ∈ ds, d' = d) :
    Booked env (history ++ [d]) (Action.Commits.after env d act) where
  sound := h.sound_after
  past d' hd' := by
    rcases List.mem_append.1 hd' with hd' | hd'
    · exact hb.past d' hd'
    · rw [List.mem_singleton.1 hd']
      exact hb.sound
  authorized reference := h.settledAuthorized_serial hds (hb.authorized reference)
  sales x hx := by
    rw [Action.Commits.settlements_after, List.mem_append, List.mem_map] at hx
    rcases hx with ⟨y, hy, rfl⟩ | hx
    · -- an old settlement keeps its sale, and its effect as long as it is settled
      have hid : ((settlementTable env.foreignKeys).updateAll act.writes y).id = y.id :=
        of_core Settlement.id (Action.Commits.settlement_core y)
      have hmem : y.id ∈ d.column .settlementsId := List.mem_map_of_mem (f := Settlement.id) hy
      obtain ⟨s, hs, heffect⟩ := hb.sales y hy
      rw [hid, settledOn_of_mem hmem]
      rcases h.settlement_cases hy with ⟨he, hkeep⟩ | ⟨hst, he, -⟩
      · rw [he]
        refine ⟨s, hs.mono h.extends_after (Or.inl rfl), fun hst id => ?_⟩
        have hrows : (Action.Commits.after env d act).rowsOf y.id = d.rowsOf y.id := by
          refine h.rows_after hy fun s' xs ys hact hid' => ?_
          rw [hkeep s' xs ys hact hid'] at hst
          cases hst
        rw [Db.effect, hrows]
        exact heffect hst id
      · rw [he]
        refine ⟨s, hs.mono h.extends_after (Or.inr ⟨hst, rfl⟩), fun hst' => ?_⟩
        cases hst'
    · -- a new one is the sale of its purchase
      rw [Action.settlements_eq, List.mem_map] at hx
      obtain ⟨p, hp, rfl⟩ := hx
      have hfresh : p.settlement.id ∉ d.column .settlementsId :=
        h.fresh (Action.mem_insertSettlement.2 ⟨p, hp, rfl⟩) (by simp [Write.keys])
      rw [settledOn_of_not_mem hfresh]
      exact ⟨p.sale, h.sale_of_new hds hp, fun _ id => h.effect_of_new hp id⟩
  reversed := h.reversed_serial hds hb.reversed

/-- A request that fails is no action. -/
theorem serve (hb : Booked env history d) (job : Job) (o : Nat → Choice) :
    Booked env (history ++ [d]) ((genPay env).serve job o d).2 := by
  rcases hs : (genPay env).serve job o d with ⟨e | a, d'⟩
  · rw [Service.serve_error hs]
    -- as if nothing had been done on the same database
    have h : Action.quiet.Commits env [] d :=
      ⟨True.intro, hb.sound, by simp, List.Pairwise.nil, Keys.free_nil d⟩
    exact hb.commit h (by simp)
  · obtain ⟨act, ds, hc, -, hseen, rfl⟩ := serve_commits hb.sound hs
    exact hb.commit hc hseen

theorem seeded {d₀ : Db} (h₀ : Seeded env d₀) : Booked env [] d₀ := by
  have hnone := h₀.no_ledger.2.1
  exact ⟨h₀.sound, by simp, fun reference x hx => by simp [hnone] at hx, fun x hx => by simp [hnone] at hx,
    fun x hx => by simp [hnone] at hx⟩

end Booked

/-! ### Balances -/

namespace Db.Sound

variable {d : Db}

/-- A balance is the sum of the effects of all settlements on its account. -/
theorem balance_eq (h : d.Sound) {a : LedgerAccount} (ha : a ∈ d.accounts) :
    a.balanceCents = (d.settlements.map fun x => d.effect x.id a.id).sum := by
  have heffect : ∀ x : Settlement, d.effect x.id a.id =
      accountNet a.id (d.transactions.filter fun t => decide (t.settlementId = x.id)) := by
    intro x
    simp [Db.effect, Db.rowsOf, beq_eq_decide]
  rw [h.balanced a ha, accountNet, ← sum_net_filter (h.unique .settlementsId) h.settlement]
  simp only [heffect, Db.column, List.map_map]
  rfl

theorem reversed_of_ne (h : d.Sound) {x : Settlement} (hx : x ∈ d.settlements) (hst : x.status ≠ .settled) :
    x.status = .reversed := by
  have hfailed := h.notFailed x hx
  cases hs : x.status with
  | settled => exact absurd hs hst
  | failed => exact absurd hs hfailed
  | reversed => rfl

/-- An account of an archive or the platform is no user's. -/
theorem not_userAccount (h : d.Sound) {a : LedgerAccount} (ha : a ∈ d.accounts)
    (howner : a.ownerType = .archive ∨ a.ownerType = .platform) (u : String) : ¬ d.userAccount u a.id := by
  rintro ⟨b, hb, hu, hid⟩
  have hba : b = a := List.inj_on_of_nodup_map (h.unique .accountsId) hb ha hid
  subst hba
  have hmatch := h.owned b hb
  rcases howner with ho | ho <;> simp [LedgerAccount.ownerMatchesType, ho, hu] at hmatch

end Db.Sound

/-- A sale takes money from its buyer only. -/
theorem Sale.Of.contribution_nonneg {env : Env} {before d : Db} {x : Settlement} {s : Sale} (h : s.Of env before d x)
    {id : String} (hbuyer : id ≠ s.buyer) : 0 ≤ s.contribution id := by
  obtain ⟨harchive, htranscriptionist, hplatform⟩ := splitAmount_nonneg h.split
  unfold Sale.contribution
  rw [if_neg hbuyer]
  have share : ∀ {c : Prop} [Decidable c] {n : Int}, 0 ≤ n → 0 ≤ if c then n else 0 := by
    intro c _ n hn
    split
    · exact hn
    · exact le_refl _
  have h₁ := share (c := id = s.archive) harchive
  have h₂ := share (c := id = s.transcriptionist.getD s.platform) htranscriptionist
  have h₃ := share (c := id = s.platform) hplatform
  omega

namespace Booked

variable {env : Env} {history : List Db} {d : Db}

theorem balance (hb : Booked env history d) {sale : Settlement → Sale}
    (hsale : ∀ x ∈ d.settlements, (sale x).Of env (settledOn history x.id) d x) {a : LedgerAccount}
    (ha : a ∈ d.accounts) : a.balanceCents =
      ((d.settlements.filter fun x => x.status = .settled).map fun x => (sale x).contribution a.id).sum := by
  have hsettled : (d.settlements.filter fun x => x.status = .settled).map (fun x => d.effect x.id a.id) =
      (d.settlements.filter fun x => x.status = .settled).map fun x => (sale x).contribution a.id := by
    refine List.map_congr_left fun x hx => ?_
    obtain ⟨hx, hst⟩ := List.mem_filter.1 hx
    obtain ⟨s, hs, heffect⟩ := hb.sales x hx
    rw [heffect (of_decide_eq_true hst), hs.unique (hsale x hx) hb.sound (settledOn_sound hb.past _)]
  have hreversed : ((d.settlements.filter fun x => ¬ x.status = .settled).map fun x => d.effect x.id a.id).sum =
      0 := by
    refine List.sum_eq_zero fun n hn => ?_
    obtain ⟨x, hx, rfl⟩ := List.mem_map.1 hn
    obtain ⟨hx, hst⟩ := List.mem_filter.1 hx
    exact hb.reversed x hx (hb.sound.reversed_of_ne hx (by simpa using hst)) a.id
  rw [hb.sound.balance_eq ha, ← List.sum_map_filter_add_sum_map_filter_not fun x : Settlement => x.status = .settled,
    hreversed, hsettled, add_zero]

theorem refines (hb : Booked env history d) : Refines env history d where
  sale x hx := by
    obtain ⟨s, hs, -⟩ := hb.sales x hx
    exact ⟨s, hs, fun s' hs' => hs'.unique hs hb.sound (settledOn_sound hb.past _)⟩
  balance sale hsale a ha := hb.balance hsale ha
  reversed x hx hst := hb.reversed x hx (hb.sound.reversed_of_ne hx hst)
  authorized x hx := by
    obtain ⟨a, ha, hid⟩ := List.mem_map.1 (hb.sound.authorization x hx)
    exact ⟨a, ha, hid, hb.authorized _ x hx a ha rfl hid⟩
  undecided a ha hst := by
    have hnone : ∀ x ∈ d.settlements, x.authorizationId ≠ a.id :=
      fun x hx hid => hst (hb.authorized _ x hx a ha rfl hid.symm)
    refine ⟨hnone, List.filter_eq_nil_iff.2 fun t _ hany => ?_⟩
    obtain ⟨x, hx, hboth⟩ := List.any_eq_true.1 hany
    exact hnone x hx (by simpa using (Bool.and_eq_true_iff.1 hboth).2)
  nonneg a ha howner := by
    have : Nonempty Sale := ⟨⟨"", "", none, "", 0, ⟨0, 0, 0⟩⟩⟩
    choose! sale hsale using fun x hx => (hb.sales x hx).imp fun _ h => h.1
    rw [hb.balance hsale ha]
    refine List.sum_nonneg fun n hn => ?_
    obtain ⟨x, hx, rfl⟩ := List.mem_map.1 hn
    have hx := hsale x (List.mem_of_mem_filter hx)
    refine hx.contribution_nonneg fun hid => ?_
    obtain ⟨y, -, r, -, -, -, hbuyer, -⟩ := hx.parties
    exact hb.sound.not_userAccount ha howner _ (hid ▸ hbuyer)

end Booked

/-- After any sequence of requests from a seeded database, the ledger says what the settled purchases say. -/
theorem ledger_refines {env : Env} {d₀ : Db} (h₀ : Seeded env d₀) (rs : List (Job × (Nat → Choice))) :
    Refines env ((genPay env).history d₀ rs) ((genPay env).serveAll d₀ rs) := by
  have h := Service.history_induction (genPay env) (P := Booked env) (fun _ _ job o hb => hb.serve job o) rs
    (Booked.seeded h₀)
  rw [List.nil_append] at h
  exact h.refines

/-- A purchase, a card authorization, and the refund of the purchase. -/
def Sample.threeRequests : List (Job × (Nat → Choice)) :=
  [((Case.buys "key").job, oracle 1), (Case.card.job, oracle 2), (Case.refunds.job, oracle 3)]

theorem ledger_refines_threeRequests :
    ((genPay Sample.env).serveAll Sample.seeded Sample.threeRequests).accounts.map (·.balanceCents) =
      [60, 419, 120, -599] ∧
    Refines Sample.env ((genPay Sample.env).history Sample.seeded Sample.threeRequests)
      ((genPay Sample.env).serveAll Sample.seeded Sample.threeRequests) :=
  ⟨by decide +kernel, ledger_refines Sample.seeded_env Sample.threeRequests⟩

end GenPay
