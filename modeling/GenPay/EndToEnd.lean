import GenPay.Settling

/-!
# Settling, end to end

The rows before and after a settlement (`SettledExactly`): which rows are added, to which accounts the shares go,
and that nothing else changes.  `settle_end_to_end` says that this is what `settle_authorization` does whenever it
returns, and when it returns.
-/

namespace GenPay

open ReadCommitted DoubleEntry

/-- The constraints of the tables that every engine checks. -/
structure Db.Consistent (d : Db) : Prop where
  unique : ∀ c, (d.column c).Nodup
  owned : ∀ a ∈ d.accounts, a.ownerMatchesType = true

theorem Db.Sound.consistent {d : Db} (h : d.Sound) : d.Consistent := ⟨h.unique, h.owned⟩

/-- What is posted of one type to an account. -/
def postedTo (type : TransactionType) (accountId : String) (ts : List Transaction) : Int :=
  ((ts.filter fun t => t.type == type && t.ledgerAccountId == accountId).map (·.amountCents)).sum

/-- The credit of a beneficiary; there is none of zero cents, nor without an account. -/
def roleCredit (account : Option String) (cents : Int) : List LedgerEntry :=
  match account with
  | some id => if cents ≠ 0 then [⟨id, .credit, cents⟩] else []
  | none => []

/-- The rows `d'` after settling `a` on the rows `d` has returned `result`. -/
structure SettledExactly (env : Env) (d d' : Db) (amount : Option Int) (config : Option RevenueSplitConfig)
    (result : PurchaseResult) (a : Authorization) (r : ResearchRecord) (s : Sale) (x : Settlement) : Prop where
  settleable : a.Settleable env d amount config r s
  result_eq : result = s.result a r x result.transactions
  total : result.totalCents = amount.getD a.amountCents
  settlements : d'.settlements = d.settlements ++ [x]
  settlement : x.authorizationId = a.id ∧ x.settledAmountCents = result.totalCents ∧ x.status = .settled
  transactions : d'.transactions = d.transactions ++ result.transactions
  count : result.transactions.length =
    1 + ([result.archiveCents, result.transcriptionistCents, result.platformCents].filter (· ≠ 0)).length
  posted : ∀ t ∈ result.transactions, t.settlementId = x.id ∧ t.status = .posted ∧ 0 < t.amountCents
  /-- One debit of the total on the buyer, and at most one credit for each beneficiary. -/
  entries : result.transactions.map Transaction.entry = ⟨s.buyer, .debit, result.totalCents⟩ ::
    (roleCredit (some s.archive) result.archiveCents ++ roleCredit s.transcriptionist result.transcriptionistCents ++
      roleCredit (some s.platform) result.platformCents)
  sum : result.archiveCents + result.transcriptionistCents + result.platformCents = result.totalCents
  archive : postedTo .credit s.archive result.transactions = result.archiveCents
  transcriptionist : ∀ id, s.transcriptionist = some id →
    postedTo .credit id result.transactions = result.transcriptionistCents ∧
    result.transcriptionistCents = s.split.transcriptionistCents ∧ result.platformCents = s.split.platformCents
  rolledOver : s.transcriptionist = none → result.transcriptionistCents = 0 ∧
    result.platformCents = s.split.platformCents + s.split.transcriptionistCents
  platform : postedTo .credit s.platform result.transactions = result.platformCents
  accounts : d'.accounts = d.accounts.map fun b => { b with
    balanceCents := b.balanceCents +
      (postedTo .credit b.id result.transactions - postedTo .debit b.id result.transactions) }
  others : { d' with settlements := d.settlements, transactions := d.transactions, accounts := d.accounts } = d

variable {fk : Bool} {o : Nat → Choice} {d : Db} {t : Txn Db Write} {env : Env}

/-! ### The rows -/

theorem accountNet_eq_postedTo (id : String) (ts : List Transaction) :
    accountNet id ts = postedTo .credit id ts - postedTo .debit id ts := by
  induction ts with
  | nil => rfl
  | cons t ts ih =>
    have hcons : ∀ type, postedTo type id (t :: ts) =
        (if t.type = type ∧ t.ledgerAccountId = id then t.amountCents else 0) + postedTo type id ts := by
      intro type
      by_cases h : t.type = type ∧ t.ledgerAccountId = id
      · simp [postedTo, h.1, h.2]
      · rw [if_neg h, zero_add]
        unfold postedTo
        rw [List.filter_cons_of_neg (by simpa using h)]
    rw [accountNet, net_cons, ← accountNet, ih, hcons, hcons]
    unfold Transaction.delta
    by_cases hid : t.ledgerAccountId = id <;> cases t.type <;> simp [hid] <;> omega

theorem view_postings (d : Db) (ts : List Transaction) : (engine fk).view d (postings ts) =
    { d with
      transactions := d.transactions ++ ts
      accounts := d.accounts.map fun a => { a with balanceCents := a.balanceCents + accountNet a.id ts } } := by
  induction ts generalizing d with
  | nil => simp [postings, accountNet]
  | cons t ts ih =>
    have hposting : (engine fk).view d (postings (t :: ts)) = (engine fk).view
        ((d.apply (.insertTransaction t)).apply (.addBalance t.ledgerAccountId t.delta)) (postings ts) := rfl
    rw [hposting, ih]
    simp only [Db.apply, updateWhere, List.map_map, List.append_assoc, List.singleton_append]
    congr 1
    refine List.map_congr_left fun a _ => ?_
    simp only [Function.comp, accountNet, net_cons, beq_iff_eq, eq_comm (a := t.ledgerAccountId)]
    split
    · simp [add_assoc]
    · simp

/-- The rows after a settlement is inserted and its transactions are posted. -/
theorem view_settlement (d : Db) (x : Settlement) (ts : List Transaction) :
    (engine fk).view d (.insertSettlement x :: postings ts) = { d with
      settlements := d.settlements ++ [x]
      transactions := d.transactions ++ ts
      accounts := d.accounts.map fun a => { a with
        balanceCents := a.balanceCents + (postedTo .credit a.id ts - postedTo .debit a.id ts) } } := by
  rw [Engine.view_cons]
  refine (view_postings _ ts).trans ?_
  simp only [accountNet_eq_postedTo]
  rfl

/-! ### The entries -/

/-- What the entries credit to an account. -/
def creditTo (id : String) (es : List LedgerEntry) : Int :=
  ((es.filter fun e => e.type == .credit && e.ledgerAccountId == id).map (·.amountCents)).sum

theorem postedTo_eq_creditTo (id : String) (ts : List Transaction) :
    postedTo .credit id ts = creditTo id (ts.map Transaction.entry) := by
  unfold postedTo creditTo
  rw [List.filter_map, List.map_map]
  rfl

theorem creditTo_append (id : String) (es es' : List LedgerEntry) :
    creditTo id (es ++ es') = creditTo id es + creditTo id es' := by
  simp [creditTo]

theorem creditTo_roleCredit (id : String) (account : Option String) (cents : Int) :
    creditTo id (roleCredit account cents) = if account = some id then cents else 0 := by
  cases account with
  | none => rfl
  | some x =>
    unfold roleCredit creditTo
    by_cases hc : cents = 0 <;> by_cases hx : x = id <;> simp [hc, hx]

theorem Sale.entries_eq (s : Sale) : s.entries = ⟨s.buyer, .debit, s.amountCents⟩ ::
    (roleCredit (some s.archive) s.shares.archiveCents ++
      roleCredit s.transcriptionist s.shares.transcriptionistCents ++
      roleCredit (some s.platform) s.shares.platformCents) := by
  unfold Sale.entries settlementEntries roleCredit
  cases s.transcriptionist <;> simp

/-- Each account is credited the share of its role, when the roles have different accounts. -/
theorem Sale.creditTo_entries (s : Sale) (id : String) : creditTo id s.entries =
    (if s.archive = id then s.shares.archiveCents else 0) +
      (if s.transcriptionist = some id then s.shares.transcriptionistCents else 0) +
      (if s.platform = id then s.shares.platformCents else 0) := by
  have hdebit : ∀ es, creditTo id (⟨s.buyer, .debit, s.amountCents⟩ :: es) = creditTo id es := by
    intro es
    simp [creditTo]
  rw [s.entries_eq, hdebit, creditTo_append, creditTo_append, creditTo_roleCredit, creditTo_roleCredit,
    creditTo_roleCredit]
  simp only [Option.some.injEq]

theorem length_roleCredit (account : String) (cents : Int) :
    (roleCredit (some account) cents).length = if cents ≠ 0 then 1 else 0 := by
  show (if cents ≠ 0 then _ else _ : List LedgerEntry).length = _
  split <;> rfl

theorem Sale.length_entries (s : Sale) : s.entries.length =
    1 + ([s.shares.archiveCents, s.shares.transcriptionistCents, s.shares.platformCents].filter (· ≠ 0)).length := by
  have hnone : s.transcriptionist = none → s.shares.transcriptionistCents = 0 := by
    intro hn
    simp [Sale.shares, postedShares, hn]
  have hrole : (roleCredit s.transcriptionist s.shares.transcriptionistCents).length =
      if s.shares.transcriptionistCents ≠ 0 then 1 else 0 := by
    cases ht : s.transcriptionist with
    | some account => exact length_roleCredit _ _
    | none => rw [hnone ht]; rfl
  rw [s.entries_eq, List.length_cons, List.length_append, List.length_append, length_roleCredit, length_roleCredit, hrole]
  simp only [List.filter_cons, decide_eq_true_eq]
  split <;> split <;> split <;> simp

/-- The shares posted are not negative. -/
theorem Sale.shares_nonneg {settings : Settings} {config : Option RevenueSplitConfig} {s : Sale}
    (h : splitAmount settings s.amountCents config = .ok s.split) (p : Party) : 0 ≤ s.shares.share p := by
  obtain ⟨hpos, c, hc⟩ := splitAmount_ok h
  have hnonneg := (splitWith_isHamilton (c := c) hpos).nonneg
  rw [← hc] at hnonneg
  have ha := hnonneg .archive
  have ht := hnonneg .transcriptionist
  have hp := hnonneg .platform
  unfold Sale.shares postedShares
  simp only [RevenueSplitResult.share] at *
  cases s.transcriptionist <;> cases p <;> dsimp only <;> omega

/-- No entry is of zero cents. -/
theorem Sale.entry_pos {settings : Settings} {config : Option RevenueSplitConfig} {s : Sale}
    (h : splitAmount settings s.amountCents config = .ok s.split) {e : LedgerEntry} (he : e ∈ s.entries) :
    0 < e.amountCents := by
  have hrole : ∀ {account : Option String} {cents : Int}, 0 ≤ cents → e ∈ roleCredit account cents → 0 < e.amountCents := by
    intro account cents hnonneg hmem
    unfold roleCredit at hmem
    split at hmem
    · split at hmem
      · rw [List.mem_singleton.1 hmem]
        show 0 < cents
        omega
      · cases hmem
    · cases hmem
  rw [s.entries_eq, List.mem_cons, List.mem_append, List.mem_append] at he
  rcases he with rfl | (he | he) | he
  · exact (splitAmount_ok h).1
  · exact hrole (s.shares_nonneg h .archive) he
  · exact hrole (s.shares_nonneg h .transcriptionist) he
  · exact hrole (s.shares_nonneg h .platform) he

/-! ### The accounts of the roles -/

namespace Db.Consistent

variable {x y id : String}

theorem account_eq (h : d.Consistent) {a b : LedgerAccount} (ha : a ∈ d.accounts) (hb : b ∈ d.accounts) (he : a.id = b.id) :
    a = b :=
  List.inj_on_of_nodup_map (h.unique .accountsId) ha hb he

theorem not_user_archive (h : d.Consistent) (hu : d.userAccount x id) (ha : d.archiveAccount y id) : False := by
  obtain ⟨a, ha, hax, rfl⟩ := hu
  obtain ⟨b, hb, hby, hid⟩ := ha
  rw [h.account_eq hb ha hid] at hby
  have hown := h.owned a ha
  cases ht : a.ownerType <;> simp [LedgerAccount.ownerMatchesType, ht, hax, hby] at hown

theorem not_user_platform (h : d.Consistent) (hu : d.userAccount x id) (hp : d.platformAccount id) : False := by
  obtain ⟨a, ha, hax, rfl⟩ := hu
  obtain ⟨b, hb, hbt, hid⟩ := hp
  rw [h.account_eq hb ha hid] at hbt
  have hown := h.owned a ha
  simp [LedgerAccount.ownerMatchesType, hbt, hax] at hown

theorem not_archive_platform (h : d.Consistent) (hy : d.archiveAccount y id) (hp : d.platformAccount id) : False := by
  obtain ⟨a, ha, hay, rfl⟩ := hy
  obtain ⟨b, hb, hbt, hid⟩ := hp
  rw [h.account_eq hb ha hid] at hbt
  have hown := h.owned a ha
  simp [LedgerAccount.ownerMatchesType, hbt, hay] at hown

end Db.Consistent

/-- The beneficiaries have accounts of their own. -/
theorem Sale.Due.distinct {r : ResearchRecord} {userId : String} {config : Option RevenueSplitConfig} {s : Sale}
    (h : s.Due env d r userId config) (hd : d.Consistent) :
    s.archive ≠ s.platform ∧ s.transcriptionist ≠ some s.archive ∧ s.transcriptionist ≠ some s.platform := by
  have htr : ∀ id, s.transcriptionist = some id → ∃ u, d.userAccount u id := by
    intro id hid
    have := h.transcriptionist
    rw [hid] at this
    obtain ⟨u, -, -, hu⟩ := this
    exact ⟨u, hu⟩
  refine ⟨fun he => hd.not_archive_platform h.archive (he ▸ h.platform), fun he => ?_, fun he => ?_⟩
  · obtain ⟨_, hu⟩ := htr _ he
    exact hd.not_user_archive hu h.archive
  · obtain ⟨_, hu⟩ := htr _ he
    exact hd.not_user_platform hu h.platform

/-- Each beneficiary is credited its share. -/
theorem Sale.Due.credits {r : ResearchRecord} {userId : String} {config : Option RevenueSplitConfig} {s : Sale}
    (h : s.Due env d r userId config) (hd : d.Consistent) : creditTo s.archive s.entries = s.shares.archiveCents ∧
    (∀ id, s.transcriptionist = some id → creditTo id s.entries = s.shares.transcriptionistCents) ∧
    creditTo s.platform s.entries = s.shares.platformCents := by
  obtain ⟨hap, hta, htp⟩ := h.distinct hd
  refine ⟨?_, fun id hid => ?_, ?_⟩
  · rw [s.creditTo_entries, if_pos rfl, if_neg hta, if_neg hap.symm]
    omega
  · have ha : s.archive ≠ id := fun he => hta (by rw [hid, he])
    have hp : s.platform ≠ id := fun he => htp (by rw [hid, he])
    rw [s.creditTo_entries, if_neg ha, if_pos hid, if_neg hp]
    omega
  · rw [s.creditTo_entries, if_neg hap, if_neg htp, if_pos rfl]
    omega

/-! ### End to end -/

/-- The rows after a sale is booked. -/
theorem settledExactly_of_booked {amount : Option Int} {config : Option RevenueSplitConfig} {a : Authorization}
    {r : ResearchRecord} {s : Sale} {x : Settlement} {ts : List Transaction} (hd : d.Consistent)
    (hs : a.Settleable env d amount config r s) (hb : s.BookedAs a x ts) :
    SettledExactly env d ((engine fk).view d (.insertSettlement x :: postings ts)) amount config (s.result a r x ts)
      a r s x := by
  obtain ⟨harchive, htranscriptionist, hplatform⟩ := hs.sale.credits hd
  have hcredit : ∀ id, postedTo .credit id ts = creditTo id s.entries := fun id => by
    rw [postedTo_eq_creditTo, hb.posted.rows]
  rw [view_settlement]
  exact
    { settleable := hs
      result_eq := rfl
      total := hs.amount
      settlements := rfl
      settlement := ⟨hb.authorization, hb.amount, hb.status⟩
      transactions := rfl
      count := by
        have hlen := congrArg List.length hb.posted.rows
        rw [List.length_map, s.length_entries] at hlen
        exact hlen
      posted := fun t ht => ⟨hb.posted.settlement t ht, hb.posted.status t ht,
        Sale.entry_pos hs.sale.split (e := t.entry) (hb.posted.rows ▸ List.mem_map_of_mem ht)⟩
      entries := hb.posted.rows.trans s.entries_eq
      sum := hs.sale.sum_shares
      archive := (hcredit _).trans harchive
      transcriptionist := by
        intro id hid
        refine ⟨(hcredit id).trans (htranscriptionist id hid), ?_⟩
        simp [Sale.result, Sale.shares, postedShares, hid]
      rolledOver := by
        intro hn
        simp [Sale.result, Sale.shares, postedShares, hn]
      platform := (hcredit _).trans hplatform
      accounts := rfl
      others := rfl }

/-- The checks of `__post_init__` are those of the configuration's type. -/
theorem make_bps (c : RevenueSplitConfig) :
    RevenueSplitConfig.make c.archiveBps c.transcriptionistBps c.platformBps = .ok c := by
  unfold RevenueSplitConfig.make
  rw [dif_neg (not_lt.2 c.archive_nonneg), dif_neg (not_lt.2 c.transcriptionist_nonneg),
    dif_neg (not_lt.2 c.platform_nonneg), dif_pos c.sum_eq]

/-- The checks of `settle_authorization`. -/
def Accepts (d : Db) (authorizationId : String) (amount : Option Int) : Prop :=
  ∃ a ∈ d.authorizations, a.id = authorizationId ∧ a.status = .authorized ∧
    (∀ x ∈ d.settlements, x.authorizationId ≠ authorizationId) ∧
    (∃ r ∈ d.records, r.id = a.researchRecordId ∧ ∃ id, d.archiveAccount r.archiveId id) ∧
    (∃ id, d.userAccount a.userId id) ∧ (∃ id, d.platformAccount id) ∧ 0 < amount.getD a.amountCents

theorem exists_account_iff_bounded {p : LedgerAccount → Prop} {l : List LedgerAccount} :
    (∃ a ∈ l, p a) ↔ ∃ id, ∃ a ∈ l, p a ∧ a.id = id :=
  ⟨fun ⟨a, ha, hp⟩ => ⟨a.id, a, ha, hp, rfl⟩, fun ⟨_, a, ha, hp, _⟩ => ⟨a, ha, hp⟩⟩

instance (userId : String) : Decidable (∃ id, d.userAccount userId id) :=
  decidable_of_iff (∃ a ∈ d.accounts, a.ownerUserId = some userId) exists_account_iff_bounded

instance (archiveId : String) : Decidable (∃ id, d.archiveAccount archiveId id) :=
  decidable_of_iff (∃ a ∈ d.accounts, a.ownerArchiveId = some archiveId) exists_account_iff_bounded

instance : Decidable (∃ id, d.platformAccount id) :=
  decidable_of_iff (∃ a ∈ d.accounts, a.ownerType = .platform) exists_account_iff_bounded

instance (id : String) (amount : Option Int) : Decidable (Accepts d id amount) :=
  inferInstanceAs (Decidable (∃ a ∈ d.authorizations, _))

/-- With a valid configuration every positive total has a split. -/
theorem exists_split {config : Option RevenueSplitConfig}
    (hconfig : config = none → ∃ c, RevenueSplitConfig.fromSettings env.settings = .ok c) {total : Int} (h : 0 < total) :
    ∃ split, splitAmount env.settings total config = .ok split := by
  unfold splitAmount
  rw [if_neg (not_le.2 h)]
  cases config with
  | some c => exact ⟨_, rfl⟩
  | none =>
    obtain ⟨c, hc⟩ := hconfig rfl
    simp only [hc]
    exact ⟨_, rfl⟩

/-- A record has a transcriptionist's account or it has none. -/
theorem exists_transcribedBy (r : ResearchRecord) (d : Db) : ∃ id, r.TranscribedBy d id := by
  by_cases h : ∃ id u, r.transcriptionistUserId = some u ∧ u ≠ "" ∧ d.userAccount u id
  · obtain ⟨id, hid⟩ := h
    exact ⟨some id, hid⟩
  · exact ⟨none, fun u hu hne id hid => h ⟨id, u, hu, hne, hid⟩⟩

theorem accepts_iff {id : String} {amount : Option Int} {config : Option RevenueSplitConfig}
    (hconfig : config = none → ∃ c, RevenueSplitConfig.fromSettings env.settings = .ok c) :
    Accepts d id amount ↔ ∃ (a : Authorization) (r : ResearchRecord) (s : Sale), a.id = id ∧
      a.Settleable env d amount config r s := by
  constructor
  · rintro ⟨a, ha, rfl, hst, hnew, ⟨r, hr, hrid, archive, harchive⟩, ⟨buyer, hbuyer⟩, ⟨platform, hplatform⟩, hpos⟩
    obtain ⟨split, hsplit⟩ := exists_split hconfig hpos
    obtain ⟨transcriptionist, htr⟩ := exists_transcribedBy r d
    refine ⟨a, r, ⟨buyer, archive, transcriptionist, platform, amount.getD a.amountCents, split⟩, rfl, ha, hst, ?_,
      ⟨hr, hrid⟩, ⟨hbuyer, harchive, htr, hplatform, hsplit⟩, rfl⟩
    intro hmem
    obtain ⟨x, hx, hxa⟩ := List.mem_map.1 hmem
    exact hnew x hx hxa
  · rintro ⟨a, r, s, rfl, hs⟩
    exact ⟨a, hs.authorization, rfl, hs.authorized,
      fun x hx hxa => hs.unsettled (List.mem_map.2 ⟨x, hx, hxa⟩),
      ⟨r, hs.record.1, hs.record.2, s.archive, hs.sale.archive⟩, ⟨s.buyer, hs.sale.buyer⟩,
      ⟨s.platform, hs.sale.platform⟩, hs.amount ▸ hs.sale.pos⟩

/-- `settle_authorization`, with any amount and any valid configuration, in any transaction: what it has done when it
returns, and, as long as `uuid4` returns new ids, when it returns. -/
theorem settle_end_to_end {loaded : Option Authorization} {id : String} {amount : Option Int}
    {config : Option RevenueSplitConfig} (hd : (t.view (engine fk) d).Consistent)
    (hloaded : ∀ a, loaded = some a → a ∈ (t.view (engine fk) d).authorizations)
    (hconfig : config = none → ∃ c, RevenueSplitConfig.fromSettings env.settings = .ok c) :
    (∀ result t', (settleAuthorization env loaded id amount config).run (engine fk) o d t = (.ok result, t') →
      ∃ a r s x, a.id = id ∧
        SettledExactly env (t.view (engine fk) d) (t'.view (engine fk) d) amount config result a r s x) ∧
    (FreshFrom o t.seen.length (t.view (engine fk) d) →
      ((∃ result t', (settleAuthorization env loaded id amount config).run (engine fk) o d t = (.ok result, t')) ↔
        Accepts (t.view (engine fk) d) id amount)) := by
  have hends := @settleAuthorization_ends fk o d t env loaded id amount config hd.unique hloaded
  refine ⟨fun result t' hrun => ?_, fun hfresh => ⟨?_, fun hok => ?_⟩⟩
  · obtain ⟨a, r, s, x, ts, hid, hs, hb, rfl, hadv, -⟩ := Prog.ends_ok hends hrun
    refine ⟨a, r, s, x, hid, ?_⟩
    rw [hadv.view]
    exact settledExactly_of_booked hd hs hb
  · rintro ⟨result, t', hrun⟩
    obtain ⟨a, r, s, x, ts, hid, hs, -⟩ := Prog.ends_ok hends hrun
    exact (accepts_iff hconfig).2 ⟨a, r, s, hid, hs⟩
  · obtain ⟨result, t', hrun, -⟩ := Prog.exists_ok hends fun hno => hno ⟨hfresh, (accepts_iff hconfig).1 hok⟩
    exact ⟨result, t', hrun⟩

/-! ### A settlement in particular -/

namespace Sample

/-- Session `a` draws ids that no earlier session has drawn. -/
theorem freshFrom_oracle {a : Nat} {d : Db} (n : Nat) (ms : List Nat) (hms : ∀ m ∈ ms, m < 1000 * a)
    (h : ∀ c ∈ idColumns, ∀ x ∈ d.column c, x ∈ ms.map (uuid 0)) : FreshFrom (oracle a) n d where
  distinct i j _ _ he := by
    have := uuid_inj he
    omega
  new i _ c hc hmem := by
    obtain ⟨m, hm, he⟩ := List.mem_map.1 (h c hc _ hmem)
    have := uuid_inj he
    have := hms m hm
    omega

/-- The seeded rows with an authorized purchase of the record by the researcher. -/
def toSettle : Db :=
  { seeded with authorizations := [⟨uuid 0 25, uuid 0 20, uuid 0 16, 599, "auth_1", none, .authorized, none, 0⟩] }

theorem toSettle_consistent : toSettle.Consistent := by
  refine ⟨fun c => ?_, by decide +kernel⟩
  cases c <;> decide +kernel

end Sample

theorem settle_end_to_end_toSettle : ∃ result t',
    (settleAuthorization Sample.env none (Sample.uuid 0 25) none none).run (engine true) (Sample.oracle 1)
      Sample.toSettle Txn.fresh = (.ok result, t') ∧
    ∃ a r s x, a.id = Sample.uuid 0 25 ∧ SettledExactly Sample.env Sample.toSettle (t'.view (engine true) Sample.toSettle)
      none none result a r s x := by
  obtain ⟨hexact, hiff⟩ := @settle_end_to_end true (Sample.oracle 1) Sample.toSettle Txn.fresh Sample.env none
    (Sample.uuid 0 25) none none Sample.toSettle_consistent (fun a ha => by cases ha)
    (fun _ => ⟨Sample.defaultSplit, make_bps Sample.defaultSplit⟩)
  obtain ⟨result, t', hrun⟩ := (hiff (Sample.freshFrom_oracle 0 (List.range 30) (by decide) (by decide +kernel))).2 (by decide +kernel)
  exact ⟨result, t', hrun, hexact result t' hrun⟩

end GenPay
