import GenPay.Authentication
import GenPay.Purchasing
import GenPay.Ranges
import GenPay.References

/-!
# What was authorized can be settled

Every user, every archive and the platform have their accounts in every reachable state (`Db.Complete`), and with
foreign keys so have the rows that an authorization refers to.  What is left of the checks of `settle_authorization`
is the configuration and the amount: the one path that takes an amount from outside, `authorization.created`, does
not look at its sign, so a hold of no cents is never settled (`authorized_settles`, `hold_of_nothing`).  What is left
of the checks of PostgreSQL is the range of the columns, which no path looks at (`Authorization.HasRoom`).
-/

namespace GenPay

open ReadCommitted

/-- Every owner of an account has one. -/
structure Db.Complete (d : Db) : Prop where
  user : ∀ u ∈ d.users, ∃ id, d.userAccount u.id id
  archive : ∀ x ∈ d.archives, ∃ id, d.archiveAccount x.id id
  client : d.clients ≠ [] → ∃ id, d.platformAccount id
  record : d.records ≠ [] → ∃ id, d.platformAccount id

theorem Db.complete_empty : Db.empty.Complete where
  user u hu := by cases hu
  archive x hx := by cases hx
  client h := absurd rfl h
  record h := absurd rfl h

variable {env : Env} {G : AppSession → Db → Prop} {d₀ d : Db} {s : AppSystem} {t : AppSession} {a : Response}
  {act : Action} {ds : List Db}

/-! ### Owners get their accounts -/

namespace Action

/-- An action that inserts a user inserts the user's account. -/
theorem Grounded.user {u : User} (h : act.Grounded env ds) (hu : .insertUser u ∈ act.writes) :
    ∃ x ∈ act.accounts, x.ownerUserId = some u.id := by
  cases act with
  | user v account =>
    simp only [writes, List.mem_cons, Write.insertUser.injEq, reduceCtorEq, List.not_mem_nil, or_false] at hu
    exact ⟨account, by simp [accounts], hu ▸ h.2.1⟩
  | seeded admin processor platform b bAccount v vAccount w wAccount r =>
    obtain ⟨-, -, -, -, hv, hw⟩ := h
    simp only [writes, List.mem_cons, Write.insertUser.injEq, reduceCtorEq, List.not_mem_nil, or_false,
      false_or] at hu
    rcases hu with rfl | rfl
    · exact ⟨vAccount, by simp [accounts], hv.2.1⟩
    · exact ⟨wAccount, by simp [accounts], hw.2.1⟩
  | purchase key p => cases key <;> simp [writes, Purchase.mem_writes] at hu
  | batch e ps => simp [writes, Purchase.mem_writes] at hu
  | refund x xs ys => simp [writes, mem_postings, mem_marks] at hu
  | _ => simp [writes] at hu

theorem Grounded.archive {b : HistoricalArchive} (h : act.Grounded env ds) (hb : .insertArchive b ∈ act.writes) :
    ∃ x ∈ act.accounts, x.ownerArchiveId = some b.id := by
  cases act with
  | archive c account =>
    simp only [writes, List.mem_cons, Write.insertArchive.injEq, reduceCtorEq, List.not_mem_nil, or_false] at hb
    exact ⟨account, by simp [accounts], hb ▸ h.2.2.1⟩
  | seeded admin processor platform c cAccount v vAccount w wAccount r =>
    obtain ⟨-, -, -, hc, -, -⟩ := h
    simp only [writes, List.mem_cons, Write.insertArchive.injEq, reduceCtorEq, List.not_mem_nil, or_false,
      false_or] at hb
    exact ⟨cAccount, by simp [accounts], hb ▸ hc.2.2.1⟩
  | purchase key p => cases key <;> simp [writes, Purchase.mem_writes] at hb
  | batch e ps => simp [writes, Purchase.mem_writes] at hb
  | refund x xs ys => simp [writes, mem_postings, mem_marks] at hb
  | _ => simp [writes] at hb

/-- Clients are inserted by seeding only, together with the platform's account. -/
theorem Grounded.client {c : ApiClient} (h : act.Grounded env ds) (hc : .insertClient c ∈ act.writes) :
    ∃ x ∈ act.accounts, x.ownerType = .platform := by
  cases act with
  | seeded admin processor platform b bAccount v vAccount w wAccount r =>
    exact ⟨platform, by simp [accounts], h.2.2.1.1⟩
  | purchase key p => cases key <;> simp [writes, Purchase.mem_writes] at hc
  | batch e ps => simp [writes, Purchase.mem_writes] at hc
  | refund x xs ys => simp [writes, mem_postings, mem_marks] at hc
  | _ => simp [writes] at hc

/-- Records are inserted by seeding and by requests that show an accepted key. -/
theorem insertRecord_cases {r : ResearchRecord} (hr : .insertRecord r ∈ act.writes) :
    act.isEntity = true ∨ ∃ admin processor platform b bAccount v vAccount w wAccount,
      act = .seeded admin processor platform b bAccount v vAccount w wAccount r := by
  cases act with
  | record _ => exact Or.inl rfl
  | seeded admin processor platform b bAccount v vAccount w wAccount q =>
    simp only [writes, List.mem_cons, Write.insertRecord.injEq, reduceCtorEq, List.not_mem_nil, or_false,
      false_or] at hr
    exact Or.inr ⟨admin, processor, platform, b, bAccount, v, vAccount, w, wAccount, by rw [hr]⟩
  | purchase key p => cases key <;> simp [writes, Purchase.mem_writes] at hr
  | batch e ps => simp [writes, Purchase.mem_writes] at hr
  | refund x xs ys => simp [writes, mem_postings, mem_marks] at hr
  | _ => simp [writes] at hr

end Action

open Action.Commits in
theorem CommitsVouched.complete (h : CommitsVouched env t a act d) (hd : d.Complete) :
    (after env d act).Complete := by
  have hext : d.Extends (after env d act) := h.commits.extends_after
  have new : ∀ {x : LedgerAccount}, x ∈ act.accounts → x ∈ (after env d act).accounts := by
    intro x hx
    rw [accounts_after]
    exact List.mem_append_right _ hx
  have platform : (∃ x ∈ act.accounts, x.ownerType = .platform) → ∃ id, (after env d act).platformAccount id :=
    fun ⟨x, hx, hp⟩ => ⟨x.id, x, new hx, hp, rfl⟩
  have old : (∃ id, d.platformAccount id) → ∃ id, (after env d act).platformAccount id :=
    fun ⟨id, hid⟩ => ⟨id, hext.platformAccount hid⟩
  exact
    { user := fun u hu => by
        rcases mem_users_after hu with hu | hu
        · obtain ⟨id, hid⟩ := hd.user u hu
          exact ⟨id, hext.userAccount hid⟩
        · obtain ⟨x, hx, ho⟩ := h.commits.grounded.user hu
          exact ⟨x.id, x, new hx, ho, rfl⟩
      archive := fun b hb => by
        rcases mem_archives_after hb with hb | hb
        · obtain ⟨id, hid⟩ := hd.archive b hb
          exact ⟨id, hext.archiveAccount hid⟩
        · obtain ⟨x, hx, ho⟩ := h.commits.grounded.archive hb
          exact ⟨x.id, x, new hx, ho, rfl⟩
      client := fun hne => by
        obtain ⟨c, hc⟩ := List.exists_mem_of_ne_nil _ hne
        rcases mem_clients_after hc with hc | hc
        · exact old (hd.client (List.ne_nil_of_mem hc))
        · exact platform (h.commits.grounded.client hc)
      record := fun hne => by
        obtain ⟨r, hr⟩ := List.exists_mem_of_ne_nil _ hne
        rcases mem_records_after hr with hr | hr
        · exact old (hd.record (List.ne_nil_of_mem hr))
        · rcases Action.insertRecord_cases hr with hact | ⟨_, _, x, _, _, _, _, _, _, rfl⟩
          · -- the key of the request is a client's, and clients come with the platform's account
            obtain ⟨r, hkey⟩ := h.answers.acts.of_isEntity hact
            obtain ⟨-, -, c, hc, -⟩ := h.commits.keyAccepted hkey
            exact old (hd.client (List.ne_nil_of_mem hc))
          · exact platform ⟨x, by simp [Action.accounts], h.commits.grounded.2.2.1.1⟩ }

theorem run_complete (h₀ : Seeded env d₀) (h : Run (genPay env) G (System.initial d₀) s) : s.db.Complete := by
  refine commit_induction ?_ (fun _ _ _ _ hc _ hd => hc.complete hd) h₀.sound h
  rcases h₀.commits with rfl | ⟨t, a, act, -, hc, rfl⟩
  · exact Db.complete_empty
  · exact hc.complete Db.complete_empty

/-! ### The amounts -/

/-- A delivery of `authorization.created` holds a positive amount. -/
def Job.HoldsPositive (env : Env) : Job → Prop
  | .request r => r.route = .processorEvents → ∀ envelope data, env.parseEnvelope r.rawBody = .ok envelope →
      envelope.eventType = .authorizationCreated → env.validateCreated envelope.data = .ok data → 0 < data.amountCents
  | _ => True

open Action.Commits in
/-- Purchases split their amount, so only the amount of a hold may not be positive. -/
theorem CommitsVouched.positive (h : CommitsVouched env t a act d) (hG : t.job.HoldsPositive env)
    (hd : ∀ b ∈ d.authorizations, 0 < b.amountCents) : ∀ b ∈ (after env d act).authorizations, 0 < b.amountCents := by
  intro b hb
  rcases mem_authorizations_after hb with ⟨b₀, hb₀, hcore⟩ | hb
  · rw [of_core Authorization.amountCents hcore]
    exact hd b₀ hb₀
  · have hasked := h.vouched.asked b (h.writes ▸ mem_authorizations hb)
    have hgr := h.commits.grounded
    have hans := h.answers
    revert hG hasked hans
    generalize t.job = job
    intro hG hasked hans
    cases act with
    | purchase key p =>
      cases List.mem_singleton.1 hb
      have hp : p.Grounded env t.txn.seen := hgr
      exact (splitAmount_ok hp.split).1
    | created event b' =>
      cases List.mem_singleton.1 hb
      cases hans.acts with
      | entity _ hact => cases hact
      | event hr hsig hparse ha hact =>
        simp only [AskedFor, hr] at hasked
        obtain ⟨envelope, data, hparse, htype, hdata, he⟩ := hasked
        rw [he]
        exact hG hr envelope data hparse htype hdata
    | _ => cases hb

theorem run_positive (h₀ : Seeded env d₀) (hG : ∀ t d, G t d → t.job.HoldsPositive env)
    (h : Run (genPay env) G (System.initial d₀) s) : ∀ b ∈ s.db.authorizations, 0 < b.amountCents := by
  refine commit_induction ?_ (fun t _ _ d hc hg hd => hc.positive (hG t d hg) hd) h₀.sound h
  rw [h₀.no_ledger.1]
  intro b hb
  cases hb

/-! ### Room in the columns -/

/-- The columns have room for the sale: for the amount, for the balance of the buyer once it is debited, and for the
balance of each account that is credited. -/
structure Sale.Fits (s : Sale) (d : Db) : Prop where
  amount : InRange s.amountCents
  debit : ∀ a ∈ d.accounts, a.id = s.buyer → InRange (a.balanceCents - s.amountCents)
  /-- The buyer may be the transcriptionist. -/
  credit : ∀ e ∈ s.entries, e.type = .credit → ∀ a ∈ d.accounts, a.id = e.ledgerAccountId →
    InRange (a.balanceCents - (if a.id = s.buyer then s.amountCents else 0) + e.amountCents)

variable {fk : Bool}

/-- A row and its change of balance fit if the numbers do. -/
theorem allFit_posting {y : Transaction} {ts : List Transaction} :
    (engine fk).AllFit Write.fits d (postings (y :: ts)) ↔
      (InRange y.amountCents ∧ InRange y.delta ∧
        ∀ a ∈ d.accounts, a.id = y.ledgerAccountId → InRange (a.balanceCents + y.delta)) ∧
      (engine fk).AllFit Write.fits ((engine fk).view d (postings [y])) (postings ts) := by
  have hcons : postings (y :: ts) = .insertTransaction y :: .addBalance y.ledgerAccountId y.delta :: postings ts := rfl
  have hadd : (d.apply (.insertTransaction y)).accounts = d.accounts := rfl
  rw [hcons, Engine.allFit_cons, Engine.allFit_cons, ← and_assoc]
  refine and_congr ?_ Iff.rfl
  simp only [Write.fits, engine, hadd, decide_eq_true_eq, Bool.and_eq_true, List.all_eq_true, Bool.or_eq_true, bne_iff_ne,
    imp_iff_not_or]

/-- What is credited to different accounts fits if each credit does. -/
theorem allFit_credits {cs : List Transaction} (hcredit : ∀ y ∈ cs, y.delta = y.amountCents)
    (hrange : ∀ y ∈ cs, InRange y.amountCents) (hn : (cs.map (·.ledgerAccountId)).Nodup) :
    (engine fk).AllFit Write.fits d (postings cs) ↔
      ∀ y ∈ cs, ∀ a ∈ d.accounts, a.id = y.ledgerAccountId → InRange (a.balanceCents + y.amountCents) := by
  induction cs generalizing d with
  | nil => simp [postings]
  | cons y cs ih =>
    rw [List.map_cons, List.nodup_cons] at hn
    rw [allFit_posting, ih (fun z hz => hcredit z (List.mem_cons_of_mem _ hz))
      (fun z hz => hrange z (List.mem_cons_of_mem _ hz)) hn.2, hcredit y (List.mem_cons_self ..), List.forall_mem_cons]
    have hy := hrange y (List.mem_cons_self ..)
    refine and_congr ⟨fun h => h.2.2, fun h => ⟨hy, hy, h⟩⟩ (forall₂_congr fun z hz => ?_)
    -- the first credit goes to another account
    have hne : y.ledgerAccountId ≠ z.ledgerAccountId := fun he => hn.1 (he ▸ List.mem_map_of_mem hz)
    rw [view_postings, List.forall_mem_map]
    refine forall₂_congr fun a ha => forall_congr' fun hid => ?_
    have hzero : accountNet a.id [y] = 0 := DoubleEntry.net_eq_zero fun x hx => by
      rw [List.mem_singleton.1 hx]
      exact fun he => hne (he.trans hid)
    rw [hzero, add_zero]

/-- The accounts of the credits differ. -/
theorem Sale.Due.credited_nodup {r : ResearchRecord} {userId : String} {config : Option RevenueSplitConfig} {s : Sale}
    (h : s.Due env d r userId config) (hd : d.Consistent) : (s.entries.tail.map (·.ledgerAccountId)).Nodup := by
  obtain ⟨hap, hta, htp⟩ := h.distinct hd
  have hrole : ∀ account cents, ((roleCredit account cents).map (·.ledgerAccountId)).Sublist account.toList := by
    intro account cents
    unfold roleCredit
    cases account with
    | none => exact List.Sublist.refl _
    | some id =>
      dsimp only
      split
      · exact List.Sublist.refl _
      · exact List.nil_sublist _
  have hsub : (s.entries.tail.map (·.ledgerAccountId)).Sublist
      ([s.archive] ++ s.transcriptionist.toList ++ [s.platform]) := by
    rw [s.entries_eq, List.tail_cons, List.map_append, List.map_append]
    exact ((hrole _ _).append (hrole _ _)).append (hrole _ _)
  refine hsub.nodup ?_
  cases htr : s.transcriptionist with
  | none => simpa using hap
  | some id =>
    rw [htr] at hta htp
    simp only [ne_eq, Option.some.injEq] at hta htp
    simp [hap, htp, Ne.symm hta]

theorem Sale.credit_of_mem_tail (s : Sale) {e : LedgerEntry} (he : e ∈ s.entries.tail) : e.type = .credit := by
  have hrole : ∀ {account cents}, e ∈ roleCredit account cents → e.type = .credit := by
    intro account cents hmem
    unfold roleCredit at hmem
    split at hmem
    · split at hmem
      · rw [List.mem_singleton.1 hmem]
      · cases hmem
    · cases hmem
  rw [s.entries_eq, List.tail_cons, List.mem_append, List.mem_append] at he
  rcases he with (he | he) | he <;> exact hrole he

theorem Sale.entries_cons (s : Sale) : s.entries = ⟨s.buyer, .debit, s.amountCents⟩ :: s.entries.tail := by
  rw [s.entries_eq, List.tail_cons]

theorem Sale.mem_tail_of_credit (s : Sale) {e : LedgerEntry} (he : e ∈ s.entries) (htype : e.type = .credit) :
    e ∈ s.entries.tail := by
  rw [s.entries_cons] at he
  rcases List.mem_cons.1 he with rfl | he
  · cases htype
  · exact he

/-- No credit exceeds the amount of the sale. -/
theorem Sale.Due.credit_le {r : ResearchRecord} {userId : String} {config : Option RevenueSplitConfig} {s : Sale}
    (h : s.Due env d r userId config) {e : LedgerEntry} (he : e ∈ s.entries.tail) : e.amountCents ≤ s.amountCents := by
  have hdebit : totalOf .debit s.entries = s.amountCents := by
    have hnone : s.entries.tail.filter (·.type == .debit) = [] :=
      List.filter_eq_nil_iff.2 fun e he => by simp [s.credit_of_mem_tail he]
    rw [s.entries_cons]
    simp [totalOf, hnone]
  rw [← hdebit, h.balanced]
  refine List.single_le_sum (fun n hn => ?_) _ (List.mem_map_of_mem ?_)
  · obtain ⟨e', he', rfl⟩ := List.mem_map.1 hn
    exact (Sale.entry_pos h.split (List.mem_of_mem_filter he')).le
  · exact List.mem_filter.2 ⟨List.mem_of_mem_tail he, by simp [s.credit_of_mem_tail he]⟩

/-- The writes of a settlement fit if the columns have room for the sale. -/
theorem Sale.BookedAs.allFit_iff {a : Authorization} {r : ResearchRecord} {s : Sale} {x : Settlement}
    {ts : List Transaction} (hd : d.Consistent) (hs : a.Settleable env d none none r s) (hb : s.BookedAs a x ts) :
    (engine fk).AllFit Write.fits d (.insertSettlement x :: postings ts) ↔ s.Fits d := by
  obtain ⟨y, cs, rfl, hy, hcs⟩ : ∃ y cs, ts = y :: cs ∧ y.entry = ⟨s.buyer, .debit, s.amountCents⟩ ∧
      cs.map Transaction.entry = s.entries.tail := List.map_eq_cons_iff.1 (hb.posted.rows.trans s.entries_cons)
  have haccount : y.ledgerAccountId = s.buyer := congrArg LedgerEntry.ledgerAccountId hy
  have hamount : y.amountCents = s.amountCents := congrArg LedgerEntry.amountCents hy
  have hdelta : y.delta = -s.amountCents := by
    have htype : y.type = .debit := congrArg LedgerEntry.type hy
    simp [Transaction.delta, htype, hamount]
  have hmem : ∀ z ∈ cs, z.entry ∈ s.entries.tail := fun z hz => hcs ▸ List.mem_map_of_mem hz
  have hpos := hs.sale.pos
  have hcredits : InRange s.amountCents → ((engine fk).AllFit Write.fits
      ((engine fk).view (d.apply (.insertSettlement x)) (postings [y])) (postings cs) ↔
        ∀ e ∈ s.entries.tail, ∀ a ∈ d.accounts, a.id = e.ledgerAccountId →
          InRange (a.balanceCents - (if a.id = s.buyer then s.amountCents else 0) + e.amountCents)) := by
    intro hrange
    have htype : ∀ z ∈ cs, z.delta = z.amountCents := fun z hz => by
      have htype : z.type = .credit := s.credit_of_mem_tail (hmem z hz)
      simp [Transaction.delta, htype]
    have hamounts : ∀ z ∈ cs, InRange z.amountCents := fun z hz => by
      have hle : z.amountCents ≤ s.amountCents := hs.sale.credit_le (hmem z hz)
      have hz : 0 < z.amountCents := Sale.entry_pos hs.sale.split (List.mem_of_mem_tail (hmem z hz))
      unfold InRange at hrange ⊢
      omega
    have hnodup : (cs.map (·.ledgerAccountId)).Nodup := by
      have hmap : cs.map (·.ledgerAccountId) = s.entries.tail.map (·.ledgerAccountId) := by
        rw [← hcs, List.map_map]
        rfl
      rw [hmap]
      exact hs.sale.credited_nodup hd
    rw [allFit_credits htype hamounts hnodup, ← hcs, List.forall_mem_map]
    refine forall₂_congr fun z hz => ?_
    rw [view_postings, List.forall_mem_map]
    refine forall₂_congr fun a ha => forall_congr' fun hid => ?_
    have hnet : accountNet a.id [y] = -(if a.id = s.buyer then s.amountCents else 0) := by
      unfold accountNet
      rw [DoubleEntry.net_cons, DoubleEntry.net_nil, haccount, hdelta]
      by_cases hbuyer : a.id = s.buyer
      · rw [if_pos hbuyer.symm, if_pos hbuyer, add_zero]
      · rw [if_neg (Ne.symm hbuyer), if_neg hbuyer, neg_zero, add_zero]
    rw [hnet, ← sub_eq_add_neg]
    rfl
  rw [Engine.allFit_cons, allFit_posting, haccount, hamount, hdelta]
  constructor
  · rintro ⟨-, ⟨hrange, -, hdebit⟩, hall⟩
    exact ⟨hrange, hdebit, fun e he htype => (hcredits hrange).1 hall e (s.mem_tail_of_credit he htype)⟩
  · intro hfits
    have hrange := hfits.amount
    refine ⟨?_, ⟨hrange, ?_, hfits.debit⟩, (hcredits hrange).2 fun e he => ?_⟩
    · show decide (InRange x.settledAmountCents) = true
      rw [hb.amount]
      exact decide_eq_true hrange
    · unfold InRange at hrange ⊢
      omega
    · exact hfits.credit e (List.mem_of_mem_tail he) (s.credit_of_mem_tail he)

/-- There is room if no balance comes within the amount of an end of its column. -/
theorem Sale.Due.fits {r : ResearchRecord} {userId : String} {config : Option RevenueSplitConfig} {s : Sale}
    (h : s.Due env d r userId config) (hrange : InRange s.amountCents)
    (hroom : ∀ a ∈ d.accounts, InRange (a.balanceCents - s.amountCents) ∧ InRange (a.balanceCents + s.amountCents)) :
    s.Fits d where
  amount := hrange
  debit a ha _ := (hroom a ha).1
  credit e he htype a ha _ := by
    have hle := h.credit_le (s.mem_tail_of_credit he htype)
    have hpos := Sale.entry_pos h.split he
    obtain ⟨h₁, h₂⟩ := hroom a ha
    unfold InRange at h₁ h₂ ⊢
    split <;> omega

/-! ### Settling -/

/-- The configured shares are those of a split. -/
def Settings.Splits (settings : Settings) : Prop := ∃ c, RevenueSplitConfig.fromSettings settings = .ok c

/-- `settle_authorization` without an override accepts the authorization and posts a balanced entry set, all of which
the columns hold. -/
def Settles (env : Env) (o : Nat → Choice) (d : Db) (loaded : Option Authorization) (id : String) : Prop :=
  ∃ result t, (settleAuthorization env loaded id none none).run (bounded env).toEngine o d Txn.fresh = (.ok result, t) ∧
    (t.view (bounded env).toEngine d).transactions = d.transactions ++ result.transactions ∧
    result.transactions ≠ [] ∧
    totalOf .debit (result.transactions.map Transaction.entry) =
      totalOf .credit (result.transactions.map Transaction.entry)

theorem settings_of_splitAmount {settings : Settings} {n : Int} {split : RevenueSplitResult}
    (h : splitAmount settings n none = .ok split) : settings.Splits := by
  unfold splitAmount at h
  split at h
  · cases h
  · simp only at h
    split at h
    · rename_i c hc
      exact ⟨c, hc⟩
    · cases h

/-- The columns have room for what there is to settle. -/
def Authorization.HasRoom (env : Env) (d : Db) (b : Authorization) : Prop :=
  ∀ r s, b.Settleable env d none none r s → s.Fits d

/-- What there is to settle, if its writes fit. -/
theorem settles_of_settleable (env : Env) {d : Db} {o : Nat → Choice} {loaded : Option Authorization}
    {b : Authorization} {r : ResearchRecord} {s : Sale} (hd : d.Sound)
    (hloaded : ∀ c, loaded = some c → c ∈ d.authorizations) (ho : FreshFrom o 0 d)
    (hs : b.Settleable env d none none r s) : Settles env o d loaded b.id ↔ s.Fits d := by
  have hends := @settleAuthorization_ends env.foreignKeys o d Txn.fresh env loaded b.id none none hd.unique hloaded
  simp only [Txn.view_fresh] at hends
  obtain ⟨result, t, hrun, c, q, s', x, ts, hid, hs', hbook, rfl, hadv, -⟩ :=
    Prog.exists_ok hends fun hno => hno ⟨ho, b, r, s, rfl, hs⟩
  obtain rfl : c = b := List.inj_on_of_nodup_map (hd.unique .authorizationsId) hs'.authorization hs.authorization hid
  obtain rfl : q = r := List.inj_on_of_nodup_map (hd.unique .recordsId) hs'.record.1 hs.record.1
    (hs'.record.2.trans hs.record.2.symm)
  obtain rfl : s' = s := hs'.sale.unique hd hs.sale (hs'.amount.trans hs.amount.symm)
  have hstraight := @settleAuthorization_straight env loaded c.id none none
  have hfits : (engine env.foreignKeys).AllFit Write.fits d (.insertSettlement x :: postings ts) ↔ s'.Fits d :=
    hbook.allFit_iff hd.consistent hs
  rw [← hfits]
  constructor
  · rintro ⟨result', t', hrun', -⟩
    obtain ⟨hrun', ws, hws, hall⟩ := hstraight.run_refusing.1 hrun'
    obtain ⟨-, rfl⟩ : result' = s'.result c q x ts ∧ t' = t := by simpa using hrun'.symm.trans hrun
    rwa [List.append_cancel_left (hws.symm.trans hadv.writes)] at hall
  · intro hall
    have hrows := hbook.posted.rows
    refine ⟨_, t, hstraight.run_refusing.2 ⟨hrun, _, hadv.writes, hall⟩, ?_, ?_, ?_⟩
    · rw [show t.view (bounded env).toEngine d = t.view (engine env.foreignKeys) d from rfl, hadv.view, view_settlement]
      rfl
    · intro hnil
      change ts = [] at hnil
      rw [hnil, s'.entries_eq] at hrows
      cases hrows
    · show totalOf .debit (ts.map Transaction.entry) = totalOf .credit (ts.map Transaction.entry)
      rw [hrows]
      exact hs.sale.balanced

/-- Where the rows that an authorization needs exist, settling it is a matter of the amount, the settings and the
room in the columns. -/
theorem settles_iff (env : Env) {d : Db} {o : Nat → Choice} {loaded : Option Authorization} {b : Authorization} (hd : d.Sound)
    (href : d.Referential) (hcomplete : d.Complete) (hb : b ∈ d.authorizations) (hstatus : b.status = .authorized)
    (hnew : ∀ x ∈ d.settlements, x.authorizationId ≠ b.id) (hloaded : ∀ c, loaded = some c → c ∈ d.authorizations)
    (ho : FreshFrom o 0 d) :
    Settles env o d loaded b.id ↔ env.settings.Splits ∧ 0 < b.amountCents ∧ b.HasRoom env d := by
  constructor
  · intro h
    obtain ⟨result, t, hrun, -⟩ := id h
    have hends := @settleAuthorization_ends env.foreignKeys o d Txn.fresh env loaded b.id none none hd.unique hloaded
    obtain ⟨c, r, s, x, ts, hid, hs, -⟩ :=
      Prog.ends_ok hends (settleAuthorization_straight loaded b.id none none |>.run_refusing.1 hrun).1
    simp only [Txn.view_fresh] at hs
    have hcb : c = b := List.inj_on_of_nodup_map (hd.unique .authorizationsId) hs.authorization hb hid
    have hamount : s.amountCents = b.amountCents := by rw [hs.amount, hcb]; rfl
    exact ⟨settings_of_splitAmount hs.sale.split, hamount ▸ hs.sale.pos,
      fun r s hs => (settles_of_settleable env hd hloaded ho hs).1 h⟩
  · rintro ⟨hsettings, hpos, hroom⟩
    obtain ⟨r, hr, hrid⟩ := List.mem_map.1 (href.authorizationRecord b hb)
    obtain ⟨u, hu, huid⟩ := List.mem_map.1 (href.authorizationUser b hb)
    obtain ⟨y, hy, hyid⟩ := List.mem_map.1 (href.recordArchive r hr)
    obtain ⟨archive, harchive⟩ := hcomplete.archive y hy
    have haccepts : Accepts d b.id none := ⟨b, hb, rfl, hstatus, hnew, ⟨r, hr, hrid, archive, hyid ▸ harchive⟩,
      huid ▸ hcomplete.user u hu, hcomplete.record (List.ne_nil_of_mem hr), hpos⟩
    obtain ⟨c, r, s, hid, hs⟩ := (accepts_iff fun _ => hsettings).1 haccepts
    obtain rfl : c = b := List.inj_on_of_nodup_map (hd.unique .authorizationsId) hs.authorization hb hid
    exact (settles_of_settleable env hd hloaded ho hs).2 (hroom r s hs)

/-- On PostgreSQL, in every state of every run: an authorized authorization without a settlement can be settled if and
only if its amount is positive, the configured shares are those of a split, and the columns have room for the amount
and for the balances that it is posted to.  So all for which they have room can, if the holds that deliveries create
are positive. -/
theorem authorized_settles {env : Env} {G : AppSession → Db → Prop} {d₀ : Db} {s : AppSystem} {b : Authorization}
    {o : Nat → Choice} {loaded : Option Authorization} (hfk : env.foreignKeys = true) (h₀ : Seeded env d₀)
    (h : Run (bounded env) G (System.initial d₀) s) (hb : b ∈ s.db.authorizations) (hstatus : b.status = .authorized)
    (hnew : ∀ x ∈ s.db.settlements, x.authorizationId ≠ b.id)
    (hloaded : ∀ c, loaded = some c → c ∈ s.db.authorizations) (ho : FreshFrom o 0 s.db) :
    (Settles env o s.db loaded b.id ↔ env.settings.Splits ∧ 0 < b.amountCents ∧ b.HasRoom env s.db) ∧
    ((∀ t d, G t d → t.job.HoldsPositive env) → env.settings.Splits → b.HasRoom env s.db →
      Settles env o s.db loaded b.id) := by
  obtain ⟨s', hrun, hdb⟩ := bounded_run h
  rw [← hdb] at hb hnew hloaded ho ⊢
  have hiff := settles_iff env (run_sound h₀.sound hrun) (run_referential h₀ (fun _ _ _ => Or.inl hfk) hrun)
    (run_complete h₀ hrun) hb hstatus hnew hloaded ho
  exact ⟨hiff, fun hG hsettings hroom => hiff.2 ⟨hsettings, run_positive h₀ hG hrun b hb, hroom⟩⟩

/-! ### A hold of nothing -/

namespace Sample

theorem holdsPositive (c : Case) : c.job.HoldsPositive Sample.env := by
  cases c with
  | delivers e =>
    intro _ envelope data hparse htype hdata
    have hparse : Except.ok e.envelope = Except.ok envelope := (parse_body e).symm.trans hparse
    cases hparse
    cases e <;> cases htype
    cases hdata
    decide
  | refunds => intro hr; cases hr
  | buys key => intro hr; cases hr
  | card => intro hr; cases hr
  | reconciles => exact True.intro

end Sample

namespace Sample

/-- The authorization is created and approved where columns have a range. -/
def held : AppSystem := ((System.initial seeded).schedule (bounded Sample.env) (fun _ _ => true)
  (authorized.flatMap Move.labels)).getD (System.initial seeded)

theorem run_held : Run (bounded Sample.env) (fun t _ => t.job.HoldsPositive Sample.env) (System.initial seeded) held :=
  run_schedule_getD (P := fun r => ∃ c : Case, r = c.job) (fun t d ⟨c, hc⟩ _ => hc ▸ holdsPositive c)
    (fun _ _ hr => start_case hr) (by simp [System.initial])

theorem held_eq : held = ((System.initial seeded).schedule { bounded Sample.env with handle := handleVerified }
    (fun _ _ => true) (authorized.flatMap Move.labels)).getD (System.initial seeded) := by
  unfold held
  rw [schedule_verified rfl]

end Sample

theorem authorized_settles_approved :
    ∃ b ∈ Sample.held.db.authorizations, b.status = .authorized ∧ Sample.held.db.settlements = [] ∧
      Settles Sample.env (Sample.oracle 3) Sample.held.db none b.id := by
  have hrow : ((Sample.held.db.authorizations.any fun b => b.status == .authorized && b.amountCents == 599) &&
      Sample.held.db.settlements.isEmpty && Sample.held.db.accounts.all fun a => a.balanceCents == 0) = true := by
    rw [Sample.held_eq]
    decide +kernel
  have hids : ∀ c ∈ idColumns, ∀ x ∈ Sample.held.db.column c, x ∈ (List.range 30 ++ [1005]).map (Sample.uuid 0) := by
    rw [Sample.held_eq]
    decide +kernel
  simp only [Bool.and_eq_true, List.any_eq_true, List.isEmpty_iff, List.all_eq_true, beq_iff_eq] at hrow
  obtain ⟨⟨⟨b, hb, hst, hamount⟩, hnone⟩, hzero⟩ := hrow
  refine ⟨b, hb, hst, hnone, ?_⟩
  refine (authorized_settles rfl Sample.seeded_env Sample.run_held hb hst (by simp [hnone])
    (fun c hc => by cases hc) (Sample.freshFrom_oracle 0 _ (by decide) hids)).2 (fun _ _ hg => hg)
    ⟨Sample.defaultSplit, make_bps Sample.defaultSplit⟩ fun r s hs => ?_
  have hn : s.amountCents = 599 := hs.amount.trans hamount
  refine hs.sale.fits (hn ▸ by decide) fun a ha => ?_
  rw [hzero a ha, hn]
  decide

namespace Sample

/-- An `authorization.created` for no cents. -/
def zeroBody : String :=
  "\x7b\"event_id\": \"evt_1\", \"event_type\": \"authorization.created\", \"occurred_at\": " ++
    "\"2026-01-01T00:00:00Z\", \"data\": \x7b\"authorization_id\": \"auth_1\", \"merchant_reference\": " ++
    "\x7b\"research_record_id\": \"10000020-0000-4000-8000-000000000000\", \"user_id\": " ++
    "\"10000016-0000-4000-8000-000000000000\"\x7d, \"amount_cents\": 0, \"currency\": \"USD\", " ++
    "\"card_last4\": \"4242\", \"card_network\": \"visa\"\x7d\x7d"

def zeroDigest : String := "f9a114af11c1ed49b7a0c03a1f8152257085179421e885925ee4578b84627fb9"

def zeroEnvelope : ProcessorEventEnvelope :=
  ⟨"evt_1", .authorizationCreated, [("authorization_id", .str "auth_1"),
    ("merchant_reference", .obj [("research_record_id", uuid 0 20), ("user_id", uuid 0 16)]),
    ("amount_cents", .int 0), ("currency", .str "USD"), ("card_last4", .str "4242"), ("card_network", .str "visa")]⟩

/-- The sample with the digest and the parsed text of one more body. -/
def zeroEnv : Env :=
  { Sample.env with
    hmacSha256 := fun key message =>
      if key = "change-me" ∧ message = "1767225600." ++ zeroBody then zeroDigest else Sample.env.hmacSha256 key message
    parseEnvelope := fun body =>
      if String.fromUTF8? body = some zeroBody then .ok zeroEnvelope else Sample.env.parseEnvelope body }

def zeroCreated : Request :=
  ⟨.processorEvents, none, some ("t=1767225600,v1=" ++ zeroDigest), zeroBody.toUTF8, 1767225600⟩

def zeroSeeded : Db := ((genPay zeroEnv).serve .seed (oracle 0) Db.empty).2

/-- The hold is created and approved. -/
def zeroHold : Db := (bounded zeroEnv).serveAll zeroSeeded
  [(.request zeroCreated, oracle 1), (.request (delivery .approved), oracle 2)]

theorem zeroEnv_hmac (key message : String) : zeroEnv.hmacSha256 key message =
    if key = "change-me" ∧ message = "1767225600." ++ zeroBody then zeroDigest
    else Sample.env.hmacSha256 key message := rfl

theorem zeroEnv_parse (body : ByteArray) : zeroEnv.parseEnvelope body =
    if String.fromUTF8? body = some zeroBody then .ok zeroEnvelope else Sample.env.parseEnvelope body := rfl

theorem zeroCreated_handle : (genPay zeroEnv).handle (.request zeroCreated) = processEnvelope zeroEnv zeroEnvelope := by
  have hdigest : payloadDigest zeroEnv "change-me" zeroBody 1767225600 = zeroDigest := by
    unfold payloadDigest
    rw [signed_text, zeroEnv_hmac, if_pos ⟨rfl, rfl⟩]
  refine @route_processorEvents zeroEnv zeroCreated zeroBody.toUTF8 zeroEnvelope rfl ?_ ?_
  · refine verify_of_parse 1767225600 (by decide +kernel) ?_ (by decide +kernel) (by decide +kernel) ?_
    · show parseHeader _ = some (_, payloadDigest zeroEnv "change-me" zeroBody 1767225600)
      rw [hdigest]
      decide +kernel
    · show (payloadDigest zeroEnv "change-me" zeroBody 1767225600).toList.any _ = false
      rw [hdigest]
      decide +kernel
  · have htext : String.fromUTF8? zeroBody.toUTF8 = some zeroBody := dif_pos zeroBody.isValidUTF8
    rw [zeroEnv_parse, if_pos htext]

theorem approved_handle : (genPay zeroEnv).handle (.request (delivery .approved)) =
    processEnvelope zeroEnv Event.approved.envelope := by
  have hne : Event.approved.body ≠ zeroBody := by decide +kernel
  have hdigest : payloadDigest zeroEnv "change-me" Event.approved.body 1767225600 = Event.approved.digest := by
    rw [← digest_body .approved]
    unfold payloadDigest
    rw [signed_text, zeroEnv_hmac, if_neg fun h => hne (by simpa using h.2)]
  refine @route_processorEvents zeroEnv (delivery .approved) Event.approved.body.toUTF8 _ rfl ?_ ?_
  · refine verify_of_parse 1767225600 (by decide +kernel) ?_ (by decide +kernel) (by decide +kernel) ?_
    · show parseHeader _ = some (_, payloadDigest zeroEnv "change-me" Event.approved.body 1767225600)
      rw [hdigest]
      exact header_parsed .approved
    · show (payloadDigest zeroEnv "change-me" Event.approved.body 1767225600).toList.any _ = false
      rw [hdigest]
      exact digest_ascii .approved
  · have htext : String.fromUTF8? Event.approved.body.toUTF8 = some Event.approved.body :=
      dif_pos Event.approved.body.isValidUTF8
    rw [zeroEnv_parse, htext, if_neg fun h => hne (Option.some.inj h)]
    exact parse_body .approved

/-- The programs of the two deliveries, their signatures verified and their bodies parsed. -/
def zeroHandle : Job → Tx Response
  | .request r => processEnvelope zeroEnv (if r.clock = 1767225600 then zeroEnvelope else Event.approved.envelope)
  | job => handle zeroEnv job

theorem zeroHold_eq : zeroHold = Service.serveAll { bounded zeroEnv with handle := zeroHandle } zeroSeeded
    [(.request zeroCreated, oracle 1), (.request (delivery .approved), oracle 2)] := by
  refine Service.serveAll_handle (fun r hr => ?_) _
  rcases List.mem_pair.1 hr with rfl | rfl
  · exact (congrArg (processEnvelope zeroEnv) (if_pos rfl)).trans zeroCreated_handle.symm
  · exact (congrArg (processEnvelope zeroEnv) (if_neg (by decide +kernel))).trans approved_handle.symm

end Sample

/-- A hold of no cents is created and approved, and cannot be settled. -/
theorem hold_of_nothing : ¬ ∀ (env : Env) (d₀ : Db) (s : AppSystem) (b : Authorization) (o : Nat → Choice),
    env.foreignKeys = true → env.settings.Splits → Seeded env d₀ → Reachable (bounded env) d₀ s →
    b ∈ s.db.authorizations → b.status = .authorized → (∀ x ∈ s.db.settlements, x.authorizationId ≠ b.id) →
    FreshFrom o 0 s.db → Settles env o s.db none b.id := by
  intro h
  have hseeded : Seeded Sample.zeroEnv Sample.zeroSeeded := ⟨Sample.oracle 0, rfl⟩
  have hsettings : Sample.zeroEnv.settings.Splits := ⟨Sample.defaultSplit, make_bps Sample.defaultSplit⟩
  obtain ⟨us, -, hrun⟩ := serveAll_run (S := bounded Sample.zeroEnv) (G := fun _ _ => True) (fun _ _ => True.intro)
    [(.request Sample.zeroCreated, Sample.oracle 1), (.request (Sample.delivery .approved), Sample.oracle 2)]
    (d := Sample.zeroSeeded) (by simp : ∀ u ∈ ([] : List AppSession), u.held = [])
  replace hrun : Reachable (bounded Sample.zeroEnv) Sample.zeroSeeded ⟨Sample.zeroHold, [] ++ us⟩ := by
    unfold Sample.zeroHold
    exact hrun
  have hrow : ((Sample.zeroHold.authorizations.any fun b => b.status == .authorized && b.amountCents == 0) &&
      Sample.zeroHold.settlements.isEmpty) = true := by
    rw [Sample.zeroHold_eq]
    decide +kernel
  have hids : ∀ c ∈ idColumns, ∀ x ∈ Sample.zeroHold.column c, x ∈ (List.range 30 ++ [1005]).map (Sample.uuid 0) := by
    rw [Sample.zeroHold_eq]
    decide +kernel
  generalize Sample.zeroHold = d at hrun hrow hids
  obtain ⟨hb, hnone⟩ := Bool.and_eq_true_iff.1 hrow
  obtain ⟨b, hb, hst⟩ := List.any_eq_true.1 hb
  obtain ⟨hst, hzero⟩ := Bool.and_eq_true_iff.1 hst
  have hnone : d.settlements = [] := List.isEmpty_iff.1 hnone
  have hst : b.status = .authorized := by simpa using hst
  have hzero : b.amountCents = 0 := by simpa using hzero
  have hnew : ∀ x ∈ d.settlements, x.authorizationId ≠ b.id := by simp [hnone]
  have hfresh : FreshFrom (Sample.oracle 3) 0 d := Sample.freshFrom_oracle 0 _ (by decide) hids
  have hsettles := h Sample.zeroEnv Sample.zeroSeeded _ b _ rfl hsettings hseeded hrun hb hst hnew hfresh
  obtain ⟨s', hrun', rfl⟩ := bounded_run hrun
  have hpos := ((settles_iff Sample.zeroEnv (run_sound hseeded.sound hrun')
    (run_referential hseeded (fun _ _ _ => Or.inl rfl) hrun') (run_complete hseeded hrun') hb hst hnew
    (fun c hc => by cases hc) hfresh).1 hsettles).2.1
  omega

end GenPay
