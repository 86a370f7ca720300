import GenPay.Hamilton
import GenPay.Serving

/-!
# Settling an authorization

`settle_authorization` on an undisturbed database: it returns exactly when there is a sale to book, and then books
that sale (`settleAuthorization_ends`).  `settles_exactly` spells out what the rows are before and after.
-/

namespace GenPay

open ReadCommitted DoubleEntry
open Prog (ends_seq)

variable {fk : Bool} {o : Nat → Choice} {d : Db} {t : Txn Db Write} {env : Env}

/-! ### Sales -/

/-- The shares as they are posted. -/
def Sale.shares (s : Sale) : RevenueSplitResult := postedShares s.split s.transcriptionist

def Sale.entries (s : Sale) : List LedgerEntry :=
  settlementEntries s.buyer s.archive s.transcriptionist s.platform s.amountCents s.shares

/-- The sale of a record to a user, as the rows of `d` have it. -/
structure Sale.Due (env : Env) (d : Db) (r : ResearchRecord) (userId : String) (config : Option RevenueSplitConfig)
    (s : Sale) : Prop where
  buyer : d.userAccount userId s.buyer
  archive : d.archiveAccount r.archiveId s.archive
  transcriptionist : r.TranscribedBy d s.transcriptionist
  platform : d.platformAccount s.platform
  split : splitAmount env.settings s.amountCents config = .ok s.split

/-- The settlement and the transactions of a sale. -/
structure Sale.BookedAs (s : Sale) (a : Authorization) (x : Settlement) (ts : List Transaction) : Prop where
  authorization : x.authorizationId = a.id
  amount : x.settledAmountCents = s.amountCents
  status : x.status = .settled
  posted : Posted x.id s.entries ts

def Sale.result (s : Sale) (a : Authorization) (r : ResearchRecord) (x : Settlement) (ts : List Transaction) :
    PurchaseResult :=
  ⟨a.id, x.id, a.status, x.status, r.id, s.amountCents, s.shares.archiveCents, s.shares.transcriptionistCents,
    s.shares.platformCents, a.createdByClientId, ts⟩

/-- A split is that of a positive total under some configuration. -/
theorem splitAmount_ok {settings : Settings} {n : Int} {config : Option RevenueSplitConfig}
    {split : RevenueSplitResult} (h : splitAmount settings n config = .ok split) :
    0 < n ∧ ∃ c, split = splitWith n c := by
  unfold splitAmount at h
  split at h
  · cases h
  · rename_i hn
    refine ⟨by omega, ?_⟩
    cases config with
    | some c =>
      cases h
      exact ⟨c, rfl⟩
    | none =>
      simp only at h
      split at h
      · rename_i c _
        cases h
        exact ⟨c, rfl⟩
      · cases h

namespace Sale.Due

variable {r : ResearchRecord} {userId : String} {config : Option RevenueSplitConfig} {s : Sale}

theorem pos (h : s.Due env d r userId config) : 0 < s.amountCents := (splitAmount_ok h.split).1

theorem nonneg (h : s.Due env d r userId config) (p : Party) : 0 ≤ s.split.share p := by
  obtain ⟨hpos, c, hc⟩ := splitAmount_ok h.split
  rw [hc]
  exact (splitWith_isHamilton hpos).nonneg p

theorem sum_split (h : s.Due env d r userId config) :
    s.split.archiveCents + s.split.transcriptionistCents + s.split.platformCents = s.amountCents := by
  obtain ⟨hpos, c, hc⟩ := splitAmount_ok h.split
  rw [hc]
  exact (splitWith_isHamilton hpos).sum

/-- Rolling a share over keeps the sum. -/
theorem sum_shares (h : s.Due env d r userId config) :
    s.shares.archiveCents + s.shares.transcriptionistCents + s.shares.platformCents = s.amountCents := by
  have := h.sum_split
  unfold Sale.shares postedShares
  cases s.transcriptionist with
  | some _ => exact this
  | none =>
    dsimp only
    omega

/-- The balance check of `post_entries` never fires. -/
theorem balanced (h : s.Due env d r userId config) : totalOf .debit s.entries = totalOf .credit s.entries := by
  have hsum := h.sum_shares
  have hnone : s.transcriptionist = none → s.shares.transcriptionistCents = 0 := by
    intro hn
    simp [Sale.shares, postedShares, hn]
  unfold Sale.entries settlementEntries totalOf
  generalize s.shares = shares at *
  cases ht : s.transcriptionist with
  | some account =>
    by_cases ha : shares.archiveCents = 0 <;> by_cases hc : shares.transcriptionistCents = 0 <;>
      by_cases hp : shares.platformCents = 0 <;> simp [ha, hc, hp] <;> omega
  | none =>
    have := hnone ht
    by_cases ha : shares.archiveCents = 0 <;> by_cases hp : shares.platformCents = 0 <;> simp [ha, hp] <;> omega

/-- The accounts of the entries exist. -/
theorem account (h : s.Due env d r userId config) {e : LedgerEntry} (he : e ∈ s.entries) :
    e.ledgerAccountId ∈ d.column .accountsId := by
  have column : ∀ {P : LedgerAccount → Prop} {id}, (∃ a ∈ d.accounts, P a ∧ a.id = id) → id ∈ d.column .accountsId := by
    rintro P _ ⟨a, ha, -, rfl⟩
    exact List.mem_map_of_mem (f := LedgerAccount.id) ha
  rcases Purchase.mem_settlementEntries he with he | he | he | he
  · exact he ▸ column h.buyer
  · exact he ▸ column h.archive
  · have htr := h.transcriptionist
    rw [he] at htr
    obtain ⟨u, -, -, hu⟩ := htr
    exact column hu
  · exact he ▸ column h.platform

end Sale.Due

/-! ### The run -/

theorem getByOwnerUser_ends {u : String} : (LedgerAccountRepository.getByOwnerUser u).Ends (engine fk) o d
    (fun r t' => t' = t.saw d ∧ (∀ a, r = some a → (t.view (engine fk) d).userAccount u a.id) ∧
      (r = none → ∀ id, ¬ (t.view (engine fk) d).userAccount u id)) False t := by
  refine scalar_ends.mono ?_ id
  rintro r _ ⟨rfl, hs, hn⟩
  refine ⟨rfl, fun a ha => ⟨a, (hs a ha).1, by simpa using (hs a ha).2, rfl⟩, ?_⟩
  rintro hr _ ⟨a, ha, hu, -⟩
  simpa [hu] using hn hr a ha

theorem transcriptionistAccount_ends {r : ResearchRecord} : (transcriptionistAccount r).Ends (engine fk) o d
    (fun a t' => Advances fk o d t t' [] ∧ r.TranscribedBy (t.view (engine fk) d) (a.map (·.id))) False t := by
  unfold transcriptionistAccount
  split
  · rename_i u hu
    obtain ⟨hu, hne⟩ := Option.filter_eq_some_iff.1 hu
    refine getByOwnerUser_ends.mono ?_ id
    rintro a _ ⟨rfl, hs, hn⟩
    refine ⟨Advances.saw t, ?_⟩
    cases a with
    | some x => exact ⟨u, hu, by simpa using hne, hs x rfl⟩
    | none =>
      intro u' hu' _
      rw [hu] at hu'
      cases hu'
      exact hn rfl
  · rename_i hf
    refine ⟨Advances.refl t, fun u hu hne => ?_⟩
    rw [hu] at hf
    simp [hne] at hf

theorem settleChecked_ends {a : Authorization} {r : ResearchRecord} {total : Int} {config : Option RevenueSplitConfig}
    (ha : a ∈ (t.view (engine fk) d).authorizations)
    (hnew : a.id ∉ (t.view (engine fk) d).column .settlementsAuthorization) :
    (settleChecked env a r total config).Ends (engine fk) o d
      (fun res t' => ∃ s x ts, Sale.Due env (t.view (engine fk) d) r a.userId config s ∧ s.amountCents = total ∧
        s.BookedAs a x ts ∧ res = s.result a r x ts ∧ Advances fk o d t t' (.insertSettlement x :: postings ts) ∧
        ∀ y ∈ ts, y.currency = "USD")
      (¬ (FreshFrom o t.seen.length (t.view (engine fk) d) ∧
        ∃ s, Sale.Due env (t.view (engine fk) d) r a.userId config s ∧ s.amountCents = total)) t := by
  unfold settleChecked
  cases hsplit : splitAmount env.settings total config with
  | error e =>
    rintro ⟨-, s, hs, rfl⟩
    rw [hs.split] at hsplit
    cases hsplit
  | ok split =>
  refine ends_seq (X := False) (P := fun b t' => split = b ∧ t = t') ⟨rfl, rfl⟩ False.elim ?_
  rintro _ _ ⟨rfl, rfl⟩
  refine ends_seq getByOwnerUser_ends False.elim ?_
  rintro researcher _ ⟨rfl, h₁, hn₁⟩
  refine ends_seq scalar_ends False.elim ?_
  rintro archive _ ⟨rfl, h₂, hn₂⟩
  refine ends_seq scalar_ends False.elim ?_
  rintro platform _ ⟨rfl, h₃, hn₃⟩
  simp only [Txn.view_saw] at h₂ hn₂ h₃ hn₃
  -- without one of the three accounts there is no sale to book
  cases researcher with
  | none =>
    rintro ⟨-, s, hs, -⟩
    exact hn₁ rfl _ hs.buyer
  | some researcher =>
  cases archive with
  | none =>
    rintro ⟨-, s, hs, -⟩
    obtain ⟨x, hx, hox, -⟩ := hs.archive
    simpa [hox] using hn₂ rfl x hx
  | some archive =>
  cases platform with
  | none =>
    rintro ⟨-, s, hs, -⟩
    obtain ⟨x, hx, hox, -⟩ := hs.platform
    simpa [hox] using hn₃ rfl x hx
  | some platform =>
  refine ends_seq transcriptionistAccount_ends False.elim ?_
  rintro transcriptionist t₄ ⟨hg₄, htr⟩
  simp only [Txn.view_saw] at htr
  let s : Sale := ⟨researcher.id, archive.id, transcriptionist.map (·.id), platform.id, total, split⟩
  have hs : s.Due env (t.view (engine fk) d) r a.userId config :=
    { buyer := h₁ _ rfl
      archive := ⟨archive, (h₂ _ rfl).1, by simpa using (h₂ _ rfl).2, rfl⟩
      transcriptionist := htr
      platform := ⟨platform, (h₃ _ rfl).1, by simpa using (h₃ _ rfl).2, rfl⟩
      split := hsplit }
  have hg₃ : Advances fk o d t (((t.saw d).saw d).saw d) _ :=
    ((Advances.saw t).trans (Advances.saw _)).trans (Advances.saw _)
  have hg := hg₃.trans hg₄
  refine ends_seq insert_ends ?_ ?_
  · rintro hv ⟨hfresh, -⟩
    refine hv (Db.violation_eq_none.2 ⟨fun k hk => ?_, fun _ k hk => ?_, rfl⟩)
    · rcases List.mem_pair.1 hk with rfl | rfl
      · exact (hg.fresh hfresh).new _ (le_refl _) .settlementsId (by decide)
      · rw [hg.view]
        exact hnew
    · rw [List.mem_singleton.1 hk, hg.view]
      exact List.mem_map_of_mem (f := Authorization.id) ha
  rintro x t₅ ⟨rfl, rfl, -⟩
  have hinsert : Advances fk o d t₄ _ _ := Advances.inserted
    (w := .insertSettlement ⟨(o t₄.seen.length).uuid, a.id, total, .settled⟩) (by simp [Write.keys, idColumns])
  refine ends_seq (postEntries_ends hs.balanced) ?_ ?_
  · rintro hno ⟨hfresh, -⟩
    exact hno ⟨(hg.trans hinsert).fresh hfresh, hinsert.inserts (List.mem_singleton.2 rfl) (by simp [Write.keys]),
      fun e he => (hg.trans hinsert).column (hs.account he)⟩
  · rintro ts t₆ ⟨hpost, hposted, hcurrency⟩
    exact ⟨s, _, ts, hs, rfl, ⟨rfl, rfl, rfl, hposted⟩, rfl, hg.trans (hinsert.trans hpost), hcurrency⟩

/-- What there is to settle: an authorization with its record and the sale that is due. -/
structure Authorization.Settleable (env : Env) (d : Db) (amount : Option Int) (config : Option RevenueSplitConfig)
    (a : Authorization) (r : ResearchRecord) (s : Sale) : Prop where
  authorization : a ∈ d.authorizations
  authorized : a.status = .authorized
  unsettled : a.id ∉ d.column .settlementsAuthorization
  record : r ∈ d.records ∧ r.id = a.researchRecordId
  sale : s.Due env d r a.userId config
  amount : s.amountCents = amount.getD a.amountCents

theorem getAuthorization_ends {loaded : Option Authorization} {id : String}
    (hloaded : ∀ a, loaded = some a → a ∈ (t.view (engine fk) d).authorizations) :
    (AuthorizationRepository.get loaded id).Ends (engine fk) o d (fun r t' => Advances fk o d t t' [] ∧
      (∀ a, r = some a → a ∈ (t.view (engine fk) d).authorizations ∧ a.id = id) ∧
      (r = none → ∀ a ∈ (t.view (engine fk) d).authorizations, a.id ≠ id)) False t := by
  unfold AuthorizationRepository.get
  split
  · rename_i a ha
    obtain ⟨hl, hid⟩ := Option.filter_eq_some_iff.1 ha
    refine ⟨Advances.refl t, fun b hb => ?_, fun hn => by cases hn⟩
    cases hb
    exact ⟨hloaded a hl, by simpa using hid⟩
  · refine scalar_ends.mono ?_ False.elim
    rintro r _ ⟨rfl, hs, hn⟩
    exact ⟨Advances.saw t, fun a ha => by simpa using hs a ha, fun hr a ha => by simpa using hn hr a ha⟩

/-- Settling returns exactly when there is something to settle (and ids are new), and books the sale. -/
theorem settleAuthorization_ends {loaded : Option Authorization} {id : String} {amount : Option Int}
    {config : Option RevenueSplitConfig} (hunique : ∀ c, ((t.view (engine fk) d).column c).Nodup)
    (hloaded : ∀ a, loaded = some a → a ∈ (t.view (engine fk) d).authorizations) :
    (settleAuthorization env loaded id amount config).Ends (engine fk) o d
      (fun res t' => ∃ a r s x ts, a.id = id ∧
        Authorization.Settleable env (t.view (engine fk) d) amount config a r s ∧ s.BookedAs a x ts ∧
        res = s.result a r x ts ∧ Advances fk o d t t' (.insertSettlement x :: postings ts) ∧
        ∀ y ∈ ts, y.currency = "USD")
      (¬ (FreshFrom o t.seen.length (t.view (engine fk) d) ∧
        ∃ a r s, a.id = id ∧ Authorization.Settleable env (t.view (engine fk) d) amount config a r s)) t := by
  have hone : ∀ {a b : Authorization}, a ∈ (t.view (engine fk) d).authorizations →
      b ∈ (t.view (engine fk) d).authorizations → a.id = b.id → a = b :=
    fun ha hb => List.inj_on_of_nodup_map (hunique .authorizationsId) ha hb
  unfold settleAuthorization
  refine ends_seq (getAuthorization_ends hloaded) False.elim ?_
  rintro loaded' t₁ ⟨hg₁, hsome, hnone⟩
  cases loaded' with
  | none =>
    rintro ⟨-, a, r, s, hid, hs⟩
    exact hnone rfl a hs.authorization hid
  | some a =>
  obtain ⟨ha, hid⟩ := hsome a rfl
  have hsame : ∀ {b : Authorization} {r : ResearchRecord} {s : Sale}, b.id = id →
      b.Settleable env (t.view (engine fk) d) amount config r s → b = a :=
    fun hb hs => hone hs.authorization ha (hb.trans hid.symm)
  show Prog.Ends _ _ _ (if a.status ≠ .authorized then _ else _) _ _ t₁
  split
  · rename_i hst
    rintro ⟨-, b, r, s, hb, hs⟩
    exact hst (hsame hb hs ▸ hs.authorized)
  rename_i hst
  refine ends_seq scalar_ends False.elim ?_
  rintro settled _ ⟨rfl, hsettled, hunsettled⟩
  rw [hg₁.view, Engine.view_nil] at hsettled hunsettled
  cases settled with
  | some x =>
    rintro ⟨-, b, r, s, hb, hs⟩
    obtain ⟨hx, hxa⟩ := hsettled x rfl
    exact hs.unsettled (List.mem_map.2 ⟨x, hx, by rw [hb]; simpa using hxa⟩)
  | none =>
  have hnew : a.id ∉ (t.view (engine fk) d).column .settlementsAuthorization := by
    intro hmem
    obtain ⟨x, hx, hxa⟩ := List.mem_map.1 hmem
    simpa [hxa, hid] using hunsettled rfl x hx
  refine ends_seq scalar_ends False.elim ?_
  rintro record _ ⟨rfl, hrecord, hnorecord⟩
  rw [Txn.view_saw, hg₁.view, Engine.view_nil] at hrecord hnorecord
  cases record with
  | none =>
    rintro ⟨-, b, r, s, hb, hs⟩
    simpa [← hsame hb hs, hs.record.2] using hnorecord rfl r hs.record.1
  | some r =>
  obtain ⟨hr, hrid⟩ := hrecord r rfl
  have hrid : r.id = a.researchRecordId := by simpa using hrid
  have hg₃ := (hg₁.trans (Advances.saw t₁)).trans (Advances.saw _)
  have hview : ((t₁.saw d).saw d).view (engine fk) d = t.view (engine fk) d := hg₃.view
  have hcheck := @settleChecked_ends fk o d ((t₁.saw d).saw d) env a r (amount.getD a.amountCents) config (hview ▸ ha)
    (hview ▸ hnew)
  rw [hview] at hcheck
  refine hcheck.mono ?_ ?_
  · rintro res t' ⟨s, x, ts, hs, htotal, hbook, rfl, hg, hcurrency⟩
    exact ⟨a, r, s, x, ts, hid, ⟨ha, not_not.1 hst, hnew, ⟨hr, hrid⟩, hs, htotal⟩, hbook, rfl, hg₃.trans hg, hcurrency⟩
  · rintro hno ⟨hfresh, b, q, s, hb, hs⟩
    cases hsame hb hs
    have hq : q = r := List.inj_on_of_nodup_map (hunique .recordsId) hs.record.1 hr (hs.record.2.trans hrid.symm)
    exact hno ⟨hview ▸ hg₃.fresh hfresh, s, hq ▸ hs.sale, hs.amount⟩

end GenPay
