import GenPay.Actions
import Mathlib.Algebra.BigOperators.Group.List.Basic

/-!
# Specifications of the services

One weakest-precondition specification a function: what it has written and read when it returns, whatever other
sessions commit between its statements.  `handle_spec` puts them together: every job that returns is `Committed`.
-/

namespace GenPay

open ReadCommitted
open Prog (onOk wp_seq wp_imp wp_bind_onOk wp_tryCatch)

variable {fk : Bool} {o : Nat → Choice} {t : Txn Db Write}

/-! ### Statements -/

theorem draw_spec : draw.wp (engine fk) o (onOk fun _ t' => ∃ d, t' = t.saw d) t := fun d => ⟨d, rfl⟩

theorem exec_spec {w : Write} : (Prog.exec w : Tx Unit).wp (engine fk) o (onOk fun _ t' => ∃ d, t' = t.wrote d w) t :=
  Prog.wp_exec fun d _ => ⟨d, rfl⟩

theorem scalars_spec {β : Type} {table : Db → List β} {p : β → Bool} :
    (scalars table p).wp (engine fk) o (onOk fun l t' => ∃ d, t' = t.saw d ∧
      l.Perm ((table ((engine fk).view d t.writes)).filter p)) t :=
  fun d => ⟨d, rfl, Choice.arrange_perm _ _⟩

theorem scalar_spec {β : Type} {table : Db → List β} {p : β → Bool} :
    (scalar table p).wp (engine fk) o (onOk fun r t' => ∃ d, t' = t.saw d ∧
      (∀ x, r = some x → x ∈ table ((engine fk).view d t.writes) ∧ p x = true) ∧
      (r = none → ∀ x ∈ table ((engine fk).view d t.writes), p x = false)) t := by
  intro d
  refine ⟨d, rfl, fun x hx => ?_, fun hn x hx => ?_⟩
  · have hmem := Choice.mem_arrange.1 (List.mem_of_mem_head? hx)
    exact List.mem_filter.1 hmem
  · by_contra hp
    rw [List.head?_eq_none_iff] at hn
    have hmem : x ∈ Choice.arrange (o t.seen.length) ((table ((engine fk).view d t.writes)).filter p) :=
      Choice.mem_arrange.2 (List.mem_filter.2 ⟨hx, by simpa using hp⟩)
    rw [hn] at hmem
    cases hmem

theorem page_spec {β : Type} {table : Db → List β} {createdAt : β → Nat} {p : β → Bool} {limit offset : Nat} :
    (page table createdAt p limit offset).wp (engine fk) o (onOk fun _ t' => t.Grew t' []) t :=
  fun d => Txn.Grew.saw t d

theorem ofExcept_spec {β : Type} {r : Except Exc β} :
    (ofExcept r).wp (engine fk) o (onOk fun a t' => t' = t ∧ r = .ok a) t := by
  cases r with
  | ok a => exact ⟨rfl, rfl⟩
  | error e => exact True.intro

theorem modelValidate_spec {β : Type} {r : Except String β} :
    (modelValidate r).wp (engine fk) o (onOk fun a t' => t' = t ∧ r = .ok a) t := by
  cases r with
  | ok a => exact ⟨rfl, rfl⟩
  | error e => exact True.intro

theorem exceptValueError_spec {β : Type} {p : Tx β} {h : String → Exc} {Q : β → Txn Db Write → Prop}
    (hp : p.wp (engine fk) o (onOk Q) t) : (exceptValueError p h).wp (engine fk) o (onOk Q) t := by
  refine wp_tryCatch hp fun e t' => ?_
  cases e.asValueError with
  | some msg => exact True.intro
  | none => exact True.intro

/-! ### Creators -/

/-- The shape of all creators: draw an id and a time, insert the row, return it. -/
theorem insert_spec {β : Type} {row : Choice → β} {w : β → Write} :
    (do let c ← draw; Prog.exec (w (row c)); return row c : Tx β).wp (engine fk) o
      (onOk fun a t' => t.Grew t' [w a] ∧ ∃ c, a = row c) t := by
  refine wp_seq draw_spec ?_
  rintro c _ ⟨d, rfl⟩
  refine wp_seq exec_spec ?_
  rintro _ _ ⟨d', rfl⟩
  exact ⟨(Txn.Grew.saw t d).trans (Txn.Grew.wrote _ d' _), c, rfl⟩

theorem UserRepository.create_spec {data : UserCreate} :
    (UserRepository.create data).wp (engine fk) o (onOk fun u t' => t.Grew t' [.insertUser u]) t :=
  wp_imp insert_spec fun _ _ h => h.1

theorem HistoricalArchiveRepository.create_spec {data : HistoricalArchiveCreate} :
    (HistoricalArchiveRepository.create data).wp (engine fk) o (onOk fun a t' => t.Grew t' [.insertArchive a]) t :=
  wp_imp insert_spec fun _ _ h => h.1

theorem ResearchRecordRepository.create_spec {data : ResearchRecordCreate} :
    (ResearchRecordRepository.create data).wp (engine fk) o (onOk fun r t' => t.Grew t' [.insertRecord r]) t :=
  wp_imp insert_spec fun _ _ h => h.1

theorem ApiClientRepository.create_spec {env : Env} {name key : String} :
    (ApiClientRepository.create env name key).wp (engine fk) o (onOk fun c t' => t.Grew t' [.insertClient c] ∧
      c.name = name ∧ c.apiKeyHash = env.sha256 key ∧ c.isActive = true) t := by
  refine wp_imp insert_spec ?_
  rintro _ t' ⟨hg, c, rfl⟩
  exact ⟨hg, rfl, rfl, rfl⟩

theorem LedgerAccountRepository.createAccount_spec {type : LedgerAccountOwnerType} {u a : Option String} :
    (LedgerAccountRepository.createAccount type u a).wp (engine fk) o
      (onOk fun x t' => t.Grew t' [.insertAccount x] ∧ x.IsNew type u a) t := by
  refine wp_imp insert_spec ?_
  rintro _ t' ⟨hg, c, rfl⟩
  exact ⟨hg, rfl, rfl, rfl, rfl⟩

theorem AuthorizationRepository.create_spec {r u : String} {amount : Int} {client : Option String} :
    (AuthorizationRepository.create r u amount client).wp (engine fk) o
      (onOk fun a t' => t.Grew t' [.insertAuthorization a]) t := by
  refine wp_seq draw_spec ?_
  rintro c _ ⟨d, rfl⟩
  refine wp_imp insert_spec ?_
  rintro a t' ⟨hg, -⟩
  exact (Txn.Grew.saw t d).trans hg

theorem AuthorizationRepository.createPending_spec {r u reference : String} {amount : Int} {client : Option String} :
    (AuthorizationRepository.createPending r u amount reference client).wp (engine fk) o
      (onOk fun a t' => t.Grew t' [.insertAuthorization a] ∧ a.status = .pending ∧
        a.externalReference = reference) t := by
  refine wp_imp insert_spec ?_
  rintro _ t' ⟨hg, c, rfl⟩
  exact ⟨hg, rfl, rfl⟩

theorem SettlementRepository.create_spec {id : String} {amount : Int} :
    (SettlementRepository.create id amount).wp (engine fk) o (onOk fun s t' => t.Grew t' [.insertSettlement s] ∧
      s.authorizationId = id ∧ s.settledAmountCents = amount ∧ s.status = .settled) t := by
  refine wp_imp insert_spec ?_
  rintro _ t' ⟨hg, c, rfl⟩
  exact ⟨hg, rfl, rfl, rfl⟩

theorem TransactionRepository.create_spec {e : LedgerEntry} {sid : String} {status : TransactionStatus} :
    (TransactionRepository.create e.ledgerAccountId sid e.type e.amountCents status).wp (engine fk) o
      (onOk fun x t' => t.Grew t' [.insertTransaction x] ∧ x.entry = e ∧ x.settlementId = sid ∧
        x.status = status) t := by
  refine wp_imp insert_spec ?_
  rintro _ t' ⟨hg, c, rfl⟩
  exact ⟨hg, rfl, rfl, rfl⟩

/-! ### Posting -/

theorem adjustBalance_spec {id : String} {delta : Int} :
    (LedgerAccountRepository.adjustBalance id delta).wp (engine fk) o
      (onOk fun _ t' => t.Grew t' [.addBalance id delta]) t := by
  unfold LedgerAccountRepository.adjustBalance
  refine wp_seq exec_spec ?_
  rintro _ _ ⟨d, rfl⟩
  refine wp_seq scalar_spec ?_
  rintro r _ ⟨d', rfl, -, -⟩
  cases r with
  | some account => exact (Txn.Grew.wrote t d _).trans (Txn.Grew.saw _ d')
  | none => exact True.intro

theorem postEntry_spec {sid : String} {e : LedgerEntry} :
    (postEntry sid e).wp (engine fk) o (onOk fun x t' =>
      t.Grew t' [.insertTransaction x, .addBalance x.ledgerAccountId x.delta] ∧
        x.entry = e ∧ x.settlementId = sid ∧ x.status = .posted) t := by
  unfold postEntry
  refine wp_seq TransactionRepository.create_spec ?_
  rintro x t₁ ⟨hg, rfl, hs, hp⟩
  refine wp_seq adjustBalance_spec ?_
  intro _ t₂ hg'
  exact ⟨hg.trans hg', rfl, hs, hp⟩

theorem postEach_spec {sid : String} (es : List LedgerEntry) :
    ∀ t, (postEach sid es).wp (engine fk) o (onOk fun ts t' => t.Grew t' (postings ts) ∧
      ts.map Transaction.entry = es ∧ (∀ x ∈ ts, x.settlementId = sid) ∧ ∀ x ∈ ts, x.status = .posted) t := by
  induction es with
  | nil => exact fun t => ⟨Txn.Grew.refl t, rfl, by simp, by simp⟩
  | cons e es ih =>
    intro t
    unfold postEach
    refine wp_seq postEntry_spec ?_
    rintro x t₁ ⟨hg, rfl, hs, hp⟩
    refine wp_seq (ih t₁) ?_
    rintro ts t₂ ⟨hg', rfl, hs', hp'⟩
    refine ⟨hg.trans hg', rfl, ?_, ?_⟩
    · simpa using ⟨hs, hs'⟩
    · simpa using ⟨hp, hp'⟩

theorem postEntries_spec {sid : String} {es : List LedgerEntry} :
    (postEntries sid es).wp (engine fk) o
      (onOk fun ts t' => t.Grew t' (postings ts) ∧ Posted sid es ts) t := by
  unfold postEntries
  split
  · exact True.intro
  · rename_i hb
    refine wp_imp (postEach_spec es t) ?_
    rintro ts t' ⟨hg, hr, hs, hp⟩
    exact ⟨hg, by simpa using hb, hr, hs, hp⟩

/-! ### Accounts by owner, whatever the balances -/

section Accounts

variable {d : Db} {ws : List Write}

private theorem exists_account_iff {p : LedgerAccount → Prop} (hp : ∀ a, p a ↔ p a.core)
    (h : ∀ w ∈ ws, w.isEntity = false) :
    (∃ a ∈ ((engine fk).view d ws).accounts, p a) ↔ ∃ a ∈ d.accounts, p a := by
  have core : ∀ l : List LedgerAccount, (∃ a ∈ l, p a) ↔ ∃ a ∈ l.map LedgerAccount.core, p a := by
    intro l
    simp only [List.mem_map, exists_exists_and_eq_and]
    exact exists_congr fun a => and_congr_right fun _ => hp a
  rw [core, view_accounts_core h, ← core]

theorem userAccount_view (h : ∀ w ∈ ws, w.isEntity = false) {u id : String} :
    ((engine fk).view d ws).userAccount u id ↔ d.userAccount u id := exists_account_iff (fun _ => Iff.rfl) h

theorem archiveAccount_view (h : ∀ w ∈ ws, w.isEntity = false) {a id : String} :
    ((engine fk).view d ws).archiveAccount a id ↔ d.archiveAccount a id := exists_account_iff (fun _ => Iff.rfl) h

theorem platformAccount_view (h : ∀ w ∈ ws, w.isEntity = false) {id : String} :
    ((engine fk).view d ws).platformAccount id ↔ d.platformAccount id := exists_account_iff (fun _ => Iff.rfl) h

end Accounts

theorem getByOwnerUser_spec {u : String} (h : ∀ w ∈ t.writes, w.isEntity = false) :
    (LedgerAccountRepository.getByOwnerUser u).wp (engine fk) o (onOk fun r t' => ∃ d, t' = t.saw d ∧
      (∀ a, r = some a → d.userAccount u a.id) ∧ (r = none → ∀ id, ¬ d.userAccount u id)) t := by
  refine wp_imp scalar_spec ?_
  rintro r _ ⟨d, rfl, hs, hn⟩
  refine ⟨d, rfl, fun a ha => ?_, fun hr id hid => ?_⟩
  · obtain ⟨hmem, hp⟩ := hs a ha
    exact (userAccount_view h).1 ⟨a, hmem, by simpa using hp, rfl⟩
  · obtain ⟨a, hmem, hu, -⟩ : ((engine fk).view d t.writes).userAccount u id := (userAccount_view h).2 hid
    simpa [hu] using hn hr a hmem

theorem getByOwnerArchive_spec {x : String} (h : ∀ w ∈ t.writes, w.isEntity = false) :
    (LedgerAccountRepository.getByOwnerArchive x).wp (engine fk) o (onOk fun r t' => ∃ d, t' = t.saw d ∧
      ∀ a, r = some a → d.archiveAccount x a.id) t := by
  refine wp_imp scalar_spec ?_
  rintro r _ ⟨d, rfl, hs, -⟩
  refine ⟨d, rfl, fun a ha => ?_⟩
  obtain ⟨hmem, hp⟩ := hs a ha
  exact (archiveAccount_view h).1 ⟨a, hmem, by simpa using hp, rfl⟩

theorem getPlatformAccount_spec (h : ∀ w ∈ t.writes, w.isEntity = false) :
    LedgerAccountRepository.getPlatformAccount.wp (engine fk) o (onOk fun r t' => ∃ d, t' = t.saw d ∧
      ∀ a, r = some a → d.platformAccount a.id) t := by
  refine wp_imp scalar_spec ?_
  rintro r _ ⟨d, rfl, hs, -⟩
  refine ⟨d, rfl, fun a ha => ?_⟩
  obtain ⟨hmem, hp⟩ := hs a ha
  exact (platformAccount_view h).1 ⟨a, hmem, by simpa using hp, rfl⟩

theorem transcriptionistAccount_spec {r : ResearchRecord} (h : ∀ w ∈ t.writes, w.isEntity = false) :
    (transcriptionistAccount r).wp (engine fk) o (onOk fun a t' => t.Grew t' [] ∧
      (∀ x, a = some x → ∃ u, r.transcriptionistUserId = some u ∧ u ≠ "" ∧ ∃ d ∈ t'.seen, d.userAccount u x.id) ∧
      (a = none → ∀ u, r.transcriptionistUserId = some u → u ≠ "" →
        ∃ d ∈ t'.seen, ∀ id, ¬ d.userAccount u id)) t := by
  unfold transcriptionistAccount
  split
  · rename_i u hu
    obtain ⟨hu, hne⟩ := Option.filter_eq_some_iff.1 hu
    refine wp_imp (getByOwnerUser_spec h) ?_
    rintro a _ ⟨d, rfl, hs, hn⟩
    refine ⟨Txn.Grew.saw t d, fun x hx => ⟨u, hu, by simpa using hne, d, by simp, hs x hx⟩, fun ha u' hu' _ => ?_⟩
    rw [hu] at hu'
    cases hu'
    exact ⟨d, by simp, hn ha⟩
  · rename_i hf
    refine ⟨Txn.Grew.refl t, fun x hx => by simp at hx, fun _ u hu hne => ?_⟩
    rw [hu] at hf
    simp [hne] at hf

/-! ### Settling -/

theorem settleChecked_spec {env : Env} {a : Authorization} {r : ResearchRecord}
    (h : ∀ w ∈ t.writes, w.isEntity = false) (ha : a.status = .authorized)
    (hr : ∃ d ∈ t.seen, r ∈ d.records ∧ r.id = a.researchRecordId) :
    (settleChecked env a r a.amountCents none).wp (engine fk) o (onOk fun res t' => ∃ p : Purchase,
      p.authorization = a ∧ res = p.result ∧ t.Grew t' p.writes ∧ p.Grounded env t'.seen) t := by
  unfold settleChecked
  refine wp_seq ofExcept_spec ?_
  rintro split t ⟨rfl, hsplit⟩
  refine wp_seq (getByOwnerUser_spec h) ?_
  rintro researcher _ ⟨d₁, rfl, h₁, -⟩
  refine wp_seq (getByOwnerArchive_spec h) ?_
  rintro archive _ ⟨d₂, rfl, h₂⟩
  refine wp_seq (getPlatformAccount_spec h) ?_
  rintro platform _ ⟨d₃, rfl, h₃⟩
  -- without one of the three accounts the program raises
  cases researcher with
  | none => exact True.intro
  | some researcher =>
  cases archive with
  | none => exact True.intro
  | some archive =>
  cases platform with
  | none => exact True.intro
  | some platform =>
  refine wp_seq (transcriptionistAccount_spec h) ?_
  rintro transcriptionist t₄ ⟨hg₄, h₄, hn₄⟩
  refine wp_seq SettlementRepository.create_spec ?_
  rintro s t₅ ⟨hg₅, hs⟩
  refine wp_seq postEntries_spec ?_
  rintro ts t₆ ⟨hg₆, hposted⟩
  have hg₃ := ((Txn.Grew.saw t d₁).trans (Txn.Grew.saw _ d₂)).trans (Txn.Grew.saw _ d₃)
  have hfrom₄ := hg₅.trans hg₆
  have hfrom₃ := hg₄.trans hfrom₄
  refine ⟨⟨a, r, researcher.id, archive.id, transcriptionist.map (·.id), platform.id, split, s, ts⟩, rfl, ?_,
    hg₃.trans hfrom₃, ?_⟩
  · simp only [Purchase.result, Purchase.shares]
  · exact
    { authorized := ha
      record := (hg₃.trans hfrom₃).exists_mem hr
      split := hsplit
      researcher := hfrom₃.exists_mem ⟨d₁, by simp, h₁ _ rfl⟩
      archive := hfrom₃.exists_mem ⟨d₂, by simp, h₂ _ rfl⟩
      platform := hfrom₃.exists_mem ⟨d₃, by simp, h₃ _ rfl⟩
      transcriptionist := by
        intro id hid
        obtain ⟨x, rfl, rfl⟩ := Option.map_eq_some_iff.1 hid
        obtain ⟨u, hu, hne, hd⟩ := h₄ x rfl
        exact ⟨u, hu, hne, hfrom₄.exists_mem hd⟩
      noTranscriptionist := by
        intro hnone u hu hne
        exact hfrom₄.exists_mem (hn₄ (Option.map_eq_none_iff.1 hnone) u hu hne)
      settlement := hs
      posted := hposted }

theorem settleAuthorization_spec {env : Env} {a : Authorization} (h : ∀ w ∈ t.writes, w.isEntity = false) :
    (settleAuthorization env (some a) a.id none none).wp (engine fk) o (onOk fun res t' => ∃ p : Purchase,
      p.authorization = a ∧ res = p.result ∧ t.Grew t' p.writes ∧ p.Grounded env t'.seen) t := by
  have hget : AuthorizationRepository.get (some a) a.id = pure (some a) := by
    simp [AuthorizationRepository.get, Option.filter]
  unfold settleAuthorization
  rw [hget]
  refine wp_bind_onOk ?_
  show Prog.wp _ _ (if a.status ≠ .authorized then _ else _) _ t
  split
  · exact True.intro
  · rename_i ha
    refine wp_seq scalar_spec ?_
    rintro st _ ⟨d₁, rfl, -, -⟩
    cases st with
    | some st => exact True.intro
    | none =>
      refine wp_seq scalar_spec ?_
      rintro r _ ⟨d₂, rfl, hr, -⟩
      cases r with
      | none => exact True.intro
      | some r =>
        obtain ⟨hmem, hid⟩ := hr r rfl
        -- the transaction inserts no record, so the one it reads is committed
        rw [Txn.saw_writes, view_records h] at hmem
        refine wp_imp (settleChecked_spec (by simpa using h) (by simpa using ha)
          ⟨d₂, by simp, hmem, by simpa using hid⟩) ?_
        rintro res t' ⟨p, rfl, rfl, hg, hp⟩
        exact ⟨p, rfl, rfl, ((Txn.Grew.saw t d₁).trans (Txn.Grew.saw _ d₂)).trans hg, hp⟩

theorem purchaseRecord_spec {env : Env} {recordId userId : String} {amount : Option Int} {client : Option String}
    (h : ∀ w ∈ t.writes, w.isEntity = false) :
    (purchaseRecord env recordId userId amount client).wp (engine fk) o (onOk fun res t' => ∃ p : Purchase,
      res = p.result ∧ t.Grew t' (.insertAuthorization p.authorization :: p.writes) ∧ p.Grounded env t'.seen) t := by
  unfold purchaseRecord
  refine wp_seq scalar_spec ?_
  rintro r _ ⟨d₁, rfl, -, -⟩
  cases r with
  | none => exact True.intro
  | some r =>
    refine wp_seq scalar_spec ?_
    rintro u _ ⟨d₂, rfl, -, -⟩
    cases u with
    | none => exact True.intro
    | some u =>
      refine wp_seq AuthorizationRepository.create_spec ?_
      intro a t₃ hg₃
      have h₃ : ∀ w ∈ t₃.writes, w.isEntity = false := by
        intro w hw
        rw [hg₃.writes] at hw
        rcases List.mem_append.1 hw with hw | hw
        · exact h w hw
        · rw [List.mem_singleton.1 hw]; rfl
      refine wp_imp (settleAuthorization_spec h₃) ?_
      rintro res t₄ ⟨p, rfl, rfl, hg₄, hgr⟩
      exact ⟨p, rfl, ((Txn.Grew.saw t d₁).trans (Txn.Grew.saw _ d₂)).trans (hg₃.trans hg₄), hgr⟩

/-! ### Refunds -/

theorem markReversed_spec {x : Transaction} :
    (TransactionRepository.markReversed x).wp (engine fk) o (onOk fun _ t' => t.Grew t' (marks [x])) t := by
  unfold TransactionRepository.markReversed
  split
  · rename_i hx
    have hm : marks [x] = [.setTransactionStatus x.id .reversed] := by simp [marks, hx]
    rw [hm]
    refine wp_seq exec_spec ?_
    rintro _ _ ⟨d, rfl⟩
    exact Txn.Grew.wrote t d _
  · rename_i hx
    have hm : marks [x] = [] := by simp [marks, hx]
    rw [hm]
    exact Txn.Grew.refl t

theorem marks_cons (x : Transaction) (xs : List Transaction) : marks (x :: xs) = marks [x] ++ marks xs := by
  unfold marks
  rw [← List.filterMap_append]
  rfl

theorem markEachReversed_spec (xs : List Transaction) :
    ∀ t, (markEachReversed xs).wp (engine fk) o (onOk fun _ t' => t.Grew t' (marks xs)) t := by
  induction xs with
  | nil => exact fun t => Txn.Grew.refl t
  | cons x xs ih =>
    intro t
    unfold markEachReversed
    refine wp_seq markReversed_spec ?_
    intro _ t₁ hg
    refine wp_imp (ih t₁) ?_
    intro _ t₂ hg'
    rw [marks_cons]
    exact hg.trans hg'

/-- A refund has read the settlement as settled before it lists its transactions. -/
theorem refundSettlement_spec {id : String} {reason : Option String} (h : t.writes = []) :
    (refundSettlement id reason).wp (engine fk) o (onOk fun _ t' => t.seen <+: t'.seen ∧
      ∃ s originals reversals, s.authorizationId = id ∧ t'.writes = (Action.refund s originals reversals).writes ∧
      ∀ env, (Action.refund s originals reversals).Grounded env t'.seen) t := by
  unfold refundSettlement
  refine wp_seq (P := fun _ t' => ∃ d, t' = t.saw d) ?_ ?_
  · exact wp_imp scalar_spec fun _ _ ⟨d, hd, _⟩ => ⟨d, hd⟩
  rintro a _ ⟨d₁, rfl⟩
  cases a with
  | none => exact True.intro
  | some a =>
    refine wp_seq scalar_spec ?_
    rintro s _ ⟨d₂, rfl, hs, -⟩
    cases s with
    | none => exact True.intro
    | some s =>
      obtain ⟨hmem, hid⟩ := hs s rfl
      -- nothing is written before the postings: settlement and transactions are read as committed
      rw [Txn.saw_writes, h, Engine.view_nil] at hmem
      show Prog.wp _ _ (if s.status ≠ .settled then _ else _) _ _
      split
      · exact True.intro
      · rename_i hst
        refine wp_seq scalars_spec ?_
        rintro originals _ ⟨d₃, rfl, hperm⟩
        rw [Txn.saw_writes, Txn.saw_writes, h, Engine.view_nil] at hperm
        refine wp_seq postEntries_spec ?_
        rintro reversals t₄ ⟨hg₄, hposted⟩
        refine wp_seq (markEachReversed_spec originals _) ?_
        rintro _ t₅ hg₅
        unfold SettlementRepository.markReversed
        refine wp_bind_onOk ?_
        refine wp_seq exec_spec ?_
        rintro _ _ ⟨d₆, rfl⟩
        have hg := (hg₄.trans hg₅).trans (Txn.Grew.wrote t₅ d₆ (.setSettlementStatus s.id .reversed))
        have hreads := ((Txn.Grew.saw t d₁).trans (Txn.Grew.saw _ d₂)).trans (Txn.Grew.saw _ d₃)
        refine ⟨(hreads.trans hg).seen, s, originals, reversals, by simpa using hid, ?_,
          fun env => ⟨⟨d₂, d₃, ?_, hmem, hperm⟩, ?_, hposted⟩⟩
        · rw [hg.writes]
          simp [h, Action.writes]
        · have hsub : [d₂, d₃].Sublist (((t.saw d₁).saw d₂).saw d₃).seen := by simp
          exact hsub.trans hg.seen.sublist
        · simpa using hst

/-! ### Claims of unique keys -/

theorem tryClaim_spec {w : Write} {t : Txn Db Write} :
    (Prog.write w fun r => match r with
      | none => Prog.ret true
      | some .integrityError => Prog.rollback (Prog.ret false)
      | some e => Prog.raise e : Tx Bool).wp (engine fk) o (onOk fun b t' =>
        (b = true ∧ ∃ d, t' = t.wrote d w) ∨
        (b = false ∧ ∃ d d', t' = (t.saw d).dropped d' ∧
          Db.violation fk ((engine fk).view d t.writes) w = some .integrityError)) t := by
  intro d
  cases hv : (engine fk).violation ((engine fk).view d t.writes) w with
  | none => exact Or.inl ⟨rfl, d, rfl⟩
  | some e =>
    cases e with
    | integrityError => exact fun d' => Or.inr ⟨rfl, d, d', rfl, hv⟩
    | _ => exact True.intro

theorem storeResult_spec {key : String} {result : PurchaseResult} :
    (IdempotencyKeyRepository.storeResult key result).wp (engine fk) o
      (onOk fun _ t' => t.Grew t' [.setResponseBody key result]) t := by
  unfold IdempotencyKeyRepository.storeResult
  refine wp_seq scalar_spec ?_
  rintro r _ ⟨d, rfl, hr, -⟩
  cases r with
  | none => exact True.intro
  | some r =>
    refine wp_imp exec_spec ?_
    rintro _ _ ⟨d', rfl⟩
    have hk : r.key = key := by simpa using (hr r rfl).2
    rw [hk]
    exact (Txn.Grew.saw t d).trans (Txn.Grew.wrote _ d' _)

theorem idempotencyKeyGet_spec {key : String} :
    (IdempotencyKeyRepository.get key).wp (engine fk) o (onOk fun r t' => ∃ d, t' = t.saw d ∧
      ∀ result, r = some result → ⟨key, some result⟩ ∈ ((engine fk).view d t.writes).idempotencyKeys) t := by
  unfold IdempotencyKeyRepository.get
  refine wp_seq scalar_spec ?_
  rintro r _ ⟨d, rfl, hr, -⟩
  cases r with
  | none => exact ⟨d, rfl, fun result h => by cases h⟩
  | some r =>
    refine ⟨d, rfl, fun result hres => ?_⟩
    obtain ⟨hmem, hk⟩ := hr r rfl
    have he : r = ⟨key, some result⟩ := by
      cases r
      simp only [beq_iff_eq] at hk hres
      rw [hk, hres]
    rw [← he]
    exact hmem

/-! ### Purchases -/

theorem purchase_spec {env : Env} {data : PurchaseRequest} {key : String} {client : ApiClient}
    (h : t.writes = []) :
    (purchase env data key client).wp (engine fk) o (onOk fun result t' => t.seen <+: t'.seen ∧ ∃ act : Action,
      t'.writes = act.writes ∧ act.Grounded env t'.seen ∧ AnswersPurchase key result act t'.seen) t := by
  unfold purchase
  refine wp_seq idempotencyKeyGet_spec ?_
  rintro cached _ ⟨d₁, rfl, hc⟩
  cases cached with
  | some cached =>
    have hmem := hc cached rfl
    rw [h, Engine.view_nil] at hmem
    exact ⟨by simp, .quiet, h, True.intro, Or.inl ⟨rfl, d₁, by simp, hmem⟩⟩
  | none =>
    refine wp_seq tryClaim_spec ?_
    rintro b t₂ (⟨rfl, d₂, rfl⟩ | ⟨rfl, -⟩)
    · -- the claim is the first write of the transaction, the response its last
      show Prog.wp _ _ (if true = true then _ else _) _ _
      rw [if_pos rfl]
      have hE : ∀ w ∈ ((t.saw d₁).wrote d₂ (.insertIdempotencyKey ⟨key, none⟩)).writes, w.isEntity = false := by
        simp [h, Write.isEntity]
      unfold purchaseClaimed
      refine wp_seq (exceptValueError_spec (purchaseRecord_spec hE)) ?_
      rintro result t₃ ⟨p, rfl, hg₃, hgr⟩
      refine wp_seq storeResult_spec ?_
      rintro _ t₄ hg₄
      have hg := (((Txn.Grew.saw t d₁).trans (Txn.Grew.wrote _ d₂ _)).trans hg₃).trans hg₄
      refine ⟨hg.seen, .purchase (some key) p, ?_, ?_, Or.inr ⟨p, rfl, rfl⟩⟩
      · rw [hg.writes, h]
        simp [Action.writes]
      · exact hgr.mono fun d hd => hg₄.mem hd
    · exact True.intro

/-! ### Card authorizations -/

theorem scalar_read {β : Type} {table : Db → List β} {p : β → Bool} :
    (scalar table p).wp (engine fk) o (onOk fun _ t' => t.Grew t' []) t := fun d => Txn.Grew.saw t d

theorem settlingUser_read {event : CardAuthorizationEvent} :
    (settlingUser event).wp (engine fk) o (onOk fun _ t' => t.Grew t' []) t := by
  unfold settlingUser
  split
  · exact Txn.Grew.refl t
  · refine wp_seq page_spec ?_
    intro users t' hg
    split
    · exact hg
    · exact True.intro

theorem ofExcept_read {β : Type} {r : Except Exc β} :
    (ofExcept r).wp (engine fk) o (onOk fun _ t' => t.Grew t' []) t := by
  refine wp_imp ofExcept_spec ?_
  rintro _ t' ⟨rfl, -⟩
  exact Txn.Grew.refl t'

theorem handleCardAuthorization_spec {env : Env} {event : CardAuthorizationEvent} (h : t.writes = []) :
    (handleCardAuthorization env event).wp (engine fk) o (onOk fun res t' => ∃ p : Purchase,
      res = p.result ∧ t'.writes = (Action.purchase none p).writes ∧ p.Grounded env t'.seen) t := by
  unfold handleCardAuthorization
  split
  · exact True.intro
  · refine wp_seq scalar_read ?_
    intro r t₁ hg₁
    cases r with
    | none => exact True.intro
    | some r =>
      refine wp_seq settlingUser_read ?_
      intro userId t₂ hg₂
      refine wp_seq scalar_read ?_
      intro client t₃ hg₃
      refine wp_seq ofExcept_read ?_
      intro amount t₄ hg₄
      have hw : t₄.writes = [] := by
        rw [hg₄.writes, hg₃.writes, hg₂.writes, hg₁.writes, h]
        rfl
      refine wp_imp (purchaseRecord_spec (by simp [hw])) ?_
      rintro res t₅ ⟨p, rfl, hg₅, hgr⟩
      refine ⟨p, rfl, ?_, hgr⟩
      rw [hg₅.writes, hw]
      rfl

/-! ### Processor events -/

theorem requireAuthorization_spec {reference : String} (h : ∀ w ∈ t.writes, w.isAuthorization = false) :
    (requireAuthorization reference).wp (engine fk) o (onOk fun a t' => t.Grew t' [] ∧
      a.externalReference = reference ∧ ∃ d ∈ t'.seen, a ∈ d.authorizations) t := by
  unfold requireAuthorization
  refine wp_seq scalar_spec ?_
  rintro a _ ⟨d, rfl, ha, -⟩
  cases a with
  | none => exact True.intro
  | some a =>
    obtain ⟨hmem, href⟩ := ha a rfl
    rw [view_authorizations h] at hmem
    exact ⟨Txn.Grew.saw t d, by simpa using href, d, by simp, hmem⟩

theorem requirePending_spec {verb reference : String} (h : ∀ w ∈ t.writes, w.isAuthorization = false) :
    (requirePending verb reference).wp (engine fk) o (onOk fun a t' => t.Grew t' [] ∧
      a.externalReference = reference ∧ a.status = .pending ∧ ∃ d ∈ t'.seen, a ∈ d.authorizations) t := by
  unfold requirePending
  refine wp_seq (requireAuthorization_spec h) ?_
  rintro a t' ⟨hg, href, hd⟩
  split
  · exact True.intro
  · rename_i hst
    exact ⟨hg, href, by simpa using hst, hd⟩

theorem settleEach_spec {env : Env} (ids : List String) : ∀ t : Txn Db Write,
    (∀ w ∈ t.writes, w.isEntity = false) → (∀ w ∈ t.writes, w.isAuthorization = false) →
    (settleEach env ids).wp (engine fk) o (onOk fun results t' => ∃ ps : List Purchase,
      results = ps.map Purchase.result ∧ ps.map (·.authorization.externalReference) = ids ∧
      t.Grew t' (ps.flatMap Purchase.writes) ∧
      ∀ p ∈ ps, p.Grounded env t'.seen ∧ ∃ d ∈ t'.seen, p.authorization ∈ d.authorizations) t := by
  induction ids with
  | nil => exact fun t _ _ => ⟨[], rfl, rfl, Txn.Grew.refl t, by simp⟩
  | cons id ids ih =>
    intro t hE hA
    unfold settleEach
    refine wp_seq (requireAuthorization_spec hA) ?_
    rintro a t₁ ⟨hg₁, rfl, ha⟩
    have hw₁ : t₁.writes = t.writes := by simpa using hg₁.writes
    refine wp_seq (settleAuthorization_spec (by rw [hw₁]; exact hE)) ?_
    rintro res t₂ ⟨p, rfl, rfl, hg₂, hp⟩
    have hw₂ : ∀ w ∈ t₂.writes, w ∈ t.writes ∨ w ∈ p.writes := by
      intro w hw
      rw [hg₂.writes, hw₁] at hw
      exact List.mem_append.1 hw
    -- what the batch has settled so far changes no authorization and no owner of an account
    refine wp_seq (ih t₂ (fun w hw => ?_) (fun w hw => ?_)) ?_
    · exact (hw₂ w hw).elim (hE w) fun h => (Purchase.writes_kind h).1
    · exact (hw₂ w hw).elim (hA w) fun h => (Purchase.writes_kind h).2
    · rintro results t₃ ⟨ps, rfl, rfl, hg₃, hps⟩
      refine ⟨p :: ps, rfl, rfl, (hg₁.trans hg₂).trans hg₃, fun q hq => ?_⟩
      rcases List.mem_cons.1 hq with rfl | hq
      · exact ⟨hp.mono fun d hd => hg₃.mem hd, (hg₂.trans hg₃).exists_mem ha⟩
      · exact hps q hq

/-- The event an envelope claims. -/
def ProcessorEventEnvelope.event (envelope : ProcessorEventEnvelope) : ProcessedWebhookEvent :=
  ⟨envelope.eventId, envelope.eventType.value⟩

section Handlers

variable {env : Env} {envelope : ProcessorEventEnvelope}

private theorem claimed (h : t.writes = [.insertEvent envelope.event]) :
    (∀ w ∈ t.writes, w.isEntity = false) ∧ ∀ w ∈ t.writes, w.isAuthorization = false := by
  rw [h]
  simp [Write.isEntity, Write.isAuthorization]

theorem handleAuthorizationCreated_spec (he : envelope.eventType = .authorizationCreated)
    (h : t.writes = [.insertEvent envelope.event]) :
    (handleAuthorizationCreated env envelope.data).wp (engine fk) o (onOk fun _ t' => ∃ act : Action,
      t'.writes = act.writes ∧ act.Grounded env t'.seen ∧ AnswersEvent env envelope act) t := by
  unfold handleAuthorizationCreated
  refine wp_seq modelValidate_spec ?_
  rintro data t ⟨rfl, hdata⟩
  refine wp_seq scalar_read ?_
  intro existing t₁ hg₁
  cases existing with
  | some a => exact True.intro
  | none =>
    refine wp_seq scalar_read ?_
    intro r t₂ hg₂
    cases r with
    | none => exact True.intro
    | some r =>
      refine wp_seq scalar_read ?_
      intro u t₃ hg₃
      cases u with
      | none => exact True.intro
      | some u =>
        refine wp_seq scalar_read ?_
        intro client t₄ hg₄
        refine wp_seq AuthorizationRepository.createPending_spec ?_
        rintro a t₅ ⟨hg₅, hst, href⟩
        have hw : t₄.writes = [.insertEvent envelope.event] := by
          rw [hg₄.writes, hg₃.writes, hg₂.writes, hg₁.writes, h]
          rfl
        refine ⟨.created envelope.event a, ?_, hst, ?_⟩
        · rw [hg₅.writes, hw]
          rfl
        · simp only [AnswersEvent, he]
          exact ⟨data, a, hdata, href, by rw [ProcessorEventEnvelope.event, he]⟩

/-- Both decisions: the status is written by id after the pending row has been read. -/
private theorem decide_spec (env : Env) {verb reference : String} (status : AuthorizationStatus) (reason : Option String)
    {mark : Authorization → Tx Authorization} (h : t.writes = [.insertEvent envelope.event])
    (hstatus : status = .authorized ∨ status = .declined)
    (hmark : ∀ a t, (mark a).wp (engine fk) o
      (onOk fun _ t' => t.Grew t' [.setAuthorizationStatus a.id status reason]) t) :
    (do
      let a ← requirePending verb reference
      let a ← mark a
      return .authorization a.id a.status : Tx EventResult).wp (engine fk) o (onOk fun _ t' => ∃ a : Authorization,
        a.externalReference = reference ∧ t'.writes = (Action.decided envelope.event a status reason).writes ∧
        (Action.decided envelope.event a status reason).Grounded env t'.seen) t := by
  refine wp_seq (requirePending_spec (claimed h).2) ?_
  rintro a t₁ ⟨hg₁, href, hst, hd⟩
  refine wp_seq (hmark a t₁) ?_
  intro _ t₂ hg₂
  refine ⟨a, href, ?_, hg₂.exists_mem hd, hst, hstatus⟩
  rw [hg₂.writes, hg₁.writes, h]
  rfl

theorem handleAuthorizationApproved_spec (he : envelope.eventType = .authorizationApproved)
    (h : t.writes = [.insertEvent envelope.event]) :
    (handleAuthorizationApproved env envelope.data).wp (engine fk) o (onOk fun _ t' => ∃ act : Action,
      t'.writes = act.writes ∧ act.Grounded env t'.seen ∧ AnswersEvent env envelope act) t := by
  unfold handleAuthorizationApproved
  refine wp_seq modelValidate_spec ?_
  rintro data t ⟨rfl, hdata⟩
  refine wp_imp (decide_spec env .authorized none h (Or.inl rfl) fun a t => ?_) ?_
  · refine wp_seq exec_spec ?_
    rintro _ _ ⟨d, rfl⟩
    exact Txn.Grew.wrote t d _
  · rintro _ t' ⟨a, href, hw, hgr⟩
    refine ⟨_, hw, hgr, ?_⟩
    simp only [AnswersEvent, he]
    exact ⟨data, a, hdata, href, by rw [ProcessorEventEnvelope.event, he]⟩

theorem handleAuthorizationDeclined_spec (he : envelope.eventType = .authorizationDeclined)
    (h : t.writes = [.insertEvent envelope.event]) :
    (handleAuthorizationDeclined env envelope.data).wp (engine fk) o (onOk fun _ t' => ∃ act : Action,
      t'.writes = act.writes ∧ act.Grounded env t'.seen ∧ AnswersEvent env envelope act) t := by
  unfold handleAuthorizationDeclined
  refine wp_seq modelValidate_spec ?_
  rintro data t ⟨rfl, hdata⟩
  refine wp_imp (decide_spec env .declined (some data.declineReason) h (Or.inr rfl) fun a t => ?_) ?_
  · refine wp_seq exec_spec ?_
    rintro _ _ ⟨d, rfl⟩
    exact Txn.Grew.wrote t d _
  · rintro _ t' ⟨a, href, hw, hgr⟩
    refine ⟨_, hw, hgr, ?_⟩
    simp only [AnswersEvent, he]
    exact ⟨data, a, hdata, href, by rw [ProcessorEventEnvelope.event, he]⟩

theorem handleSettlementCompleted_spec (he : envelope.eventType = .settlementCompleted)
    (h : t.writes = [.insertEvent envelope.event]) :
    (handleSettlementCompleted env envelope.data).wp (engine fk) o (onOk fun _ t' => ∃ act : Action,
      t'.writes = act.writes ∧ act.Grounded env t'.seen ∧ AnswersEvent env envelope act) t := by
  unfold handleSettlementCompleted
  refine wp_seq modelValidate_spec ?_
  rintro data t ⟨rfl, hdata⟩
  refine wp_seq (settleEach_spec data.authorizationIds t (claimed h).1 (claimed h).2) ?_
  rintro results t' ⟨ps, -, hids, hg, hps⟩
  refine ⟨.batch envelope.event ps, ?_, hps, ?_⟩
  · rw [hg.writes, h]
    rfl
  · simp only [AnswersEvent, he]
    exact ⟨data, ps, hdata, hids, by rw [ProcessorEventEnvelope.event, he]⟩

theorem handleEvent_spec (h : t.writes = [.insertEvent envelope.event]) :
    (handleEvent env envelope).wp (engine fk) o (onOk fun _ t' => ∃ act : Action,
      t'.writes = act.writes ∧ act.Grounded env t'.seen ∧ AnswersEvent env envelope act) t := by
  unfold handleEvent
  refine wp_tryCatch ?_ fun e t' => ?_
  · cases he : envelope.eventType with
    | authorizationCreated => exact handleAuthorizationCreated_spec he h
    | authorizationApproved => exact handleAuthorizationApproved_spec he h
    | authorizationDeclined => exact handleAuthorizationDeclined_spec he h
    | settlementCompleted => exact handleSettlementCompleted_spec he h
  · cases e <;> exact True.intro

end Handlers

/-- Only an event id that is committed makes its claim fail. -/
theorem violation_insertEvent {d : Db} {e : ProcessedWebhookEvent}
    (h : Db.violation fk d (.insertEvent e) = some .integrityError) : e.eventId ∈ d.column .eventsEventId := by
  by_contra hn
  simp [Db.violation, Write.keys, Write.references, Write.checked, hn] at h

theorem processorEvents_spec {env : Env} {rawBody : ByteArray} (h : t.writes = []) :
    (processorEvents env rawBody).wp (engine fk) o (onOk fun a t' => ∃ act : Action, t'.writes = act.writes ∧
      act.Grounded env t'.seen ∧ AnswersDelivery env rawBody a act t'.seen) t := by
  unfold processorEvents
  split
  · exact True.intro
  · rename_i envelope hparse
    unfold processEnvelope
    refine wp_seq tryClaim_spec ?_
    rintro b t₁ (⟨rfl, d, rfl⟩ | ⟨rfl, d, d', rfl, hv⟩)
    · show Prog.wp _ _ (if true = true then _ else _) _ _
      rw [if_pos rfl]
      have hw : (t.wrote d (.insertEvent envelope.event)).writes = [.insertEvent envelope.event] := by simp [h]
      unfold processClaimed
      refine wp_seq (exceptValueError_spec (handleEvent_spec hw)) ?_
      rintro result t₂ ⟨act, hact, hgr, hans⟩
      exact ⟨act, hact, hgr, envelope, hparse, Or.inr ⟨⟨result, rfl⟩, hans⟩⟩
    · -- the claim was refused, so a committed event has the id
      show Prog.wp _ _ (if false = true then _ else _) _ _
      rw [if_neg (by decide)]
      rw [h, Engine.view_nil] at hv
      exact ⟨.quiet, rfl, True.intro, envelope, hparse,
        Or.inl ⟨rfl, rfl, d, by simp, violation_insertEvent hv⟩⟩

/-! ### Reconciliation -/

theorem computedBalance_spec {id : String} (h : t.writes = []) :
    (computedBalance id).wp (engine fk) o
      (onOk fun n t' => ∃ d, t' = t.saw d ∧ n = ((d.counted id).map (·.delta)).sum) t := by
  unfold computedBalance
  refine wp_seq scalars_spec ?_
  rintro l _ ⟨d, rfl, hperm⟩
  rw [h, Engine.view_nil] at hperm
  exact ⟨d, rfl, (hperm.map _).sum_eq⟩

theorem reconcileEach_spec (as : List LedgerAccount) : ∀ t : Txn Db Write, t.writes = [] →
    (reconcileEach as).wp (engine fk) o (onOk fun l t' => t'.writes = [] ∧ ∃ ds : List Db,
      t'.seen = t.seen ++ ds ∧ ds.length = as.length ∧ l = discrepanciesOf as ds) t := by
  induction as with
  | nil => exact fun t h => ⟨h, [], by simp, rfl, rfl⟩
  | cons a as ih =>
    intro t h
    unfold reconcileEach
    refine wp_seq (computedBalance_spec h) ?_
    rintro n _ ⟨d, rfl, rfl⟩
    refine wp_seq (ih _ (by simpa using h)) ?_
    rintro l t' ⟨hw, ds, hseen, hlen, rfl⟩
    exact ⟨hw, d :: ds, by simp [hseen], by simp [hlen], rfl⟩

theorem reconcileAll_spec (h : t.writes = []) :
    reconcileAll.wp (engine fk) o (onOk fun report t' => t'.writes = [] ∧ ∃ ds : List Db,
      t'.seen = t.seen ++ ds ∧ Reports report ds) t := by
  unfold reconcileAll
  refine wp_seq scalars_spec ?_
  rintro as _ ⟨d, rfl, hperm⟩
  rw [h, Engine.view_nil, List.filter_true] at hperm
  refine wp_seq (reconcileEach_spec as _ (by simpa using h)) ?_
  rintro l t' ⟨hw, ds, hseen, hlen, rfl⟩
  exact ⟨hw, d :: ds, by simp [hseen], as, hperm, hlen, rfl⟩

/-! ### Routes -/

/-- A program that writes nothing. -/
def Reads {β : Type} (fk : Bool) (o : Nat → Choice) (p : Tx β) : Prop :=
  ∀ t, p.wp (engine fk) o (onOk fun _ t' => t.Grew t' []) t

theorem Reads.bind {α β : Type} {p : Tx α} {f : α → Tx β} (hp : Reads fk o p) (hf : ∀ a, Reads fk o (f a)) :
    Reads fk o (p >>= f) := by
  intro t
  refine wp_seq (hp t) fun a t₁ hg₁ => wp_imp (hf a t₁) fun _ t₂ hg₂ => ?_
  exact hg₁.trans hg₂

theorem Reads.pure {β : Type} (a : β) : Reads fk o (pure a : Tx β) := fun t => Txn.Grew.refl t

theorem Reads.raise {β : Type} (e : Exc) : Reads fk o (Prog.raise e : Tx β) := fun _ => True.intro

theorem Reads.respond {β : Type} {f : β → Response} {p : Tx β} (hp : Reads fk o p) :
    Reads fk o (respond f p) := hp.bind fun a => Reads.pure (f a)

theorem Reads.paged {β : Type} {limit offset : Int} {p : Nat → Nat → Tx β} (hp : ∀ l m, Reads fk o (p l m)) :
    Reads fk o (do
      let (l, m) ← paging limit offset
      p l m) := by
  refine Reads.bind ?_ fun x => hp x.1 x.2
  unfold paging
  split
  · exact Reads.pure _
  · exact Reads.raise _

theorem Reads.found {β : Type} {what : String} {p : Tx (Option β)} (hp : Reads fk o p) :
    Reads fk o (do found what (← p)) := by
  refine hp.bind fun r => ?_
  cases r with
  | some a => exact Reads.pure a
  | none => exact Reads.raise _

section Requests

variable {env : Env} {r : Request}

theorem requireApiKey_spec :
    (requireApiKey env r.xApiKey).wp (engine fk) o (onOk fun _ t' => ∃ d, t' = t.saw d ∧
      KeyAccepted env r ((engine fk).view d t.writes)) t := by
  unfold requireApiKey
  split
  · exact True.intro
  · rename_i key hkey
    refine wp_seq scalar_spec ?_
    rintro client _ ⟨d, rfl, hc, -⟩
    cases client with
    | none => exact True.intro
    | some client =>
      obtain ⟨hmem, hhash⟩ := hc client rfl
      show Prog.wp _ _ (if client.isActive = true then _ else _) _ _
      split
      · rename_i hactive
        exact ⟨d, rfl, key, hkey, client, hmem, by simpa [ApiClientRepository.hashKey] using hhash, hactive⟩
      · exact True.intro

theorem withApiKey_spec {β : Type} {p : ApiClient → Tx β} {Q : β → Txn Db Write → Prop} (h : t.writes = [])
    (hp : ∀ client d, KeyAccepted env r d → (p client).wp (engine fk) o (onOk Q) (t.saw d)) :
    (withApiKey env r p).wp (engine fk) o (onOk Q) t := by
  refine wp_seq requireApiKey_spec ?_
  rintro client _ ⟨d, rfl, hk⟩
  rw [h, Engine.view_nil] at hk
  exact hp client d hk

theorem respond_spec {β : Type} {f : β → Response} {p : Tx β} {Q : Response → Txn Db Write → Prop}
    (hp : p.wp (engine fk) o (onOk fun a t' => Q (f a) t') t) : (respond f p).wp (engine fk) o (onOk Q) t :=
  wp_seq hp fun _ _ h => h

/-- A body or header that FastAPI has to validate first. -/
theorem validated_spec {α β : Type} {x : Option α} {f : α → Tx β} {Q : β → Txn Db Write → Prop}
    (hf : ∀ a, x = some a → (f a).wp (engine fk) o (onOk Q) t) :
    (do f (← validated x) : Tx β).wp (engine fk) o (onOk Q) t := by
  cases x with
  | some a => exact hf a rfl
  | none => exact True.intro

theorem Reads.committed {p : Tx Response} (hp : Reads fk o p) (hans : ∀ a ds, AnswersRequest env r a .quiet ds)
    (h : t.writes = []) : p.wp (engine fk) o (onOk (Committed env (.request r))) t := by
  refine wp_imp (hp t) fun a t' hg => ?_
  exact ⟨.quiet, by rw [hg.writes, h]; rfl, True.intro, hans a _⟩

theorem Reads.committed_withApiKey {p : ApiClient → Tx Response} (hp : ∀ c, Reads fk o (p c))
    (hans : ∀ a ds, AnswersRequest env r a .quiet ds) :
    (withApiKey env r p).wp (engine fk) o (onOk (Committed env (.request r))) Txn.fresh :=
  withApiKey_spec rfl fun c d _ => (hp c).committed hans (by simp)

theorem createUser_spec {data : UserCreate} (h : t.writes = []) :
    (createUser data).wp (engine fk) o (onOk fun _ t' => t.seen <+: t'.seen ∧ ∃ act : Action,
      t'.writes = act.writes ∧ act.Grounded env t'.seen ∧ act.isEntity = true) t := by
  refine wp_seq UserRepository.create_spec ?_
  intro u t₁ hg₁
  refine wp_seq LedgerAccountRepository.createAccount_spec ?_
  rintro x t₂ ⟨hg₂, hx⟩
  refine ⟨(hg₁.trans hg₂).seen, .user u x, ?_, hx, rfl⟩
  rw [hg₂.writes, hg₁.writes, h]
  rfl

theorem createArchive_spec {data : HistoricalArchiveCreate} (h : t.writes = []) :
    (createArchive data).wp (engine fk) o (onOk fun _ t' => t.seen <+: t'.seen ∧ ∃ act : Action,
      t'.writes = act.writes ∧ act.Grounded env t'.seen ∧ act.isEntity = true) t := by
  refine wp_seq HistoricalArchiveRepository.create_spec ?_
  intro a t₁ hg₁
  refine wp_seq LedgerAccountRepository.createAccount_spec ?_
  rintro x t₂ ⟨hg₂, hx⟩
  refine ⟨(hg₁.trans hg₂).seen, .archive a x, ?_, hx, rfl⟩
  rw [hg₂.writes, hg₁.writes, h]
  rfl

theorem createRecord_spec {data : ResearchRecordCreate} (h : t.writes = []) :
    (createRecord data).wp (engine fk) o (onOk fun _ t' => t.seen <+: t'.seen ∧ ∃ act : Action,
      t'.writes = act.writes ∧ act.Grounded env t'.seen ∧ act.isEntity = true) t := by
  refine wp_imp ResearchRecordRepository.create_spec ?_
  intro x t₁ hg₁
  refine ⟨hg₁.seen, .record x, ?_, True.intro, rfl⟩
  rw [hg₁.writes, h]
  rfl

/-- The routes that create an entity. -/
private theorem entity_spec {β : Type} {f : β → Response} {p : Tx β}
    (hans : ∀ a (act : Action) ds, (∃ d ∈ ds, KeyAccepted env r d) → act.isEntity = true →
      AnswersRequest env r a act ds)
    (hp : ∀ t : Txn Db Write, t.writes = [] → p.wp (engine fk) o (onOk fun _ t' => t.seen <+: t'.seen ∧
      ∃ act : Action, t'.writes = act.writes ∧ act.Grounded env t'.seen ∧ act.isEntity = true) t) :
    (withApiKey env r fun _ => respond f p).wp (engine fk) o (onOk (Committed env (.request r))) Txn.fresh := by
  refine withApiKey_spec rfl fun _ d hk => respond_spec (wp_imp (hp _ (by simp)) ?_)
  rintro a t' ⟨hseen, act, hw, hgr, hact⟩
  exact ⟨act, hw, hgr, hans _ act _ ⟨d, hseen.subset (by simp), hk⟩ hact⟩

theorem route_spec : (route env r).wp (engine fk) o (onOk (Committed env (.request r))) Txn.fresh := by
  unfold route
  cases he : r.route with
  | listUsers limit offset =>
    exact Reads.committed_withApiKey
      (fun _ => (Reads.paged (p := UserRepository.listAll) fun _ _ _ => page_spec).respond)
      fun a ds => by simp only [AnswersRequest, he]
  | createUser data =>
    exact entity_spec (fun a act ds hk hact => by simp only [AnswersRequest, he]; exact ⟨hk, hact⟩)
      fun t h => validated_spec fun _ _ => createUser_spec h
  | getUser userId =>
    exact Reads.committed_withApiKey (fun _ => (Reads.found fun _ => scalar_read).respond)
      fun a ds => by simp only [AnswersRequest, he]
  | listArchives limit offset =>
    exact Reads.committed (Reads.paged (p := HistoricalArchiveRepository.listAll) fun _ _ _ => page_spec).respond
      (fun a ds => by simp only [AnswersRequest, he]) rfl
  | createArchive data =>
    exact entity_spec (fun a act ds hk hact => by simp only [AnswersRequest, he]; exact ⟨hk, hact⟩)
      fun t h => validated_spec fun _ _ => createArchive_spec h
  | getArchive archiveId =>
    exact Reads.committed (Reads.found fun _ => scalar_read).respond
      (fun a ds => by simp only [AnswersRequest, he]) rfl
  | listRecords limit offset =>
    exact Reads.committed (Reads.paged (p := ResearchRecordRepository.listAll) fun _ _ _ => page_spec).respond
      (fun a ds => by simp only [AnswersRequest, he]) rfl
  | createRecord data =>
    exact entity_spec (fun a act ds hk hact => by simp only [AnswersRequest, he]; exact ⟨hk, hact⟩)
      fun t h => validated_spec fun _ _ => createRecord_spec h
  | getRecord recordId =>
    exact Reads.committed (Reads.found fun _ => scalar_read).respond
      (fun a ds => by simp only [AnswersRequest, he]) rfl
  | listAccounts limit offset =>
    exact Reads.committed_withApiKey
      (fun _ => (Reads.paged (p := LedgerAccountRepository.listAll) fun _ _ _ => page_spec).respond)
      fun a ds => by simp only [AnswersRequest, he]
  | getAccount accountId =>
    exact Reads.committed_withApiKey (fun _ => (Reads.found fun _ => scalar_read).respond)
      fun a ds => by simp only [AnswersRequest, he]
  | viewLedger accountId limit offset =>
    refine Reads.committed_withApiKey (fun _ => (Reads.paged fun l m t => ?_).respond)
      fun a ds => by simp only [AnswersRequest, he]
    unfold TransactionRepository.listAll
    split
    · exact page_spec
    · exact page_spec
  | purchase data idempotencyKey =>
    refine withApiKey_spec rfl fun client d hk => respond_spec (validated_spec fun data _ =>
      validated_spec fun key hkey => wp_imp (purchase_spec rfl) ?_)
    rintro result t' ⟨hseen, act, hw, hgr, hans⟩
    refine ⟨act, hw, hgr, ?_⟩
    simp only [Answers, AnswersRequest, he]
    exact ⟨⟨d, hseen.subset (by simp), hk⟩, key, result, hkey, rfl, hans⟩
  | getPurchase authorizationId =>
    refine Reads.committed_withApiKey (fun _ => (Reads.found fun t => ?_).respond)
      fun a ds => by simp only [AnswersRequest, he]
    exact scalar_read
  | refundPurchase authorizationId data =>
    refine withApiKey_spec rfl fun client d hk => respond_spec (validated_spec fun data _ =>
      exceptValueError_spec (wp_imp (refundSettlement_spec rfl) ?_))
    rintro result t' ⟨hseen, s, originals, reversals, hid, hw, hgr⟩
    refine ⟨_, hw, hgr env, ?_⟩
    simp only [Answers, AnswersRequest, he]
    exact ⟨⟨d, hseen.subset (by simp), hk⟩, s, originals, reversals, hid, rfl⟩
  | cardAuthorization =>
    refine respond_spec ?_
    unfold cardAuthorization
    split
    · exact True.intro
    · refine wp_imp (exceptValueError_spec (handleCardAuthorization_spec rfl)) ?_
      rintro result t' ⟨p, rfl, hw, hgr⟩
      refine ⟨_, hw, hgr, ?_⟩
      simp only [Answers, AnswersRequest, he]
      exact ⟨p, rfl, rfl⟩
  | processorEvents =>
    refine wp_seq ofExcept_spec ?_
    rintro rawBody _ ⟨rfl, hverify⟩
    obtain ⟨rfl, hv⟩ := verify_ok hverify
    refine wp_imp (processorEvents_spec rfl) ?_
    rintro a t' ⟨act, hw, hgr, hans⟩
    refine ⟨act, hw, hgr, ?_⟩
    simp only [Answers, AnswersRequest, he]
    exact ⟨hv, hans⟩
  | getReconciliationReport =>
    refine withApiKey_spec rfl fun _ d _ => respond_spec (wp_imp (reconcileAll_spec (by simp)) ?_)
    rintro report t' ⟨hw, ds, hseen, hrep⟩
    refine ⟨.quiet, hw, True.intro, ?_⟩
    simp only [Answers, AnswersRequest, he]
    refine ⟨trivial, report, rfl, ?_⟩
    rw [hseen]
    exact hrep
  | health =>
    exact Reads.committed (Reads.pure _) (fun a ds => by simp only [AnswersRequest, he]) rfl

end Requests

/-! ### All jobs -/

theorem seedRows_spec {env : Env} (h : t.writes = []) :
    (seedRows env).wp (engine fk) o (onOk (Committed env .seed)) t := by
  unfold seedRows
  refine wp_seq ApiClientRepository.create_spec ?_
  rintro admin t₁ ⟨hg₁, hadmin⟩
  refine wp_seq draw_spec ?_
  rintro key _ ⟨d, rfl⟩
  refine wp_seq ApiClientRepository.create_spec ?_
  rintro processor t₂ ⟨hg₂, hname, -⟩
  refine wp_seq LedgerAccountRepository.createAccount_spec ?_
  rintro platform t₃ ⟨hg₃, hplatform⟩
  refine wp_seq (P := fun a t' => ∃ x, t₃.Grew t' [.insertArchive a, .insertAccount x] ∧
    x.IsNew .archive none (some a.id)) ?_ ?_
  · refine wp_seq HistoricalArchiveRepository.create_spec fun a t' hg => ?_
    refine wp_seq LedgerAccountRepository.createAccount_spec ?_
    rintro x t'' ⟨hg', hx⟩
    exact ⟨x, hg.trans hg', hx⟩
  rintro a t₄ ⟨aAccount, hg₄, ha⟩
  have user : ∀ data t, (createUser data).wp (engine fk) o (onOk fun u t' => ∃ x,
      t.Grew t' [.insertUser u, .insertAccount x] ∧ x.IsNew .user (some u.id) none) t := by
    intro data t
    refine wp_seq UserRepository.create_spec fun u t' hg => ?_
    refine wp_seq LedgerAccountRepository.createAccount_spec ?_
    rintro x t'' ⟨hg', hx⟩
    exact ⟨x, hg.trans hg', hx⟩
  refine wp_seq (user _ _) ?_
  rintro u t₅ ⟨uAccount, hg₅, hu⟩
  refine wp_seq (user _ _) ?_
  rintro v t₆ ⟨vAccount, hg₆, hv⟩
  refine wp_seq ResearchRecordRepository.create_spec ?_
  intro r t₇ hg₇
  have hg := ((((((hg₁.trans (Txn.Grew.saw _ d)).trans hg₂).trans hg₃).trans hg₄).trans hg₅).trans hg₆).trans hg₇
  refine ⟨.seeded admin processor platform a aAccount u uAccount v vAccount r, ?_,
    ⟨hadmin, hname, hplatform, ha, hu, hv⟩, True.intro⟩
  rw [hg.writes, h]
  rfl

theorem seed_spec {env : Env} : (seed env).wp (engine fk) o (onOk (Committed env .seed)) Txn.fresh := by
  unfold seed
  refine wp_seq scalar_read ?_
  intro platform t₁ hg₁
  have hw : t₁.writes = [] := hg₁.writes
  cases platform with
  | some a => exact ⟨.quiet, hw, True.intro, True.intro⟩
  | none =>
    refine wp_tryCatch (seedRows_spec hw) fun e t' => ?_
    cases e with
    | integrityError => exact fun d => ⟨.quiet, rfl, True.intro, True.intro⟩
    | _ => exact True.intro

theorem reconcileScript_spec {env : Env} :
    reconcileScript.wp (engine fk) o (onOk (Committed env .reconcileScript)) Txn.fresh := by
  unfold reconcileScript
  refine wp_seq (reconcileAll_spec rfl) ?_
  rintro report t' ⟨hw, ds, hseen, hrep⟩
  refine ⟨.quiet, hw, True.intro, rfl, report, rfl, ?_⟩
  rw [hseen]
  exact hrep

theorem handle_spec (env : Env) (job : Job) (o : Nat → Choice) :
    ((genPay env).handle job).wp (genPay env).toEngine o (onOk (Committed env job)) Txn.fresh := by
  cases job with
  | request r => exact route_spec
  | seed => exact seed_spec
  | reconcileScript => exact reconcileScript_spec

end GenPay
