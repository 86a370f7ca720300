import GenPay.Purchasing
import GenPay.Reversal

/-!
# What a failed purchase leaves to clean up

Settling and refunding check everything before the first write: a `ValueError` of theirs leaves no write behind.
`purchase_record` inserts the authorization before the amount is split and the accounts are looked up, so that the
insert is left behind when the sale is not available (`clean_iff`).
-/

namespace GenPay

open ReadCommitted
open Prog (Raises raises_seq raises_after raises_raise raises_ret raises_exec)

variable {fk : Bool} {o : Nat → Choice} {d : Db} {t : Txn Db Write} {env : Env}

/-! ### Exceptions -/

/-- A program that raises a `ValueError` has written nothing. -/
def Clean {β : Type} (fk : Bool) (o : Nat → Choice) (d : Db) (t : Txn Db Write) (p : Tx β) : Prop :=
  p.Raises (engine fk) o d (fun e t' => e.asValueError ≠ none → t'.writes = t.writes) t

/-- What could have been done has failed on a constraint; what could not is refused with the writes `ws`. -/
def Refuses (ws : List Write) (possible : Prop) (e : Exc) (t : Txn Db Write) : Prop :=
  (e.asValueError ≠ none ∧ t.writes = ws ∧ ¬ possible) ∨ e.asValueError = none ∧ possible

theorem raises_valueError {β : Type} {ws : List Write} {possible : Prop} {msg : String} (hws : t.writes = ws)
    (hno : ¬ possible) : (valueError msg : Tx β).Raises (engine fk) o d (Refuses ws possible) t :=
  raises_raise (Or.inl ⟨by simp [Exc.asValueError], hws, hno⟩)

theorem violation_eq {w : Write} {e : Exc} (h : d.violation fk w = some e) : e = .integrityError := by
  unfold Db.violation at h
  split at h
  · exact (Option.some.inj h).symm
  · cases h

/-- A constraint raises no `ValueError`. -/
theorem raises_insert {β : Type} {row : Choice → β} {w : β → Write} {ws : List Write} {possible : Prop} (h : possible) :
    (do let c ← draw; Prog.exec (w (row c)); return row c : Tx β).Raises (engine fk) o d (Refuses ws possible) t := by
  have hdraw : draw.Ends (engine fk) o d (fun _ _ => True) False t := True.intro
  refine raises_after hdraw fun c t₁ _ => raises_seq ?_ (Prog.ends_exec _) fun _ _ _ => raises_ret _
  exact raises_exec fun e hv => Or.inr ⟨by rw [violation_eq hv]; rfl, h⟩

theorem splitAmount_error {total : Int} {config : Option RevenueSplitConfig} {e : Exc}
    (h : splitAmount env.settings total config = .error e) : e.asValueError ≠ none := by
  have hmake : ∀ {a b c : Int} {e : Exc}, RevenueSplitConfig.make a b c = .error e → e.asValueError ≠ none := by
    intro a b c e he
    unfold RevenueSplitConfig.make at he
    split_ifs at he <;> cases he <;> simp [Exc.asValueError]
  unfold splitAmount at h
  split at h
  · cases h
    simp [Exc.asValueError]
  · cases config with
    | some c => cases h
    | none =>
      dsimp only at h
      split at h
      · cases h
      · rename_i hconfig
        cases h
        exact hmake hconfig

/-- Entries on accounts that exist are posted, or an insert fails. -/
theorem postEach_raises {sid : String} (ws : List Write) {possible : Prop} (h : possible) (es : List LedgerEntry) :
    ∀ t : Txn Db Write, (∀ e ∈ es, e.ledgerAccountId ∈ (t.view (engine fk) d).column .accountsId) →
      (postEach sid es).Raises (engine fk) o d (Refuses ws possible) t := by
  induction es with
  | nil => exact fun t _ => raises_ret _
  | cons e es ih =>
    intro t hes
    refine raises_seq (P := fun _ t' => ∃ ws', Advances fk o d t t' ws') ?_ (postEntry_ends.mono ?_ id) ?_
    · have haccount := hes e (List.mem_cons_self ..)
      refine raises_seq (raises_insert h) insert_ends ?_
      rintro x t₁ ⟨rfl, rfl, -⟩
      have hinsert : Advances fk o d t _ _ := Advances.inserted
        (w := .insertTransaction ⟨(o t.seen.length).uuid, e.ledgerAccountId, sid, e.type, e.amountCents, "USD", .posted,
          (o t.seen.length).now⟩) (by simp [Write.keys])
      have hadjust := (@adjustBalance_ends fk o d _ e.ledgerAccountId e.delta).mono (fun _ _ _ => True.intro)
        fun hno => hno (hinsert.column haccount)
      exact raises_after hadjust fun _ _ _ => raises_ret _
    · exact fun x t' hx => ⟨_, hx.1⟩
    · rintro x t₁ ⟨ws', hx⟩
      exact raises_seq (ih t₁ fun e' he' => hx.column (hes e' (List.mem_cons_of_mem _ he'))) (postEach_ends es t₁)
        fun _ _ _ => raises_ret _

/-! ### Settling -/

theorem settleChecked_raises {a : Authorization} {r : ResearchRecord} {total : Int} {config : Option RevenueSplitConfig} :
    (settleChecked env a r total config).Raises (engine fk) o d (Refuses t.writes
      (∃ s, Sale.Due env (t.view (engine fk) d) r a.userId config s ∧ s.amountCents = total)) t := by
  unfold settleChecked
  cases hsplit : splitAmount env.settings total config with
  | error e =>
    refine raises_seq (P := fun _ _ => False) (F := True) (raises_raise (Or.inl ⟨splitAmount_error hsplit, rfl, ?_⟩))
      True.intro fun _ _ => False.elim
    rintro ⟨s, hs, rfl⟩
    rw [hs.split] at hsplit
    cases hsplit
  | ok split =>
  refine raises_after (P := fun b t' => split = b ∧ t = t') ⟨rfl, rfl⟩ ?_
  rintro _ _ ⟨rfl, rfl⟩
  refine raises_after getByOwnerUser_ends ?_
  rintro researcher _ ⟨rfl, h₁, hn₁⟩
  refine raises_after scalar_ends ?_
  rintro archive _ ⟨rfl, h₂, hn₂⟩
  refine raises_after scalar_ends ?_
  rintro platform _ ⟨rfl, h₃, hn₃⟩
  simp only [Txn.view_saw] at h₂ hn₂ h₃ hn₃
  cases researcher with
  | none =>
    refine raises_valueError rfl ?_
    rintro ⟨s, hs, -⟩
    exact hn₁ rfl _ hs.buyer
  | some researcher =>
  cases archive with
  | none =>
    refine raises_valueError rfl ?_
    rintro ⟨s, hs, -⟩
    obtain ⟨x, hx, hox, -⟩ := hs.archive
    simpa [hox] using hn₂ rfl x hx
  | some archive =>
  cases platform with
  | none =>
    refine raises_valueError rfl ?_
    rintro ⟨s, hs, -⟩
    obtain ⟨x, hx, hox, -⟩ := hs.platform
    simpa [hox] using hn₃ rfl x hx
  | some platform =>
  refine raises_after transcriptionistAccount_ends ?_
  rintro transcriptionist t₄ ⟨hg₄, htr⟩
  simp only [Txn.view_saw] at htr
  -- from here on there is a sale, and only constraints can fail
  let s : Sale := ⟨researcher.id, archive.id, transcriptionist.map (·.id), platform.id, total, split⟩
  have hs : s.Due env (t.view (engine fk) d) r a.userId config :=
    { buyer := h₁ _ rfl
      archive := ⟨archive, (h₂ _ rfl).1, by simpa using (h₂ _ rfl).2, rfl⟩
      transcriptionist := htr
      platform := ⟨platform, (h₃ _ rfl).1, by simpa using (h₃ _ rfl).2, rfl⟩
      split := hsplit }
  have hg : Advances fk o d t t₄ _ := (((Advances.saw t).trans (Advances.saw _)).trans (Advances.saw _)).trans hg₄
  have hdue : ∃ s, Sale.Due env (t.view (engine fk) d) r a.userId config s ∧ s.amountCents = total := ⟨s, hs, rfl⟩
  refine raises_seq (raises_insert hdue) insert_ends ?_
  rintro x t₅ ⟨rfl, rfl, -⟩
  have hinsert : Advances fk o d t₄ _ _ := Advances.inserted
    (w := .insertSettlement ⟨(o t₄.seen.length).uuid, a.id, total, .settled⟩) (by simp [Write.keys, idColumns])
  refine raises_seq ?_ (postEntries_ends hs.balanced) fun _ _ _ => raises_ret _
  show (postEntries _ s.entries).Raises _ _ _ _ _
  unfold postEntries
  rw [if_neg (not_not.2 hs.balanced)]
  exact postEach_raises _ hdue _ _ fun e he => (hg.trans hinsert).column (hs.account he)

theorem settleAuthorization_raises {loaded : Option Authorization} {id : String} {amount : Option Int}
    {config : Option RevenueSplitConfig} (hunique : ∀ c, ((t.view (engine fk) d).column c).Nodup)
    (hloaded : ∀ a, loaded = some a → a ∈ (t.view (engine fk) d).authorizations) :
    (settleAuthorization env loaded id amount config).Raises (engine fk) o d (Refuses t.writes
      (∃ a r s, a.id = id ∧ Authorization.Settleable env (t.view (engine fk) d) amount config a r s)) t := by
  unfold settleAuthorization
  refine raises_after (getAuthorization_ends hloaded) ?_
  rintro loaded' t₁ ⟨hg₁, hsome, hnone⟩
  have hwrites : t₁.writes = t.writes := by rw [hg₁.writes, List.append_nil]
  cases loaded' with
  | none =>
    refine raises_valueError hwrites ?_
    rintro ⟨a, r, s, hid, hs⟩
    exact hnone rfl a hs.authorization hid
  | some a =>
  obtain ⟨ha, hid⟩ := hsome a rfl
  have hsame : ∀ {b : Authorization} {r : ResearchRecord} {s : Sale}, b.id = id →
      b.Settleable env (t.view (engine fk) d) amount config r s → b = a := fun hb hs =>
    List.inj_on_of_nodup_map (hunique .authorizationsId) hs.authorization ha (hb.trans hid.symm)
  show Prog.Raises _ _ _ (if a.status ≠ .authorized then _ else _) _ t₁
  split
  · rename_i hst
    refine raises_valueError hwrites ?_
    rintro ⟨b, r, s, hb, hs⟩
    exact hst (hsame hb hs ▸ hs.authorized)
  rename_i hst
  refine raises_after scalar_ends ?_
  rintro settled _ ⟨rfl, hsettled, hunsettled⟩
  rw [hg₁.view, Engine.view_nil] at hsettled hunsettled
  cases settled with
  | some x =>
    refine raises_valueError hwrites ?_
    rintro ⟨b, r, s, hb, hs⟩
    obtain ⟨hx, hxa⟩ := hsettled x rfl
    exact hs.unsettled (List.mem_map.2 ⟨x, hx, by rw [hb]; simpa using hxa⟩)
  | none =>
  refine raises_after scalar_ends ?_
  rintro record _ ⟨rfl, hrecord, hnorecord⟩
  rw [Txn.view_saw, hg₁.view, Engine.view_nil] at hrecord hnorecord
  cases record with
  | none =>
    refine raises_valueError hwrites ?_
    rintro ⟨b, r, s, hb, hs⟩
    simpa [← hsame hb hs, hs.record.2] using hnorecord rfl r hs.record.1
  | some r =>
  obtain ⟨hr, hrid⟩ := hrecord r rfl
  have hrid : r.id = a.researchRecordId := by simpa using hrid
  have hview : ((t₁.saw d).saw d).view (engine fk) d = t.view (engine fk) d :=
    ((hg₁.trans (Advances.saw t₁)).trans (Advances.saw _)).view
  have hcheck := @settleChecked_raises fk o d ((t₁.saw d).saw d) env a r (amount.getD a.amountCents) config
  rw [hview] at hcheck
  refine hcheck.mono fun e t' hrefuses => ?_
  have hnew : a.id ∉ (t.view (engine fk) d).column .settlementsAuthorization := by
    intro hmem
    obtain ⟨x, hx, hxa⟩ := List.mem_map.1 hmem
    simpa [hxa, hid] using hunsettled rfl x hx
  rcases hrefuses with ⟨hvalue, hws, hno⟩ | ⟨hvalue, s, hs, htotal⟩
  · refine Or.inl ⟨hvalue, hws.trans hwrites, ?_⟩
    rintro ⟨b, q, s, hb, hs⟩
    cases hsame hb hs
    have hq : q = r := List.inj_on_of_nodup_map (hunique .recordsId) hs.record.1 hr (hs.record.2.trans hrid.symm)
    exact hno ⟨s, hq ▸ hs.sale, hs.amount⟩
  · exact Or.inr ⟨hvalue, a, r, s, hid, ha, not_not.1 hst, hnew, ⟨hr, hrid⟩, hs, htotal⟩

/-- Whichever row the session has loaded. -/
theorem settleAuthorization_clean {loaded : Option Authorization} {id : String} {amount : Option Int}
    {config : Option RevenueSplitConfig} : Clean fk o d t (settleAuthorization env loaded id amount config) := by
  have hget : (AuthorizationRepository.get loaded id).Ends (engine fk) o d (fun _ t' => t'.writes = t.writes) False t := by
    unfold AuthorizationRepository.get
    split
    · exact rfl
    · refine scalar_ends.mono ?_ False.elim
      rintro _ _ ⟨rfl, -⟩
      rfl
  unfold Clean settleAuthorization
  refine raises_after hget ?_
  intro found t₁ hwrites
  cases found with
  | none => exact raises_raise fun _ => hwrites
  | some a =>
  show Prog.Raises _ _ _ (if a.status ≠ .authorized then _ else _) _ t₁
  split
  · exact raises_raise fun _ => hwrites
  refine raises_after scalar_ends ?_
  rintro settled _ ⟨rfl, -⟩
  cases settled with
  | some x => exact raises_raise fun _ => hwrites
  | none =>
  refine raises_after scalar_ends ?_
  rintro record _ ⟨rfl, -⟩
  cases record with
  | none => exact raises_raise fun _ => hwrites
  | some r =>
  refine settleChecked_raises.mono fun e t' hrefuses hvalue => ?_
  rcases hrefuses with ⟨-, hws, -⟩ | ⟨hnone, -⟩
  · exact hws.trans hwrites
  · exact absurd hnone hvalue

/-! ### Refunding -/

theorem refundSettlement_clean {id : String} {reason : Option String}
    (haccount : ∀ y ∈ (t.view (engine fk) d).transactions,
      y.ledgerAccountId ∈ (t.view (engine fk) d).column .accountsId) :
    Clean fk o d t (refundSettlement id reason) := by
  have refuse : ∀ {β : Type} {msg : String} {t' : Txn Db Write}, t'.writes = t.writes →
      (valueError msg : Tx β).Raises (engine fk) o d (fun e u => e.asValueError ≠ none → u.writes = t.writes) t' :=
    fun hwrites => raises_raise fun _ => hwrites
  unfold Clean refundSettlement
  refine raises_after scalar_ends ?_
  rintro a _ ⟨rfl, -⟩
  cases a with
  | none => exact refuse rfl
  | some a =>
  refine raises_after scalar_ends ?_
  rintro x _ ⟨rfl, -⟩
  cases x with
  | none => exact refuse rfl
  | some x =>
  show Prog.Raises _ _ _ (if x.status ≠ .settled then _ else _) _ _
  split
  · exact refuse rfl
  refine raises_after scalars_ends ?_
  rintro xs _ ⟨rfl, hxs⟩
  simp only [Txn.view_saw] at hxs
  by_cases hbalanced : totalOf .debit (xs.map reversalEntry) = totalOf .credit (xs.map reversalEntry)
  · -- the rows are on accounts that exist, so that no reversal is refused
    refine raises_seq ?_ Prog.ends_true ?_
    · unfold postEntries
      rw [if_neg (not_not.2 hbalanced)]
      refine (postEach_raises t.writes True.intro _ _ fun e he => ?_).mono fun e t' hrefuses hvalue => ?_
      · obtain ⟨y, hy, rfl⟩ := List.mem_map.1 he
        exact haccount y (List.mem_of_mem_filter (hxs.mem_iff.1 hy))
      · rcases hrefuses with ⟨-, -, hno⟩ | ⟨hnone, -⟩
        · exact absurd True.intro hno
        · exact absurd hnone hvalue
    · intro ys t₄ _
      refine raises_after (markEachReversed_ends xs t₄) fun _ t₅ _ => ?_
      refine raises_seq ?_ Prog.ends_true fun _ _ _ => raises_ret _
      refine raises_seq (raises_exec fun e hv => ?_) Prog.ends_true fun _ _ _ => raises_ret _
      rw [violation_eq hv]
      exact fun hvalue => absurd rfl hvalue
  · refine raises_seq (P := fun _ _ => False) (F := True) ?_ ?_ fun _ _ => False.elim
    · unfold postEntries
      rw [if_pos hbalanced]
      exact refuse rfl
    · unfold postEntries
      rw [if_pos hbalanced]
      exact True.intro

/-! ### Purchasing -/

/-- The row that `AuthorizationRepository.create` inserts after `n` statements. -/
def newAuthorization (o : Nat → Choice) (n : Nat) (recordId userId : String) (amountCents : Int)
    (createdByClientId : Option String) : Authorization :=
  ⟨(o (n + 1)).uuid, recordId, userId, amountCents, "sim_card_auth_" ++ AuthorizationRepository.shortHex (o n).uuid,
    none, .authorized, createdByClientId, (o (n + 1)).now⟩

theorem createAuthorization_run {recordId userId : String} {n : Int} {client : Option String} {a : Authorization}
    (ha : a = newAuthorization o t.seen.length recordId userId n client) :
    (AuthorizationRepository.create recordId userId n client).run (engine fk) o d t =
      match (t.view (engine fk) d).violation fk (.insertAuthorization a) with
      | none => (.ok a, ((t.saw d).saw d).wrote d (.insertAuthorization a))
      | some e => (.error e, ((t.saw d).saw d).saw d) := by
  have hrow : a = ⟨(o (t.saw d).seen.length).uuid, recordId, userId, n,
      "sim_card_auth_" ++ AuthorizationRepository.shortHex (o t.seen.length).uuid, none, .authorized, client,
      (o (t.saw d).seen.length).now⟩ := by
    rw [ha]
    simp [newAuthorization, Txn.saw]
  have hcreate : (AuthorizationRepository.create recordId userId n client).run (engine fk) o d t =
      (do Prog.exec (.insertAuthorization a); return a : Tx Authorization).run (engine fk) o d ((t.saw d).saw d) := by
    rw [hrow]
    rfl
  rw [hcreate, Prog.run_bind, Prog.run_exec]
  cases hv : (engine fk).violation (((t.saw d).saw d).view (engine fk) d) (.insertAuthorization a) with
  | none => rw [show (t.view (engine fk) d).violation fk (.insertAuthorization a) = none from hv]; rfl
  | some e => rw [show (t.view (engine fk) d).violation fk (.insertAuthorization a) = some e from hv]

/-- With a record and a user the authorization is inserted, and then settled. -/
theorem purchaseRecord_run {r : ResearchRecord} {userId : String} {amount : Option Int} {client : Option String}
    {a : Authorization} (hunique : ∀ c, ((t.view (engine fk) d).column c).Nodup)
    (hr : r ∈ (t.view (engine fk) d).records) (huser : userId ∈ (t.view (engine fk) d).column .usersId)
    (ha : a = newAuthorization o (t.seen.length + 2) r.id userId (amount.getD r.priceCents) client) :
    (purchaseRecord env r.id userId amount client).run (engine fk) o d t =
      match (t.view (engine fk) d).violation fk (.insertAuthorization a) with
      | none => (settleAuthorization env (some a) a.id none none).run (engine fk) o d
          ((((t.saw d).saw d).saw d).saw d |>.wrote d (.insertAuthorization a))
      | some e => (.error e, ((((t.saw d).saw d).saw d).saw d).saw d) := by
  obtain ⟨record, hrecord, hsome, hnone⟩ := scalar_run fk o d t Db.records (·.id == r.id)
  obtain ⟨user, huser', -, hnouser⟩ := scalar_run fk o d (t.saw d) Db.users (·.id == userId)
  cases record with
  | none => exact absurd (hnone rfl r hr) (by simp)
  | some q =>
  obtain rfl : q = r :=
    List.inj_on_of_nodup_map (hunique .recordsId) (hsome q rfl).1 hr (by simpa using (hsome q rfl).2)
  cases user with
  | none =>
    obtain ⟨v, hv, hid⟩ := List.mem_map.1 huser
    exact absurd (hnouser rfl v hv) (by simp [hid])
  | some v =>
  unfold purchaseRecord
  rw [Prog.run_bind, show (ResearchRecordRepository.get q.id).run (engine fk) o d t = _ from hrecord]
  dsimp only
  rw [Prog.run_bind, show (UserRepository.get userId).run (engine fk) o d (t.saw d) = _ from huser']
  dsimp only
  rw [Prog.run_bind, createAuthorization_run (t := (t.saw d).saw d) (a := a) (by simpa [Txn.saw] using ha)]
  simp only [Txn.view_saw]
  cases (t.view (engine fk) d).violation fk (.insertAuthorization a) <;> rfl

/-- What the declared constraints say of the rows. -/
structure Db.Constrained (d : Db) : Prop where
  unique : ∀ c, (d.column c).Nodup
  authorization : ∀ x ∈ d.settlements, x.authorizationId ∈ d.column .authorizationsId
  account : ∀ y ∈ d.transactions, y.ledgerAccountId ∈ d.column .accountsId

theorem Db.Sound.constrained (hd : d.Sound) : d.Constrained := ⟨hd.unique, hd.authorization, hd.account⟩

/-- The insert of the authorization, if it is reached and no constraint refuses it, is followed by a sale. -/
def Sellable (env : Env) (fk : Bool) (o : Nat → Choice) (n : Nat) (d : Db) (recordId userId : String)
    (amountCents : Option Int) (createdByClientId : Option String) : Prop :=
  ∀ r ∈ d.records, r.id = recordId → userId ∈ d.column .usersId →
    d.violation fk (.insertAuthorization (newAuthorization o (n + 2) recordId userId (amountCents.getD r.priceCents)
      createdByClientId)) = none →
    ∃ s, Sale.Available env d r userId (amountCents.getD r.priceCents) s

theorem purchaseRecord_unknown {recordId userId : String} {amount : Option Int} {client : Option String}
    (hno : ¬ ∃ r ∈ (t.view (engine fk) d).records, r.id = recordId ∧ userId ∈ (t.view (engine fk) d).column .usersId) :
    Clean fk o d t (purchaseRecord env recordId userId amount client) := by
  unfold Clean purchaseRecord
  refine raises_after scalar_ends ?_
  rintro record _ ⟨rfl, hrecord, -⟩
  cases record with
  | none => exact raises_raise fun _ => rfl
  | some r =>
  refine raises_after scalar_ends ?_
  rintro user _ ⟨rfl, huser, -⟩
  cases user with
  | none => exact raises_raise fun _ => rfl
  | some v =>
    refine absurd ⟨r, (hrecord r rfl).1, by simpa using (hrecord r rfl).2, ?_⟩ hno
    exact List.mem_map.2 ⟨v, (huser v rfl).1, by simpa using (huser v rfl).2⟩

theorem purchaseRecord_clean {recordId userId : String} {amount : Option Int} {client : Option String}
    (hd : (t.view (engine fk) d).Constrained) :
    Clean fk o d t (purchaseRecord env recordId userId amount client) ↔
      Sellable env fk o t.seen.length (t.view (engine fk) d) recordId userId amount client := by
  by_cases hknown : ∃ r ∈ (t.view (engine fk) d).records, r.id = recordId ∧ userId ∈ (t.view (engine fk) d).column .usersId
  · obtain ⟨r, hr, rfl, huser⟩ := hknown
    have hsame : ∀ q ∈ (t.view (engine fk) d).records, q.id = r.id → q = r := fun q hq he =>
      List.inj_on_of_nodup_map (hd.unique .recordsId) hq hr he
    have hrun := @purchaseRecord_run fk o d t env r userId amount client _ hd.unique hr huser rfl
    set a := newAuthorization o (t.seen.length + 2) r.id userId (amount.getD r.priceCents) client with ha
    cases hv : (t.view (engine fk) d).violation fk (.insertAuthorization a) with
    | some e =>
      rw [hv] at hrun
      refine iff_of_true (fun e' t' hr' => ?_) fun q hq hid _ hnone => ?_
      · rw [hrun] at hr'
        cases hr'
        rw [violation_eq hv]
        exact fun hvalue => absurd rfl hvalue
      · obtain rfl := hsame q hq hid
        rw [← ha, hv] at hnone
        cases hnone
    | none =>
      rw [hv] at hrun
      dsimp only at hrun
      set t₁ := (((t.saw d).saw d).saw d).saw d |>.wrote d (.insertAuthorization a) with ht₁
      have hview : t₁.view (engine fk) d = (t.view (engine fk) d).apply (.insertAuthorization a) := by
        rw [ht₁, Txn.view_wrote]
        rfl
      have hwrites : t₁.writes ≠ t.writes := by
        intro he
        have := congrArg List.length he
        simp [ht₁] at this
      have hloaded : ∀ b, some a = some b → b ∈ (t₁.view (engine fk) d).authorizations := by
        rintro _ ⟨⟩
        rw [hview]
        exact List.mem_append_right _ (List.mem_singleton.2 rfl)
      have hunique : ∀ c, ((t₁.view (engine fk) d).column c).Nodup := by
        rw [hview]
        exact (uniqueKeys fk).unique_apply _ (.insertAuthorization a) hd.unique (Db.violation_eq_none.1 hv).1
      have hholds : a.Holds r.id userId (amount.getD r.priceCents) .authorized := ⟨rfl, rfl, rfl, rfl, rfl⟩
      have hsale : ∀ b q s, b.id = a.id ∧ b.Settleable env (t₁.view (engine fk) d) none none q s ↔
          b = a ∧ q = r ∧ s.Available env (t.view (engine fk) d) r userId (amount.getD r.priceCents) := by
        intro b q s
        rw [hview]
        exact settleable_created hd.unique hd.authorization hr huser hholds hv
      have hends := @settleAuthorization_ends fk o d t₁ env (some a) a.id none none hunique hloaded
      have hraises := @settleAuthorization_raises fk o d t₁ env (some a) a.id none none hunique hloaded
      constructor
      · -- without a sale, settling fails with the insert behind it
        intro hclean q hq hid _ _
        obtain rfl := hsame q hq hid
        by_contra hno
        unfold Prog.Ends at hends
        split at hends
        · obtain ⟨b, q', s, -, -, hid, hs, -⟩ := hends
          exact hno ⟨s, ((hsale b q' s).1 ⟨hid, hs⟩).2.2⟩
        · rename_i e t' hsettle
          rcases hraises e t' hsettle with ⟨hvalue, hws, -⟩ | ⟨-, b, q', s, hid, hs⟩
          · exact hwrites (hws.symm.trans (hclean e t' (hrun.trans hsettle) hvalue))
          · exact hno ⟨s, ((hsale b q' s).1 ⟨hid, hs⟩).2.2⟩
      · intro hsellable e t' hr' hvalue
        obtain ⟨s, hs⟩ := hsellable r hr rfl huser hv
        rcases hraises e t' (hrun.symm.trans hr') with ⟨-, -, hno⟩ | ⟨hnone, -⟩
        · obtain ⟨hid, hs⟩ := (hsale a r s).2 ⟨rfl, rfl, hs⟩
          exact absurd ⟨a, r, s, hid, hs⟩ hno
        · exact absurd hnone hvalue
  · exact iff_of_true (purchaseRecord_unknown hknown) fun r hr hid huser _ => absurd ⟨r, hr, hid, huser⟩ hknown

/-- The calls of `payment_service.py`. -/
inductive Call
  | purchaseRecord (researchRecordId userId : String) (amountCents : Option Int) (createdByClientId : Option String)
  | settleAuthorization (loaded : Option Authorization) (authorizationId : String) (settledAmountCents : Option Int)
      (splitConfig : Option RevenueSplitConfig)
  | refundSettlement (authorizationId : String) (reason : Option String)

namespace Call

def Clean (env : Env) (fk : Bool) (o : Nat → Choice) (d : Db) (t : Txn Db Write) : Call → Prop
  | purchaseRecord recordId userId amount client => GenPay.Clean fk o d t (GenPay.purchaseRecord env recordId userId amount client)
  | settleAuthorization loaded id amount config => GenPay.Clean fk o d t (GenPay.settleAuthorization env loaded id amount config)
  | refundSettlement id reason => GenPay.Clean fk o d t (GenPay.refundSettlement id reason)

/-- Nothing can fail after the first write but a constraint. -/
def ChecksFirst (env : Env) (fk : Bool) (o : Nat → Choice) (n : Nat) (d : Db) : Call → Prop
  | purchaseRecord recordId userId amount client => Sellable env fk o n d recordId userId amount client
  | settleAuthorization .. => True
  | refundSettlement .. => True

end Call

/-- A `ValueError` leaves nothing to clean up just when what it reports is checked before the first write. -/
theorem clean_iff {c : Call} (hd : (t.view (engine fk) d).Constrained) :
    c.Clean env fk o d t ↔ c.ChecksFirst env fk o t.seen.length (t.view (engine fk) d) := by
  cases c with
  | purchaseRecord recordId userId amount client => exact purchaseRecord_clean hd
  | settleAuthorization loaded id amount config => exact iff_of_true settleAuthorization_clean True.intro
  | refundSettlement id reason => exact iff_of_true (refundSettlement_clean hd.account) True.intro

open Sample in
/-- The price of zero cents is refused after the authorization over it is written. -/
theorem zero_leaves_authorization :
    ((purchaseRecord Sample.env (uuid 0 20) (uuid 0 16) (some 0) none).run (engine true) (oracle 1) seeded Txn.fresh).1 =
      .error (.valueError "total_cents must be positive, got 0") ∧
    ((purchaseRecord Sample.env (uuid 0 20) (uuid 0 16) (some 0) none).run (engine true) (oracle 1) seeded Txn.fresh).2.writes =
      [.insertAuthorization (newAuthorization (oracle 1) 2 (uuid 0 20) (uuid 0 16) 0 none)] ∧
    ¬ (Call.purchaseRecord (uuid 0 20) (uuid 0 16) (some 0) none).Clean Sample.env true (oracle 1) seeded Txn.fresh := by
  set call := (purchaseRecord Sample.env (uuid 0 20) (uuid 0 16) (some 0) none).run (engine true) (oracle 1) seeded
    Txn.fresh with hcall
  have herror : call.1 = .error (.valueError "total_cents must be positive, got 0") := by
    rw [hcall]
    decide +kernel
  have hwrites : call.2.writes = [.insertAuthorization (newAuthorization (oracle 1) 2 (uuid 0 20) (uuid 0 16) 0 none)] := by
    rw [hcall]
    decide +kernel
  refine ⟨herror, hwrites, fun hclean => ?_⟩
  have hnone := hclean _ call.2 (Prod.ext herror rfl) (by simp [Exc.asValueError])
  rw [hwrites] at hnone
  cases hnone

open Sample in
theorem clean_iff_seeded :
    (Call.purchaseRecord (uuid 0 20) (uuid 0 16) none none).Clean Sample.env true (oracle 1) seeded Txn.fresh ↔
      (Call.purchaseRecord (uuid 0 20) (uuid 0 16) none none).ChecksFirst Sample.env true (oracle 1) 0 seeded :=
  clean_iff (t := Txn.fresh) seeded_env.sound.constrained

end GenPay
