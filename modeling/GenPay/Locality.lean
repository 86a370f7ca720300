import GenPay.Footprints

/-!
# What the payment code reads and writes

The requests about authorizations keep within a footprint that has the values they name, the values they generate
and what is found under them: on databases in agreement they send the same writes and give the same answer
(`handle_alike`).  Balances are never read for a decision.
-/

namespace GenPay

open ReadCommitted

variable {env : Env} {fk : Bool} {o : Nat → Choice} {F : Set (Column × String)}

/-- The footprint has the generated values, and with an authorization its settlement. -/
structure Covers (F : Set (Column × String)) (o : Nat → Choice) : Prop where
  authorization : ∀ i, (.authorizationsId, (o i).uuid) ∈ F
  reference : ∀ i, (.authorizationsExternalReference,
    "sim_card_auth_" ++ AuthorizationRepository.shortHex (o i).uuid) ∈ F
  settlement : ∀ i, (.settlementsId, (o i).uuid) ∈ F
  transaction : ∀ i, (.transactionsId, (o i).uuid) ∈ F
  settling : ∀ id, (.authorizationsId, id) ∈ F → (.settlementsAuthorization, id) ∈ F

/-! ### Statements -/

theorem draw_alike : draw.Alike (frame fk F) o (fun c c' => c = c' ∧ ∃ i, c = o i) draw :=
  Prog.Alike.query fun i _ _ _ => ⟨rfl, i, rfl⟩

/-- A lookup under a value of the footprint finds the same row. -/
theorem lookup_alike (l : Lookup) {x : String} (hx : (l.column, x) ∈ F) :
    (scalar (l.table fk).rows (l.value · == x)).Alike (frame fk F) o
      (fun r r' => r = r' ∧ ∀ y, r = some y → l.value y = x ∧ l.primary y ∈ F)
      (scalar (l.table fk).rows (l.value · == x)) := by
  refine Prog.Alike.query fun i d d' (h : Agree fk F d d') => ⟨?_, fun y hy => ?_⟩
  · rw [h.lookup l x hx]
  · obtain ⟨hmem, hv⟩ := List.mem_filter.1 (Choice.mem_arrange.1 (List.mem_of_mem_head? hy))
    have hv : l.value y = x := beq_iff_eq.1 hv
    exact ⟨hv, h.closed l y hmem (hv ▸ hx)⟩

/-- Entities are the same. -/
theorem entity_alike {β : Type} (table : Db → List β) (h : ∀ d d', Agree fk F d d' → table d' = table d)
    (p : β → Bool) : (scalar table p).Alike (frame fk F) o (fun r r' => r = r') (scalar table p) :=
  Prog.Alike.query fun i d d' hd => by rw [h d d' hd]

theorem Choice.arrange_map {β γ : Type} (c : Choice) (f : β → γ) (l : List β) :
    c.arrange (l.map f) = (c.arrange l).map f := by
  have horder : ∀ m, m = l.length → ∀ n (hn : n < m) (hn' : n < l.length),
      (c.order m ⟨n, hn⟩ : Nat) = (c.order l.length ⟨n, hn'⟩ : Nat) := by
    rintro _ rfl n _ _
    rfl
  unfold Choice.arrange
  rw [List.map_ofFn]
  refine List.ext_getElem (by simp) fun n hn hn' => ?_
  simp only [List.getElem_ofFn, List.get_eq_getElem, List.getElem_map, Function.comp]
  congr 2
  exact horder _ (List.length_map f) n _ _

/-- The same account, up to its balance. -/
theorem account_alike {p : LedgerAccount → Bool} (hp : ∀ a, p a.core = p a) :
    (scalar Db.accounts p).Alike (frame fk F) o
      (fun r r' => r'.map LedgerAccount.core = r.map LedgerAccount.core) (scalar Db.accounts p) := by
  refine Prog.Alike.query fun i d d' (h : Agree fk F d d') => ?_
  have hhead : ∀ x : Db, (((o i).arrange (x.accounts.filter p)).head?).map LedgerAccount.core =
      ((o i).arrange ((x.accounts.map LedgerAccount.core).filter p)).head? := by
    intro x
    have hfilter : (x.accounts.map LedgerAccount.core).filter p = (x.accounts.filter p).map LedgerAccount.core := by
      rw [List.filter_map]
      congr 2
      funext a
      exact hp a
    rw [hfilter, Choice.arrange_map, List.head?_map]
  rw [hhead, hhead, h.accounts]

theorem exec_alike {w : Write} (hw : w.Within F) :
    (Prog.exec w : Tx Unit).Alike (frame fk F) o (fun _ _ => True) (Prog.exec w) := Prog.Alike.exec hw

/-- The shape of all creators. -/
theorem insert_alike {β : Type} {row : Choice → β} {w : β → Write} (hw : ∀ i, (w (row (o i))).Within F) :
    (do let c ← draw; Prog.exec (w (row c)); return row c : Tx β).Alike (frame fk F) o
      (fun r r' => r = r' ∧ ∃ i, r = row (o i))
      (do let c ← draw; Prog.exec (w (row c)); return row c : Tx β) := by
  refine draw_alike.seq ?_
  rintro _ _ ⟨rfl, i, rfl⟩
  exact (exec_alike (hw i)).seq fun _ _ _ => .ret ⟨rfl, i, rfl⟩

/-! ### Posting -/

theorem adjustBalance_alike (id : String) (delta : Int) : (LedgerAccountRepository.adjustBalance id delta).Alike
    (frame fk F) o (fun _ _ => True) (LedgerAccountRepository.adjustBalance id delta) := by
  have hw : (Write.addBalance id delta).Within F :=
    ⟨rfl, by simp [Write.keys], by simp [Write.references], by simp [Write.lockedRow, Column.isLedger]⟩
  refine (exec_alike hw).seq fun _ _ _ => ?_
  refine (account_alike (p := fun a => a.id == id) fun _ => rfl).seq ?_
  intro r r' h
  cases r with
  | none =>
    rw [Option.map_none, Option.map_eq_none_iff] at h
    subst h
    exact .raise _
  | some a =>
    obtain ⟨a', rfl, -⟩ := Option.map_eq_some_iff.1 h
    exact .ret trivial

theorem within_insertTransaction {t : Transaction} (hid : (.transactionsId, t.id) ∈ F)
    (hs : (.settlementsId, t.settlementId) ∈ F) : (Write.insertTransaction t).Within F :=
  ⟨rfl, by simpa [Write.keys], by simpa [Write.references, Column.isLedger], by simp [Write.lockedRow]⟩

theorem postEntry_alike (hF : Covers F o) {sid : String} (hs : (.settlementsId, sid) ∈ F) (e : LedgerEntry) :
    (postEntry sid e).Alike (frame fk F) o Eq (postEntry sid e) := by
  refine (insert_alike (w := .insertTransaction) fun i => within_insertTransaction (hF.transaction i) hs).seq ?_
  rintro t _ ⟨rfl, -⟩
  exact (adjustBalance_alike _ _).seq fun _ _ _ => .ret rfl

theorem postEach_alike (hF : Covers F o) {sid : String} (hs : (.settlementsId, sid) ∈ F) (es : List LedgerEntry) :
    (postEach sid es).Alike (frame fk F) o Eq (postEach sid es) := by
  induction es with
  | nil => exact .ret rfl
  | cons e es ih =>
    refine (postEntry_alike hF hs e).seq ?_
    rintro t _ rfl
    refine ih.seq ?_
    rintro ts _ rfl
    exact .ret rfl

theorem postEntries_alike (hF : Covers F o) {sid : String} (hs : (.settlementsId, sid) ∈ F) (es : List LedgerEntry) :
    (postEntries sid es).Alike (frame fk F) o Eq (postEntries sid es) := by
  unfold postEntries
  split
  · exact .raise _
  · exact postEach_alike hF hs es

/-! ### Settling -/

theorem transcriptionistAccount_alike (r : ResearchRecord) : (transcriptionistAccount r).Alike (frame fk F) o
    (fun a a' => a'.map LedgerAccount.core = a.map LedgerAccount.core) (transcriptionistAccount r) := by
  unfold transcriptionistAccount
  split
  · exact account_alike (p := fun a => a.ownerUserId == some _) fun _ => rfl
  · exact .ret rfl

theorem ofExcept_alike {β : Type} (r : Except Exc β) :
    (ofExcept r).Alike (frame fk F) o (fun b b' => b = b' ∧ r = .ok b) (ofExcept r) := by
  cases r with
  | ok b => exact .ret ⟨rfl, rfl⟩
  | error e => exact .raise e

/-- Accounts with the same core have the same id. -/
theorem same_account {a a' : Option LedgerAccount} (h : a'.map LedgerAccount.core = a.map LedgerAccount.core) :
    (a = none ∧ a' = none) ∨ ∃ x x', a = some x ∧ a' = some x' ∧ x'.id = x.id := by
  cases a with
  | none =>
    rw [Option.map_none, Option.map_eq_none_iff] at h
    exact Or.inl ⟨rfl, h⟩
  | some x =>
    obtain ⟨x', rfl, hcore⟩ := Option.map_eq_some_iff.1 h
    exact Or.inr ⟨x, x', rfl, rfl, of_core LedgerAccount.id hcore⟩

theorem within_insertSettlement (hF : Covers F o) {x : Settlement} (hid : (.settlementsId, x.id) ∈ F)
    (ha : (.authorizationsId, x.authorizationId) ∈ F) : (Write.insertSettlement x).Within F :=
  ⟨rfl, by simpa [Write.keys] using ⟨hid, hF.settling _ ha⟩, by simpa [Write.references, Column.isLedger],
    by simp [Write.lockedRow]⟩

theorem settleChecked_alike (hF : Covers F o) {a : Authorization} (ha : (.authorizationsId, a.id) ∈ F)
    (r : ResearchRecord) (total : Int) (config : Option RevenueSplitConfig) :
    (settleChecked env a r total config).Alike (frame fk F) o Eq (settleChecked env a r total config) := by
  unfold settleChecked
  refine (ofExcept_alike _).seq ?_
  rintro split _ ⟨rfl, -⟩
  refine (account_alike (p := fun b => b.ownerUserId == some a.userId) fun _ => rfl).seq ?_
  intro researcher researcher' hresearcher
  refine (account_alike (p := fun b => b.ownerArchiveId == some r.archiveId) fun _ => rfl).seq ?_
  intro archive archive' harchive
  refine (account_alike (p := fun b => b.ownerType == .platform) fun _ => rfl).seq ?_
  intro platform platform' hplatform
  -- both sides have the three accounts, or both raise
  obtain ⟨rfl, rfl⟩ | ⟨researcher, researcher', rfl, rfl, h₁⟩ := same_account hresearcher
  · exact .raise _
  obtain ⟨rfl, rfl⟩ | ⟨archive, archive', rfl, rfl, h₂⟩ := same_account harchive
  · exact .raise _
  obtain ⟨rfl, rfl⟩ | ⟨platform, platform', rfl, rfl, h₃⟩ := same_account hplatform
  · exact .raise _
  refine (transcriptionistAccount_alike r).seq ?_
  intro transcriptionist transcriptionist' htranscriptionist
  have h₄ : transcriptionist'.map (·.id) = transcriptionist.map (·.id) := by
    obtain ⟨rfl, rfl⟩ | ⟨x, x', rfl, rfl, hx⟩ := same_account htranscriptionist
    · rfl
    · exact congrArg some hx
  dsimp only
  rw [h₁, h₂, h₃, h₄]
  refine (insert_alike (w := .insertSettlement) fun i => within_insertSettlement hF (hF.settlement i) ha).seq ?_
  rintro x _ ⟨rfl, i, rfl⟩
  refine (postEntries_alike hF (hF.settlement i) _).seq ?_
  rintro ts _ rfl
  exact .ret rfl

theorem getAuthorization_alike {loaded : Option Authorization} {id : String} (hid : (.authorizationsId, id) ∈ F) :
    (AuthorizationRepository.get loaded id).Alike (frame fk F) o (fun r r' => r = r' ∧ ∀ a, r = some a → a.id = id)
      (AuthorizationRepository.get loaded id) := by
  unfold AuthorizationRepository.get
  split
  · rename_i a ha
    have := (Option.filter_eq_some_iff.1 ha).2
    refine .ret ⟨rfl, fun b hb => ?_⟩
    cases hb
    simpa using this
  · exact (lookup_alike .authorization hid).mono fun r r' h => ⟨h.1, fun a ha => (h.2 a ha).1⟩

theorem settleAuthorization_alike (hF : Covers F o) {loaded : Option Authorization} {id : String}
    (hid : (.authorizationsId, id) ∈ F) (amount : Option Int) (config : Option RevenueSplitConfig) :
    (settleAuthorization env loaded id amount config).Alike (frame fk F) o Eq
      (settleAuthorization env loaded id amount config) := by
  unfold settleAuthorization
  refine (getAuthorization_alike hid).seq ?_
  rintro a _ ⟨rfl, ha⟩
  cases a with
  | none => exact .raise _
  | some a =>
  show Prog.Alike _ _ _ (if a.status ≠ .authorized then _ else _) (if a.status ≠ .authorized then _ else _)
  split
  · exact .raise _
  refine (lookup_alike .settlementOf (hF.settling _ hid)).seq ?_
  rintro settled _ ⟨rfl, -⟩
  cases settled with
  | some x => exact .raise _
  | none =>
  refine (entity_alike Db.records (fun _ _ h => h.records) _).seq ?_
  rintro record _ rfl
  cases record with
  | none => exact .raise _
  | some r => exact settleChecked_alike hF (ha a rfl ▸ hid) r _ config

theorem within_insertAuthorization {a : Authorization} (hid : (.authorizationsId, a.id) ∈ F)
    (href : (.authorizationsExternalReference, a.externalReference) ∈ F) : (Write.insertAuthorization a).Within F := by
  refine ⟨rfl, by simpa [Write.keys] using ⟨hid, href⟩, ?_, by simp [Write.lockedRow]⟩
  intro k hk hl
  simp only [Write.references, List.mem_cons, Option.mem_toList, Option.map_eq_some_iff] at hk
  rcases hk with rfl | rfl | ⟨c, -, rfl⟩ <;> cases hl

theorem purchaseRecord_alike (hF : Covers F o) (recordId userId : String) (amount : Option Int)
    (client : Option String) :
    (purchaseRecord env recordId userId amount client).Alike (frame fk F) o Eq
      (purchaseRecord env recordId userId amount client) := by
  unfold purchaseRecord
  refine (entity_alike Db.records (fun _ _ h => h.records) _).seq ?_
  rintro record _ rfl
  cases record with
  | none => exact .raise _
  | some r =>
  refine (entity_alike Db.users (fun _ _ h => h.users) _).seq ?_
  rintro user _ rfl
  cases user with
  | none => exact .raise _
  | some u =>
  have hcreate : (AuthorizationRepository.create recordId userId (amount.getD r.priceCents) client).Alike (frame fk F) o
      (fun a a' => a = a' ∧ (.authorizationsId, a.id) ∈ F)
      (AuthorizationRepository.create recordId userId (amount.getD r.priceCents) client) := by
    refine draw_alike.seq ?_
    rintro _ _ ⟨rfl, i, rfl⟩
    refine (insert_alike (w := .insertAuthorization) fun j =>
      within_insertAuthorization (hF.authorization j) (hF.reference i)).mono ?_
    rintro a _ ⟨rfl, j, rfl⟩
    exact ⟨rfl, hF.authorization j⟩
  refine hcreate.seq ?_
  rintro a _ ⟨rfl, ha⟩
  exact settleAuthorization_alike hF ha none none

/-! ### Refunds -/

theorem markEachReversed_alike (ts : List Transaction) (hts : ∀ t ∈ ts, (.transactionsId, t.id) ∈ F) :
    (markEachReversed ts).Alike (frame fk F) o Eq (markEachReversed ts) := by
  induction ts with
  | nil => exact .ret rfl
  | cons t ts ih =>
    have hw : (Write.setTransactionStatus t.id .reversed).Within F :=
      ⟨rfl, by simp [Write.keys], by simp [Write.references],
        by simpa [Write.lockedRow] using fun _ => hts t (List.mem_cons_self ..)⟩
    have hmark : (TransactionRepository.markReversed t).Alike (frame fk F) o (fun _ _ => True)
        (TransactionRepository.markReversed t) := by
      unfold TransactionRepository.markReversed
      split
      · exact (exec_alike hw).seq fun _ _ _ => .ret trivial
      · exact .ret trivial
    exact hmark.seq fun _ _ _ => ih fun x hx => hts x (List.mem_cons_of_mem _ hx)

theorem listForSettlement_alike {sid : String} (hs : (.settlementsId, sid) ∈ F) :
    (TransactionRepository.listForSettlement sid).Alike (frame fk F) o
      (fun ts ts' => ts = ts' ∧ ∀ t ∈ ts, (.transactionsId, t.id) ∈ F)
      (TransactionRepository.listForSettlement sid) := by
  refine Prog.Alike.query fun i d d' (h : Agree fk F d d') => ?_
  have hl : d'.transactions.filter (·.settlementId == sid) = d.transactions.filter (·.settlementId == sid) :=
    h.lookup .transactionsOf sid hs
  refine ⟨by rw [hl], fun t ht => ?_⟩
  obtain ⟨hmem, hsid⟩ := List.mem_filter.1 (Choice.mem_arrange.1 ht)
  have hsid : t.settlementId = sid := beq_iff_eq.1 hsid
  subst hsid
  exact h.closed .transactionsOf t hmem hs

theorem refundSettlement_alike (hF : Covers F o) {id : String} (hid : (.authorizationsId, id) ∈ F)
    (reason : Option String) :
    (refundSettlement id reason).Alike (frame fk F) o Eq (refundSettlement id reason) := by
  unfold refundSettlement
  refine (getAuthorization_alike hid).seq ?_
  rintro a _ ⟨rfl, ha⟩
  cases a with
  | none => exact .raise _
  | some a =>
  refine (lookup_alike .settlementOf (hF.settling _ hid)).seq ?_
  rintro settlement _ ⟨rfl, hs⟩
  cases settlement with
  | none => exact .raise _
  | some x =>
  have hx : (Column.settlementsId, x.id) ∈ F := (hs x rfl).2
  show Prog.Alike _ _ _ (if x.status ≠ .settled then _ else _) (if x.status ≠ .settled then _ else _)
  split
  · exact .raise _
  refine (listForSettlement_alike hx).seq ?_
  rintro ts _ ⟨rfl, hts⟩
  refine (postEntries_alike hF hx _).seq ?_
  rintro reversals _ rfl
  refine (markEachReversed_alike ts hts).seq fun _ _ _ => ?_
  have hw : (Write.setSettlementStatus x.id .reversed).Within F :=
    ⟨rfl, by simp [Write.keys], by simp [Write.references], by simpa [Write.lockedRow] using fun _ => hx⟩
  have hmark : (SettlementRepository.markReversed x).Alike (frame fk F) o Eq (SettlementRepository.markReversed x) :=
    (exec_alike hw).seq fun _ _ _ => .ret rfl
  refine hmark.seq ?_
  rintro y _ rfl
  exact .ret rfl

/-! ### Card authorizations -/

theorem settlingUser_alike (event : CardAuthorizationEvent) :
    (settlingUser event).Alike (frame fk F) o Eq (settlingUser event) := by
  unfold settlingUser
  split
  · exact .ret rfl
  have husers : (UserRepository.listAll 50 0).Alike (frame fk F) o Eq (UserRepository.listAll 50 0) :=
    Prog.Alike.query fun i d d' (h : Agree fk F d d') => by rw [h.users]
  refine husers.seq ?_
  rintro users _ rfl
  cases (users.filter (·.role == .researcher)).head? with
  | some u => exact .ret rfl
  | none => exact .raise _

theorem handleCardAuthorization_alike (hF : Covers F o) (event : CardAuthorizationEvent) :
    (handleCardAuthorization env event).Alike (frame fk F) o Eq (handleCardAuthorization env event) := by
  unfold handleCardAuthorization
  split
  · exact .raise _
  refine (entity_alike Db.records (fun _ _ h => h.records) _).seq ?_
  rintro record _ rfl
  cases record with
  | none => exact .raise _
  | some r =>
  refine (settlingUser_alike event).seq ?_
  rintro userId _ rfl
  refine (entity_alike Db.clients (fun _ _ h => h.clients) _).seq ?_
  rintro client _ rfl
  refine (ofExcept_alike _).seq ?_
  rintro amount _ ⟨rfl, -⟩
  exact purchaseRecord_alike hF _ _ _ _

/-! ### Processor events -/

/-- The external references in the data of an event. -/
inductive ProcessorEventEnvelope.Mentions (env : Env) (e : ProcessorEventEnvelope) : String → Prop
  | created {payload} (ht : e.eventType = .authorizationCreated) (hv : env.validateCreated e.data = .ok payload) :
    e.Mentions env payload.authorizationId
  | approved {payload} (ht : e.eventType = .authorizationApproved) (hv : env.validateApproved e.data = .ok payload) :
    e.Mentions env payload.authorizationId
  | declined {payload} (ht : e.eventType = .authorizationDeclined) (hv : env.validateDeclined e.data = .ok payload) :
    e.Mentions env payload.authorizationId
  | settled {payload} (ht : e.eventType = .settlementCompleted) (hv : env.validateSettlement e.data = .ok payload)
    {reference} (hr : reference ∈ payload.authorizationIds) : e.Mentions env reference

theorem modelValidate_alike {β : Type} (r : Except String β) :
    (modelValidate r).Alike (frame fk F) o (fun b b' => b = b' ∧ r = .ok b) (modelValidate r) := by
  cases r with
  | ok b => exact .ret ⟨rfl, rfl⟩
  | error e => exact .raise _

theorem requireAuthorization_alike {reference : String} (hr : (.authorizationsExternalReference, reference) ∈ F) :
    (requireAuthorization reference).Alike (frame fk F) o (fun a a' => a = a' ∧ (.authorizationsId, a.id) ∈ F)
      (requireAuthorization reference) := by
  unfold requireAuthorization
  refine (lookup_alike .reference hr).seq ?_
  rintro a _ ⟨rfl, ha⟩
  cases a with
  | none => exact .raise _
  | some a => exact .ret ⟨rfl, (ha a rfl).2⟩

theorem requirePending_alike {reference : String} (hr : (.authorizationsExternalReference, reference) ∈ F)
    (verb : String) : (requirePending verb reference).Alike (frame fk F) o
      (fun a a' => a = a' ∧ (.authorizationsId, a.id) ∈ F) (requirePending verb reference) := by
  unfold requirePending
  refine (requireAuthorization_alike hr).seq ?_
  rintro a _ ⟨rfl, ha⟩
  show Prog.Alike _ _ _ (if a.status ≠ .pending then _ else _) (if a.status ≠ .pending then _ else _)
  split
  · exact .raise _
  · exact .ret ⟨rfl, ha⟩

theorem setAuthorizationStatus_alike {id : String} (hid : (.authorizationsId, id) ∈ F) (status : AuthorizationStatus)
    (reason : Option String) : (Prog.exec (.setAuthorizationStatus id status reason) : Tx Unit).Alike (frame fk F) o
      (fun _ _ => True) (Prog.exec (.setAuthorizationStatus id status reason)) :=
  exec_alike ⟨rfl, by simp [Write.keys], by simp [Write.references], by simpa [Write.lockedRow] using fun _ => hid⟩

theorem handleAuthorizationCreated_alike (hF : Covers F o) {data : List (String × Value)}
    (hr : ∀ payload, env.validateCreated data = .ok payload →
      (.authorizationsExternalReference, payload.authorizationId) ∈ F) :
    (handleAuthorizationCreated env data).Alike (frame fk F) o Eq (handleAuthorizationCreated env data) := by
  unfold handleAuthorizationCreated
  refine (modelValidate_alike _).seq ?_
  rintro payload _ ⟨rfl, hv⟩
  refine (lookup_alike .reference (hr payload hv)).seq ?_
  rintro a _ ⟨rfl, -⟩
  cases a with
  | some a => exact .raise _
  | none =>
  refine (entity_alike Db.records (fun _ _ h => h.records) _).seq ?_
  rintro record _ rfl
  cases record with
  | none => exact .raise _
  | some r =>
  refine (entity_alike Db.users (fun _ _ h => h.users) _).seq ?_
  rintro user _ rfl
  cases user with
  | none => exact .raise _
  | some u =>
  refine (entity_alike Db.clients (fun _ _ h => h.clients) _).seq ?_
  rintro client _ rfl
  refine (insert_alike (w := .insertAuthorization) fun i =>
    within_insertAuthorization (hF.authorization i) (hr payload hv)).seq ?_
  rintro a _ ⟨rfl, -⟩
  exact .ret rfl

theorem handleAuthorizationApproved_alike {data : List (String × Value)}
    (hr : ∀ payload, env.validateApproved data = .ok payload →
      (.authorizationsExternalReference, payload.authorizationId) ∈ F) :
    (handleAuthorizationApproved env data).Alike (frame fk F) o Eq (handleAuthorizationApproved env data) := by
  unfold handleAuthorizationApproved
  refine (modelValidate_alike _).seq ?_
  rintro payload _ ⟨rfl, hv⟩
  refine (requirePending_alike (hr payload hv) _).seq ?_
  rintro a _ ⟨rfl, ha⟩
  have hmark : (AuthorizationRepository.markApproved a).Alike (frame fk F) o Eq
      (AuthorizationRepository.markApproved a) := (setAuthorizationStatus_alike ha _ _).seq fun _ _ _ => .ret rfl
  refine hmark.seq ?_
  rintro b _ rfl
  exact .ret rfl

theorem handleAuthorizationDeclined_alike {data : List (String × Value)}
    (hr : ∀ payload, env.validateDeclined data = .ok payload →
      (.authorizationsExternalReference, payload.authorizationId) ∈ F) :
    (handleAuthorizationDeclined env data).Alike (frame fk F) o Eq (handleAuthorizationDeclined env data) := by
  unfold handleAuthorizationDeclined
  refine (modelValidate_alike _).seq ?_
  rintro payload _ ⟨rfl, hv⟩
  refine (requirePending_alike (hr payload hv) _).seq ?_
  rintro a _ ⟨rfl, ha⟩
  have hmark : (AuthorizationRepository.markDeclined a payload.declineReason).Alike (frame fk F) o Eq
      (AuthorizationRepository.markDeclined a payload.declineReason) :=
    (setAuthorizationStatus_alike ha _ _).seq fun _ _ _ => .ret rfl
  refine hmark.seq ?_
  rintro b _ rfl
  exact .ret rfl

theorem settleEach_alike (hF : Covers F o) (references : List String)
    (hr : ∀ reference ∈ references, (.authorizationsExternalReference, reference) ∈ F) :
    (settleEach env references).Alike (frame fk F) o Eq (settleEach env references) := by
  induction references with
  | nil => exact .ret rfl
  | cons reference references ih =>
    refine (requireAuthorization_alike (hr reference (List.mem_cons_self ..))).seq ?_
    rintro a _ ⟨rfl, ha⟩
    refine (settleAuthorization_alike hF ha none none).seq ?_
    rintro result _ rfl
    refine (ih fun x hx => hr x (List.mem_cons_of_mem _ hx)).seq ?_
    rintro results _ rfl
    exact .ret rfl

theorem handleSettlementCompleted_alike (hF : Covers F o) {data : List (String × Value)}
    (hr : ∀ payload, env.validateSettlement data = .ok payload → ∀ reference ∈ payload.authorizationIds,
      (.authorizationsExternalReference, reference) ∈ F) :
    (handleSettlementCompleted env data).Alike (frame fk F) o Eq (handleSettlementCompleted env data) := by
  unfold handleSettlementCompleted
  refine (modelValidate_alike _).seq ?_
  rintro payload _ ⟨rfl, hv⟩
  refine (settleEach_alike hF _ (hr payload hv)).seq ?_
  rintro results _ rfl
  exact .ret rfl

theorem handleEvent_alike (hF : Covers F o) {e : ProcessorEventEnvelope}
    (hr : ∀ reference, e.Mentions env reference → (.authorizationsExternalReference, reference) ∈ F) :
    (handleEvent env e).Alike (frame fk F) o Eq (handleEvent env e) := by
  have hhandler : (handler env e.eventType e.data).Alike (frame fk F) o Eq (handler env e.eventType e.data) := by
    cases ht : e.eventType with
    | authorizationCreated => exact handleAuthorizationCreated_alike hF fun p hv => hr _ (.created ht hv)
    | authorizationApproved => exact handleAuthorizationApproved_alike fun p hv => hr _ (.approved ht hv)
    | authorizationDeclined => exact handleAuthorizationDeclined_alike fun p hv => hr _ (.declined ht hv)
    | settlementCompleted => exact handleSettlementCompleted_alike hF fun p hv x hx => hr _ (.settled ht hv hx)
  refine hhandler.tryCatch fun x => ?_
  cases x <;> exact .raise _

/-! ### Routes -/

theorem exceptValueError_alike {β : Type} {p : Tx β} {h : String → Exc} (hp : p.Alike (frame fk F) o Eq p) :
    (exceptValueError p h).Alike (frame fk F) o Eq (exceptValueError p h) := by
  refine hp.tryCatch fun e => ?_
  cases e.asValueError <;> exact .raise _

/-- A claim is a write whose violation the program handles. -/
theorem claim_alike {w : Write} (hw : w.Within F) :
    (Prog.write w fun r => match r with
      | none => Prog.ret true
      | some .integrityError => Prog.rollback (Prog.ret false)
      | some e => Prog.raise e : Tx Bool).Alike (frame fk F) o Eq
    (Prog.write w fun r => match r with
      | none => Prog.ret true
      | some .integrityError => Prog.rollback (Prog.ret false)
      | some e => Prog.raise e : Tx Bool) := by
  refine .write hw fun r => ?_
  cases r with
  | none => exact .ret rfl
  | some e => cases e <;> first | exact .rollback (.ret rfl) | exact .raise _

theorem purchase_alike (hF : Covers F o) {key : String} (hk : (.idempotencyKeysKey, key) ∈ F) (data : PurchaseRequest)
    (client : ApiClient) :
    (purchase env data key client).Alike (frame fk F) o Eq (purchase env data key client) := by
  have hget : (IdempotencyKeyRepository.get key).Alike (frame fk F) o Eq (IdempotencyKeyRepository.get key) := by
    refine (lookup_alike .idempotencyKey hk).seq ?_
    rintro record _ ⟨rfl, -⟩
    cases record <;> exact .ret rfl
  have hinsert : (Write.insertIdempotencyKey ⟨key, none⟩).Within F :=
    ⟨rfl, by simpa [Write.keys], by simp [Write.references], by simp [Write.lockedRow]⟩
  have hset : ∀ result, (Write.setResponseBody key result).Within F := fun result =>
    ⟨rfl, by simp [Write.keys], by simp [Write.references], by simpa [Write.lockedRow] using fun _ => hk⟩
  have hstore : ∀ result, (IdempotencyKeyRepository.storeResult key result).Alike (frame fk F) o (fun _ _ => True)
      (IdempotencyKeyRepository.storeResult key result) := by
    intro result
    refine (lookup_alike .idempotencyKey hk).seq ?_
    rintro record _ ⟨rfl, hrecord⟩
    cases record with
    | none => exact .raise _
    | some k =>
      have hkey : k.key = key := (hrecord k rfl).1
      show (Prog.exec (.setResponseBody k.key result) : Tx Unit).Alike _ _ _ (Prog.exec (.setResponseBody k.key result))
      rw [hkey]
      exact exec_alike (hset result)
  unfold purchase
  refine hget.seq ?_
  rintro cached _ rfl
  cases cached with
  | some result => exact .ret rfl
  | none =>
  refine (claim_alike hinsert).seq ?_
  rintro claimed _ rfl
  cases claimed with
  | false => exact .raise _
  | true =>
    refine (exceptValueError_alike (purchaseRecord_alike hF _ _ _ _)).seq ?_
    rintro result _ rfl
    exact (hstore result).seq fun _ _ _ => .ret rfl

theorem processEnvelope_alike (hF : Covers F o) {e : ProcessorEventEnvelope} (he : (.eventsEventId, e.eventId) ∈ F)
    (hr : ∀ reference, e.Mentions env reference → (.authorizationsExternalReference, reference) ∈ F) :
    (processEnvelope env e).Alike (frame fk F) o Eq (processEnvelope env e) := by
  have hinsert : (Write.insertEvent ⟨e.eventId, e.eventType.value⟩).Within F :=
    ⟨rfl, by simpa [Write.keys], by simp [Write.references], by simp [Write.lockedRow]⟩
  unfold processEnvelope
  refine (claim_alike hinsert).seq ?_
  rintro claimed _ rfl
  cases claimed with
  | false => exact .ret rfl
  | true =>
    refine (exceptValueError_alike (handleEvent_alike hF hr)).seq ?_
    rintro result _ rfl
    exact .ret rfl

/-- The jobs that change something about authorizations. -/
def Job.changesAuthorizations : Job → Bool
  | .request r => match r.route with
    | .purchase .. | .refundPurchase .. | .cardAuthorization | .processorEvents => true
    | _ => false
  | _ => false

/-- The values of unique columns that a job carries. -/
inductive Job.Names (env : Env) : Job → Column × String → Prop
  | key {r data key} (hr : r.route = .purchase data (some key)) : Names env (.request r) (.idempotencyKeysKey, key)
  | refund {r id data} (hr : r.route = .refundPurchase id data) : Names env (.request r) (.authorizationsId, id)
  | event {r e} (hr : r.route = .processorEvents) (hp : env.parseEnvelope r.rawBody = .ok e) :
    Names env (.request r) (.eventsEventId, e.eventId)
  | reference {r e x} (hr : r.route = .processorEvents) (hp : env.parseEnvelope r.rawBody = .ok e)
    (hx : e.Mentions env x) : Names env (.request r) (.authorizationsExternalReference, x)

theorem Job.Names.column {job : Job} {k : Column × String} (h : job.Names env k) :
    k.1 ∈ [.idempotencyKeysKey, .authorizationsId, .eventsEventId, .authorizationsExternalReference] := by
  cases h <;> simp

theorem requireApiKey_alike (key : Option String) :
    (requireApiKey env key).Alike (frame fk F) o Eq (requireApiKey env key) := by
  unfold requireApiKey
  cases key with
  | none => exact .raise _
  | some key =>
  refine (entity_alike Db.clients (fun _ _ h => h.clients) _).seq ?_
  rintro client _ rfl
  cases client with
  | none => exact .raise _
  | some c =>
    show Prog.Alike _ _ _ (if c.isActive then _ else _) (if c.isActive then _ else _)
    split
    · exact .ret rfl
    · exact .raise _

theorem withApiKey_alike {β : Type} {p : ApiClient → Tx β} (r : Request)
    (hp : ∀ client, (p client).Alike (frame fk F) o Eq (p client)) :
    (withApiKey env r p).Alike (frame fk F) o Eq (withApiKey env r p) := by
  refine (requireApiKey_alike _).seq ?_
  rintro client _ rfl
  exact hp client

theorem respond_alike {β : Type} {f : β → Response} {p : Tx β} (hp : p.Alike (frame fk F) o Eq p) :
    (respond f p).Alike (frame fk F) o Eq (respond f p) := by
  refine hp.seq ?_
  rintro a _ rfl
  exact .ret rfl

theorem validated_alike {β : Type} (a : Option β) :
    (validated a).Alike (frame fk F) o (fun b b' => b = b' ∧ a = some b) (validated a) := by
  cases a with
  | some b => exact .ret ⟨rfl, rfl⟩
  | none => exact .raise _

/-- A job about authorizations keeps within every footprint that has what it names and generates. -/
theorem handle_alike (hF : Covers F o) {job : Job} (hjob : job.changesAuthorizations = true)
    (hnames : ∀ k, job.Names env k → k ∈ F) : (handle env job).Alike (frame fk F) o Eq (handle env job) := by
  cases job with
  | seed => cases hjob
  | reconcileScript => cases hjob
  | request r =>
  show (route env r).Alike (frame fk F) o Eq (route env r)
  unfold route
  cases hr : r.route with
  | purchase data key =>
    refine withApiKey_alike r fun client => respond_alike ?_
    refine (validated_alike data).seq ?_
    rintro data _ ⟨rfl, -⟩
    refine (validated_alike key).seq ?_
    rintro key _ ⟨rfl, hkey⟩
    exact purchase_alike hF (hnames _ (.key (hkey ▸ hr))) _ _
  | refundPurchase id data =>
    refine withApiKey_alike r fun client => respond_alike ?_
    refine (validated_alike data).seq ?_
    rintro data _ ⟨rfl, -⟩
    exact exceptValueError_alike (refundSettlement_alike hF (hnames _ (.refund hr)) _)
  | cardAuthorization =>
    refine respond_alike ?_
    unfold cardAuthorization
    cases env.parseCardAuthorization r.rawBody with
    | error msg => exact .raise _
    | ok event => exact exceptValueError_alike (handleCardAuthorization_alike hF event)
  | processorEvents =>
    refine (ofExcept_alike _).seq ?_
    rintro rawBody _ ⟨rfl, hv⟩
    obtain ⟨rfl, -⟩ := verify_ok hv
    unfold processorEvents
    cases hp : env.parseEnvelope r.rawBody with
    | error msg => exact .raise _
    | ok e => exact processEnvelope_alike hF (hnames _ (.event hr hp)) fun x hx => hnames _ (.reference hr hp hx)
  | _ =>
    simp only [Job.changesAuthorizations, hr] at hjob
    cases hjob

end GenPay
