import GenPay.Sending
import GenPay.Totals

/-!
# Currencies

Every account is opened and every row posted in US dollars.  The currency that an `authorization.created` event names
is read with its payload and not kept: the event is handled as the same event in any other currency would be, and what
is posted for its authorization is in dollars (`booked_in_dollars`).
-/

namespace GenPay

open ReadCommitted
open Prog (Within)

variable {env : Env} {fk : Bool} {o : Nat → Choice} {d₀ : Db} {s : AppSystem}

def Write.InDollars : Write → Prop
  | .insertAccount a => a.currency = "USD"
  | .insertTransaction t => t.currency = "USD"
  | _ => True

structure Db.InDollars (d : Db) : Prop where
  accounts : ∀ a ∈ d.accounts, a.currency = "USD"
  transactions : ∀ t ∈ d.transactions, t.currency = "USD"

/-- Updates change no currency. -/
theorem Db.InDollars.apply {d : Db} {w : Write} (hw : w.InDollars) (h : d.InDollars) : (d.apply w).InDollars := by
  have haccounts : (d.apply w).accounts = d.accounts.map w.onAccount ++ w.account?.toList :=
    (accountTable true).rows_apply d w
  have htransactions : (d.apply w).transactions = d.transactions.map w.onTransaction ++ w.transaction?.toList :=
    (transactionTable true).rows_apply d w
  constructor
  · intro a ha
    rw [haccounts, List.mem_append] at ha
    rcases ha with ha | ha
    · obtain ⟨b, hb, rfl⟩ := List.mem_map.1 ha
      exact (of_core LedgerAccount.currency (w.onAccount_core b)).trans (h.accounts b hb)
    · cases w with
      | insertAccount b =>
        cases List.mem_singleton.1 ha
        exact hw
      | _ => cases ha
  · intro t ht
    rw [htransactions, List.mem_append] at ht
    rcases ht with ht | ht
    · obtain ⟨u, hu, rfl⟩ := List.mem_map.1 ht
      exact (of_core Transaction.currency (w.onTransaction_core u)).trans (h.transactions u hu)
    · cases w with
      | insertTransaction u =>
        cases List.mem_singleton.1 ht
        exact hw
      | _ => cases ht

/-! ### What the code posts -/

/-- The assertion that all is in dollars. -/
abbrev inDollars : Assertion Db Write := Assertion.each Write.InDollars

theorem quiet_inDollars : LeavesQuiet inDollars := by
  intro w hw
  refine Assertion.each_quiet.2 ?_
  cases w <;> first | exact True.intro | cases hw

theorem postEntries_inDollars (sid : String) (es : List LedgerEntry) :
    (postEntries sid es).Within (engine fk) o inDollars := by
  have hentry : ∀ e, (postEntry sid e).Within (engine fk) o inDollars := by
    intro e
    have hinsert : (TransactionRepository.create e.ledgerAccountId sid e.type e.amountCents .posted).Within (engine fk) o
        inDollars := insert_within (w := .insertTransaction) fun _ => Assertion.each_quiet.2 rfl
    refine hinsert.bind fun t => ?_
    refine Within.bind ?_ fun _ => Within.ret _
    refine (Within.exec (Assertion.each_quiet.2 True.intro)).bind fun _ => scalar_within.bind fun a => ?_
    cases a with
    | some a => exact Within.ret a
    | none => exact Within.raise _
  have heach : (postEach sid es).Within (engine fk) o inDollars := by
    induction es with
    | nil => exact Within.ret _
    | cons e es ih => exact (hentry e).bind fun _ => ih.bind fun _ => Within.ret _
  unfold postEntries
  split
  · exact valueError_within _
  · exact heach

theorem settleChecked_inDollars (a : Authorization) (r : ResearchRecord) (total : Int)
    (config : Option RevenueSplitConfig) : (settleChecked env a r total config).Within (engine fk) o inDollars := by
  unfold settleChecked
  refine (ofExcept_within _).bind fun split => scalar_within.bind fun researcher => scalar_within.bind fun archive =>
    scalar_within.bind fun platform => ?_
  split
  · refine (transcriptionistAccount_within r).bind fun transcriptionist => ?_
    refine (insert_within (w := .insertSettlement) fun _ => Assertion.each_quiet.2 True.intro).bind fun x => ?_
    exact (postEntries_inDollars _ _).bind fun _ => Within.ret _
  · exact valueError_within _

theorem refundSettlement_inDollars (id : String) (reason : Option String) :
    (refundSettlement id reason).Within (engine fk) o inDollars := by
  unfold refundSettlement
  refine getAuthorization_within.bind fun a => ?_
  cases a with
  | none => exact valueError_within _
  | some a =>
    refine scalar_within.bind fun x => ?_
    cases x with
    | none => exact valueError_within _
    | some x =>
      dsimp only
      split
      · exact valueError_within _
      · refine scalars_within.bind fun ts => (postEntries_inDollars _ _).bind fun _ => (markEachReversed_within quiet_inDollars ts).bind fun _ => ?_
        exact ((Within.exec (quiet_inDollars _ rfl)).bind fun _ => Within.ret _).bind fun _ => Within.ret _

theorem founds_inDollars : FoundsWithin fk o inDollars where
  quiet w hw := by
    refine Assertion.each_quiet.2 ?_
    cases w <;> first | exact True.intro | cases hw
  account _ _ _ := insert_within (w := .insertAccount) fun _ => Assertion.each_quiet.2 rfl

/-! ### Runs -/

/-- In every run from rows in dollars all rows are in dollars. -/
theorem run_inDollars (h₀ : d₀.InDollars) (h : Reachable (genPay env) d₀ s) : s.db.InDollars :=
  Run.keeps (S := genPay env) (fun _ _ => handle_within quiet_inDollars (fun _ => founds_inDollars)
    (fun _ => settleChecked_inDollars) fun _ => refundSettlement_inDollars) (fun _ _ hw hd => hd.apply hw) h₀ h

theorem Seeded.inDollars (h : Seeded env d₀) : d₀.InDollars := by
  obtain ⟨o, rfl⟩ := h
  have hidle : ∀ u ∈ ([] : List AppSession), u.held = [] := by simp
  obtain ⟨t, -, -, -, hrun, -⟩ := serve_run (S := genPay env) (G := fun _ _ => True) (fun _ _ => True.intro) hidle
    .seed o (d := Db.empty)
  have hempty : Db.empty.InDollars := ⟨by simp [Db.empty], by simp [Db.empty]⟩
  exact run_inDollars hempty hrun

/-- A delivery of an `authorization.created` event. -/
def Job.creates (env : Env) (payload : AuthorizationCreatedData) : Job → Prop
  | .request r => r.route = .processorEvents ∧ ∃ envelope, env.parseEnvelope r.rawBody = .ok envelope ∧
      envelope.eventType = .authorizationCreated ∧ env.validateCreated envelope.data = .ok payload
  | _ => False

/-- The event is handled without a look at its currency. -/
theorem handleAuthorizationCreated_currency {data data' : List (String × Value)} {payload : AuthorizationCreatedData}
    {c : String} (h : env.validateCreated data = .ok payload)
    (h' : env.validateCreated data' = .ok { payload with currency := c }) :
    handleAuthorizationCreated env data' = handleAuthorizationCreated env data := by
  unfold handleAuthorizationCreated
  rw [h, h']
  rfl

/-- Whatever currency an event names, all that is posted for its authorization is in dollars, on accounts in dollars;
and the event is handled as in any other currency. -/
theorem booked_in_dollars (h₀ : Seeded env d₀) (h : Reachable (genPay env) d₀ s) :
    s.db.InDollars ∧
    (∀ t ∈ s.sessions, ∀ payload, t.job.creates env payload → ∀ a, .insertAuthorization a ∈ t.published →
      ∀ x ∈ s.db.settlements, x.authorizationId = a.id → ∀ y ∈ s.db.rowsOf x.id,
        ∃ b ∈ s.db.accounts, b.id = y.ledgerAccountId ∧
          (y.currency = payload.currency ∧ b.currency = payload.currency ↔ payload.currency = "USD")) ∧
    ∀ data data' payload currency, env.validateCreated data = .ok payload →
      env.validateCreated data' = .ok { payload with currency := currency } →
      handler env .authorizationCreated data' = handler env .authorizationCreated data := by
  have hdollars := run_inDollars h₀.inDollars h
  refine ⟨hdollars, ?_, fun data data' payload currency hdata hdata' => handleAuthorizationCreated_currency hdata hdata'⟩
  intro t _ payload _ a _ x _ _ y hy
  have hy : y ∈ s.db.transactions := (List.mem_filter.1 hy).1
  obtain ⟨b, hb, hid⟩ := List.mem_map.1 ((run_sound h₀.sound h).account y hy)
  refine ⟨b, hb, hid, ?_⟩
  rw [hdollars.transactions y hy, hdollars.accounts b hb, and_self, eq_comm]

/-! ### A purchase in euros -/

namespace Sample

def inEuros : Signed := .created "evt_1" "auth_1" "EUR" "46da02969fff64dfbcad5646460d07cba913c28dc039e8a90050637e144c6046"

/-- An authorization over 599 euro cents is created, approved and settled. -/
def euros : List Signed :=
  [inEuros, .approved "evt_2" "auth_1" "694e51aee0bbcf45cc098462e760451d1fc311ed2780672811ad64b457b791be", exact]

theorem euros_sendable : Sendable euros := ⟨by decide +kernel, by decide +kernel, by decide +kernel⟩

theorem eurosSettled_eq : (genPay (envOf euros)).serveAll seeded (arrivals euros 3) =
    Service.serveAll { genPay (envOf euros) with handle := handleSigned euros } seeded (arrivals euros 3) :=
  serveAll_arrivals euros_sendable (by decide) seeded

/-- The three events as steps of one system. -/
def eurosJobs : List (Job × Nat) := ((arrivals euros 3).map Prod.fst).zip [8, 4, 27]

def eurosBooked : AppSystem := scheduled (envOf euros) seeded (fun _ _ => true) (inTurn 1 eurosJobs)

theorem eurosBooked_eq : eurosBooked = ((System.initial seeded).schedule
    { genPay (envOf euros) with handle := handleSigned euros } (fun _ _ => true) (inTurn 1 eurosJobs)).getD
      (System.initial seeded) := by
  refine scheduled_inTurn seeded _ fun job hjob => ?_
  obtain ⟨⟨job, n⟩, hmem, rfl⟩ := List.mem_map.1 hjob
  obtain ⟨r, hr, rfl⟩ := List.mem_map.1 (List.of_mem_zip hmem).1
  exact handleSigned_arrivals euros_sendable (by decide) hr

theorem inEuros_creates : Job.creates (envOf euros) ⟨"auth_1", ⟨uuid 0 20, uuid 0 16⟩, 599, "EUR", "4242", "visa"⟩
    (.request (inEuros.arrives 0)) := by
  have hdelivers := euros_sendable.delivers (List.mem_cons_self : inEuros ∈ euros) (Nat.zero_le 300)
  exact ⟨rfl, inEuros.envelope, hdelivers.parsed, rfl, rfl⟩

end Sample

open Sample in
/-- All three events are processed: 599 euro cents are 599 cents in dollars. -/
theorem euros_in_dollars : ∃ s : AppSystem, Reachable (genPay (envOf euros)) seeded s ∧
    s.db = (genPay (envOf euros)).serveAll seeded (arrivals euros 3) ∧
    (envOf euros).validateCreated inEuros.envelope.data =
      .ok ⟨"auth_1", ⟨uuid 0 20, uuid 0 16⟩, 599, "EUR", "4242", "visa"⟩ ∧
    s.db.events.map (·.eventId) = ["evt_1", "evt_2", "evt_3"] ∧
    s.db.authorizations.map (fun a => (a.externalReference, a.amountCents)) = [("auth_1", 599)] ∧
    s.db.settlements.map (·.authorizationId) = s.db.authorizations.map (·.id) ∧
    s.db.transactions.map (fun t => (t.amountCents, t.currency)) = [(599, "USD"), (419, "USD"), (120, "USD"), (60, "USD")] ∧
    ∀ t ∈ s.db.transactions, ∃ b ∈ s.db.accounts, b.id = t.ledgerAccountId ∧ b.currency = "USD" ∧
      b.balanceCents = t.delta := by
  obtain ⟨s, hs, hdb, -⟩ := reachable_serveAll (envOf euros) seeded (arrivals euros 3)
  refine ⟨s, hs, hdb, ?_⟩
  rw [hdb, eurosSettled_eq]
  decide +kernel

open Sample in
/-- The session that creates the authorization in euros, and the rows of its settlement. -/
theorem booked_in_dollars_euros : Reachable (genPay (envOf euros)) seeded eurosBooked ∧
    eurosBooked.db.transactions.length = 4 ∧ eurosBooked.db.InDollars ∧
    (∃ t ∈ eurosBooked.sessions,
      t.job.creates (envOf euros) ⟨"auth_1", ⟨uuid 0 20, uuid 0 16⟩, 599, "EUR", "4242", "visa"⟩ ∧
      ∃ a, .insertAuthorization a ∈ t.published ∧ ∃ x ∈ eurosBooked.db.settlements, x.authorizationId = a.id ∧
        (eurosBooked.db.rowsOf x.id).length = 4 ∧ ∀ y ∈ eurosBooked.db.rowsOf x.id, ∃ b ∈ eurosBooked.db.accounts,
          b.id = y.ledgerAccountId ∧ (y.currency = "EUR" ∧ b.currency = "EUR" ↔ "EUR" = "USD")) ∧
    handler (envOf euros) .authorizationCreated (Signed.created "evt_1" "auth_1" "USD" "").envelope.data =
      handler (envOf euros) .authorizationCreated inEuros.envelope.data := by
  have hrun : Reachable (genPay (envOf euros)) seeded eurosBooked := run_scheduled (fun _ _ _ => True.intro) _
  obtain ⟨hdollars, hbooked, hcurrency⟩ := booked_in_dollars (seeded_envOf euros) hrun
  refine ⟨hrun, by rw [eurosBooked_eq]; decide +kernel, hdollars, ?_, hcurrency _ _ _ "USD" rfl rfl⟩
  have hstate : ∃ t ∈ eurosBooked.sessions, (t.oracle 0).uuid = uuid 1 0 ∧
      ∃ a ∈ t.published.filterMap Write.authorization?, ∃ x ∈ eurosBooked.db.settlements, x.authorizationId = a.id ∧
        (eurosBooked.db.rowsOf x.id).length = 4 := by
    rw [eurosBooked_eq]
    decide +kernel
  obtain ⟨t, ht, horacle, a, ha, x, hx, hid, hlength⟩ := hstate
  have hjob : t.job = .request (inEuros.arrives 0) := by
    obtain ⟨i, n, hi, ho⟩ := start_inTurn (started_of_scheduled ht)
    rw [ho] at horacle
    have hi₀ : i = 0 := by
      have := uuid_inj horacle
      omega
    subst hi₀
    exact (congrArg Prod.fst (Option.some.inj hi)).symm
  have ha : .insertAuthorization a ∈ t.published := by
    obtain ⟨w, hw, hwa⟩ := List.mem_filterMap.1 ha
    cases w <;> cases hwa
    exact hw
  have hcreates := hjob.symm ▸ inEuros_creates
  exact ⟨t, ht, hcreates, a, ha, x, hx, hid, hlength, hbooked t ht _ hcreates a ha x hx hid⟩

end GenPay
