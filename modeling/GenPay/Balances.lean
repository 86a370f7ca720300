import GenPay.Currency
import GenPay.EndToEnd

/-!
# The range of balances

A session inserts a row and then changes the balance of its account, so that every balance that `adjust_balance`
leaves is what is posted on the account, credits less debits, the session's own rows included
(`adjusted_in_range`).  Nothing takes from what accumulates: two purchases leave the range of the column
(`balance_overflows`).
-/

namespace GenPay

open ReadCommitted DoubleEntry
open Prog (Within WithinAt sends_seq sends_query sends_exec wp_seq_end)

variable {env : Env} {fk : Bool} {o : Nat → Choice} {d d₀ : Db} {s : AppSystem} {ws : List Write}

/-! ### Pairs of writes -/

/-- No amount is negative; the type says the sign. -/
def UnsignedRows (ws : List Write) : Prop := ∀ y, .insertTransaction y ∈ ws → 0 ≤ y.amountCents

def Db.Unsigned (d : Db) : Prop := ∀ y ∈ d.transactions, 0 ≤ y.amountCents

/-- Between statements, a session that opens no account has changed balances as it has posted. -/
structure InPairs (ws : List Write) : Prop where
  paired : Paired ws
  unsigned : UnsignedRows ws
  opened : ∀ a, .insertAccount a ∉ ws

/-- At any time, if the last write is a change of balance. -/
structure Adjusting (ws : List Write) : Prop where
  unsigned : UnsignedRows ws
  adjusted : ∀ ws' id n, ws = ws' ++ [.addBalance id n] → InPairs ws

theorem inPairs_nil : InPairs [] := ⟨fun _ => rfl, fun _ h => by simp at h, fun _ h => by simp at h⟩

theorem InPairs.adjusting (h : InPairs ws) : Adjusting ws := ⟨h.unsigned, fun _ _ _ _ => h⟩

/-- The write neither opens an account nor posts. -/
def Write.isCalm : Write → Bool
  | .insertAccount _ | .insertTransaction _ | .addBalance _ _ => false
  | _ => true

theorem InPairs.calm (h : InPairs ws) {w : Write} (hw : w.isCalm = true) : InPairs (ws ++ [w]) where
  paired := h.paired.append (paired_of_none fun w' hw' => by
    rw [List.mem_singleton.1 hw']
    cases w <;> first | exact ⟨rfl, fun _ => rfl⟩ | cases hw)
  unsigned y hy := by
    rcases List.mem_append.1 hy with hy | hy
    · exact h.unsigned y hy
    · cases List.mem_singleton.1 hy
      cases hw
  opened a ha := by
    rcases List.mem_append.1 ha with ha | ha
    · exact h.opened a ha
    · cases List.mem_singleton.1 ha
      cases hw

theorem UnsignedRows.insert (h : UnsignedRows ws) {y : Transaction} (hy : 0 ≤ y.amountCents) :
    UnsignedRows (ws ++ [.insertTransaction y]) := by
  intro x hx
  rcases List.mem_append.1 hx with hx | hx
  · exact h x hx
  · cases List.mem_singleton.1 hx
    exact hy

theorem InPairs.posting (h : InPairs ws) {y : Transaction} (hy : 0 ≤ y.amountCents) :
    InPairs (ws ++ [.insertTransaction y] ++ [.addBalance y.ledgerAccountId y.delta]) where
  paired := by
    rw [List.append_assoc]
    exact h.paired.append (paired_postings [y])
  unsigned x hx := by
    rcases List.mem_append.1 hx with hx | hx
    · exact h.unsigned.insert hy x hx
    · cases List.mem_singleton.1 hx
  opened a ha := by
    simp only [List.mem_append, List.mem_singleton, reduceCtorEq, or_false] at ha
    exact h.opened a ha

/-! ### What the code sends -/

/-- The assertion that sessions post in pairs. -/
abbrev inPairs : Assertion Db Write := Assertion.traces Db.Unsigned InPairs Adjusting inPairs_nil

theorem quiet_inPairs {w : Write} (hw : w.isCalm = true) : inPairs.Quiet w :=
  Assertion.traces_quiet (fun _ h => h.calm hw) fun _ h => h.adjusting

theorem leavesQuiet_inPairs : LeavesQuiet inPairs := by
  intro w hw
  refine quiet_inPairs ?_
  cases w <;> first | rfl | cases hw

theorem postEntry_inPairs {sid : String} {e : LedgerEntry} (he : 0 ≤ e.amountCents) :
    (postEntry sid e).Within (engine fk) o inPairs := by
  refine Within.of_at fun t ht => postEntry_withinAt ht (fun _ h => h.adjusting) ?_
  rintro hgood hpairs y rfl
  refine ⟨⟨hpairs.unsigned.insert he, fun ws' id n h => ?_⟩, hpairs.posting he⟩
  exact absurd (List.append_inj' h rfl).2 (by simp)

theorem postEntries_inPairs {sid : String} {es : List LedgerEntry} (hes : ∀ e ∈ es, 0 ≤ e.amountCents) :
    (postEntries sid es).Within (engine fk) o inPairs := by
  have heach : (postEach sid es).Within (engine fk) o inPairs := by
    induction es with
    | nil => exact Within.ret _
    | cons e es ih =>
      refine (postEntry_inPairs (hes e (List.mem_cons_self ..))).bind fun _ => ?_
      exact (ih fun e' he' => hes e' (List.mem_cons_of_mem _ he')).bind fun _ => Within.ret _
  unfold postEntries
  split
  · exact valueError_within _
  · exact heach

theorem settleChecked_inPairs (a : Authorization) (r : ResearchRecord) (total : Int)
    (config : Option RevenueSplitConfig) : (settleChecked env a r total config).Within (engine fk) o inPairs := by
  unfold settleChecked
  cases hsplit : splitAmount env.settings total config with
  | error e => exact (Within.raise e : (Prog.raise e : Tx PurchaseResult).Within (engine fk) o inPairs)
  | ok split =>
  show Within _ _ _ (LedgerAccountRepository.getByOwnerUser a.userId >>= _)
  refine scalar_within.bind fun researcher => scalar_within.bind fun archive => scalar_within.bind fun platform => ?_
  split
  · rename_i researcher archive platform
    refine (transcriptionistAccount_within r).bind fun transcriptionist => ?_
    refine (insert_within (w := .insertSettlement) fun _ => quiet_inPairs rfl).bind fun x => ?_
    refine Within.bind (postEntries_inPairs fun e he => ?_) fun _ => Within.ret _
    let s : Sale := ⟨researcher.id, archive.id, transcriptionist.map (·.id), platform.id, total, split⟩
    exact (Sale.entry_pos (s := s) hsplit he).le
  · exact valueError_within _

theorem Db.Unsigned.view (hd : d.Unsigned) (hws : UnsignedRows ws) : ((engine fk).view d ws).Unsigned := by
  intro y hy
  have hcore : y.core ∈ (d.transactions ++ ws.filterMap Write.transaction?).map Transaction.core :=
    (@view_transactions_core fk d ws) ▸ List.mem_map_of_mem hy
  obtain ⟨z, hz, he⟩ := List.mem_map.1 hcore
  rw [← of_core Transaction.amountCents he]
  rcases List.mem_append.1 hz with hz | hz
  · exact hd z hz
  · obtain ⟨w, hw, hwz⟩ := List.mem_filterMap.1 hz
    cases w <;> cases hwz
    exact hws z hw

/-- What a refund posts is what it has read. -/
theorem refundSettlement_inPairs (id : String) (reason : Option String) :
    (refundSettlement id reason).Within (engine fk) o inPairs := by
  unfold refundSettlement
  refine getAuthorization_within.bind fun a => ?_
  cases a with
  | none => exact valueError_within _
  | some a =>
  refine scalar_within.bind fun x => ?_
  cases x with
  | none => exact valueError_within _
  | some x =>
  dsimp only
  split
  · exact valueError_within _
  refine Within.of_at fun t ht => ?_
  refine WithinAt.seq (scalars_within.withinAt ht)
    (P := fun ys t' => (∀ d ∈ t'.seen, d.Unsigned) → ∀ y ∈ ys, 0 ≤ y.amountCents) ?_ ?_
  · intro d hgood y hy
    have hview : ((engine fk).view d t.writes).Unsigned := (hgood d (by simp)).view
      (ht fun x hx => hgood x (List.mem_append_left _ hx)).unsigned
    exact hview y (List.mem_filter.1 (Choice.mem_arrange.1 hy)).1
  · intro ys t' ht' hys
    by_cases hgood : ∀ d ∈ t'.seen, d.Unsigned
    · refine Within.withinAt ?_ ht'
      refine (postEntries_inPairs fun e he => ?_).bind fun _ => ?_
      · obtain ⟨y, hy, rfl⟩ := List.mem_map.1 he
        exact hys hgood y hy
      · refine (markEachReversed_within leavesQuiet_inPairs ys).bind fun _ => ?_
        exact ((Within.exec (quiet_inPairs rfl)).bind fun _ => Within.ret _).bind fun _ => Within.ret _
    · exact Prog.withinAt_of_bad hgood

/-! ### Runs -/

/-- Jobs that open accounts do not post. -/
abbrev noPosting : Assertion Db Write := Assertion.traces Db.Unsigned (fun ws => ∀ w ∈ ws, w.posts = false)
  (fun ws => ∀ w ∈ ws, w.posts = false) (by simp)

theorem quiet_noPosting {w : Write} (hw : w.posts = false) : noPosting.Quiet w := by
  refine Assertion.traces_quiet (fun ws h x hx => ?_) fun _ h => h
  rcases List.mem_append.1 hx with hx | hx
  · exact h x hx
  · rw [List.mem_singleton.1 hx]
    exact hw

theorem adjusting_of_noPosting (h : ∀ w ∈ ws, w.posts = false) : Adjusting ws where
  unsigned y hy := by cases h _ hy
  adjusted ws' id n he := by
    subst he
    cases h (.addBalance id n) (by simp)

theorem handle_adjusting (job : Job) : (handle env job).sends (engine fk) o
    (fun t w => (∀ d ∈ t.seen, d.Unsigned) → Adjusting (t.writes ++ [w])) Txn.fresh := by
  cases hjob : job.isFounding with
  | true =>
    have h := @handle_within_of_founding fk o noPosting env job (fun _ hw => quiet_noPosting hw) hjob
    exact Prog.sends_mono (h.sends _ fun _ => by simp) fun t w hallows hgood => adjusting_of_noPosting (hallows hgood)
  | false =>
    have h := @handle_within fk o inPairs env job leavesQuiet_inPairs (by simp [hjob]) (fun _ => settleChecked_inPairs)
      fun _ => refundSettlement_inPairs
    exact h.sends _ fun _ => inPairs_nil

theorem run_adjusting (h₀ : d₀.Unsigned) (h : Reachable (genPay env) d₀ s) :
    s.db.Unsigned ∧ ∀ t ∈ s.sessions, (∀ d ∈ t.txn.seen, d.Unsigned) ∧ Adjusting t.txn.writes :=
  Run.traces (S := genPay env) inPairs_nil.adjusting (fun r _ => handle_adjusting r)
    (fun _ _ hd hws => hd.view hws.unsigned) h₀ h

/-! ### Ranges -/

/-- What is posted on an account, by type. -/
def Db.volume (d : Db) (type : TransactionType) (id : String) : Int :=
  ((d.transactions.filter fun y => y.ledgerAccountId == id && y.type == type).map (·.amountCents)).sum

theorem accountNet_eq_volume (d : Db) (id : String) :
    accountNet id d.transactions = d.volume .credit id - d.volume .debit id := by
  unfold Db.volume accountNet
  induction d.transactions with
  | nil => rfl
  | cons y ys ih =>
    rw [net_cons, ih]
    by_cases hy : y.ledgerAccountId = id
    · cases htype : y.type <;> simp [hy, htype, Transaction.delta] <;> omega
    · simp [hy]

theorem Db.Unsigned.volume_nonneg (hd : d.Unsigned) (type : TransactionType) (id : String) : 0 ≤ d.volume type id := by
  refine List.sum_nonneg fun n hn => ?_
  obtain ⟨y, hy, rfl⟩ := List.mem_map.1 hn
  exact hd y (List.mem_of_mem_filter hy)

/-- The balance that a session is about to leave is what it sees posted on the account; it is in range unless the
credits or the debits of this one account are not. -/
theorem adjusted_in_range (h₀ : Seeded env d₀) (h : Reachable (genPay env) d₀ s) {t : AppSession} (ht : t ∈ s.sessions)
    {id : String} {n : Int} (hsends : t.sends = some (.addBalance id n)) {v : Db}
    (hv : v = (genPay env).view s.db t.held) {b : LedgerAccount} (hb : b ∈ v.accounts) (hid : b.id = id) :
    b.balanceCents + n = v.volume .credit id - v.volume .debit id ∧
      (v.volume .credit id ≤ 2 ^ 31 - 1 → v.volume .debit id ≤ 2 ^ 31 → InRange (b.balanceCents + n)) := by
  have hledger : d₀.Unsigned := fun y hy => by
    rw [h₀.no_ledger.2.2.1] at hy
    cases hy
  obtain ⟨hunsigned, hsessions⟩ := run_adjusting hledger h
  obtain ⟨hseen, hwrites⟩ := hsessions t ht
  have hheld : t.held = t.txn.writes := by
    unfold Session.sends at hsends
    unfold Session.held
    cases hp : t.phase <;> rw [hp] at hsends <;> first | rfl | cases hsends
  rw [hheld] at hv
  have hpairs : InPairs (t.txn.writes ++ [.addBalance id n]) :=
    (Run.sends_next h ht (handle_adjusting t.job) hsends hseen).adjusted _ _ _ rfl
  -- no account is new, and the balance moves with the rows
  have hopened : t.txn.writes.filterMap Write.account? = [] := List.filterMap_eq_nil_iff.2 fun w hw => by
    cases w with
    | insertAccount a => exact absurd (List.mem_append_left _ hw) (hpairs.opened a)
    | _ => rfl
  have haccounts : v.accounts = s.db.accounts.map ((accountTable env.foreignKeys).updateAll t.txn.writes) := by
    rw [hv]
    refine ((accountTable env.foreignKeys).rows_view_of_fixed (by rw [show t.txn.writes.filterMap
      (accountTable env.foreignKeys).inserted = [] from hopened]; simp) s.db).trans ?_
    rw [show t.txn.writes.filterMap (accountTable env.foreignKeys).inserted = [] from hopened, List.append_nil]
    rfl
  obtain ⟨a, ha, rfl⟩ := List.mem_map.1 (haccounts ▸ hb)
  have hida : a.id = id := (updateAll_account_id a).symm.trans hid
  have hbalance := (run_sound h₀.sound h).balanced a ha
  have hadded := hpairs.paired id
  have hnet : accountNet id v.transactions =
      accountNet id s.db.transactions + accountNet id (t.txn.writes.filterMap Write.transaction?) := by
    rw [hv]
    exact accountNet_view id
  have heq : ((accountTable env.foreignKeys).updateAll t.txn.writes a).balanceCents + n =
      v.volume .credit id - v.volume .debit id := by
    rw [← accountNet_eq_volume, hnet, updateAll_balance, hbalance, hida]
    simp only [added_append, added_cons, added_nil, Write.added, if_true, List.filterMap_append, List.filterMap_cons,
      List.filterMap_nil, Write.transaction?, List.append_nil] at hadded
    omega
  refine ⟨heq, fun hcredit hdebit => ?_⟩
  have hview : v.Unsigned := hv ▸ hunsigned.view hwrites.unsigned
  have h₁ := hview.volume_nonneg .credit id
  have h₂ := hview.volume_nonneg .debit id
  unfold InRange
  omega

namespace Sample

/-- A record of the highest price is created and bought twice. -/
def dear : List (Job × (Nat → Choice)) :=
  [(.request (keyed (.createRecord (some ⟨uuid 0 8, "CENSUS-1890-001", "1890 Census", 2147483647, none⟩))), oracle 1),
   (.request (keyed (.purchase (some ⟨uuid 1 1, uuid 0 16⟩) (some "key-1"))), oracle 2),
   (.request (keyed (.purchase (some ⟨uuid 1 1, uuid 0 16⟩) (some "key-2"))), oracle 3)]

end Sample

open Sample in
/-- Every price and every amount is positive and in range; the buyer's balance is not. -/
theorem balance_overflows : ∃ s : AppSystem, Reachable (genPay Sample.env) seeded s ∧
    s.db = (genPay Sample.env).serveAll seeded dear ∧
    (∀ r ∈ s.db.records, 0 < r.priceCents ∧ InRange r.priceCents) ∧
    (∀ a ∈ s.db.authorizations, 0 < a.amountCents ∧ InRange a.amountCents) ∧
    s.db.settlements.length = 2 ∧ ∃ b ∈ s.db.accounts, b.id = uuid 0 18 ∧ ¬ InRange b.balanceCents := by
  obtain ⟨s, hs, hdb, -⟩ := reachable_serveAll Sample.env seeded dear
  refine ⟨s, hs, hdb, ?_⟩
  rw [hdb]
  decide +kernel

open Sample in
/-- The buyer is about to be debited. -/
theorem adjusted_in_range_debit : ∃ s : AppSystem, Reachable (genPay Sample.env) seeded s ∧ ∃ t ∈ s.sessions,
    ∃ b ∈ ((genPay Sample.env).view s.db t.held).accounts, t.sends = some (.addBalance b.id (-599)) ∧
      InRange (b.balanceCents + -599) := by
  let s := after (fun _ _ => true) [.start 0 (.buys "key"), .steps 0 18]
  let t := s.sessions.getLast (by decide +kernel)
  have ht : t ∈ s.sessions := List.getLast_mem _
  have hsends : t.sends = some (.addBalance (uuid 0 18) (-599)) := by decide +kernel
  let b : LedgerAccount := ((genPay Sample.env).view s.db t.held).accounts.getLast (by decide +kernel)
  have hb : b ∈ ((genPay Sample.env).view s.db t.held).accounts := List.getLast_mem _
  have hid : b.id = uuid 0 18 := by decide +kernel
  refine ⟨s, reachable_after _, t, ht, b, hb, hid ▸ hsends, ?_⟩
  exact (adjusted_in_range seeded_env (reachable_after _) ht hsends rfl hb hid).2 (by decide +kernel) (by decide +kernel)

end GenPay
