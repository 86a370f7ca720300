import GenPay.Paths
import GenPay.Reversal

/-!
# Batches

A `settlement.completed` event settles the authorizations it lists, all of them or none.  It is processed exactly when
the references are distinct and each names an authorization that can be settled, and then leaves the same ledger as
events for the single references in any order (`batch_settles`).
-/

namespace GenPay

open ReadCommitted DoubleEntry

variable {o : Nat → Choice} {d d' : Db} {env : Env} {reference : String} {references : List String}

/-! ### What can be settled -/

/-- The reference is that of an authorization which passes all checks. -/
def Db.Acceptable (env : Env) (d : Db) (reference : String) : Prop :=
  env.settings.Splits ∧ ∃ a ∈ d.authorizations, a.externalReference = reference ∧ Accepts d a.id none

theorem acceptable_iff (hd : d.Sound) :
    d.Acceptable env reference ↔ ∃ a r s, d.Settleable env reference a r s := by
  constructor
  · rintro ⟨hsplits, a, ha, href, haccepts⟩
    obtain ⟨b, r, s, hid, hs⟩ := (accepts_iff fun _ => hsplits).1 haccepts
    obtain rfl : b = a := List.inj_on_of_nodup_map (hd.unique .authorizationsId) hs.authorization ha hid
    exact ⟨b, r, s, href, hs⟩
  · rintro ⟨a, r, s, href, hs⟩
    have hsplits : env.settings.Splits := settings_of_splitAmount hs.sale.split
    exact ⟨hsplits, a, hs.authorization, href, (accepts_iff fun _ => hsplits).2 ⟨a, r, s, rfl, hs⟩⟩

/-- What there is to settle under a reference is one sale. -/
theorem Db.Settleable.unique (hd : d.Sound) {a a' : Authorization} {r r' : ResearchRecord} {s s' : Sale}
    (h : d.Settleable env reference a r s) (h' : d.Settleable env reference a' r' s') : a = a' ∧ r = r' ∧ s = s' := by
  obtain rfl : a = a' := List.inj_on_of_nodup_map (hd.unique .authorizationsExternalReference) h.2.authorization
    h'.2.authorization (h.1.trans h'.1.symm)
  obtain rfl : r = r' := List.inj_on_of_nodup_map (hd.unique .recordsId) h.2.record.1 h'.2.record.1
    (h.2.record.2.trans h'.2.record.2.symm)
  exact ⟨rfl, rfl, h.2.sale.unique hd h'.2.sale (h.2.amount.trans h'.2.amount.symm)⟩

/-! ### Deliveries -/

/-- A verified delivery of a new event that settles what the payload lists. -/
structure Delivery.Settles (env : Env) (d : Db) (payload : SettlementCompletedData) (x : Delivery) : Prop where
  delivers : x.request.Delivers env x.event
  type : x.event.eventType = .settlementCompleted
  payload : env.validateSettlement x.event.data = .ok payload
  new : x.event.eventId ∉ d.column .eventsEventId
  drawn : FreshFrom x.drawn 0 d

/-- Deliveries for single references, one after the other; they lead from the first database to the last. -/
inductive OneByOne (env : Env) : Db → List String → List Delivery → Db → Prop
  | done (d : Db) : OneByOne env d [] [] d
  | next {d d' : Db} {x : Delivery} {xs : List Delivery} {reference : String} {references : List String}
      {payload : SettlementCompletedData} (settles : x.Settles env d payload)
      (single : payload.authorizationIds = [reference]) (rest : OneByOne env (x.serve env d).2 references xs d') :
      OneByOne env d (reference :: references) (x :: xs) d'

/-- The rows after a number of sales. -/
theorem soldAll_eq (d : Db) (bs : List Booking) : d.soldAll bs = { d with
    settlements := d.settlements ++ bs.map (·.settlement)
    transactions := d.transactions ++ bs.flatMap (·.transactions)
    accounts := d.accounts.map fun b => { b with
      balanceCents := b.balanceCents + (bs.map fun x => x.sale.contribution b.id).sum } } := by
  induction bs generalizing d with
  | nil => simp [Db.soldAll]
  | cons b bs ih =>
    have hcons : d.soldAll (b :: bs) = (d.sold b.sale b.settlement b.transactions).soldAll bs := rfl
    rw [hcons, ih]
    simp [Db.sold, List.map_map, Function.comp_def, add_assoc]

/-- The ledger of `d'` is that of `d` with the sales on it. -/
structure Db.SellsTo (d d' : Db) (bs : List Booking) : Prop where
  accounts : d'.accounts = (d.soldAll bs).accounts
  settlements : d'.settlements = (d.soldAll bs).settlements
  transactions : d'.transactions = (d.soldAll bs).transactions
  authorizations : d'.authorizations = d.authorizations

theorem OneByOne.sound {xs : List Delivery} (h : OneByOne env d references xs d') (hd : d.Sound) : d'.Sound := by
  induction h with
  | done d => exact hd
  | next settles single rest ih => exact ih (Delivery.grows env _ hd).1

/-- One by one the deliveries make the sales that were there to make at first. -/
theorem OneByOne.sells {xs : List Delivery} (h : OneByOne env d references xs d') (hd : d.Sound) (hnodup : references.Nodup)
    (hall : ∀ reference ∈ references, ∃ a r s, d.Settleable env reference a r s) :
    ∃ bs : List Booking, List.Forall₂ (fun reference b => b.Of env d reference) references bs ∧ d.SellsTo d' bs := by
  induction h with
  | done d => exact ⟨[], List.Forall₂.nil, by rw [soldAll_eq]; simp, by rw [soldAll_eq]; simp, by rw [soldAll_eq]; simp, rfl⟩
  | @next d d' x xs reference references payload settles single rest ih =>
    rw [List.nodup_cons] at hnodup
    have hd₁ := (x.grows env hd).1
    rcases serve_batch hd settles.delivers settles.new settles.type settles.payload settles.drawn with
      ⟨-, bs, hbs, hserve⟩ | ⟨hno, -⟩
    · rw [single] at hbs
      obtain ⟨b, bs', hb, hnil, rfl⟩ := List.forall₂_cons_left_iff.1 hbs
      obtain rfl : bs' = [] := List.forall₂_nil_left_iff.1 hnil
      have hserve : (x.serve env d).2 = (d.claimed x.event).sold b.sale b.settlement b.transactions := congrArg Prod.snd hserve
      -- the references that follow are not affected
      have hb₁ : b.Of env (d.claimed x.event) reference := ⟨settleable_claimed.2 hb.settleable, hb.rows⟩
      have hothers : ∀ {reference' : String} {a r s}, (x.serve env d).2.Settleable env reference' a r s ↔
          reference' ≠ reference ∧ d.Settleable env reference' a r s := by
        intro reference' a r s
        rw [hserve, settleable_sold (unique_claimed hd settles.new) hb₁, settleable_claimed]
      obtain ⟨cs, hcs, hsells⟩ := ih hd₁ hnodup.2 fun reference' hmem => by
        obtain ⟨a, r, s, hs⟩ := hall reference' (List.mem_cons_of_mem _ hmem)
        exact ⟨a, r, s, hothers.2 ⟨fun he => hnodup.1 (he ▸ hmem), hs⟩⟩
      rw [hserve] at hsells
      refine ⟨b :: cs, List.Forall₂.cons hb (hcs.imp fun _ c hc => ⟨(hothers.1 hc.settleable).2, hc.rows⟩), ?_⟩
      obtain ⟨haccounts, hsettlements, htransactions, hauthorizations⟩ := hsells
      rw [soldAll_eq] at haccounts hsettlements htransactions
      constructor
      · rw [haccounts, soldAll_eq]
        simp [Db.sold, Db.claimed, List.map_map, Function.comp_def, add_assoc]
      · rw [hsettlements, soldAll_eq]
        simp [Db.sold, Db.claimed]
      · rw [htransactions, soldAll_eq]
        simp [Db.sold, Db.claimed]
      · exact hauthorizations
    · refine absurd ⟨?_, fun reference' hmem => ?_⟩ hno
      · rw [single]
        exact List.nodup_singleton _
      · rw [single, List.mem_singleton] at hmem
        exact hmem ▸ hall reference (List.mem_cons_self ..)

/-! ### The same rows -/

/-- `d'` and `d''` add the same ledger rows to `d`, up to the order of the rows, their ids and their times. -/
structure Db.AddsAlike (d d' d'' : Db) : Prop where
  accounts : d'.accounts = d''.accounts
  authorizations : d'.authorizations = d''.authorizations
  rows : ∃ (rename : String → String) (xs ys : List Settlement) (ts us : List Transaction),
    d'.settlements = d.settlements ++ xs ∧ d''.settlements = d.settlements ++ ys ∧
    d'.transactions = d.transactions ++ ts ∧ d''.transactions = d.transactions ++ us ∧
    (∀ x ∈ xs, ∀ y ∈ xs, rename x.id = rename y.id → x.id = y.id) ∧
    (xs.map fun x => { x with id := rename x.id }).Perm ys ∧
    (ts.map fun t => { t.content with settlementId := rename t.settlementId }).Perm (us.map Transaction.content)

private theorem forall₂_common {α β γ : Type} {R : α → β → Prop} {S : α → γ → Prop} {l : List α} {m : List β}
    {n : List γ} (h : List.Forall₂ R l m) (h' : List.Forall₂ S l n) :
    List.Forall₂ (fun b c => ∃ a, R a b ∧ S a c) m n := by
  induction h generalizing n with
  | nil =>
    cases h'
    exact List.Forall₂.nil
  | cons hab _ ih =>
    cases h' with
    | cons hac hrest => exact List.Forall₂.cons ⟨_, hab, hac⟩ (ih hrest)

private theorem exists_of_forall₂ {α β : Type} {R : α → β → Prop} {l : List α} {m : List β} (h : List.Forall₂ R l m)
    {a : α} (ha : a ∈ l) : ∃ b ∈ m, R a b := by
  induction h with
  | nil => cases ha
  | cons hab _ ih =>
    rcases List.mem_cons.1 ha with rfl | ha
    · exact ⟨_, List.mem_cons_self .., hab⟩
    · obtain ⟨b, hb, hr⟩ := ih ha
      exact ⟨b, List.mem_cons_of_mem _ hb, hr⟩

/-- Names that occur once can be replaced one by one. -/
private theorem exists_rename {α β : Type} {R : α → β → Prop} {f : α → String} {g : β → String} {l : List α}
    {m : List β} (h : List.Forall₂ R l m) (hn : (l.map f).Nodup) :
    ∃ rename : String → String, List.Forall₂ (fun a b => R a b ∧ rename (f a) = g b) l m := by
  induction h with
  | nil => exact ⟨id, List.Forall₂.nil⟩
  | @cons a b l m hab hlm ih =>
    rw [List.map_cons, List.nodup_cons] at hn
    obtain ⟨rename, hrename⟩ := ih hn.2
    refine ⟨Function.update rename (f a) (g b), List.Forall₂.cons ⟨hab, Function.update_self ..⟩ ?_⟩
    have hne : ∀ x ∈ l, f x ≠ f a := fun x hx he => hn.1 (he ▸ List.mem_map_of_mem hx)
    have hboth := (List.forall₂_and_left l m).2 ⟨hne, hrename⟩
    exact hboth.imp fun x y ⟨hx, hxy, hname⟩ => ⟨hxy, by rw [Function.update_of_ne hx]; exact hname⟩

private theorem map_eq_of_forall₂ {α β γ : Type} {f : α → γ} {g : β → γ} {l : List α} {m : List β}
    (h : List.Forall₂ (fun a b => f a = g b) l m) : l.map f = m.map g := by
  induction h with
  | nil => rfl
  | cons hab _ ih => rw [List.map_cons, List.map_cons, hab, ih]

/-- Two bookings of the same sale, under a name for the settlement. -/
private structure Alike (rename : String → String) (b c : Booking) : Prop where
  sale : b.sale = c.sale
  settlement : ({ b.settlement with id := rename b.settlement.id } : Settlement) = c.settlement
  transactions : (b.transactions.map fun t => { t.content with settlementId := rename t.settlementId }) =
    c.transactions.map Transaction.content

private theorem alike_of_same (hd : d.Sound) {rename : String → String} {b c : Booking} (hb : b.Of env d reference)
    (hc : c.Of env d reference) (hname : rename b.settlement.id = c.settlement.id) : Alike rename b c := by
  obtain ⟨ha, -, hs⟩ := hb.settleable.unique hd hc.settleable
  have hposted : ∀ {e : Booking}, e.Of env d reference → ∀ t ∈ e.transactions,
      t.settlementId = e.settlement.id ∧ t.status = .posted ∧ t.currency = "USD" := fun he t ht =>
    ⟨he.rows.booked.posted.settlement t ht, he.rows.booked.posted.status t ht, he.rows.currency t ht⟩
  have hentries : b.transactions.map Transaction.entry = c.transactions.map Transaction.entry := by
    rw [hb.rows.booked.posted.rows, hc.rows.booked.posted.rows, hs]
  refine ⟨hs, ?_, ?_⟩
  · have hauthorization : b.settlement.authorizationId = c.settlement.authorizationId := by
      rw [hb.rows.booked.authorization, hc.rows.booked.authorization, ha]
    have hamount : b.settlement.settledAmountCents = c.settlement.settledAmountCents := by
      rw [hb.rows.booked.amount, hc.rows.booked.amount, hs]
    have hstatus : b.settlement.status = c.settlement.status := hb.rows.booked.status.trans hc.rows.booked.status.symm
    cases hbs : b.settlement
    cases hcs : c.settlement
    simp_all
  · have hmap : (b.transactions.map fun t => { t.content with settlementId := rename t.settlementId }) =
        (b.transactions.map Transaction.content).map fun t => { t with settlementId := rename b.settlement.id } := by
      rw [List.map_map]
      refine List.map_congr_left fun t ht => ?_
      rw [Function.comp, ← (hposted hb t ht).1]
    rw [hmap, map_content (hposted hb), map_content (hposted hc), List.map_map, hentries, hname]
    rfl

/-- The batch and the single events, in whatever order, leave the same ledger. -/
theorem addsAlike_of_sells (hd : d.Sound) {d'' : Db} (hd' : d'.Sound) (hd'' : d''.Sound) {references' : List String}
    (hperm : references'.Perm references) {bs cs : List Booking}
    (hbs : List.Forall₂ (fun reference b => b.Of env d reference) references bs) (hb : d.SellsTo d' bs)
    (hcs : List.Forall₂ (fun reference c => c.Of env d reference) references' cs) (hc : d.SellsTo d'' cs) :
    d.AddsAlike d' d'' := by
  -- the sales in the order of the batch
  obtain ⟨cs', hcs', hcsperm⟩ := List.perm_comp_forall₂ hperm.symm hcs
  have nodup : ∀ {b : Db} {es : List Booking}, b.Sound → d.SellsTo b es → (es.map (·.settlement.id)).Nodup := by
    intro b es hb hes
    have hn := hb.unique .settlementsId
    rw [Db.column, hes.settlements, soldAll_eq, List.map_append, List.map_map] at hn
    exact (List.nodup_append.1 hn).2.1
  obtain ⟨rename, hrename⟩ := exists_rename (f := fun b : Booking => b.settlement.id)
    (g := fun c : Booking => c.settlement.id) (forall₂_common hbs hcs') (nodup hd' hb)
  have halike : List.Forall₂ (Alike rename) bs cs' := by
    refine hrename.imp fun b c h => ?_
    obtain ⟨⟨_, hb, hc⟩, hname⟩ := h
    exact alike_of_same hd hb hc hname
  have hnames : (bs.map (·.settlement.id)).map rename = cs'.map (·.settlement.id) := by
    rw [List.map_map]
    exact map_eq_of_forall₂ (hrename.imp fun _ _ h => h.2)
  have hcn : (cs'.map (·.settlement.id)).Nodup := (hcsperm.map _).nodup_iff.2 (nodup hd'' hc)
  constructor
  · rw [hb.accounts, hc.accounts, soldAll_eq, soldAll_eq]
    refine List.map_congr_left fun a _ => ?_
    have hsum : bs.map (fun x => x.sale.contribution a.id) = cs'.map fun x => x.sale.contribution a.id :=
      map_eq_of_forall₂ (halike.imp fun b c h => by rw [h.sale])
    rw [hsum, (hcsperm.map _).sum_eq]
  · rw [hb.authorizations, hc.authorizations]
  · refine ⟨rename, bs.map (·.settlement), cs.map (·.settlement), bs.flatMap (·.transactions), cs.flatMap (·.transactions),
      by rw [hb.settlements, soldAll_eq], by rw [hc.settlements, soldAll_eq], by rw [hb.transactions, soldAll_eq],
      by rw [hc.transactions, soldAll_eq], ?_, ?_, ?_⟩
    · intro x hx y hy he
      obtain ⟨b, hb, rfl⟩ := List.mem_map.1 hx
      obtain ⟨c, hc, rfl⟩ := List.mem_map.1 hy
      exact List.inj_on_of_nodup_map (hnames ▸ hcn) (List.mem_map_of_mem (f := fun b : Booking => b.settlement.id) hb)
        (List.mem_map_of_mem (f := fun b : Booking => b.settlement.id) hc) he
    · have hmap : ((bs.map (·.settlement)).map fun x => { x with id := rename x.id }) = cs'.map (·.settlement) := by
        rw [List.map_map]
        exact map_eq_of_forall₂ (halike.imp fun b c h => h.settlement)
      rw [hmap]
      exact hcsperm.map _
    · have hmap : ((bs.flatMap (·.transactions)).map fun t => { t.content with settlementId := rename t.settlementId }) =
          cs'.flatMap fun c => c.transactions.map Transaction.content := by
        rw [List.map_flatMap, List.flatMap_def, List.flatMap_def]
        exact congrArg List.flatten (map_eq_of_forall₂ (halike.imp fun b c h => h.transactions))
      rw [hmap, List.map_flatMap]
      exact hcsperm.flatMap_right _

/-! ### Batches -/

/-- The references are distinct, and each is that of an authorization that can be settled. -/
def Db.Batchable (env : Env) (d : Db) (references : List String) : Prop :=
  references.Nodup ∧ ∀ reference ∈ references, d.Acceptable env reference

/-- The result for the authorization with this reference. -/
def ResultOf (d : Db) (reference : String) (result : PurchaseResult) : Prop :=
  ∃ a ∈ d.authorizations, a.externalReference = reference ∧ result.authorizationId = a.id ∧
    result.totalCents = a.amountCents

/-- A new batch is processed with a booking for each reference, or refused. -/
theorem Delivery.Settles.outcome {x : Delivery} {payload : SettlementCompletedData} (hd : d.Sound)
    (hx : x.Settles env d payload) :
    (d.Batchable env payload.authorizationIds ∧ ∃ bs : List Booking,
      List.Forall₂ (fun reference b => b.Of env d reference) payload.authorizationIds bs ∧
      (x.serve env d).1 = .ok (.processed x.event.eventId
        (.settlements payload.settlementBatchId (bs.map Booking.result))) ∧ d.SellsTo (x.serve env d).2 bs) ∨
      ¬ d.Batchable env payload.authorizationIds ∧ ∃ e, x.serve env d = (.error e, d) := by
  have hbatchable : d.Batchable env payload.authorizationIds ↔ payload.authorizationIds.Nodup ∧
      ∀ reference ∈ payload.authorizationIds, ∃ a r s, d.Settleable env reference a r s := by
    unfold Db.Batchable
    simp only [acceptable_iff hd]
  rcases serve_batch hd hx.delivers hx.new hx.type hx.payload hx.drawn with ⟨hnodup, bs, hbs, hserve⟩ | ⟨hno, hfails⟩
  · have hserve : x.serve env d = _ := hserve
    refine Or.inl ⟨hbatchable.2 ⟨hnodup, fun reference hmem => ?_⟩, bs, hbs, by rw [hserve], ?_⟩
    · obtain ⟨b, -, hb⟩ := exists_of_forall₂ hbs hmem
      exact ⟨_, _, _, hb.settleable⟩
    · rw [hserve]
      constructor <;> simp [soldAll_eq, Db.claimed]
  · exact Or.inr ⟨fun hyes => hno (hbatchable.1 hyes), hfails⟩

/-- In every reachable state a new batch is processed exactly when it should be, and then equals its single events in
any order; otherwise nothing changes. -/
theorem batch_settles {env : Env} {d₀ : Db} {s : AppSystem} {x : Delivery} {payload : SettlementCompletedData}
    (h₀ : Seeded env d₀) (h : Reachable (genPay env) d₀ s) (hx : x.Settles env s.db payload) :
    ((∃ result, (x.serve env s.db).1 = .ok (.processed x.event.eventId result)) ↔
      s.db.Batchable env payload.authorizationIds) ∧
    (s.db.Batchable env payload.authorizationIds →
      (∃ results, (x.serve env s.db).1 =
          .ok (.processed x.event.eventId (.settlements payload.settlementBatchId results)) ∧
        List.Forall₂ (ResultOf s.db) payload.authorizationIds results) ∧
      ∀ references xs d', references.Perm payload.authorizationIds → OneByOne env s.db references xs d' →
        s.db.AddsAlike (x.serve env s.db).2 d') ∧
    (¬ s.db.Batchable env payload.authorizationIds → ∃ e, x.serve env s.db = (.error e, s.db)) := by
  have hd : s.db.Sound := run_sound h₀.sound h
  rcases hx.outcome hd with ⟨hyes, bs, hbs, hserve, hsells⟩ | ⟨hno, e, hserve⟩
  · refine ⟨⟨fun _ => hyes, fun _ => ⟨_, hserve⟩⟩, fun _ => ⟨⟨_, hserve, ?_⟩, ?_⟩, fun hno => absurd hyes hno⟩
    · rw [List.forall₂_map_right_iff]
      exact hbs.imp fun reference b hb => ⟨b.authorization, hb.settleable.2.authorization, hb.settleable.1, rfl,
        hb.settleable.2.amount⟩
    · intro references xs d' hperm hone
      obtain ⟨cs, hcs, hsells'⟩ := hone.sells hd (hperm.nodup_iff.2 hyes.1) fun reference hmem =>
        (acceptable_iff hd).1 (hyes.2 reference (hperm.mem_iff.1 hmem))
      exact addsAlike_of_sells hd (x.grows env hd).1 (hone.sound hd) hperm hbs hsells hcs hsells'
  · refine ⟨⟨?_, fun hyes => absurd hyes hno⟩, fun hyes => absurd hyes hno, fun _ => ⟨e, hserve⟩⟩
    rintro ⟨result, hok⟩
    rw [hserve] at hok
    cases hok

/-! ### Signed events -/

namespace Sample

/-- A body with its digest at second 1767225600 under the default secret, and what it is the text of. -/
structure Signed where
  body : String
  digest : String
  envelope : ProcessorEventEnvelope

namespace Signed

def createdFor (recordId userId event reference currency digest : String) : Signed where
  body := "\x7b\"event_id\": \"" ++ event ++ "\", \"event_type\": \"authorization.created\", \"occurred_at\": " ++
    "\"2026-01-01T00:00:00Z\", \"data\": \x7b\"authorization_id\": \"" ++ reference ++ "\", \"merchant_reference\": " ++
    "\x7b\"research_record_id\": \"" ++ recordId ++ "\", \"user_id\": \"" ++ userId ++
    "\"\x7d, \"amount_cents\": 599, \"currency\": \"" ++ currency ++ "\", " ++
    "\"card_last4\": \"4242\", \"card_network\": \"visa\"\x7d\x7d"
  digest := digest
  envelope := ⟨event, .authorizationCreated, [("authorization_id", .str reference),
    ("merchant_reference", .obj [("research_record_id", recordId), ("user_id", userId)]),
    ("amount_cents", .int 599), ("currency", .str currency), ("card_last4", .str "4242"), ("card_network", .str "visa")]⟩

/-- The seeded researcher is to pay for the seeded record. -/
def created (event reference currency digest : String) : Signed :=
  createdFor (uuid 0 20) (uuid 0 16) event reference currency digest

def approved (event reference digest : String) : Signed where
  body := "\x7b\"event_id\": \"" ++ event ++ "\", \"event_type\": \"authorization.approved\", \"occurred_at\": " ++
    "\"2026-01-01T00:00:00Z\", \"data\": \x7b\"authorization_id\": \"" ++ reference ++ "\", \"hold_expires_at\": " ++
    "\"2026-01-08T00:00:00Z\"\x7d\x7d"
  digest := digest
  envelope := ⟨event, .authorizationApproved,
    [("authorization_id", .str reference), ("hold_expires_at", .str "2026-01-08T00:00:00Z")]⟩

def settled (event batch : String) (references : List String) (total : Nat) (digest : String) : Signed where
  body := "\x7b\"event_id\": \"" ++ event ++ "\", \"event_type\": \"settlement.completed\", \"occurred_at\": " ++
    "\"2026-01-01T00:00:00Z\", \"data\": \x7b\"settlement_batch_id\": \"" ++ batch ++ "\", \"authorization_ids\": [" ++
    ", ".intercalate (references.map fun reference => "\"" ++ reference ++ "\"") ++ "], \"total_amount_cents\": " ++
    toString total ++ "\x7d\x7d"
  digest := digest
  envelope := ⟨event, .settlementCompleted, [("settlement_batch_id", .str batch), ("authorization_ids", .strs references),
    ("total_amount_cents", .int total)]⟩

def header (e : Signed) : String := "t=1767225600,v1=" ++ e.digest

/-- The body arrives `i` seconds after it was signed. -/
def arrives (e : Signed) (i : Nat) : Request := ⟨.processorEvents, none, some e.header, e.body.toUTF8, 1767225600 + i⟩

end Signed

/-- The sample in which these bodies may arrive. -/
def envOf (es : List Signed) : Env :=
  { Sample.env with
    hmacSha256 := fun key message =>
      match es.find? fun e => message = "1767225600." ++ e.body with
      | some e => if key = "change-me" then e.digest else ""
      | none => ""
    parseEnvelope := fun body =>
      match es.find? fun e => String.fromUTF8? body = some e.body with
      | some e => .ok e.envelope
      | none => .error "Invalid JSON" }

/-- Seeding does not look at signatures and schemas. -/
theorem seeded_of_settings {env env' : Env} {d : Db} (h : Seeded env d) (hsettings : env'.settings = env.settings)
    (hfk : env'.foreignKeys = env.foreignKeys) (hsha : env'.sha256 = env.sha256) : Seeded env' d := by
  obtain ⟨o, rfl⟩ := h
  refine ⟨o, ?_⟩
  cases env
  cases env'
  simp only at hsettings hfk hsha
  subst hsettings hfk hsha
  rfl

theorem seeded_envOf (es : List Signed) : Seeded (envOf es) seeded := seeded_of_settings seeded_env rfl rfl rfl

/-- The bodies are different, and the digests can be written in a header. -/
structure Sendable (es : List Signed) : Prop where
  bodies : (es.map (·.body)).Nodup
  headers : ∀ e ∈ es, parseHeader e.header = some (1767225600, e.digest)
  ascii : ∀ e ∈ es, (e.digest.toList.any fun c => 128 ≤ c.toNat) = false

namespace Sendable

variable {es : List Signed} {e : Signed} {i : Nat}

theorem find (h : Sendable es) (he : e ∈ es) {p : Signed → Bool} (hp : ∀ e', p e' = true ↔ e'.body = e.body) :
    es.find? p = some e := by
  obtain ⟨e', hfind⟩ := Option.isSome_iff_exists.1 (List.find?_isSome.2 ⟨e, he, (hp e).2 rfl⟩)
  have hsame : e' = e := List.inj_on_of_nodup_map h.bodies (List.mem_of_find?_eq_some hfind) he
    ((hp e').1 (List.find?_some hfind))
  rw [hfind, hsame]

theorem parsed (h : Sendable es) (he : e ∈ es) : (envOf es).parseEnvelope e.body.toUTF8 = .ok e.envelope := by
  have htext : String.fromUTF8? e.body.toUTF8 = some e.body := dif_pos e.body.isValidUTF8
  have hfind := h.find he (p := fun e' => decide (String.fromUTF8? e.body.toUTF8 = some e'.body)) fun e' => by
    rw [decide_eq_true_eq, htext, Option.some.injEq, eq_comm]
  simp only [envOf, hfind]

theorem digest (h : Sendable es) (he : e ∈ es) : payloadDigest (envOf es) "change-me" e.body 1767225600 = e.digest := by
  have hfind := h.find he (p := fun e' => decide ("1767225600." ++ e.body = "1767225600." ++ e'.body)) fun e' => by
    rw [decide_eq_true_eq, String.append_right_inj, eq_comm]
  unfold payloadDigest
  rw [signed_text]
  simp only [envOf, hfind, ↓reduceIte]

theorem verified (h : Sendable es) (he : e ∈ es) (hi : i ≤ 300) :
    verify (envOf es) "change-me" (e.arrives i).clock (some e.header) e.body.toUTF8 = .ok e.body.toUTF8 := by
  have hclock : |(e.arrives i).clock - ((1767225600 : Int) : ℚ)| = i := by
    have hdiff : (e.arrives i).clock - ((1767225600 : Int) : ℚ) = i := by
      show (1767225600 : ℚ) + i - ((1767225600 : Int) : ℚ) = i
      push_cast
      ring
    rw [hdiff, abs_of_nonneg (Nat.cast_nonneg i)]
  refine verify_of_parse 1767225600 ?_ ?_ (by decide +kernel) ?_ ?_
  · intro hempty
    have hparse := h.headers e he
    have hnone : parseHeader "" = none := by decide
    rw [hempty, hnone] at hparse
    cases hparse
  · rw [h.digest he]
    exact h.headers e he
  · rw [hclock]
    unfold signatureToleranceSeconds
    exact_mod_cast hi
  · rw [h.digest he]
    exact h.ascii e he

theorem delivers (h : Sendable es) (he : e ∈ es) (hi : i ≤ 300) : (e.arrives i).Delivers (envOf es) e.envelope :=
  ⟨rfl, h.verified he hi, h.parsed he⟩

end Sendable

/-- The programs of the deliveries, their signatures verified and their bodies parsed. -/
def handleSigned (es : List Signed) (job : Job) : Tx Response :=
  match job with
  | .request r =>
    match r.route, es[(r.clock.num - 1767225600).toNat]? with
    | .processorEvents, some e => processEnvelope (envOf es) e.envelope
    | _, _ => route (envOf es) r
  | job => handle (envOf es) job

theorem handleSigned_arrives {es : List Signed} (h : Sendable es) {e : Signed} {i : Nat} (hi : i ≤ 300)
    (he : es[i]? = some e) : handleSigned es (.request (e.arrives i)) = handle (envOf es) (.request (e.arrives i)) := by
  have hd := h.delivers (List.mem_of_getElem? he) hi
  have hclock : ((e.arrives i).clock.num - 1767225600).toNat = i := by
    have hnum : (e.arrives i).clock = ((1767225600 + i : Int) : ℚ) := by
      show (1767225600 : ℚ) + i = _
      push_cast
      rfl
    rw [hnum, Rat.num_intCast]
    omega
  refine Eq.trans ?_ (route_processorEvents hd.route hd.verified hd.parsed).symm
  simp only [handleSigned, hclock, he]
  rfl

theorem serve_signed {es : List Signed} (h : Sendable es) {e : Signed} {i : Nat} (hi : i ≤ 300) (he : es[i]? = some e)
    (o : Nat → Choice) (d : Db) : (genPay (envOf es)).serve (.request (e.arrives i)) o d =
      Service.serve { genPay (envOf es) with handle := handleSigned es } (.request (e.arrives i)) o d := by
  have hhandle : (genPay (envOf es)).handle (.request (e.arrives i)) = handleSigned es (.request (e.arrives i)) :=
    (handleSigned_arrives h hi he).symm
  unfold Service.serve
  rw [hhandle]

/-- Event `i` of the list as it arrives. -/
def arrival (es : List Signed) (i : Nat) : Option (Job × (Nat → Choice)) :=
  es[i]?.map fun e => (.request (e.arrives i), oracle (i + 1))

/-- The first `n` events arrive one after the other. -/
def arrivals (es : List Signed) (n : Nat) : List (Job × (Nat → Choice)) := (List.range n).filterMap (arrival es)

theorem handleSigned_arrivals {es : List Signed} (h : Sendable es) {n : Nat} (hn : n ≤ 300)
    {r : Job × (Nat → Choice)} (hr : r ∈ arrivals es n) : handleSigned es r.1 = handle (envOf es) r.1 := by
  obtain ⟨i, hi, harrival⟩ := List.mem_filterMap.1 hr
  obtain ⟨e, he, rfl⟩ := Option.map_eq_some_iff.1 harrival
  have := List.mem_range.1 hi
  exact handleSigned_arrives h (by omega) he

theorem serveAll_arrivals {es : List Signed} (h : Sendable es) {n : Nat} (hn : n ≤ 300) (d : Db) :
    (genPay (envOf es)).serveAll d (arrivals es n) =
      Service.serveAll { genPay (envOf es) with handle := handleSigned es } d (arrivals es n) :=
  Service.serveAll_handle (fun _ hr => handleSigned_arrivals h hn hr) d

/-- The jobs one after the other, each for the given number of steps; job `i` draws what oracle `a + i` gives. -/
def inTurn (a : Nat) (jobs : List (Job × Nat)) : List (Label Choice Job) :=
  jobs.zipIdx.flatMap fun ((job, n), i) => .start job (oracle (a + i)) :: List.replicate n (.exec i)

theorem start_inTurn {a : Nat} {jobs : List (Job × Nat)} {job : Job} {o : Nat → Choice}
    (h : Label.start job o ∈ inTurn a jobs) : ∃ i n, jobs[i]? = some (job, n) ∧ o = oracle (a + i) := by
  obtain ⟨⟨⟨job', n⟩, i⟩, hmem, h⟩ := List.mem_flatMap.1 h
  rcases List.mem_cons.1 h with he | he
  · cases he
    exact ⟨i, n, List.mem_zipIdx_iff_getElem?.1 hmem, rfl⟩
  · cases List.eq_of_mem_replicate he

theorem scheduled_inTurn {es : List Signed} {a : Nat} {jobs : List (Job × Nat)} (d : Db) (g : AppSession → Db → Bool)
    (h : ∀ job ∈ jobs.map Prod.fst, handleSigned es job = handle (envOf es) job) :
    scheduled (envOf es) d g (inTurn a jobs) = ((System.initial d).schedule
      { genPay (envOf es) with handle := handleSigned es } g (inTurn a jobs)).getD (System.initial d) := by
  have hstarts : ∀ job o, Label.start job o ∈ inTurn a jobs → handleSigned es job = (genPay (envOf es)).handle job := by
    intro job o hstart
    obtain ⟨i, n, hi, -⟩ := start_inTurn hstart
    exact h job (List.mem_map_of_mem (List.mem_of_getElem? hi))
  unfold scheduled
  rw [schedule_handle hstarts]

/-- The number in an id. -/
def serial (id : String) : Nat := Nat.ofDigitChars 10 (id.toList.take 8) 0 - 10000000

theorem freshFrom_serial {a : Nat} {d : Db} (n : Nat)
    (h : ∀ c ∈ idColumns, ∀ x ∈ d.column c, x = uuid 0 (serial x) ∧ serial x < 1000 * a) : FreshFrom (oracle a) n d where
  distinct i j _ _ he := by
    have := uuid_inj he
    omega
  new i _ c hc hmem := by
    obtain ⟨he, hlt⟩ := h c hc _ hmem
    have := uuid_inj he
    omega

end Sample

theorem reachable_serveAll (env : Env) (d₀ : Db) (rs : List (Job × (Nat → Choice))) :
    ∃ s : AppSystem, Reachable (genPay env) d₀ s ∧ s.db = (genPay env).serveAll d₀ rs ∧ ∀ u ∈ s.sessions, u.held = [] := by
  have hidle : ∀ u ∈ ([] : List AppSession), u.held = [] := by simp
  obtain ⟨us, hus, hrun⟩ := serveAll_run (S := genPay env) (G := fun _ _ => True) (fun _ _ => True.intro) rs hidle
  exact ⟨_, hrun, rfl, hus⟩

/-! ### A batch of two -/

namespace Sample

def both : Signed := .settled "evt_5" "batch_1" ["auth_1", "auth_2"] 1198
  "238568e19d5bbd39a499b43ce4d019101d7f3113d7e1f8fbe74c10107bc26168"

def second : Signed := .settled "evt_6" "batch_2" ["auth_2"] 599
  "4ef91c3b6ab84db5b6b1b73c5591e3421199462c5c446517f2cb13cb0b86139c"

def first : Signed := .settled "evt_7" "batch_3" ["auth_1"] 599
  "4b967182a300ebe5e7b622ef4c510b753a9e4145fc00ca6c9b010cc8ad56a620"

/-- Two authorizations, the batch of both, and a batch for each of them. -/
def pair : List Signed :=
  [.created "evt_1" "auth_1" "USD" "7f74a1245a59facea3823868fe8b59c7fbf479d1e2f27b6dd6534ec235ce8c6e",
    .approved "evt_2" "auth_1" "694e51aee0bbcf45cc098462e760451d1fc311ed2780672811ad64b457b791be",
    .created "evt_3" "auth_2" "USD" "b79b83ef8a981cb77b2a0e19870b3013faa2d904dd65cdac3aabfa8a111958c5",
    .approved "evt_4" "auth_2" "b0f07328b577de82e0341024bdd197f1f1446514eb5169b019936c3e83c76f04", both, second, first]

theorem pair_sendable : Sendable pair := ⟨by decide +kernel, by decide +kernel, by decide +kernel⟩

def Signed.delivery (e : Signed) (i : Nat) : Delivery := ⟨e.arrives i, e.envelope, oracle (i + 1)⟩

theorem Sendable.settles {es : List Signed} {e : Signed} {i : Nat} {d : Db} {payload : SettlementCompletedData}
    (h : Sendable es) (hi : i ≤ 300) (he : es[i]? = some e) (htype : e.envelope.eventType = .settlementCompleted)
    (hpayload : (envOf es).validateSettlement e.envelope.data = .ok payload)
    (hfresh : e.envelope.eventId ∉ d.column .eventsEventId ∧
      ∀ c ∈ idColumns, ∀ x ∈ d.column c, x = uuid 0 (serial x) ∧ serial x < 1000 * (i + 1)) :
    (e.delivery i).Settles (envOf es) d payload :=
  ⟨h.delivers (List.mem_of_getElem? he) hi, htype, hpayload, hfresh.1, freshFrom_serial 0 hfresh.2⟩

/-- Both authorizations have been approved. -/
def pairApproved : Db := (genPay (envOf pair)).serveAll seeded (arrivals pair 4)

theorem pairApproved_eq : pairApproved =
    Service.serveAll { genPay (envOf pair) with handle := handleSigned pair } seeded (arrivals pair 4) :=
  serveAll_arrivals pair_sendable (by decide) seeded

end Sample

open Sample in
theorem batch_settles_pair : ∃ (s : AppSystem) (results : List PurchaseResult) (d' : Db),
    Reachable (genPay (envOf pair)) seeded s ∧ s.db = pairApproved ∧
    ((both.delivery 4).serve (envOf pair) s.db).1 = .ok (.processed "evt_5" (.settlements "batch_1" results)) ∧
    List.Forall₂ (ResultOf s.db) ["auth_1", "auth_2"] results ∧
    OneByOne (envOf pair) s.db ["auth_2", "auth_1"] [second.delivery 5, first.delivery 6] d' ∧
    s.db.AddsAlike ((both.delivery 4).serve (envOf pair) s.db).2 d' := by
  obtain ⟨s, hs, hdb, -⟩ := reachable_serveAll (envOf pair) seeded (arrivals pair 4)
  have hdb : s.db = pairApproved := hdb
  have hboth : (both.delivery 4).Settles (envOf pair) s.db ⟨"batch_1", ["auth_1", "auth_2"], 1198⟩ := by
    rw [hdb, pairApproved_eq]
    exact pair_sendable.settles (by decide) rfl rfl rfl (by decide +kernel)
  have hbatchable : s.db.Batchable (envOf pair) ["auth_1", "auth_2"] := by
    have haccepts : ∀ reference ∈ ["auth_1", "auth_2"], ∃ a ∈ s.db.authorizations, a.externalReference = reference ∧
        Accepts s.db a.id none := by
      rw [hdb, pairApproved_eq]
      decide +kernel
    exact ⟨by decide, fun reference hmem => ⟨⟨defaultSplit, make_bps defaultSplit⟩, haccepts reference hmem⟩⟩
  -- the two single events, in the other order
  have hsecond : (second.delivery 5).Settles (envOf pair) s.db ⟨"batch_2", ["auth_2"], 599⟩ := by
    rw [hdb, pairApproved_eq]
    exact pair_sendable.settles (by decide) rfl rfl rfl (by decide +kernel)
  have hfirst : (first.delivery 6).Settles (envOf pair) ((second.delivery 5).serve (envOf pair) s.db).2
      ⟨"batch_3", ["auth_1"], 599⟩ := by
    have hserve : (second.delivery 5).serve (envOf pair) s.db = _ := serve_signed pair_sendable (by decide) rfl _ _
    rw [hserve, hdb, pairApproved_eq]
    exact pair_sendable.settles (by decide) rfl rfl rfl (by decide +kernel)
  obtain ⟨-, hprocessed, -⟩ := batch_settles (seeded_envOf pair) hs hboth
  obtain ⟨⟨results, hresults, hof⟩, halike⟩ := hprocessed hbatchable
  have hone := OneByOne.next hsecond rfl (OneByOne.next hfirst rfl (OneByOne.done _))
  exact ⟨s, results, _, hs, hdb, hresults, hof, hone, halike _ _ _ (List.Perm.swap ..) hone⟩

end GenPay
