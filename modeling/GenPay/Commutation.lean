import GenPay.Locality
import GenPay.Runs
import GenPay.Serving

/-!
# Independent requests commute

The footprint of a job is the closure of what it names and generates under what is found there.  Jobs that concern
different authorizations and carry different keys and events have disjoint footprints, and so commute
(`independent_commute`): the answers are the same in any order, and the rows too, up to their order.
-/

namespace GenPay

open ReadCommitted

/-- The same rows, in another order perhaps where rows are inserted by requests about authorizations. -/
structure Db.Similar (d d' : Db) : Prop where
  users : d'.users = d.users
  archives : d'.archives = d.archives
  records : d'.records = d.records
  clients : d'.clients = d.clients
  accounts : d'.accounts = d.accounts
  authorizations : d'.authorizations.Perm d.authorizations
  settlements : d'.settlements.Perm d.settlements
  transactions : d'.transactions.Perm d.transactions
  idempotencyKeys : d'.idempotencyKeys.Perm d.idempotencyKeys
  events : d'.events.Perm d.events

/-- The values of unique columns that a job is about, on the rows of `d`. -/
inductive Footprint (env : Env) (d : Db) (r : Job × (Nat → Choice)) : Column × String → Prop
  | named {k} (h : r.1.Names env k) : Footprint env d r k
  | generated {c} (hc : c ∈ [.authorizationsId, .settlementsId, .transactionsId]) (i : Nat) :
    Footprint env d r (c, (r.2 i).uuid)
  | generatedReference (i : Nat) : Footprint env d r
      (.authorizationsExternalReference, "sim_card_auth_" ++ AuthorizationRepository.shortHex (r.2 i).uuid)
  | authorization {a} (ha : a ∈ d.authorizations)
    (h : Footprint env d r (.authorizationsExternalReference, a.externalReference)) :
    Footprint env d r (.authorizationsId, a.id)
  | settling {id} (h : Footprint env d r (.authorizationsId, id)) : Footprint env d r (.settlementsAuthorization, id)
  | settlement {x} (hx : x ∈ d.settlements)
    (h : Footprint env d r (.settlementsAuthorization, x.authorizationId)) : Footprint env d r (.settlementsId, x.id)
  | transaction {t} (ht : t ∈ d.transactions) (h : Footprint env d r (.settlementsId, t.settlementId)) :
    Footprint env d r (.transactionsId, t.id)

/-- The jobs concern different authorizations, those they create included, and carry different keys and events. -/
structure Independent (env : Env) (d : Db) (r r' : Job × (Nat → Choice)) : Prop where
  authorizations : ∀ id, Footprint env d r (.authorizationsId, id) → ¬ Footprint env d r' (.authorizationsId, id)
  references : ∀ reference, Footprint env d r (.authorizationsExternalReference, reference) →
    ¬ Footprint env d r' (.authorizationsExternalReference, reference)
  idempotencyKeys : ∀ key, r.1.Names env (.idempotencyKeysKey, key) → ¬ r'.1.Names env (.idempotencyKeysKey, key)
  events : ∀ eventId, r.1.Names env (.eventsEventId, eventId) → ¬ r'.1.Names env (.eventsEventId, eventId)

/-- The ids that `uuid4` returns are not in use. -/
def NewIds (o : Nat → Choice) (d : Db) : Prop := ∀ i, ∀ c ∈ idColumns, (o i).uuid ∉ d.column c

variable {env : Env} {fk : Bool} {d d' : Db} {r r' : Job × (Nat → Choice)} {F G : Set (Column × String)}
  {w w' : Write}

/-! ### Footprints of jobs -/

namespace Footprint

theorem isLedger {k : Column × String} (h : Footprint env d r k) : k.1.isLedger = true := by
  induction h with
  | named h =>
    have := h.column
    simp only [List.mem_cons, List.not_mem_nil, or_false] at this
    rcases this with hc | hc | hc | hc <;> rw [hc] <;> rfl
  | generated hc i =>
    simp only [List.mem_cons, List.not_mem_nil, or_false] at hc
    rcases hc with rfl | rfl | rfl <;> rfl
  | _ => rfl

theorem key {x : String} (h : Footprint env d r (.idempotencyKeysKey, x)) : r.1.Names env (.idempotencyKeysKey, x) := by
  cases h with
  | named h => exact h
  | generated hc => simp at hc

theorem event {x : String} (h : Footprint env d r (.eventsEventId, x)) : r.1.Names env (.eventsEventId, x) := by
  cases h with
  | named h => exact h
  | generated hc => simp at hc

theorem settles {x : String} (h : Footprint env d r (.settlementsAuthorization, x)) :
    Footprint env d r (.authorizationsId, x) := by
  cases h with
  | named h => exact absurd h.column (by simp)
  | generated hc => simp at hc
  | settling h => exact h

theorem settlement_cases {x : String} (h : Footprint env d r (.settlementsId, x)) : (∃ i, x = (r.2 i).uuid) ∨
    ∃ s ∈ d.settlements, s.id = x ∧ Footprint env d r (.authorizationsId, s.authorizationId) := by
  cases h with
  | named h => exact absurd h.column (by simp)
  | generated hc i => exact Or.inl ⟨i, rfl⟩
  | settlement hx h => exact Or.inr ⟨_, hx, rfl, h.settles⟩

theorem transaction_cases {x : String} (h : Footprint env d r (.transactionsId, x)) : (∃ i, x = (r.2 i).uuid) ∨
    ∃ t ∈ d.transactions, t.id = x ∧ Footprint env d r (.settlementsId, t.settlementId) := by
  cases h with
  | named h => exact absurd h.column (by simp)
  | generated hc i => exact Or.inl ⟨i, rfl⟩
  | transaction ht h => exact Or.inr ⟨_, ht, rfl, h⟩

theorem covers (env : Env) (d : Db) (r : Job × (Nat → Choice)) : Covers {k | Footprint env d r k} r.2 where
  authorization i := generated (by simp) i
  reference i := generatedReference i
  settlement i := generated (by simp) i
  transaction i := generated (by simp) i
  settling _ h := settling h

theorem agree (env : Env) (fk : Bool) (d : Db) (r : Job × (Nat → Choice)) :
    Agree fk {k | Footprint env d r k} d d where
  users := rfl
  archives := rfl
  records := rfl
  clients := rfl
  accounts := rfl
  lookup _ _ _ := rfl
  closed l row hrow h := by
    cases l with
    | authorization | settlement | transaction | idempotencyKey | event => exact h
    | reference => exact authorization hrow h
    | settlementOf => exact Footprint.settlement hrow h
    | transactionsOf => exact Footprint.transaction hrow h

end Footprint

namespace Independent

/-- New ids do not clash, and rows found under the same id are the same row. -/
private theorem disjoint_ids {Row : Type} {c : Column} {rows : List Row} {id : Row → String} {P P' : Row → Prop}
    (hc : c ∈ idColumns) (hcolumn : d.column c = rows.map id) (h : Independent env d r r') (hd : (d.column c).Nodup)
    (hn : NewIds r.2 d) (hn' : NewIds r'.2 d) (hP : ∀ row, P row → ¬ P' row) {x : String}
    (hx : (∃ i, x = (r.2 i).uuid) ∨ ∃ row ∈ rows, id row = x ∧ P row)
    (hx' : (∃ i, x = (r'.2 i).uuid) ∨ ∃ row ∈ rows, id row = x ∧ P' row) : False := by
  have hmem : ∀ row ∈ rows, id row ∈ d.column c := fun row hrow => hcolumn ▸ List.mem_map_of_mem hrow
  rcases hx with ⟨i, rfl⟩ | ⟨row, hrow, rfl, hp⟩ <;> rcases hx' with ⟨j, he⟩ | ⟨row', hrow', he, hp'⟩
  · refine h.authorizations _ (.generated (by simp) i) ?_
    rw [he]
    exact .generated (by simp) j
  · exact hn i c hc (he ▸ hmem row' hrow')
  · exact hn' j c hc (he ▸ hmem row hrow)
  · rw [hcolumn] at hd
    have hsame : row' = row := List.inj_on_of_nodup_map hd hrow' hrow he
    exact hP row hp (hsame ▸ hp')

theorem disjoint (h : Independent env d r r') (hd : ∀ c, (d.column c).Nodup) (hn : NewIds r.2 d)
    (hn' : NewIds r'.2 d) : Disjoint {k | Footprint env d r k} {k | Footprint env d r' k} := by
  have hsettlements : ∀ x, Footprint env d r (.settlementsId, x) → ¬ Footprint env d r' (.settlementsId, x) :=
    fun x hx hx' => disjoint_ids (by decide) rfl h (hd .settlementsId) hn hn' (fun s hs => h.authorizations _ hs)
      hx.settlement_cases hx'.settlement_cases
  refine Set.disjoint_left.2 ?_
  rintro ⟨c, x⟩ (hk : Footprint env d r (c, x)) (hk' : Footprint env d r' (c, x))
  cases c with
  | authorizationsId => exact h.authorizations x hk hk'
  | authorizationsExternalReference => exact h.references x hk hk'
  | settlementsId => exact hsettlements x hk hk'
  | settlementsAuthorization => exact h.authorizations x hk.settles hk'.settles
  | transactionsId =>
    exact disjoint_ids (by decide) rfl h (hd .transactionsId) hn hn' (fun t ht => hsettlements _ ht)
      hk.transaction_cases hk'.transaction_cases
  | idempotencyKeysKey => exact h.idempotencyKeys x hk.key hk'.key
  | eventsEventId => exact h.events x hk.event hk'.event
  | _ => exact absurd hk.isLedger (by simp [Column.isLedger])

end Independent

/-! ### The order of writes -/

theorem similarity (fk : Bool) : Similarity (engine fk) Db.Similar where
  refl _ := ⟨rfl, rfl, rfl, rfl, rfl, .refl _, .refl _, .refl _, .refl _, .refl _⟩
  symm h := ⟨h.users.symm, h.archives.symm, h.records.symm, h.clients.symm, h.accounts.symm, h.authorizations.symm,
    h.settlements.symm, h.transactions.symm, h.idempotencyKeys.symm, h.events.symm⟩
  trans h h' :=
    { users := h'.users.trans h.users
      archives := h'.archives.trans h.archives
      records := h'.records.trans h.records
      clients := h'.clients.trans h.clients
      accounts := h'.accounts.trans h.accounts
      authorizations := h'.authorizations.trans h.authorizations
      settlements := h'.settlements.trans h.settlements
      transactions := h'.transactions.trans h.transactions
      idempotencyKeys := h'.idempotencyKeys.trans h.idempotencyKeys
      events := h'.events.trans h.events }
  apply w h :=
    { users := (userTable fk).rows_apply_congr h.users w
      archives := (archiveTable fk).rows_apply_congr h.archives w
      records := (recordTable fk).rows_apply_congr h.records w
      clients := (clientTable fk).rows_apply_congr h.clients w
      accounts := (accountTable fk).rows_apply_congr h.accounts w
      authorizations := (authorizationTable fk).perm_apply h.authorizations w
      settlements := (settlementTable fk).perm_apply h.settlements w
      transactions := (transactionTable fk).perm_apply h.transactions w
      idempotencyKeys := (idempotencyKeyTable fk).perm_apply h.idempotencyKeys w
      events := (eventTable fk).perm_apply h.events w }

theorem Write.onAccount_comm (w w' : Write) (a : LedgerAccount) :
    w'.onAccount (w.onAccount a) = w.onAccount (w'.onAccount a) := by
  have hadd : ∀ id delta (a : LedgerAccount), (Write.addBalance id delta).onAccount a =
      { a with balanceCents := a.balanceCents + if a.id = id then delta else 0 } := by
    intro id delta a
    by_cases h : a.id = id <;> simp [Write.onAccount, h]
  cases w with
  | addBalance id delta =>
    cases w' with
    | addBalance id' delta' =>
      rw [hadd, hadd, hadd, hadd]
      simp only [add_right_comm]
    | _ => rfl
  | _ => rfl

/-- Writes of disjoint footprints touch different rows. -/
theorem Lookup.perm_comm (l : Lookup) (hFG : Disjoint F G) (hw : w.Within F) (hw' : w'.Within G) (d : Db) :
    ((l.table fk).rows ((d.apply w).apply w')).Perm ((l.table fk).rows ((d.apply w').apply w)) := by
  have hfixed : ∀ {F G : Set (Column × String)} {w : Write}, Disjoint F G → w.Within G → ∀ r : l.Row,
      l.primary r ∈ F → (l.table fk).update w r = r :=
    fun hFG hw r hr => l.untouched fun hlock => Set.disjoint_left.1 hFG hr (hw.locked _ hlock (l.primary_isLedger r))
  refine (l.table fk).perm_comm (fun r => ?_) (fun r hr => hfixed hFG hw' r (hw.value l hr).1)
    (fun r hr => hfixed hFG.symm hw r (hw'.value l hr).1) d
  by_cases hr : l.primary r ∈ F
  · rw [hfixed hFG hw' r hr, hfixed hFG hw' _ (l.primary_update w r ▸ hr)]
  · have hother : ∀ x : l.Row, l.primary x = l.primary r → (l.table fk).update w x = x := fun x hx =>
      l.untouched fun hlock => hr (hx ▸ hw.locked _ hlock (l.primary_isLedger x))
    rw [hother r rfl, hother _ (l.primary_update w' r)]

theorem similar_comm (hFG : Disjoint F G) (hw : w.Within F) (hw' : w'.Within G) (d : Db) :
    ((d.apply w).apply w').Similar ((d.apply w').apply w) := by
  have hentities : ∀ {w w' : Write}, w.isEntity = false → w'.isEntity = false →
      ((d.apply w).apply w').users = d.users ∧ ((d.apply w).apply w').archives = d.archives ∧
      ((d.apply w).apply w').records = d.records ∧ ((d.apply w).apply w').clients = d.clients ∧
      ((d.apply w).apply w').accounts = (d.accounts.map w.onAccount).map w'.onAccount := by
    intro w w' hw hw'
    obtain ⟨hu, ha, hr, hc, hacc⟩ := d.apply_entities hw
    obtain ⟨hu', ha', hr', hc', hacc'⟩ := (d.apply w).apply_entities hw'
    exact ⟨hu'.trans hu, ha'.trans ha, hr'.trans hr, hc'.trans hc, by rw [hacc', hacc]⟩
  obtain ⟨hu, ha, hr, hc, hacc⟩ := hentities hw.ledger hw'.ledger
  obtain ⟨hu', ha', hr', hc', hacc'⟩ := hentities hw'.ledger hw.ledger
  have hrows : ∀ l : Lookup,
      ((l.table true).rows ((d.apply w').apply w)).Perm ((l.table true).rows ((d.apply w).apply w')) :=
    fun l => l.perm_comm hFG.symm hw' hw d
  refine ⟨hu'.trans hu.symm, ha'.trans ha.symm, hr'.trans hr.symm, hc'.trans hc.symm, ?_, ?_, ?_, ?_, ?_, ?_⟩
  · rw [hacc, hacc', List.map_map, List.map_map]
    exact List.map_congr_left fun a _ => w'.onAccount_comm w a
  · exact hrows .authorization
  · exact hrows .settlement
  · exact hrows .transaction
  · exact hrows .idempotencyKey
  · exact hrows .event

theorem frame_apart (hFG : Disjoint F G) : (frame fk F).Apart Db.Similar (frame fk G) where
  left h hw := h.apply_foreign hFG hw
  right h hw := h.apply_foreign hFG.symm hw
  comm hw hw' := similar_comm hFG hw hw' _

/-! ### Independent jobs -/

/-- A job about authorizations whose generated ids are new. -/
def Job.Posed (d : Db) (r : Job × (Nat → Choice)) : Prop := r.1.changesAuthorizations = true ∧ NewIds r.2 d

/-- In either order each of the two jobs has the answer it has alone, and the rows are similar. -/
structure CommuteOn (env : Env) (d : Db) (r r' : Job × (Nat → Choice)) : Prop where
  first : ((genPay env).serve r.1 r.2 ((genPay env).serve r'.1 r'.2 d).2).1 = ((genPay env).serve r.1 r.2 d).1
  second : ((genPay env).serve r'.1 r'.2 ((genPay env).serve r.1 r.2 d).2).1 = ((genPay env).serve r'.1 r'.2 d).1
  rows : Db.Similar ((genPay env).serve r'.1 r'.2 ((genPay env).serve r.1 r.2 d).2).2
    ((genPay env).serve r.1 r.2 ((genPay env).serve r'.1 r'.2 d).2).2

theorem commute_of_independent {rs rs' : List (Job × (Nat → Choice))} (hd : ∀ c, (d.column c).Nodup)
    (hposed : ∀ r ∈ rs, Job.Posed d r) (hpair : rs.Pairwise (Independent env d)) (hperm : rs.Perm rs') :
    (genPay env).answers d rs' = rs'.map (fun r => ((genPay env).serve r.1 r.2 d).1) ∧
      ((genPay env).serveAll d rs).Similar ((genPay env).serveAll d rs') := by
  refine Service.commute (F := fun r => frame env.foreignKeys {k | Footprint env d r k}) (similarity _) ?_ ?_ ?_ hperm
  · exact fun r hr => handle_alike (Footprint.covers env d r) (hposed r hr).1 fun k hk => .named hk
  · exact fun r _ => Footprint.agree env _ d r
  · refine List.Pairwise.imp_of_mem ?_ hpair
    exact fun {r r'} hr hr' h => frame_apart (h.disjoint hd (hposed r hr).2 (hposed r' hr').2)

/-- Two independent jobs commute, and any number of them give the same answers and rows in any order.  Each job
draws the same ids and timestamps in every order. -/
theorem independent_commute {d₀ : Db} {s : AppSystem} (h₀ : Seeded env d₀) (h : Reachable (genPay env) d₀ s) :
    (∀ r r' : Job × (Nat → Choice), Job.Posed s.db r → Job.Posed s.db r' → Independent env s.db r r' →
      CommuteOn env s.db r r') ∧
    ∀ rs rs' : List (Job × (Nat → Choice)), (∀ r ∈ rs, Job.Posed s.db r) → rs.Pairwise (Independent env s.db) →
      rs.Perm rs' → (genPay env).answers s.db rs' = rs'.map (fun r => ((genPay env).serve r.1 r.2 s.db).1) ∧
        ((genPay env).serveAll s.db rs).Similar ((genPay env).serveAll s.db rs') := by
  have hd : ∀ c, (s.db.column c).Nodup := (run_sound h₀.sound h).unique
  refine ⟨fun r r' hr hr' hind => ?_, fun rs rs' hposed hpair hperm => commute_of_independent hd hposed hpair hperm⟩
  have hposed : ∀ x ∈ [r, r'], Job.Posed s.db x := by
    intro x hx
    rcases List.mem_pair.1 hx with rfl | rfl
    · exact hr
    · exact hr'
  have hpair : [r, r'].Pairwise (Independent env s.db) := List.pairwise_pair.2 hind
  obtain ⟨hanswers, -⟩ := commute_of_independent hd hposed hpair (.refl _)
  obtain ⟨hanswers', hrows⟩ := commute_of_independent hd hposed hpair (List.Perm.swap r' r [])
  simp only [Service.answers, List.map_cons, List.map_nil, List.cons.injEq, and_true, true_and] at hanswers hanswers'
  exact ⟨hanswers', hanswers, hrows⟩

namespace Sample

/-- What a session of its own draws: ids with a first digit that no other id has. -/
def drawn (digit : Char) (n : Nat) : Choice :=
  ⟨String.ofList (digit :: (uuid 0 n).toList), n, fun m => Equiv.refl (Fin m)⟩

/-- The researcher buys the record. -/
def buying (key : String) (digit : Char) : Job × (Nat → Choice) := ((Case.buys key).job, drawn digit)

theorem drawn_ne {digit digit' : Char} (h : digit ≠ digit') (i j : Nat) : (drawn digit i).uuid ≠ (drawn digit' j).uuid := by
  intro he
  have := congrArg (fun x : String => x.toList.head?) he
  simp only [drawn, String.toList_ofList, List.head?_cons, Option.some.injEq] at this
  exact h this

theorem shortHex_ne {digit digit' : Char} (h : digit ≠ digit') (hd : digit ≠ '-') (hd' : digit' ≠ '-') (i j : Nat) :
    AuthorizationRepository.shortHex (drawn digit i).uuid ≠ AuthorizationRepository.shortHex (drawn digit' j).uuid := by
  have hhead : ∀ {c : Char}, c ≠ '-' → ∀ n, (AuthorizationRepository.shortHex (drawn c n).uuid).toList.head? = some c := by
    intro c hc n
    simp [AuthorizationRepository.shortHex, drawn, hc]
  intro he
  have := congrArg (fun x : String => x.toList.head?) he
  simp only [hhead hd, hhead hd', Option.some.injEq] at this
  exact h this

theorem names_buying {key : String} {digit : Char} {k : Column × String} (h : (buying key digit).1.Names env k) :
    k = (.idempotencyKeysKey, key) := by
  cases h with
  | key hr =>
    cases hr
    rfl
  | refund hr => cases hr
  | event hr => cases hr
  | reference hr => cases hr

theorem footprint_buying {key : String} {digit : Char} {c : Column} {x : String}
    (h : Footprint env seeded (buying key digit) (c, x)) :
    (c = .authorizationsId → ∃ i, x = (drawn digit i).uuid) ∧
    (c = .authorizationsExternalReference →
      ∃ i, x = "sim_card_auth_" ++ AuthorizationRepository.shortHex (drawn digit i).uuid) := by
  refine ⟨?_, ?_⟩ <;> rintro rfl
  · cases h with
    | named h => cases names_buying h
    | generated _ i => exact ⟨i, rfl⟩
    | authorization ha => exact absurd ha (by rw [(seeded_env.no_ledger).1]; exact List.not_mem_nil)
  · cases h with
    | named h => cases names_buying h
    | generated hc => simp at hc
    | generatedReference i => exact ⟨i, rfl⟩

theorem newIds_drawn {digit : Char} (h : digit ≠ '1') : NewIds (drawn digit) seeded := by
  intro i c hc hmem
  have hold : (seeded.column c).all fun x => x.toList.head? == some '1' := by
    simp only [idColumns, List.mem_cons, List.not_mem_nil, or_false] at hc
    rcases hc with rfl | rfl | rfl | rfl | rfl | rfl | rfl | rfl <;> decide +kernel
  have := List.all_eq_true.1 hold _ hmem
  simp [drawn, h] at this

theorem independent_buying {key key' : String} {digit digit' : Char} (hkey : key ≠ key') (h : digit ≠ digit')
    (hd : digit ≠ '-') (hd' : digit' ≠ '-') : Independent env seeded (buying key digit) (buying key' digit') where
  authorizations x hx hx' := by
    obtain ⟨i, hi⟩ := (footprint_buying hx).1 rfl
    obtain ⟨j, hj⟩ := (footprint_buying hx').1 rfl
    exact drawn_ne h i j (hi.symm.trans hj)
  references x hx hx' := by
    obtain ⟨i, hi⟩ := (footprint_buying hx).2 rfl
    obtain ⟨j, hj⟩ := (footprint_buying hx').2 rfl
    exact shortHex_ne h hd hd' i j (String.append_right_inj _ |>.1 (hi.symm.trans hj))
  idempotencyKeys x hx hx' := by
    cases names_buying hx
    cases names_buying hx'
    exact hkey rfl
  events x hx _ := by cases names_buying hx

end Sample

/-- Two purchases of the same record by the same user, under different keys. -/
theorem independent_commute_purchases :
    CommuteOn Sample.env Sample.seeded (Sample.buying "key-1" 'a') (Sample.buying "key-2" 'b') ∧
      ((genPay Sample.env).serveAll Sample.seeded [Sample.buying "key-1" 'a', Sample.buying "key-2" 'b']).Similar
        ((genPay Sample.env).serveAll Sample.seeded [Sample.buying "key-2" 'b', Sample.buying "key-1" 'a']) := by
  have hind : Independent Sample.env Sample.seeded (Sample.buying "key-1" 'a') (Sample.buying "key-2" 'b') :=
    Sample.independent_buying (by decide) (by decide) (by decide) (by decide)
  have hposed : ∀ r ∈ [Sample.buying "key-1" 'a', Sample.buying "key-2" 'b'], Job.Posed Sample.seeded r := by
    intro r hr
    rcases List.mem_pair.1 hr with rfl | rfl
    · exact ⟨rfl, Sample.newIds_drawn (by decide)⟩
    · exact ⟨rfl, Sample.newIds_drawn (by decide)⟩
  obtain ⟨hpair, hlist⟩ := independent_commute (s := System.initial Sample.seeded) Sample.seeded_env (Run.refl _)
  exact ⟨hpair _ _ (hposed _ (by simp)) (hposed _ (by simp)) hind,
    (hlist _ _ hposed (List.pairwise_pair.2 hind) (List.Perm.swap ..)).2⟩

end GenPay
