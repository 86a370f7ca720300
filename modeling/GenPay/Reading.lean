import GenPay.Reconciliation
import GenPay.Startup

/-!
# What a request reads

Each `GET` of rows is one `SELECT` after the gate: its answer is that of one database that was committed between its
start and its end (`reads_atomic`), whatever commits meanwhile.  So a listing that its limit does not cut off is
balanced (`listing_balanced`), and what was committed before the request started is found (`committed_found`).
-/

namespace GenPay

open ReadCommitted

/-! ### What a route shows of a database -/

/-- The rows of a page. -/
def pageOf {β : Type} (c : Choice) (rows : List β) (createdAt : β → Nat) (limit offset : Int) : List β :=
  (((c.arrange rows).insertionSort fun r r' => createdAt r ≤ createdAt r').drop offset.toNat).take limit.toNat

/-- The first of the rows. -/
def firstOf {β : Type} (c : Choice) (rows : List β) : Option β := (c.arrange rows).head?

/-- A row, or 404. -/
def rowOr404 {β : Type} (what : String) (f : β → Response) : Option β → Except Exc Response
  | some a => .ok (f a)
  | none => .error (httpError 404 s!"{what} not found")

/-- Whether a listing for this account shows the transaction; without an account it shows all. -/
def isListed (accountId : Option String) : Transaction → Bool :=
  match accountId.filter (· ≠ "") with
  | some id => (·.ledgerAccountId == id)
  | none => fun _ => true

theorem listAll_isListed (accountId : Option String) (limit offset : Nat) :
    TransactionRepository.listAll accountId limit offset =
      page Db.transactions (·.createdAt) (isListed accountId) limit offset := by
  unfold TransactionRepository.listAll isListed
  cases accountId.filter (· ≠ "") with
  | some id => rfl
  | none => rfl

/-- What the routes that read rows show of a database, behind the gate and with valid limits. -/
def Route.shows : Route → Option (Choice → Db → Except Exc Response)
  | .listUsers limit offset => some fun c d => .ok (.users (pageOf c d.users (·.createdAt) limit offset))
  | .getUser id => some fun c d => rowOr404 "User" .user (firstOf c (d.users.filter (·.id == id)))
  | .listArchives limit offset => some fun c d => .ok (.archives (pageOf c d.archives (·.createdAt) limit offset))
  | .getArchive id => some fun c d => rowOr404 "Archive" .archive (firstOf c (d.archives.filter (·.id == id)))
  | .listRecords limit offset => some fun c d => .ok (.records (pageOf c d.records (·.createdAt) limit offset))
  | .getRecord id => some fun c d => rowOr404 "Record" .record (firstOf c (d.records.filter (·.id == id)))
  | .listAccounts limit offset => some fun c d => .ok (.accounts (pageOf c d.accounts (·.createdAt) limit offset))
  | .getAccount id => some fun c d => rowOr404 "Account" .account (firstOf c (d.accounts.filter (·.id == id)))
  | .viewLedger accountId limit offset => some fun c d =>
    .ok (.transactions (pageOf c (d.transactions.filter (isListed accountId)) (·.createdAt) limit offset))
  | .getPurchase id => some fun c d => rowOr404 "Purchase" .purchaseDetail (firstOf c (d.authorizations.filter (·.id == id)))
  | _ => none

/-- The listings. -/
def Route.isPaged : Route → Bool
  | .listUsers .. | .listArchives .. | .listRecords .. | .listAccounts .. | .viewLedger .. => true
  | _ => false

/-- What a route that reads rows refuses a request with before it does: at the gate, or for its limits. -/
def Route.refusals (route : Route) : List Exc :=
  (if route.isGated then [unauthorized] else []) ++ (if route.isPaged then [.requestValidationError] else [])

section Programs

variable {env : Env} {fk : Bool} {o : Nat → Choice} {r : Request} {f : Choice → Db → Except Exc Response} {es : List Exc}

/-- The program writes nothing and ends as `f` says of a database it has seen, or is refused before. -/
def Shows (fk : Bool) (o : Nat → Choice) (es : List Exc) (f : Choice → Db → Except Exc Response) (p : Tx Response) : Prop :=
  ∀ t : Txn Db Write, t.writes = [] → p.wp (engine fk) o (fun e t' => (∃ d ∈ t'.seen, ∃ c, f c d = e) ∨
    ∃ e' ∈ es, e = .error e') t

theorem Shows.gated {p : ApiClient → Tx Response} (h : ∀ client, Shows fk o es f (p client)) :
    Shows fk o (unauthorized :: es) f (withApiKey env r p) := by
  intro t ht
  refine Prog.wp_bind (Prog.wp_mono (requireApiKey_gates ht) fun e t' hend => ?_)
  cases e with
  | error e => exact Or.inr ⟨unauthorized, List.mem_cons_self .., congrArg _ hend⟩
  | ok client =>
    refine Prog.wp_mono (h client t' hend.1) fun e t'' hend => ?_
    exact hend.imp_right fun ⟨e', he', he⟩ => ⟨e', List.mem_cons_of_mem _ he', he⟩

theorem shows_page {β : Type} {table rows : Db → List β} {createdAt : β → Nat} {p : β → Bool} {g : List β → Response}
    {limit offset : Int} (hrows : ∀ d, (table d).filter p = rows d) :
    Shows fk o [.requestValidationError] (fun c d => .ok (g (pageOf c (rows d) createdAt limit offset))) (respond g do
      let (limit, offset) ← paging limit offset
      page table createdAt p limit offset) := by
  intro t ht
  unfold paging
  by_cases hvalid : 1 ≤ limit ∧ limit ≤ 200 ∧ 0 ≤ offset
  · rw [if_pos hvalid]
    intro d
    rw [ht, Engine.view_nil]
    refine Or.inl ⟨d, by simp, o t.seen.length, ?_⟩
    change Except.ok (g (pageOf (o t.seen.length) (rows d) createdAt limit offset)) = _
    rw [← hrows d]
    rfl
  · rw [if_neg hvalid]
    exact Or.inr ⟨_, List.mem_singleton.2 rfl, rfl⟩

theorem found_wp {β : Type} {what : String} {g : β → Response} {t : Txn Db Write} {Q : Prog.Post Db Write Exc Response}
    {row : Option β} (h : Q (rowOr404 what g row) t) : (respond g (found what row)).wp (engine fk) o Q t := by
  cases row <;> exact h

theorem shows_row {β : Type} {table : Db → List β} {p : β → Bool} {what : String} {g : β → Response} :
    Shows fk o [] (fun c d => rowOr404 what g (firstOf c ((table d).filter p)))
      (respond g do found what (← scalar table p)) := by
  intro t ht d
  rw [ht, Engine.view_nil]
  exact found_wp (Or.inl ⟨d, by simp, o t.seen.length, rfl⟩)

/-- The programs of these routes. -/
theorem route_shows (hf : r.route.shows = some f) : Shows fk o r.route.refusals f (route env r) := by
  unfold route
  cases hroute : r.route with
  | listUsers | listAccounts =>
    rw [hroute] at hf
    cases hf
    exact Shows.gated fun _ => shows_page fun _ => List.filter_true _
  | listArchives | listRecords =>
    rw [hroute] at hf
    cases hf
    exact shows_page fun _ => List.filter_true _
  | getUser | getAccount | getPurchase =>
    rw [hroute] at hf
    cases hf
    exact Shows.gated fun _ => shows_row
  | getArchive | getRecord =>
    rw [hroute] at hf
    cases hf
    exact shows_row
  | viewLedger accountId limit offset =>
    rw [hroute] at hf
    cases hf
    refine Shows.gated fun _ => ?_
    simp only [listAll_isListed]
    exact shows_page fun _ => rfl
  | _ =>
    rw [hroute] at hf
    cases hf

end Programs

/-! ### Runs -/

section Runs

variable {env : Env} {G : AppSession → Db → Prop} {d₀ : Db} {s₀ s : AppSystem} {i : Nat} {t : AppSession} {r : Request}
  {f : Choice → Db → Except Exc Response}

/-- A request that reads rows ends as its route shows of one database, which has been committed since it was started,
unless the route has refused it or the engine has ended it. -/
theorem reads_atomic (h₁ : Run (genPay env) G (System.initial d₀) s₀) (h₂ : Run (genPay env) G s₀ s)
    (hi : s₀.sessions.length ≤ i) (ht : s.sessions[i]? = some t) (hjob : t.job = .request r) (hf : r.route.shows = some f) :
    (∀ a, t.phase = .committed a → ∃ d, Passed (genPay env) G s₀ s d ∧ ∃ c, f c d = .ok a) ∧
      ∀ e, t.phase = .failed e → e ∈ r.route.refusals ∨ e = .operationalError ∨
        ∃ d, Passed (genPay env) G s₀ s d ∧ ∃ c, f c d = .error e := by
  have hends : t.EndsAs (genPay env) fun e t' => (∃ d ∈ t'.seen, ∃ c, f c d = e) ∨
      ∃ e' ∈ r.route.refusals, e = .error e' := by
    refine Run.ends_as ?_ (h₁.trans h₂) t (List.mem_of_getElem? ht) rfl rfl
    rw [hjob]
    exact route_shows hf Txn.fresh rfl
  have hpassed : ∀ d ∈ t.txn.seen, Passed (genPay env) G s₀ s d := h₂.seen_since i t hi ht
  constructor
  · intro a ha
    rcases hends.committed ha with ⟨d, hd, hc⟩ | ⟨e', -, he⟩
    · exact ⟨d, hpassed d hd, hc⟩
    · cases he
  · intro e he
    rcases hends.failed he with rfl | ⟨ws, ⟨d, hd, hc⟩ | ⟨e', he', he⟩⟩
    · exact Or.inr (Or.inl rfl)
    · exact Or.inr (Or.inr ⟨d, hpassed d hd, hc⟩)
    · cases he
      exact Or.inl he'

/-! ### Listings that are not cut off -/

/-- A page from the start that is shorter than its limit has all rows. -/
theorem pageOf_perm {β : Type} {c : Choice} {rows : List β} {createdAt : β → Nat} {limit : Int}
    (h : ((pageOf c rows createdAt limit 0).length : Int) < limit) : (pageOf c rows createdAt limit 0).Perm rows := by
  have hall : pageOf c rows createdAt limit 0 = (c.arrange rows).insertionSort fun r r' => createdAt r ≤ createdAt r' := by
    unfold pageOf at h ⊢
    rw [List.length_take] at h
    refine (List.take_of_length_le ?_).trans (List.drop_zero)
    omega
  rw [hall]
  exact (List.perm_insertionSort _ _).trans (c.arrange_perm rows)

theorem totalOf_perm {type : TransactionType} {entries entries' : List LedgerEntry} (h : entries.Perm entries') :
    totalOf type entries = totalOf type entries' := by
  unfold totalOf
  exact ((h.filter _).map _).sum_eq

/-- Whatever commits while it reads: a listing of the ledger that is not cut off shows each settlement whole, and one of
the accounts shows balances that cancel. -/
theorem listing_balanced (h₀ : Seeded env d₀) (h₁ : Run (genPay env) G (System.initial d₀) s₀)
    (h₂ : Run (genPay env) G s₀ s) (hi : s₀.sessions.length ≤ i) (ht : s.sessions[i]? = some t) {limit : Int}
    (hjob : t.job = .request r) :
    (∀ l, r.route = .viewLedger none limit 0 → t.phase = .committed (.transactions l) → (l.length : Int) < limit →
      ∃ d, Passed (genPay env) G s₀ s d ∧ l.Perm d.transactions ∧
        ∀ id, totalOf .debit ((l.filter (·.settlementId == id)).map Transaction.entry) =
          totalOf .credit ((l.filter (·.settlementId == id)).map Transaction.entry)) ∧
    ∀ l, r.route = .listAccounts limit 0 → t.phase = .committed (.accounts l) → (l.length : Int) < limit →
      ∃ d, Passed (genPay env) G s₀ s d ∧ l.Perm d.accounts ∧ (l.map (·.balanceCents)).sum = 0 := by
  have hsound : ∀ d, Passed (genPay env) G s₀ s d → d.Sound := fun d hd => (hd.evolves (ledger env G) h₀.sound h₁).1
  constructor
  · intro l hr ha hlen
    obtain ⟨d, hd, c, he⟩ := (reads_atomic h₁ h₂ hi ht hjob (congrArg Route.shows hr)).1 _ ha
    cases he
    have hperm : (pageOf c (d.transactions.filter (isListed none)) (·.createdAt) limit 0).Perm d.transactions :=
      (pageOf_perm hlen).trans (List.Perm.of_eq (List.filter_true _))
    refine ⟨d, hd, hperm, fun id => ?_⟩
    have hrows := (hperm.filter (·.settlementId == id)).map Transaction.entry
    rw [totalOf_perm hrows, totalOf_perm hrows]
    exact (hsound d hd).debits_eq_credits id
  · intro l hr ha hlen
    obtain ⟨d, hd, c, he⟩ := (reads_atomic h₁ h₂ hi ht hjob (congrArg Route.shows hr)).1 _ ha
    cases he
    have hperm := pageOf_perm hlen
    refine ⟨d, hd, hperm, ?_⟩
    rw [(hperm.map _).sum_eq]
    exact (hsound d hd).sum_balances

/-! ### What was committed before -/

/-- The row that the route names. -/
def Route.IsIn (d : Db) : Route → Prop
  | .getUser id => id ∈ d.column .usersId
  | .getArchive id => id ∈ d.column .archivesId
  | .getRecord id => id ∈ d.column .recordsId
  | .getAccount id => id ∈ d.column .accountsId
  | .getPurchase id => id ∈ d.column .authorizationsId
  | _ => False

/-- The response is about that row; of an account the balance may have changed since, of a purchase its status. -/
inductive Route.Finds (d : Db) : Route → Response → Prop
  | user {u} (hu : u ∈ d.users) : Finds d (.getUser u.id) (.user u)
  | archive {a} (ha : a ∈ d.archives) : Finds d (.getArchive a.id) (.archive a)
  | record {q} (hq : q ∈ d.records) : Finds d (.getRecord q.id) (.record q)
  | account {a b} (ha : a ∈ d.accounts) (hcore : b.core = a.core) : Finds d (.getAccount a.id) (.account b)
  | purchase {a b} (ha : a ∈ d.authorizations) (hcore : b.core = a.core) : Finds d (.getPurchase a.id) (.purchaseDetail b)

/-- Of rows with distinct ids the one with this id is found. -/
theorem firstOf_eq {β : Type} {c : Choice} {rows : List β} {id : β → String} (hid : (rows.map id).Nodup) {x : β}
    (hx : x ∈ rows) : firstOf c (rows.filter (id · == id x)) = some x := by
  have hone : rows.filter (id · == id x) = [x] :=
    filter_eq_singleton hid hx (by simp) fun y _ he => by simpa using he
  have hperm := c.arrange_perm (rows.filter (id · == id x))
  rw [hone, List.perm_singleton] at hperm
  rw [firstOf, hone, hperm]
  rfl

/-- What a route shows of a database that the run passes later. -/
theorem Route.IsIn.shows (h₀ : d₀.Sound) (h₁ : Run (genPay env) G (System.initial d₀) s₀) {route : Route}
    (hin : route.IsIn s₀.db) {d : Db} (hd : Passed (genPay env) G s₀ s d) :
    ∃ f, route.shows = some f ∧ ∃ a, route.Finds s₀.db a ∧ ∀ c, f c d = .ok a := by
  obtain ⟨hsound, -, -⟩ := hd.evolves (ledger env G) h₀ h₁
  obtain ⟨s₁, hrun, -, rfl⟩ := hd
  have hext := (Discipline.evolves_run (D := ledger env G) h₀ h₁ hrun).1
  cases route with
  | getUser id =>
    obtain ⟨u, hu, rfl⟩ := List.mem_map.1 hin
    have hu' : u ∈ s₁.db.users := hrun.row_stays (userTable env.foreignKeys) (fun _ _ => rfl) hu
    exact ⟨_, rfl, _, .user hu, fun c => congrArg (rowOr404 "User" .user) (firstOf_eq (hsound.unique .usersId) hu')⟩
  | getArchive id =>
    obtain ⟨a, ha, rfl⟩ := List.mem_map.1 hin
    have ha' : a ∈ s₁.db.archives := hrun.row_stays (archiveTable env.foreignKeys) (fun _ _ => rfl) ha
    exact ⟨_, rfl, _, .archive ha, fun c => congrArg (rowOr404 "Archive" .archive) (firstOf_eq (hsound.unique .archivesId) ha')⟩
  | getRecord id =>
    obtain ⟨q, hq, rfl⟩ := List.mem_map.1 hin
    have hq' : q ∈ s₁.db.records := hrun.row_stays (recordTable env.foreignKeys) (fun _ _ => rfl) hq
    exact ⟨_, rfl, _, .record hq, fun c => congrArg (rowOr404 "Record" .record) (firstOf_eq (hsound.unique .recordsId) hq')⟩
  | getAccount id =>
    obtain ⟨a, ha, rfl⟩ := List.mem_map.1 hin
    obtain ⟨b, hb, hstep⟩ := hext.accounts.mem ha
    have hid : b.id = a.id := hstep.id
    refine ⟨_, rfl, .account b, .account ha hstep, fun c => ?_⟩
    rw [← hid]
    exact congrArg (rowOr404 "Account" .account) (firstOf_eq (hsound.unique .accountsId) hb)
  | getPurchase id =>
    obtain ⟨a, ha, rfl⟩ := List.mem_map.1 hin
    obtain ⟨b, hb, hstep⟩ := hext.authorizations.mem ha
    have hid : b.id = a.id := of_core Authorization.id hstep
    refine ⟨_, rfl, .purchaseDetail b, .purchase ha hstep, fun c => ?_⟩
    rw [← hid]
    exact congrArg (rowOr404 "Purchase" .purchaseDetail) (firstOf_eq (hsound.unique .authorizationsId) hb)
  | _ => exact hin.elim

/-- A route of one row refuses at the gate only. -/
theorem Route.IsIn.refusals {d : Db} {route : Route} (hin : route.IsIn d) {e : Exc} (he : e ∈ route.refusals) :
    route.isGated = true ∧ e = unauthorized := by
  cases route with
  | getUser | getAccount | getPurchase => exact ⟨rfl, List.mem_singleton.1 he⟩
  | getArchive | getRecord => cases he
  | _ => exact hin.elim

/-- A row that was committed before the request for it started is found, unless the gate refuses the request or the
engine ends it. -/
theorem committed_found (h₀ : Seeded env d₀) (h₁ : Run (genPay env) G (System.initial d₀) s₀)
    (h₂ : Run (genPay env) G s₀ s) (hi : s₀.sessions.length ≤ i) (ht : s.sessions[i]? = some t) (hjob : t.job = .request r)
    (hin : r.route.IsIn s₀.db) :
    (∀ a, t.phase = .committed a → r.route.Finds s₀.db a) ∧
      ∀ e, t.phase = .failed e → r.route.isGated = true ∧ e = unauthorized ∨ e = .operationalError := by
  obtain ⟨f, hf, -⟩ := hin.shows h₀.sound h₁ (Passed.here h₂)
  have hshows : ∀ {d}, Passed (genPay env) G s₀ s d → ∃ a, r.route.Finds s₀.db a ∧ ∀ c, f c d = .ok a := by
    intro d hd
    obtain ⟨f', hf', hfinds⟩ := hin.shows h₀.sound h₁ hd
    rw [hf] at hf'
    cases hf'
    exact hfinds
  obtain ⟨hok, herror⟩ := reads_atomic h₁ h₂ hi ht hjob hf
  constructor
  · intro a ha
    obtain ⟨d, hd, c, he⟩ := hok a ha
    obtain ⟨b, hb, hall⟩ := hshows hd
    rw [hall c] at he
    cases he
    exact hb
  · intro e he
    rcases herror e he with hrefused | haborted | ⟨d, hd, c, he⟩
    · exact Or.inl (hin.refusals hrefused)
    · exact Or.inr haborted
    · obtain ⟨b, -, hall⟩ := hshows hd
      rw [hall c] at he
      cases he

end Runs

def Response.transactions? : Response → Option (List Transaction)
  | .transactions l => some l
  | _ => none

theorem Response.transactions?_eq_some {a : Response} {l : List Transaction} :
    a.transactions? = some l ↔ a = .transactions l := by
  cases a <;> simp [Response.transactions?]

/-- The ledger and the buyer's account are asked for while a purchase goes on, and read after its commit. -/
def Sample.browsing : AppSystem :=
  scheduled Sample.env seeded (fun _ _ => true) (.start (Case.job (.buys "key")) (oracle 1) :: (List.replicate 30 (.exec 0) ++
    .start (.request (keyed (.viewLedger none 50 0))) (oracle 2) ::
    .start (.request (keyed (.getAccount (uuid 0 18)))) (oracle 3) :: .exec 1 :: .exec 2 ::
    (List.replicate 5 (.exec 0) ++ [.exec 1, .exec 1, .exec 2, .exec 2])))

theorem Sample.run_browsing : Run (genPay Sample.env) (fun _ _ => True) (System.initial seeded) Sample.browsing :=
  Sample.run_scheduled (fun _ _ _ => True.intro) _

open Sample in
theorem listing_balanced_browsing : ∃ t l, browsing.sessions[1]? = some t ∧ t.phase = .committed (.transactions l) ∧
    l.length = 4 ∧ ∃ d, Passed (genPay Sample.env) (fun _ _ => True) (System.initial seeded) browsing d ∧
      l.Perm d.transactions ∧ ∀ id, totalOf .debit ((l.filter (·.settlementId == id)).map Transaction.entry) =
        totalOf .credit ((l.filter (·.settlementId == id)).map Transaction.entry) := by
  obtain ⟨t, a, ht, ha, hp⟩ := committed_at (s := browsing) (i := 1)
    (p := fun t a => (a.transactions?.any fun l => l.length == 4) &&
      t.job.request?.any fun r => r.route == .viewLedger none 50 0) (by decide +kernel)
  obtain ⟨hl, hr⟩ := Bool.and_eq_true_iff.1 hp
  obtain ⟨l, hl, hlen⟩ := (Option.any_eq_true _ _).1 hl
  obtain ⟨r, hr, hroute⟩ := (Option.any_eq_true _ _).1 hr
  rw [Response.transactions?_eq_some.1 hl] at ha
  have hfour : l.length = 4 := by simpa using hlen
  refine ⟨t, l, ht, ha, hfour, ?_⟩
  exact (listing_balanced seeded_env (Run.refl _) run_browsing (Nat.zero_le 1) ht (Job.request?_eq_some.1 hr)).1 l
    (by simpa using hroute) ha (by omega)

open Sample in
theorem committed_found_browsing : ∃ t a, browsing.sessions[2]? = some t ∧ t.phase = .committed a ∧
    (Route.getAccount (uuid 0 18)).Finds seeded a := by
  obtain ⟨t, a, ht, ha, hr⟩ := committed_at (s := browsing) (i := 2)
    (p := fun t _ => t.job.request?.any fun r => r.route == .getAccount (uuid 0 18)) (by decide +kernel)
  obtain ⟨r, hr, hroute⟩ := (Option.any_eq_true _ _).1 hr
  have hroute : r.route = .getAccount (uuid 0 18) := by simpa using hroute
  have hin : r.route.IsIn seeded := by
    rw [hroute]
    show uuid 0 18 ∈ seeded.column .accountsId
    decide +kernel
  have hfound := (committed_found seeded_env (Run.refl _) run_browsing (Nat.zero_le 2) ht (Job.request?_eq_some.1 hr) hin).1 a ha
  rw [hroute] at hfound
  exact ⟨t, a, ht, ha, hfound⟩

end GenPay
