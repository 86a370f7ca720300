import GenPay.Windows
import GenPay.Batches

/-!
# Paging through a table

The `list_all` queries order by `created_at` alone, so that rows of one time are returned in an order that may
change from page to page.  Pages lose and repeat nothing just when the times are distinct (`paging_iff`); the rows of
one purchase have one time (`purchase_repeated`).
-/

namespace GenPay

open ReadCommitted Windows

/-- The tables with a `list_all`; transactions are listed for one account or for all. -/
inductive Listing
  | users
  | archives
  | records
  | accounts
  | transactions (accountId : Option String)

namespace Listing

def Row : Listing → Type
  | users => User
  | archives => HistoricalArchive
  | records => ResearchRecord
  | accounts => LedgerAccount
  | transactions _ => Transaction

def table (d : Db) : (e : Listing) → List e.Row
  | users => d.users
  | archives => d.archives
  | records => d.records
  | accounts => d.accounts
  | transactions _ => d.transactions

def isMatch : (e : Listing) → e.Row → Bool
  | transactions accountId => fun row => match accountId.filter (· ≠ "") with
    | some id => row.ledgerAccountId == id
    | none => true
  | _ => fun _ => true

/-- The matching rows. -/
def rows (d : Db) (e : Listing) : List e.Row := (e.table d).filter e.isMatch

def createdAt : (e : Listing) → e.Row → Nat
  | users => User.createdAt
  | archives => HistoricalArchive.createdAt
  | records => ResearchRecord.createdAt
  | accounts => LedgerAccount.createdAt
  | transactions _ => Transaction.createdAt

def listAll : (e : Listing) → Nat → Nat → Tx (List e.Row)
  | users => UserRepository.listAll
  | archives => HistoricalArchiveRepository.listAll
  | records => ResearchRecordRepository.listAll
  | accounts => LedgerAccountRepository.listAll
  | transactions accountId => TransactionRepository.listAll accountId

variable {fk : Bool} {d : Db} {e : Listing} {limit offset : Nat}

/-- A page that the query may return on these rows. -/
def MayReturn (fk : Bool) (d : Db) (e : Listing) (limit offset : Nat) (page : List e.Row) : Prop :=
  ∃ o t, (e.listAll limit offset).run (engine fk) o d Txn.fresh = (.ok page, t)

/-- Pages of this size lose and repeat nothing. -/
structure Pages (fk : Bool) (d : Db) (e : Listing) (limit : Nat) : Prop where
  /-- Up to the end, they have every matching row once. -/
  exhaust : ∀ pages : Nat → List e.Row, (∀ i, e.MayReturn fk d limit (i * limit) (pages i)) →
    ∀ n, (e.rows d).length ≤ n * limit → ((List.range n).flatMap pages).Perm (e.rows d)
  /-- A page is the full list without the rows before it. -/
  skip : ∀ offset page full, e.MayReturn fk d limit offset page → e.MayReturn fk d (e.rows d).length 0 full →
    page = (full.drop offset).take limit

theorem listAll_eq : e.listAll limit offset = Prog.query fun c d =>
    window ((c.arrange (e.rows d)).insertionSort fun x y => e.createdAt x ≤ e.createdAt y) limit offset := by
  cases e with
  | transactions accountId =>
    have hmatch : (transactions accountId).isMatch = fun row : Transaction => match accountId.filter (· ≠ "") with
      | some id => row.ledgerAccountId == id
      | none => true := rfl
    unfold rows
    rw [hmatch]
    show TransactionRepository.listAll accountId limit offset = _
    unfold TransactionRepository.listAll
    cases accountId.filter (· ≠ "") <;> rfl
  | _ => rfl

/-- Every order of the rows that a `SELECT` may return. -/
theorem exists_arrange {β : Type} {rows l : List β} (hrows : rows.Nodup) (h : l.Perm rows) :
    ∃ c : Choice, c.arrange rows = l := by
  obtain ⟨σ, hσ⟩ := exists_arrangement hrows h
  refine ⟨⟨"", 0, fun m => if hm : rows.length = m then hm ▸ σ else Equiv.refl _⟩, ?_⟩
  rw [← hσ]
  simp [Choice.arrange]

theorem rows_nodup (hunique : ∀ c, (d.column c).Nodup) : (e.rows d).Nodup := by
  refine List.Nodup.filter _ ?_
  cases e with
  | users => exact (hunique .usersId).of_map
  | archives => exact (hunique .archivesId).of_map
  | records => exact (hunique .recordsId).of_map
  | accounts => exact (hunique .accountsId).of_map
  | transactions accountId => exact (hunique .transactionsId).of_map

/-- The query returns the windows of the answers in order of `created_at`. -/
theorem mayReturn_iff (hrows : (e.rows d).Nodup) {page : List e.Row} :
    e.MayReturn fk d limit offset page ↔ Window e.createdAt (e.rows d) limit offset page := by
  unfold MayReturn
  rw [listAll_eq]
  constructor
  · rintro ⟨o, t, hrun⟩
    cases hrun
    exact ⟨_, ordered_insertionSort (Choice.arrange_perm _ _), rfl⟩
  · rintro ⟨l, hl, rfl⟩
    obtain ⟨c, hc⟩ := exists_arrange hrows hl.perm
    refine ⟨fun _ => c, Txn.fresh.saw d, ?_⟩
    show (Except.ok (window ((c.arrange (e.rows d)).insertionSort _) limit offset), _) = _
    rw [hc, hl.insertionSort_eq]

end Listing

open Listing

variable {fk : Bool} {d : Db} {e : Listing}

theorem exhaust_iff (hunique : ∀ c, (d.column c).Nodup) :
    (∀ limit, 1 ≤ limit → limit ≤ 200 → ∀ pages : Nat → List e.Row,
      (∀ i, e.MayReturn fk d limit (i * limit) (pages i)) →
      ∀ n, (e.rows d).length ≤ n * limit → ((List.range n).flatMap pages).Perm (e.rows d)) ↔
      ((e.rows d).map e.createdAt).Nodup := by
  have hrows : (e.rows d).Nodup := rows_nodup hunique
  simp only [mayReturn_iff hrows]
  constructor
  · intro h
    exact keys_nodup_of_windows hrows fun pages hpages => h 1 (le_refl 1) (by omega) pages hpages _ (by omega)
  · intro hkeys limit _ _ pages hpages n hn
    exact windows_perm hkeys hpages hn

theorem skip_iff (hunique : ∀ c, (d.column c).Nodup) {limit : Nat} (hlimit : 1 ≤ limit) :
    (∀ offset page full, e.MayReturn fk d limit offset page → e.MayReturn fk d (e.rows d).length 0 full →
      page = (full.drop offset).take limit) ↔ ((e.rows d).map e.createdAt).Nodup := by
  have hrows : (e.rows d).Nodup := rows_nodup hunique
  simp only [mayReturn_iff hrows]
  have hfull : ∀ l, Ordered e.createdAt (e.rows d) l → window l (e.rows d).length 0 = l := by
    intro l hl
    unfold window
    rw [List.drop_zero, List.take_of_length_le hl.perm.length_eq.le]
  constructor
  · intro h
    refine keys_nodup_of_window hlimit hrows fun k page page' hp hp' => ?_
    obtain ⟨l, hl⟩ : ∃ l, Ordered e.createdAt (e.rows d) l := ⟨_, ordered_insertionSort (List.Perm.refl _)⟩
    exact (h k page l hp ⟨l, hl, hfull l hl⟩).trans (h k page' l hp' ⟨l, hl, hfull l hl⟩).symm
  · rintro hkeys offset page full ⟨l, hl, rfl⟩ ⟨l', hl', rfl⟩
    rw [hfull l' hl', hl.unique hkeys hl']
    rfl

/-- Paging loses and repeats nothing just when no two matching rows have the same `created_at`. -/
theorem paging_iff (hunique : ∀ c, (d.column c).Nodup) :
    (∀ limit, 1 ≤ limit → limit ≤ 200 → e.Pages fk d limit) ↔ ((e.rows d).map e.createdAt).Nodup := by
  constructor
  · intro h
    exact (exhaust_iff hunique).1 fun limit h₁ h₂ => (h limit h₁ h₂).exhaust
  · intro hkeys limit h₁ h₂
    exact ⟨(exhaust_iff hunique).2 hkeys limit h₁ h₂, (skip_iff hunique h₁).2 hkeys⟩

namespace Sample

/-- A clock that stands still for the length of a request. -/
def sameSecond (n : Nat) : Choice := ⟨uuid 1 n, 1000, fun m => Equiv.refl (Fin m)⟩

/-- The rows of equal time the other way round. -/
def backwards (n : Nat) : Choice := ⟨uuid 2 n, 2000, fun _ => Fin.revPerm⟩

def boughtAtOnce : Db := (genPay env).serveAll seeded [((Case.buys "key").job, sameSecond)]

/-- The debit of the purchase. -/
def debit : Transaction := ⟨uuid 1 16, uuid 0 18, uuid 1 14, .debit, 599, "USD", .posted, 1000⟩

end Sample

open Sample in
/-- One purchase: its debit is the first row of four, and then the last. -/
theorem purchase_repeated : ∃ s : AppSystem, Reachable (genPay Sample.env) seeded s ∧
    s.db.transactions.map (·.createdAt) = [1000, 1000, 1000, 1000] ∧
    (Listing.transactions none).MayReturn true s.db 1 0 [debit] ∧
    (Listing.transactions none).MayReturn true s.db 1 3 [debit] ∧
    ¬ (Listing.transactions none).Pages true s.db 1 := by
  obtain ⟨s, hs, hdb, -⟩ := reachable_serveAll Sample.env seeded [((Case.buys "key").job, sameSecond)]
  have hdb : s.db = boughtAtOnce := hdb
  have hunique : ∀ c, (s.db.column c).Nodup := (run_sound seeded_env.sound hs).unique
  have htimes : s.db.transactions.map (·.createdAt) = [1000, 1000, 1000, 1000] := by
    rw [hdb]
    decide +kernel
  refine ⟨s, hs, htimes, ⟨sameSecond, _, Prod.ext ?_ rfl⟩, ⟨backwards, _, Prod.ext ?_ rfl⟩, fun hpages => ?_⟩
  · rw [hdb]
    show (((TransactionRepository.listAll none 1 0).run (engine true) sameSecond boughtAtOnce Txn.fresh).1 :
      Except Exc (List Transaction)) = .ok [debit]
    decide +kernel
  · rw [hdb]
    show (((TransactionRepository.listAll none 1 3).run (engine true) backwards boughtAtOnce Txn.fresh).1 :
      Except Exc (List Transaction)) = .ok [debit]
    decide +kernel
  · have hrows : ((Listing.transactions none).rows s.db).Nodup := rows_nodup hunique
    have hkeys := keys_nodup_of_windows hrows fun pages hwindows =>
      hpages.exhaust pages (fun i => (mayReturn_iff hrows).2 (hwindows i)) _ (by omega)
    have hall : (Listing.transactions none).rows s.db = s.db.transactions := List.filter_eq_self.2 fun _ _ => rfl
    rw [hall] at hkeys
    have hkeys : (s.db.transactions.map (·.createdAt)).Nodup := hkeys
    rw [htimes] at hkeys
    exact absurd hkeys (by decide)

open Sample in
/-- The users were created one after the other, and can be listed one by one. -/
theorem paging_iff_users : Listing.users.Pages true seeded 1 := by
  refine (paging_iff seeded_env.sound.unique).2 ?_ 1 (by decide) (by decide)
  show ((seeded.users.filter fun _ => true).map User.createdAt).Nodup
  decide +kernel

end GenPay
