import GenPay.Models
import Mathlib.Data.List.Sort

/-!
# The revenue split

`app/services/revenue_split.py`: shares in integer basis points, floored, with the leftover cents given by largest
remainder (Hamilton's method).  A `RevenueSplitConfig` carries what `__post_init__` checks.
-/

namespace GenPay

def basisPointsTotal : Int := 10000

/-- The entries of `_PARTIES`. -/
inductive Party
  | archive | transcriptionist | platform
  deriving DecidableEq, Repr

def parties : List Party := [.archive, .transcriptionist, .platform]

/-- `_PARTIES.index(name)`. -/
def Party.index : Party → Nat
  | .archive => 0
  | .transcriptionist => 1
  | .platform => 2

def Party.name : Party → String
  | .archive => "archive"
  | .transcriptionist => "transcriptionist"
  | .platform => "platform"

structure RevenueSplitConfig where
  archiveBps : Int
  transcriptionistBps : Int
  platformBps : Int
  archive_nonneg : 0 ≤ archiveBps
  transcriptionist_nonneg : 0 ≤ transcriptionistBps
  platform_nonneg : 0 ≤ platformBps
  sum_eq : archiveBps + transcriptionistBps + platformBps = basisPointsTotal

namespace RevenueSplitConfig

/-- The constructor with its `__post_init__` checks. -/
def make (archive transcriptionist platform : Int) : Except Exc RevenueSplitConfig :=
  if ha : archive < 0 then .error (.valueError s!"archive_bps must be >= 0, got {archive}")
  else if ht : transcriptionist < 0 then
    .error (.valueError s!"transcriptionist_bps must be >= 0, got {transcriptionist}")
  else if hp : platform < 0 then .error (.valueError s!"platform_bps must be >= 0, got {platform}")
  else if hs : archive + transcriptionist + platform = basisPointsTotal then
    .ok ⟨archive, transcriptionist, platform, by omega, by omega, by omega, hs⟩
  else .error (.valueError (s!"Revenue split shares must sum to 100% ({basisPointsTotal} bps), " ++
    s!"got {archive + transcriptionist + platform} bps (archive={archive}, " ++
    s!"transcriptionist={transcriptionist}, platform={platform})"))

def fromSettings (s : Settings) : Except Exc RevenueSplitConfig :=
  make s.archiveShareBps s.transcriptionistShareBps s.platformShareBps

def bps (c : RevenueSplitConfig) : Party → Int
  | .archive => c.archiveBps
  | .transcriptionist => c.transcriptionistBps
  | .platform => c.platformBps

theorem bps_nonneg (c : RevenueSplitConfig) (p : Party) : 0 ≤ c.bps p := by
  cases p
  · exact c.archive_nonneg
  · exact c.transcriptionist_nonneg
  · exact c.platform_nonneg

end RevenueSplitConfig

structure RevenueSplitResult where
  archiveCents : Int
  transcriptionistCents : Int
  platformCents : Int
  deriving DecidableEq, Repr

/-- The first component of `divmod(total_cents * bps, 10_000)`. -/
def floorAmount (totalCents : Int) (c : RevenueSplitConfig) (p : Party) : Int :=
  totalCents * c.bps p / basisPointsTotal

/-- The second component. -/
def remainder (totalCents : Int) (c : RevenueSplitConfig) (p : Party) : Int :=
  totalCents * c.bps p % basisPointsTotal

def leftoverCents (totalCents : Int) (c : RevenueSplitConfig) : Int :=
  totalCents - (floorAmount totalCents c .archive + floorAmount totalCents c .transcriptionist +
    floorAmount totalCents c .platform)

/-- The sort key `(-remainders[name], _PARTIES.index(name))`, compared as a tuple. -/
def comesBefore (totalCents : Int) (c : RevenueSplitConfig) (p q : Party) : Prop :=
  remainder totalCents c q < remainder totalCents c p ∨
    (remainder totalCents c p = remainder totalCents c q ∧ p.index ≤ q.index)

instance (totalCents : Int) (c : RevenueSplitConfig) : DecidableRel (comesBefore totalCents c) :=
  fun _ _ => inferInstanceAs (Decidable (_ ∨ _))

def order (totalCents : Int) (c : RevenueSplitConfig) : List Party :=
  parties.insertionSort (comesBefore totalCents c)

/-- One more cent for `p`. -/
def giveCent (amounts : Party → Int) (p : Party) : Party → Int :=
  fun q => if q = p then amounts q + 1 else amounts q

/-- The loop `for i in range(leftover_cents): floor_amounts[order[i % len(order)]] += 1`. -/
def distribute (order : List Party) (amounts : Party → Int) (leftover : Nat) : Party → Int :=
  (List.range leftover).foldl
    (fun amounts i => match order[i % order.length]? with
      | some p => giveCent amounts p
      | none => amounts)
    amounts

/-- The split of a positive total under a given configuration. -/
def splitWith (totalCents : Int) (config : RevenueSplitConfig) : RevenueSplitResult :=
  let amounts := distribute (order totalCents config) (floorAmount totalCents config)
    (leftoverCents totalCents config).toNat
  ⟨amounts .archive, amounts .transcriptionist, amounts .platform⟩

def splitAmount (settings : Settings) (totalCents : Int) (config : Option RevenueSplitConfig) :
    Except Exc RevenueSplitResult :=
  if totalCents ≤ 0 then .error (.valueError s!"total_cents must be positive, got {totalCents}")
  else match config with
    | some c => .ok (splitWith totalCents c)
    | none =>
      match RevenueSplitConfig.fromSettings settings with
      | .ok c => .ok (splitWith totalCents c)
      | .error e => .error e

/-! ### Shares are not negative -/

theorem floorAmount_nonneg {totalCents : Int} (h : 0 ≤ totalCents) (c : RevenueSplitConfig) (p : Party) :
    0 ≤ floorAmount totalCents c p :=
  Int.ediv_nonneg (Int.mul_nonneg h (c.bps_nonneg p)) (by decide)

/-- The loop only adds cents. -/
theorem le_distribute (order : List Party) (amounts : Party → Int) (leftover : Nat) (p : Party) :
    amounts p ≤ distribute order amounts leftover p := by
  unfold distribute
  induction List.range leftover generalizing amounts with
  | nil => exact le_refl _
  | cons i is ih =>
    refine le_trans ?_ (ih _)
    dsimp only
    cases order[i % order.length]? with
    | none => exact le_refl _
    | some q =>
      show amounts p ≤ if p = q then amounts p + 1 else amounts p
      split <;> omega

theorem splitAmount_nonneg {settings : Settings} {totalCents : Int} {split : RevenueSplitResult}
    (h : splitAmount settings totalCents none = .ok split) :
    0 ≤ split.archiveCents ∧ 0 ≤ split.transcriptionistCents ∧ 0 ≤ split.platformCents := by
  unfold splitAmount at h
  split at h
  · cases h
  · rename_i hpos
    simp only at h
    split at h
    · rename_i c hc
      cases h
      have hshare : ∀ p, 0 ≤ distribute (order totalCents c) (floorAmount totalCents c)
          (leftoverCents totalCents c).toNat p :=
        fun p => le_trans (floorAmount_nonneg (by omega) c p) (le_distribute _ _ _ p)
      exact ⟨hshare .archive, hshare .transcriptionist, hshare .platform⟩
    · cases h

end GenPay
