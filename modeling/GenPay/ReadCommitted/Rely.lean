import GenPay.ReadCommitted.Past

/-!
# Relying on what stays committed

A fact that holds of a database and of all that are committed later is one that a session started then can rely on:
it sees no other databases.  The rules of `Prog.Relying` use the fact wherever the program looks at the database, and
`Run.relying` says how such a session ends.
-/

namespace ReadCommitted

variable {Db Write Error Choice Job α β : Type}

namespace Prog

variable {E : Engine Db Write Error} {o : Nat → Choice} {P : Db → Prop} {Q : Post Db Write Error α} {t : Txn Db Write}

/-- `Q` holds however the program ends, if others only commit databases with `P`. -/
def Relying (E : Engine Db Write Error) (o : Nat → Choice) (P : Db → Prop) (Q : Post Db Write Error α)
    (p : Prog Db Write Error Choice α) (t : Txn Db Write) : Prop :=
  p.wp E o (fun e t' => (∀ d ∈ t'.seen, P d) → Q e t') t

/-- From a trace on all of whose databases `P` holds. -/
theorem relying_of_seen {p : Prog Db Write Error Choice α} (h : (∀ d ∈ t.seen, P d) → p.Relying E o P Q t) :
    p.Relying E o P Q t := by
  by_cases hall : ∀ d ∈ t.seen, P d
  · exact h hall
  · -- the trace only grows, so that `P` fails at its end too
    refine wp_mono (wp_seen p t) fun e t' hseen hall' => ?_
    exact absurd (fun d hd => hall' d (hseen.subset hd)) hall

theorem relying_ret {a : α} (h : Q (.ok a) t) : (ret a : Prog Db Write Error Choice α).Relying E o P Q t := fun _ => h

theorem relying_raise {e : Error} (h : Q (.error e) t) : (raise e : Prog Db Write Error Choice α).Relying E o P Q t :=
  fun _ => h

theorem relying_query {q : Choice → Db → α} (h : ∀ d, P d → Q (.ok (q (o t.seen.length) (E.view d t.writes))) (t.saw d)) :
    (query q : Prog Db Write Error Choice α).Relying E o P Q t := fun d hall => h d (hall d (by simp))

theorem relying_write {w : Write} {k : Option Error → Prog Db Write Error Choice α}
    (hnone : ∀ d, P d → E.violation (E.view d t.writes) w = none → (k none).Relying E o P Q (t.wrote d w))
    (hsome : ∀ d e, P d → E.violation (E.view d t.writes) w = some e → (k (some e)).Relying E o P Q (t.saw d)) :
    (write w k).Relying E o P Q t := by
  intro d
  cases hv : E.violation (E.view d t.writes) w with
  | none => exact relying_of_seen fun hall => hnone d (hall d (by simp)) hv
  | some e => exact relying_of_seen fun hall => hsome d e (hall d (by simp)) hv

theorem relying_rollback {k : Prog Db Write Error Choice α} (h : ∀ d, P d → k.Relying E o P Q (t.dropped d)) :
    (rollback k).Relying E o P Q t := fun d => relying_of_seen fun hall => h d (hall d (by simp))

theorem relying_of_wp {p : Prog Db Write Error Choice α} (h : p.wp E o Q t) : p.Relying E o P Q t :=
  wp_mono h fun _ _ hQ _ => hQ

theorem Relying.mono {p : Prog Db Write Error Choice α} {Q' : Post Db Write Error α} (h : p.Relying E o P Q t)
    (hQ : ∀ e t', Q e t' → Q' e t') : p.Relying E o P Q' t :=
  wp_mono h fun e t' he hall => hQ e t' (he hall)

theorem relying_bind {p : Prog Db Write Error Choice α} {f : α → Prog Db Write Error Choice β} {Q : Post Db Write Error β}
    (h : p.Relying E o P (fun r t' => match r with
      | .ok a => (f a).Relying E o P Q t'
      | .error e => Q (.error e) t') t) : (p >>= f).Relying E o P Q t := by
  refine wp_bind (wp_mono h fun r t' hr => ?_)
  cases r with
  | ok a => exact relying_of_seen hr
  | error e => exact hr

theorem relying_handled {p : Prog Db Write Error Choice α} {f : Error → Prog Db Write Error Choice α}
    (h : p.Relying E o P (fun r t' => match r with
      | .ok a => Q (.ok a) t'
      | .error e => (f e).Relying E o P Q t') t) : (p.tryCatch f).Relying E o P Q t := by
  refine wp_handled (wp_mono h fun r t' hr => ?_)
  cases r with
  | ok a => exact hr
  | error e => exact relying_of_seen hr

end Prog

variable {S : Service Db Write Error Choice Job α} {G : Session Db Write Error Choice Job α → Db → Prop}
  {s₀ s : System Db Write Error Choice Job α} {d₀ : Db}

/-- A session that has started when `P` holds for good ends as its program does relying on `P`. -/
theorem Run.relying {P : Db → Prop} {Q : Prog.Post Db Write Error α} {i : Nat} {t : Session Db Write Error Choice Job α}
    (h₁ : Run S G (System.initial d₀) s₀) (h₂ : Run S G s₀ s) (hi : s₀.sessions.length ≤ i) (ht : s.sessions[i]? = some t)
    (hP : ∀ d, Passed S G s₀ s d → P d) (hp : (S.handle t.job).Relying S.toEngine t.oracle P Q Txn.fresh) :
    (∀ a, t.phase = .committed a → Q (.ok a) t.txn) ∧
      ∀ e, t.phase = .failed e → e = S.aborted ∨ ∃ ws, Q (.error e) ⟨ws, t.txn.seen⟩ := by
  have hends := Run.ends_as hp (h₁.trans h₂) t (List.mem_of_getElem? ht) rfl rfl
  have hseen : ∀ d ∈ t.txn.seen, P d := fun d hd => hP d (h₂.seen_since i t hi ht d hd)
  constructor
  · intro a ha
    exact hends.committed ha hseen
  · intro e he
    rcases hends.failed he with hab | ⟨ws, hQ⟩
    · exact Or.inl hab
    · exact Or.inr ⟨ws, hQ hseen⟩

end ReadCommitted
