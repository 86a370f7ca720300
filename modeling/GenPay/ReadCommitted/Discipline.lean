import GenPay.ReadCommitted.Keys

/-!
# The invariant rule for runs

A `Discipline` of a service says what the committed database satisfies (`inv`), along which preorder it evolves
(`evolves`), and what is true of a transaction that returned (`post`).  Its two proof obligations are local: every
program establishes `post` under any interference, and every commit keeps `inv` and moves along `evolves`.  At a
commit each database the transaction has seen is related to the current one (`AtCommit`).  From these follow the
invariant in every state of every run, facts about committed sessions (`facts`) and about pairs of them
(`pairwise`).
-/

namespace ReadCommitted

variable {Db Write Error Choice Job α Key : Type}

open Prog (onOk)

/-- The program of a session is on its way to `P`, or has established it. -/
def Session.Follows (S : Service Db Write Error Choice Job α) (P : α → Txn Db Write → Prop)
    (t : Session Db Write Error Choice Job α) : Prop :=
  match t.phase with
  | .running p => p.wp S.toEngine t.oracle (onOk P) t.txn
  | .committed a => P a t.txn
  | .failed _ => True

namespace Session.Follows

variable {S : Service Db Write Error Choice Job α} {P : α → Txn Db Write → Prop}
  {t t' : Session Db Write Error Choice Job α}

theorem running {p} (h : t.Follows S P) (hp : t.phase = .running p) : p.wp S.toEngine t.oracle (onOk P) t.txn := by
  unfold Follows at h
  rw [hp] at h
  exact h

theorem committed {a : α} (h : t.Follows S P) (hp : t.phase = .committed a) : P a t.txn := by
  unfold Follows at h
  rw [hp] at h
  exact h

theorem moves {d d' : Db} (h : t.Follows S P) (hm : t.Moves S d d' t') : t'.Follows S P := by
  cases hm with
  | commit hp => exact h.running hp
  | fail hp => exact True.intro
  | select hp => exact h.running hp d
  | write hp hv =>
    have hw := h.running hp d
    rw [hv] at hw
    exact hw
  | refused hp hv =>
    have hw := h.running hp d
    rw [hv] at hw
    exact hw
  | rollback hp => exact h.running hp d

end Session.Follows

/-- What the program for a job establishes among others, the sessions of that job do. -/
theorem Run.follows {S : Service Db Write Error Choice Job α} {G : Session Db Write Error Choice Job α → Db → Prop}
    {P : α → Txn Db Write → Prop} {r : Job} {o : Nat → Choice} {d₀ : Db} {s : System Db Write Error Choice Job α}
    (hp : (S.handle r).wp S.toEngine o (onOk P) Txn.fresh) (h : Run S G (System.initial d₀) s) :
    ∀ t ∈ s.sessions, t.job = r → t.oracle = o → t.Follows S P := by
  induction h with
  | refl => intro t ht; simp [System.initial] at ht
  | tail l _ hstep _ ih =>
    intro u hu hr ho
    obtain ⟨j, hj⟩ := List.getElem?_of_mem hu
    rcases (System.step_cases hstep).session hj with hj | ⟨r', o', rfl, -⟩ | ⟨t, ht, -, hm⟩ | ⟨t, p, ht, -, rfl⟩
    · exact ih u (List.mem_of_getElem? hj) hr ho
    · cases hr
      cases ho
      exact hp
    · exact (ih t (List.mem_of_getElem? ht) (hm.job ▸ hr) (hm.oracle ▸ ho)).moves hm
    · exact True.intro

structure Discipline (S : Service Db Write Error Choice Job α) (K : Keys S.toEngine Key)
    (G : Session Db Write Error Choice Job α → Db → Prop) where
  inv : Db → Prop
  evolves : Db → Db → Prop
  post : Job → α → Txn Db Write → Prop
  refl : ∀ d, evolves d d
  trans : ∀ {d₁ d₂ d₃}, evolves d₁ d₂ → evolves d₂ d₃ → evolves d₁ d₃
  program : ∀ r o, (S.handle r).wp S.toEngine o (onOk (post r)) Txn.fresh
  commit : ∀ (t : Session Db Write Error Choice Job α) a d, post t.job a t.txn → G t d → inv d →
    (∀ d' ∈ t.txn.seen, inv d' ∧ evolves d' d) → t.txn.seen.Pairwise evolves → K.Free d t.txn.writes →
    inv (S.view d t.txn.writes) ∧ evolves d (S.view d t.txn.writes)

namespace Discipline

variable {S : Service Db Write Error Choice Job α} {K : Keys S.toEngine Key}
  {G : Session Db Write Error Choice Job α → Db → Prop} (D : Discipline S K G)
  {s s' : System Db Write Error Choice Job α} {d₀ : Db}

/-- What is known when session `t` commits the result `a` on the database `d`. -/
structure AtCommit (t : Session Db Write Error Choice Job α) (a : α) (d : Db) : Prop where
  phase : t.phase = .running (.ret a)
  post : D.post t.job a t.txn
  guard : G t d
  inv : D.inv d
  seen : ∀ d' ∈ t.txn.seen, D.inv d' ∧ D.evolves d' d
  ordered : t.txn.seen.Pairwise D.evolves
  free : K.Free d t.txn.writes

/-- The program of a session is on its way to `post`, or has established it. -/
def Keeps (t : Session Db Write Error Choice Job α) : Prop :=
  match t.phase with
  | .running p => p.wp S.toEngine t.oracle (onOk (D.post t.job)) t.txn
  | .committed a => D.post t.job a t.txn
  | .failed _ => True

/-- The invariant of a run. -/
structure Inv (s : System Db Write Error Choice Job α) : Prop where
  db : D.inv s.db
  keeps : ∀ t ∈ s.sessions, D.Keeps t
  seen : ∀ t ∈ s.sessions, ∀ d ∈ t.txn.seen, D.inv d ∧ D.evolves d s.db
  ordered : ∀ t ∈ s.sessions, t.txn.seen.Pairwise D.evolves

variable {D}

theorem AtCommit.next {t : Session Db Write Error Choice Job α} {a : α} {d : Db} (h : D.AtCommit t a d) :
    D.inv (S.view d t.txn.writes) ∧ D.evolves d (S.view d t.txn.writes) :=
  D.commit t a d h.post h.guard h.inv h.seen h.ordered h.free

theorem Keeps.committed {t : Session Db Write Error Choice Job α} {a : α} (h : D.Keeps t)
    (hp : t.phase = .committed a) : D.post t.job a t.txn := Session.Follows.committed h hp

theorem Inv.atCommit (h : D.Inv s) (hK : K.Inv s) {t : Session Db Write Error Choice Job α} {a : α}
    (ht : t ∈ s.sessions) (hp : t.phase = .running (.ret a)) (hG : G t s.db) : D.AtCommit t a s.db where
  phase := hp
  post := Session.Follows.running (h.keeps t ht) hp
  guard := hG
  inv := h.db
  seen := h.seen t ht
  ordered := h.ordered t ht
  free := Keys.free_writes hK ht hp

/-- A move of a session keeps its own obligation; its trace grows by the current database at most. -/
private theorem Keeps.moves {d d' : Db} {t t' : Session Db Write Error Choice Job α} (h : D.Keeps t)
    (hm : t.Moves S d d' t') :
    D.Keeps t' ∧ (t'.txn.seen = t.txn.seen ∨ t'.txn.seen = t.txn.seen ++ [d]) := by
  refine ⟨?_, ?_⟩
  · have hfollows : t'.Follows S (D.post t.job) := Session.Follows.moves h hm
    rw [← hm.job] at hfollows
    exact hfollows
  · cases hm with
    | commit hp => exact Or.inl rfl
    | fail hp => exact Or.inl rfl
    | _ => exact Or.inr rfl

private theorem mem_of_step {l : Label Choice Job} (h : StepCase S s l s') {u : Session Db Write Error Choice Job α}
    (hu : u ∈ s'.sessions) :
    u ∈ s.sessions ∨ (∃ r o, u = Session.started S r o) ∨
      (∃ t ∈ s.sessions, t.Moves S s.db s'.db u) ∨ (∃ t ∈ s.sessions, u = t.ended S.aborted) := by
  obtain ⟨j, hj⟩ := List.getElem?_of_mem hu
  rcases h.session hj with h | ⟨r, o, rfl, -⟩ | ⟨t, ht, -, hm⟩ | ⟨t, p, ht, -, rfl⟩
  · exact Or.inl (List.mem_of_getElem? h)
  · exact Or.inr (Or.inl ⟨r, o, rfl⟩)
  · exact Or.inr (Or.inr (Or.inl ⟨t, List.mem_of_getElem? ht, hm⟩))
  · exact Or.inr (Or.inr (Or.inr ⟨t, List.mem_of_getElem? ht, rfl⟩))

theorem inv_step (h : D.Inv s) (hK : K.Inv s) {l : Label Choice Job} (hs : s.step S l = some s')
    (hG : ∀ t, s.committing l = some t → G t s.db) : D.Inv s' ∧ D.evolves s.db s'.db := by
  have hc := System.step_cases hs
  have hdb : D.inv s'.db ∧ D.evolves s.db s'.db := by
    rcases hc.db with he | ⟨i, t, a, rfl, ht, hp, rfl⟩
    · rw [he]; exact ⟨h.db, D.refl _⟩
    · exact (h.atCommit hK (List.mem_of_getElem? ht) hp (hG t (System.committing_exec ht hp))).next
  refine ⟨⟨hdb.1, fun u hu => ?_, fun u hu d hd => ?_, fun u hu => ?_⟩, hdb.2⟩
  · rcases mem_of_step hc hu with hu | ⟨r, o, rfl⟩ | ⟨t, ht, hm⟩ | ⟨t, ht, rfl⟩
    · exact h.keeps u hu
    · exact D.program r o
    · exact ((h.keeps t ht).moves hm).1
    · exact True.intro
  · have old : ∀ t ∈ s.sessions, d ∈ t.txn.seen → D.inv d ∧ D.evolves d s'.db := fun t ht hd =>
      ⟨(h.seen t ht d hd).1, D.trans (h.seen t ht d hd).2 hdb.2⟩
    rcases mem_of_step hc hu with hu | ⟨r, o, rfl⟩ | ⟨t, ht, hm⟩ | ⟨t, ht, rfl⟩
    · exact old u hu hd
    · simp [Session.started] at hd
    · rcases ((h.keeps t ht).moves hm).2 with he | he
      · exact old t ht (he ▸ hd)
      · rw [he, List.mem_append, List.mem_singleton] at hd
        rcases hd with hd | rfl
        · exact old t ht hd
        · exact ⟨h.db, hdb.2⟩
    · exact old t ht hd
  · rcases mem_of_step hc hu with hu | ⟨r, o, rfl⟩ | ⟨t, ht, hm⟩ | ⟨t, ht, rfl⟩
    · exact h.ordered u hu
    · exact List.Pairwise.nil
    · rcases ((h.keeps t ht).moves hm).2 with he | he
      · rw [he]; exact h.ordered t ht
      · rw [he, List.pairwise_append]
        refine ⟨h.ordered t ht, List.pairwise_singleton _ _, fun x hx y hy => ?_⟩
        rw [List.mem_singleton.1 hy]
        exact (h.seen t ht x hx).2
    · exact h.ordered t ht

/-- The invariant rule. -/
theorem inv_run (h₀ : D.inv d₀) (h : Run S G (System.initial d₀) s) : D.Inv s := by
  induction h with
  | refl =>
    have none : ∀ t, t ∉ (System.initial d₀ : System Db Write Error Choice Job α).sessions := by
      simp [System.initial]
    exact ⟨h₀, fun t ht => absurd ht (none t), fun t ht => absurd ht (none t), fun t ht => absurd ht (none t)⟩
  | tail l hr hstep hG ih => exact (inv_step ih (Keys.inv_run hr) hstep hG).1

theorem evolves_run (h₀ : D.inv d₀) (h : Run S G (System.initial d₀) s) (h' : Run S G s s') :
    D.evolves s.db s'.db ∧ Run S G (System.initial d₀) s' := by
  induction h' with
  | refl => exact ⟨D.refl _, h⟩
  | tail l _ hstep hG ih =>
    obtain ⟨ihe, ihr⟩ := ih
    exact ⟨D.trans ihe (inv_step (inv_run h₀ ihr) (Keys.inv_run ihr) hstep hG).2, ihr.tail l hstep hG⟩

/-- A fact about every committed session: it holds after its commit and later commits keep it. -/
theorem facts (F : Session Db Write Error Choice Job α → Db → Prop)
    (hcommit : ∀ t a d, D.AtCommit t a d → F { t with phase := .committed a } (S.view d t.txn.writes))
    (hkeep : ∀ t a d d', t.phase = .committed a → F t d → D.inv d' → D.evolves d d' → F t d')
    (h₀ : D.inv d₀) (h : Run S G (System.initial d₀) s) :
    ∀ t ∈ s.sessions, ∀ a, t.phase = .committed a → F t s.db := by
  induction h with
  | refl => intro t ht; simp [System.initial] at ht
  | @tail s s' l hr hstep hG ih =>
    intro u hu a hua
    have hi := inv_run h₀ hr
    have hK := Keys.inv_run hr (K := K)
    have hc := System.step_cases hstep
    have hn := inv_step hi hK hstep hG
    obtain ⟨j, hj⟩ := List.getElem?_of_mem hu
    rcases hc.session hj with hj' | ⟨r, o, rfl, -⟩ | ⟨t, ht, rfl, hm⟩ | ⟨t, p, ht, hp, rfl⟩
    · exact hkeep u a _ _ hua (ih u (List.mem_of_getElem? hj') a hua) hn.1.db hn.2
    · cases hua
    · obtain ⟨hp, hd, rfl⟩ := hm.committed hua
      rw [hd]
      exact hcommit t a s.db (hi.atCommit hK (List.mem_of_getElem? ht) hp (hG t (System.committing_exec ht hp)))
    · cases hua

/-- A symmetric relation between committed sessions: it holds between the one that commits and every earlier one,
of which the fact `F` is known. -/
theorem pairwise (F : Session Db Write Error Choice Job α → Db → Prop)
    (C : Session Db Write Error Choice Job α → Session Db Write Error Choice Job α → Prop)
    (hsymm : ∀ t u, C t u → C u t)
    (hF : ∀ s, Run S G (System.initial d₀) s → ∀ t ∈ s.sessions, ∀ a, t.phase = .committed a → F t s.db)
    (hC : ∀ t a d u b, D.AtCommit t a d → u.phase = .committed b → F u d → C { t with phase := .committed a } u)
    (h₀ : D.inv d₀) (h : Run S G (System.initial d₀) s) :
    ∀ (i j : Nat) t u a b, i ≠ j → s.sessions[i]? = some t → s.sessions[j]? = some u →
      t.phase = .committed a → u.phase = .committed b → C t u := by
  induction h with
  | refl => intro i j t u a b _ ht; simp [System.initial] at ht
  | @tail s s' l hr hstep hG ih =>
    intro i j t u a b hij ht hu hta hub
    have hi := inv_run h₀ hr
    have hK := Keys.inv_run hr (K := K)
    have hc := System.step_cases hstep
    -- a committed session is an old one, or the one whose commit the step is
    have split : ∀ (k : Nat) v c, s'.sessions[k]? = some v → v.phase = .committed c → s.sessions[k]? = some v ∨
        (l = .exec k ∧ ∃ w, D.AtCommit w c s.db ∧ v = { w with phase := .committed c }) := by
      intro k v c hv hvc
      rcases hc.session hv with hv' | ⟨r, o, rfl, -⟩ | ⟨w, hw, hl, hm⟩ | ⟨w, p, hw, hp, rfl⟩
      · exact Or.inl hv'
      · cases hvc
      · obtain ⟨hp, -, he⟩ := hm.committed hvc
        subst hl
        exact Or.inr ⟨rfl, w,
          hi.atCommit hK (List.mem_of_getElem? hw) hp (hG w (System.committing_exec hw hp)), he⟩
      · cases hvc
    rcases split i t a ht hta with ht' | ⟨hl, w, hw, rfl⟩
    · rcases split j u b hu hub with hu' | ⟨-, w, hw, rfl⟩
      · exact ih i j t u a b hij ht' hu' hta hub
      · exact hsymm _ _ (hC w b s.db t a hw hta (hF s hr t (List.mem_of_getElem? ht') a hta))
    · rcases split j u b hu hub with hu' | ⟨hl', -⟩
      · exact hC w a s.db u b hw hub (hF s hr u (List.mem_of_getElem? hu') b hub)
      · rw [hl] at hl'
        exact absurd (by simpa using hl') hij

end Discipline

end ReadCommitted
