import GenPay.ReadCommitted.System
import Mathlib.Data.List.Nodup
import Mathlib.Data.List.Pairwise

/-!
# Unique keys

A write may insert values that a unique constraint covers.  An insert is refused when the value is committed (or
the transaction's own), and waits while another open transaction holds it.  Hence the keys a transaction holds
stay free until it commits (`Keys.free_writes`), no two sessions ever commit one key (`Keys.published_disjoint`),
and every key of the committed database has been committed by a session (`Keys.source`).
-/

namespace ReadCommitted

variable {Db Write Error Choice Job α Key : Type}

/-- The unique keys a write inserts, those a database holds, and that it holds each of them once. -/
structure Keys (E : Engine Db Write Error) (Key : Type) where
  of : Write → List Key
  mem : Db → Key → Prop
  unique : Db → Prop
  nodup : ∀ w, (of w).Nodup
  mem_apply : ∀ d w k, mem (E.apply d w) k ↔ mem d k ∨ k ∈ of w
  unique_apply : ∀ d w, unique d → (∀ k ∈ of w, ¬ mem d k) → unique (E.apply d w)
  free : ∀ d w, E.violation d w = none → ∀ k ∈ of w, ¬ mem d k
  waits : ∀ w w' k, k ∈ of w → k ∈ of w' → E.waits w w' = true

namespace Keys

variable {E : Engine Db Write Error} (K : Keys E Key)

/-- The keys that a list of writes inserts. -/
def all (ws : List Write) : List Key := ws.flatMap K.of

@[simp] theorem all_nil : K.all [] = [] := rfl

theorem all_cons (w : Write) (ws : List Write) : K.all (w :: ws) = K.of w ++ K.all ws := rfl

@[simp] theorem all_append (ws ws' : List Write) : K.all (ws ++ ws') = K.all ws ++ K.all ws' := by
  simp [all]

@[simp] theorem all_singleton (w : Write) : K.all [w] = K.of w := by simp [all]

theorem mem_view {d : Db} {ws : List Write} {k : Key} :
    K.mem (E.view d ws) k ↔ K.mem d k ∨ k ∈ K.all ws := by
  induction ws generalizing d with
  | nil => simp
  | cons w ws ih =>
    rw [Engine.view_cons, ih, K.mem_apply]
    simp only [all, List.flatMap_cons, List.mem_append]
    exact or_assoc

/-- The writes `ws` insert each key once, and none that `d` holds. -/
structure Free (d : Db) (ws : List Write) : Prop where
  fresh : ∀ k ∈ K.all ws, ¬ K.mem d k
  nodup : (K.all ws).Nodup

variable {K}

theorem free_nil (d : Db) : K.Free d [] := ⟨by simp, by simp⟩

theorem Free.of_append {d : Db} {ws ws' : List Write} (h : K.Free d (ws ++ ws')) :
    K.Free d ws ∧ K.Free (E.view d ws) ws' := by
  have hn := h.nodup
  rw [all_append, List.nodup_append] at hn
  refine ⟨⟨fun k hk => h.fresh k (by simp [hk]), hn.1⟩, ⟨fun k hk hm => ?_, hn.2.1⟩⟩
  rcases K.mem_view.1 hm with hm | hm
  · exact h.fresh k (by simp [hk]) hm
  · exact hn.2.2 k hm k hk rfl

theorem Free.concat {d : Db} {ws : List Write} {w : Write} (h : K.Free d ws)
    (hv : E.violation (E.view d ws) w = none) : K.Free d (ws ++ [w]) := by
  have hfree := K.free _ _ hv
  refine ⟨fun k hk => ?_, ?_⟩
  · rw [all_append, all_singleton, List.mem_append] at hk
    rcases hk with hk | hk
    · exact h.fresh k hk
    · exact fun hm => hfree k hk (K.mem_view.2 (Or.inl hm))
  · rw [all_append, all_singleton, List.nodup_append]
    refine ⟨h.nodup, K.nodup w, fun k hk k' hk' he => ?_⟩
    subst he
    exact hfree k hk' (K.mem_view.2 (Or.inr hk))

theorem Free.unique {d : Db} {ws : List Write} (h : K.Free d ws) (hd : K.unique d) :
    K.unique (E.view d ws) := by
  induction ws generalizing d with
  | nil => exact hd
  | cons w ws ih =>
    have h' : K.Free d ([w] ++ ws) := h
    exact ih h'.of_append.2 (K.unique_apply d w hd fun k hk => h.fresh k (by simp [all_cons, hk]))

/-- Among writes that insert each key once, a key belongs to one of them. -/
theorem write_unique {ws : List Write} (h : (K.all ws).Nodup) {w w' : Write} (hw : w ∈ ws) (hw' : w' ∈ ws) {k : Key}
    (hk : k ∈ K.of w) (hk' : k ∈ K.of w') : w = w' := by
  by_contra hne
  have : Std.Symm (Function.onFun List.Disjoint K.of) := ⟨fun _ _ hd _ ha hb => hd hb ha⟩
  exact (List.nodup_flatMap.1 h).2.forall hw hw' hne hk hk'

end Keys

section Runs

variable {S : Service Db Write Error Choice Job α} (K : Keys S.toEngine Key)

/-- A session's keys: free while it runs, in the database once it has committed. -/
def Keys.Owned (t : Session Db Write Error Choice Job α) (d : Db) : Prop :=
  K.Free d t.held ∧ (∀ k ∈ K.all t.published, K.mem d k)

/-- Two sessions that hold no key in common, nor ever committed one in common. -/
def Keys.Apart (t u : Session Db Write Error Choice Job α) : Prop :=
  (∀ k ∈ K.all t.held, k ∉ K.all u.held) ∧ (∀ k ∈ K.all t.published, k ∉ K.all u.published)

structure Keys.Inv (s : System Db Write Error Choice Job α) : Prop where
  owned : ∀ t ∈ s.sessions, K.Owned t s.db
  apart : ∀ (i j : Nat) t u, i ≠ j → s.sessions[i]? = some t → s.sessions[j]? = some u → K.Apart t u

variable {K} {s s' : System Db Write Error Choice Job α}

private theorem Session.held_of_running {t : Session Db Write Error Choice Job α} {p}
    (hp : t.phase = .running p) : t.held = t.txn.writes := by simp [Session.held, hp]

private theorem Session.published_of_running {t : Session Db Write Error Choice Job α} {p}
    (hp : t.phase = .running p) : t.published = [] := by simp [Session.published, hp]

/-- What a move does to the writes a session holds and has published. -/
theorem Session.Moves.writes {d d' : Db} {t t' : Session Db Write Error Choice Job α} (h : t.Moves S d d' t') :
    (∃ a, t.phase = .running (.ret a) ∧ d' = S.view d t.txn.writes ∧ t'.phase = .committed a ∧ t'.txn = t.txn) ∨
    (d' = d ∧ t.published = [] ∧ t'.published = [] ∧ (t'.held = [] ∨ t'.held = t.held ∨
      ∃ w, t.sends = some w ∧ S.violation (S.view d t.held) w = none ∧ t'.held = t.held ++ [w])) := by
  cases h with
  | commit hp => exact Or.inl ⟨_, hp, rfl, rfl, rfl⟩
  | fail hp =>
    exact Or.inr ⟨rfl, Session.published_of_running hp, rfl, Or.inl rfl⟩
  | select hp =>
    refine Or.inr ⟨rfl, Session.published_of_running hp, rfl, Or.inr (Or.inl ?_)⟩
    rw [Session.held_of_running hp]; rfl
  | @write w k hp hv =>
    refine Or.inr ⟨rfl, Session.published_of_running hp, rfl, Or.inr (Or.inr ⟨w, ?_, ?_, ?_⟩)⟩
    · simp [Session.sends, hp]
    · rw [Session.held_of_running hp]; exact hv
    · rw [Session.held_of_running hp]; rfl
  | refused hp hv =>
    refine Or.inr ⟨rfl, Session.published_of_running hp, rfl, Or.inr (Or.inl ?_)⟩
    rw [Session.held_of_running hp]; rfl
  | rollback hp => exact Or.inr ⟨rfl, Session.published_of_running hp, rfl, Or.inl rfl⟩

private theorem Keys.Inv.exec (h : K.Inv s) {i : Nat} {t t' : Session Db Write Error Choice Job α} {d' : Db}
    (ht : s.sessions[i]? = some t)
    (hb : ∀ w, t.sends = some w → ∀ (j : Nat) u, j ≠ i → s.sessions[j]? = some u →
      ∀ w' ∈ u.held, S.waits w w' = false)
    (hm : t.Moves S s.db d' t') :
    K.Owned t' d' ∧ ∀ (j : Nat) u, j ≠ i → s.sessions[j]? = some u → K.Owned u d' ∧ K.Apart t' u := by
  have hot := h.owned t (List.mem_of_getElem? ht)
  have others : ∀ (j : Nat) u, j ≠ i → s.sessions[j]? = some u → K.Owned u s.db ∧ K.Apart t u :=
    fun j u hj hu => ⟨h.owned u (List.mem_of_getElem? hu), h.apart i j t u (Ne.symm hj) ht hu⟩
  rcases hm.writes with ⟨a, hp, rfl, hp', htx⟩ | ⟨rfl, hpub, hpub', hheld⟩
  · -- the commit turns the keys held into published ones
    have hh' : t'.held = [] := by simp [Session.held, hp']
    have hpub' : t'.published = t.held := by
      rw [Session.held_of_running hp]; simp [Session.published, hp', htx]
    refine ⟨⟨by rw [hh']; exact free_nil _, fun k hk => ?_⟩, fun j u hj hu => ?_⟩
    · rw [hpub', Session.held_of_running hp] at hk
      exact K.mem_view.2 (Or.inr hk)
    · obtain ⟨hou, hap⟩ := others j u hj hu
      refine ⟨⟨⟨fun k hk => ?_, hou.1.nodup⟩, fun k hk => K.mem_view.2 (Or.inl (hou.2 k hk))⟩, by simp [hh'], ?_⟩
      · rw [K.mem_view]
        rintro (hmem | hmem)
        · exact hou.1.fresh k hk hmem
        · rw [← Session.held_of_running hp] at hmem
          exact hap.1 k hmem hk
      · intro k hk hku
        rw [hpub'] at hk
        exact hot.1.fresh k hk (hou.2 k hku)
  · rcases hheld with hh | hh | ⟨w, hw, hv, hh⟩
    · refine ⟨⟨by rw [hh]; exact free_nil _, by simp [hpub']⟩,
        fun j u hj hu => ⟨(others j u hj hu).1, by simp [hh], by simp [hpub']⟩⟩
    · refine ⟨⟨by rw [hh]; exact hot.1, by simp [hpub']⟩, fun j u hj hu => ⟨(others j u hj hu).1, ?_, by simp [hpub']⟩⟩
      rw [hh]; exact (others j u hj hu).2.1
    · refine ⟨⟨by rw [hh]; exact hot.1.concat hv, by simp [hpub']⟩,
        fun j u hj hu => ⟨(others j u hj hu).1, ?_, by simp [hpub']⟩⟩
      · intro k hk hku
        rw [hh, K.all_append, K.all_singleton, List.mem_append] at hk
        rcases hk with hk | hk
        · exact (others j u hj hu).2.1 k hk hku
        · -- the insert would have waited for the holder of `k`
          obtain ⟨w', hw', hkw'⟩ := List.mem_flatMap.1 hku
          have hwait := K.waits w w' k hk hkw'
          rw [hb w hw j u hj hu w' hw'] at hwait
          cases hwait

private theorem Keys.Apart.symm {t u : Session Db Write Error Choice Job α} (h : K.Apart t u) : K.Apart u t :=
  ⟨fun k hk hk' => h.1 k hk' hk, fun k hk hk' => h.2 k hk' hk⟩

private theorem Keys.Owned.idle {t : Session Db Write Error Choice Job α} (hh : t.held = [])
    (hp : t.published = []) (d : Db) : K.Owned t d := ⟨by rw [hh]; exact free_nil d, by simp [hp]⟩

private theorem Keys.Apart.idle {t : Session Db Write Error Choice Job α} (hh : t.held = [])
    (hp : t.published = []) (u : Session Db Write Error Choice Job α) : K.Apart t u :=
  ⟨by simp [hh], by simp [hp]⟩

/-- Replacing one session keeps the key invariant if the new one fits in with all others. -/
private theorem Keys.Inv.set {i : Nat} {t' : Session Db Write Error Choice Job α} {d' : Db}
    (h : K.Inv s) (ho : K.Owned t' d')
    (hu : ∀ (j : Nat) u, j ≠ i → s.sessions[j]? = some u → K.Owned u d' ∧ K.Apart t' u) :
    K.Inv ⟨d', s.sessions.set i t'⟩ where
  owned u hmem := by
    obtain ⟨j, hj⟩ := List.getElem?_of_mem hmem
    rcases getElem?_set_cases hj with ⟨-, rfl⟩ | ⟨hne, hj'⟩
    · exact ho
    · exact (hu j u hne hj').1
  apart j k v w hjk hv hw := by
    rcases getElem?_set_cases hv with ⟨rfl, rfl⟩ | ⟨hj, hv'⟩
    · rcases getElem?_set_cases hw with ⟨rfl, -⟩ | ⟨hk, hw'⟩
      · exact absurd rfl hjk
      · exact (hu k w hk hw').2
    · rcases getElem?_set_cases hw with ⟨rfl, rfl⟩ | ⟨hk, hw'⟩
      · exact (hu j v hj hv').2.symm
      · exact h.apart j k v w hjk hv' hw'

theorem Keys.inv_step (h : K.Inv s) {l : Label Choice Job} (hs : s.step S l = some s') : K.Inv s' := by
  cases System.step_cases hs with
  | start r o =>
    have hh : (Session.started S r o).held = [] := rfl
    have hp : (Session.started S r o).published = [] := rfl
    constructor
    · intro u hu
      rcases List.mem_append.1 hu with hu | hu
      · exact h.owned u hu
      · rw [List.mem_singleton] at hu
        subst hu
        exact Keys.Owned.idle hh hp _
    · intro i j t u hij ht hu
      rcases getElem?_concat_cases ht with ht' | ⟨-, rfl⟩
      · rcases getElem?_concat_cases hu with hu' | ⟨-, rfl⟩
        · exact h.apart i j t u hij ht' hu'
        · exact (Keys.Apart.idle hh hp t).symm
      · exact Keys.Apart.idle hh hp u
  | @exec i t d' t' ht hb ha =>
    obtain ⟨ho, hu⟩ := Keys.Inv.exec h ht (System.blocked_eq_false.1 hb) (Session.advance_moves ha)
    exact h.set ho hu
  | @abort i t p ht hp =>
    refine h.set (Keys.Owned.idle rfl rfl _) fun j u hj hu => ⟨h.owned u (List.mem_of_getElem? hu), ?_⟩
    exact Keys.Apart.idle rfl rfl u

theorem Keys.inv_run {G : Session Db Write Error Choice Job α → Db → Prop} {d : Db}
    (h : Run S G (System.initial d) s) : K.Inv s := by
  induction h with
  | refl => exact ⟨fun t ht => by simp [System.initial] at ht, fun i j t u _ ht => by simp [System.initial] at ht⟩
  | tail l _ hstep _ ih => exact Keys.inv_step ih hstep

/-- The keys of an open transaction are free in the committed database. -/
theorem Keys.free_writes (h : K.Inv s) {t : Session Db Write Error Choice Job α} {p} (ht : t ∈ s.sessions)
    (hp : t.phase = .running p) : K.Free s.db t.txn.writes := by
  rw [← Session.held_of_running hp]
  exact (h.owned t ht).1

/-- No two sessions commit the same key. -/
theorem Keys.published_disjoint (h : K.Inv s) {i j : Nat} {t u : Session Db Write Error Choice Job α}
    (ht : s.sessions[i]? = some t) (hu : s.sessions[j]? = some u) {k : Key} (hkt : k ∈ K.all t.published)
    (hku : k ∈ K.all u.published) : i = j := by
  by_contra hij
  exact (h.apart i j t u hij ht hu).2 k hkt hku

/-- A session keeps what it has published. -/
theorem StepCase.published {l : Label Choice Job} (h : StepCase S s l s') {i : Nat}
    {t : Session Db Write Error Choice Job α} (ht : s.sessions[i]? = some t) {w : Write} (hw : w ∈ t.published) :
    s'.sessions[i]? = some t := by
  obtain ⟨a, ha⟩ : ∃ a, t.phase = .committed a := by
    cases hp : t.phase with
    | running p => simp [Session.published, hp] at hw
    | committed a => exact ⟨a, rfl⟩
    | failed e => simp [Session.published, hp] at hw
  have hi := (List.getElem?_eq_some_iff.1 ht).1
  cases h with
  | start r o => rw [List.getElem?_append_left hi]; exact ht
  | @exec j u d' u' hu hb hadv =>
    have hne : j ≠ i := by
      rintro rfl
      rw [ht] at hu
      cases hu
      simp [Session.advance, ha] at hadv
    rw [List.getElem?_set_ne hne]; exact ht
  | @abort j u p hu hp =>
    have hne : j ≠ i := by
      rintro rfl
      rw [ht] at hu
      cases hu
      rw [ha] at hp; cases hp
    rw [List.getElem?_set_ne hne]; exact ht

/-- Every key of the committed database was there at the start or has been committed by some session. -/
theorem Keys.source {G : Session Db Write Error Choice Job α → Db → Prop} {d : Db}
    (h : Run S G (System.initial d) s) {k : Key} (hk : K.mem s.db k) :
    K.mem d k ∨ ∃ (i : Nat) (t : _), s.sessions[i]? = some t ∧ k ∈ K.all t.published := by
  induction h with
  | refl => exact Or.inl hk
  | @tail s s' l hr hstep hG ih =>
    have hc := System.step_cases hstep
    have old : K.mem s.db k →
        K.mem d k ∨ ∃ (i : Nat) (t : _), s'.sessions[i]? = some t ∧ k ∈ K.all t.published := by
      intro hmem
      rcases ih hmem with h₀ | ⟨i, t, ht, hkt⟩
      · exact Or.inl h₀
      · obtain ⟨w, hw, -⟩ := List.mem_flatMap.1 hkt
        exact Or.inr ⟨i, t, hc.published ht hw, hkt⟩
    rcases hc.db with he | ⟨i, t, a, rfl, ht, hp, rfl⟩
    · rw [he] at hk
      exact old hk
    · rcases K.mem_view.1 hk with hmem | hmem
      · exact old hmem
      · have hi := (List.getElem?_eq_some_iff.1 ht).1
        exact Or.inr ⟨i, { t with phase := .committed a }, by simp [hi], hmem⟩

end Runs

end ReadCommitted
