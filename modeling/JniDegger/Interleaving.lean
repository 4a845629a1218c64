import Mathlib.Data.List.Perm.Basic
import Mathlib.Algebra.BigOperators.Group.List.Basic
import Mathlib.Algebra.GroupWithZero.Nat

/-!
# Parties that take turns

A system is given by what one move does; a run is any order of possible moves.
Proved here, for every system:

* `Run.invariant`: what every move keeps, of the state and of the events shown
  so far, holds at the end of every run;
* `restrict`: the runs that make a move only where it is allowed;
* `Run.length_add_le`: if every move of a kind lowers a measure, a run of such
  moves is no longer than the measure;
* `exists_settled`: such a run can always be continued until no move of the kind
  is possible;
* `exists_perm_set`: replacing one entry of a list, as far as the order of the
  entries does not matter.
-/

namespace JniDegger.Interleaving

/-- A move is possible in a state or not; a possible one leads to a next state
and shows some events. -/
structure System (σ α ε : Type*) where
  step : σ → α → Option (σ × List ε)

variable {σ α ε : Type*}

namespace System

/-- The moves, in this order, lead from the one state to the other and show the log. -/
inductive Run (S : System σ α ε) (s : σ) : List α → List ε → σ → Prop
  | nil : Run S s [] [] s
  | snoc {as : List α} {log : List ε} {t : σ} {a : α} {es : List ε} {u : σ} :
      Run S s as log t → S.step t a = some (u, es) → Run S s (as ++ [a]) (log ++ es) u

variable {S : System σ α ε} {s t u : σ} {as bs : List α} {log log' : List ε}

theorem Run.trans (h : S.Run s as log t) (h' : S.Run t bs log' u) :
    S.Run s (as ++ bs) (log ++ log') u := by
  induction h' with
  | nil => simpa using h
  | snoc _ hstep ih =>
    rw [← List.append_assoc, ← List.append_assoc]
    exact ih.snoc hstep

theorem Run.single {a : α} {es : List ε} (h : S.step s a = some (t, es)) :
    S.Run s [a] es t := by
  simpa using Run.nil.snoc h

/-- The run over the given moves, if each of them is possible. -/
def exec (S : System σ α ε) (s : σ) : List α → Option (σ × List ε)
  | [] => some (s, [])
  | a :: as =>
    match S.step s a with
    | none => none
    | some (t, es) => (S.exec t as).map fun r => (r.1, es ++ r.2)

theorem Run.of_exec {S : System σ α ε} {s t : σ} {as : List α} {log : List ε}
    (h : S.exec s as = some (t, log)) : S.Run s as log t := by
  induction as generalizing s log with
  | nil => cases h; exact .nil
  | cons a as ih =>
    rw [exec] at h
    split at h
    · cases h
    · next u es hstep =>
      obtain ⟨r, hr, hlog⟩ := Option.map_eq_some_iff.mp h
      cases hlog
      exact (Run.single hstep).trans (ih hr)

/-- **Invariant rule.**  The events shown so far take part in the invariant. -/
theorem Run.invariant (Inv : σ → List ε → Prop) (hs : Inv s [])
    (hstep : ∀ t log a u es, Inv t log → S.step t a = some (u, es) → Inv u (log ++ es))
    (h : S.Run s as log t) : Inv t log := by
  induction h with
  | nil => exact hs
  | snoc _ hmove ih => exact hstep _ _ _ _ _ ih hmove

open Classical in
/-- The system that makes a move only where it is allowed. -/
noncomputable def restrict (S : System σ α ε) (ok : σ → α → Prop) : System σ α ε :=
  ⟨fun s a => if ok s a then S.step s a else none⟩

theorem restrict_step {ok : σ → α → Prop} {a : α} {r : σ × List ε} :
    (S.restrict ok).step s a = some r ↔ ok s a ∧ S.step s a = some r := by
  by_cases h : ok s a <;> simp [restrict, h]

/-! ## Moves that lower a measure -/

section Measure

variable (Inv : σ → Prop) (Kind : α → Prop) (weight : σ → Nat)

/-- No move of the kind is possible. -/
def Settled (S : System σ α ε) (Kind : α → Prop) (s : σ) : Prop :=
  ∀ a, Kind a → S.step s a = none

/-- **Measure rule.** -/
theorem Run.length_add_le (hinv : ∀ t a u es, Inv t → S.step t a = some (u, es) → Inv u)
    (hdrop : ∀ t a u es, Inv t → Kind a → S.step t a = some (u, es) → weight u < weight t)
    (hs : Inv s) (h : S.Run s as log t) (has : ∀ a ∈ as, Kind a) :
    Inv t ∧ as.length + weight t ≤ weight s := by
  induction h with
  | nil => exact ⟨hs, by simp⟩
  | @snoc as log t a es u _ hmove ih =>
    obtain ⟨hInv, hle⟩ := ih fun b hb => has b (List.mem_append_left _ hb)
    have hlt := hdrop t a u es hInv (has a (by simp)) hmove
    refine ⟨hinv t a u es hInv hmove, ?_⟩
    rw [List.length_append, List.length_singleton]
    omega

/-- Moves of the kind lead from every state to one where none is possible. -/
theorem exists_settled (hinv : ∀ t a u es, Inv t → S.step t a = some (u, es) → Inv u)
    (hdrop : ∀ t a u es, Inv t → Kind a → S.step t a = some (u, es) → weight u < weight t)
    (s : σ) (hs : Inv s) :
    ∃ as log t, S.Run s as log t ∧ (∀ a ∈ as, Kind a) ∧ S.Settled Kind t := by
  induction hn : weight s using Nat.strongRecOn generalizing s with
  | ind n ih =>
    by_cases hset : S.Settled Kind s
    · exact ⟨[], [], s, .nil, by simp, hset⟩
    · obtain ⟨a, ha, hmove⟩ : ∃ a, Kind a ∧ S.step s a ≠ none := by
        simpa [Settled] using hset
      obtain ⟨⟨u, es⟩, hmove⟩ := Option.ne_none_iff_exists'.mp hmove
      obtain ⟨as, log, t, hrun, has, ht⟩ :=
        ih (weight u) (hn ▸ hdrop s a u es hs ha hmove) u (hinv s a u es hs hmove) rfl
      refine ⟨a :: as, es ++ log, t, (Run.single hmove).trans hrun, fun b hb => ?_, ht⟩
      rcases List.mem_cons.mp hb with rfl | hb
      · exact ha
      · exact has b hb

end Measure

end System

/-! ## One entry of a list replaced -/

theorem exists_perm_set {l : List α} {i : Nat} {a : α} (h : l[i]? = some a) :
    ∃ rest, l.Perm (a :: rest) ∧ ∀ b, (l.set i b).Perm (b :: rest) := by
  obtain ⟨hi, rfl⟩ := List.getElem?_eq_some_iff.mp h
  exact ⟨l.eraseIdx i, (List.getElem_cons_eraseIdx_perm hi).symm,
    fun b => List.set_perm_cons_eraseIdx hi b⟩

theorem sum_map_set (f : α → Nat) {l : List α} {i : Nat} {a : α} (h : l[i]? = some a) (b : α) :
    ((l.set i b).map f).sum + f a = (l.map f).sum + f b := by
  obtain ⟨rest, hl, hset⟩ := exists_perm_set h
  rw [(hl.map f).sum_eq, ((hset b).map f).sum_eq, List.map_cons, List.map_cons, List.sum_cons,
    List.sum_cons]
  omega

theorem countP_set_add (f : α → Bool) {l : List α} {i : Nat} {a : α} (h : l[i]? = some a)
    (b : α) : (l.set i b).countP f + (f a).toNat = l.countP f + (f b).toNat := by
  obtain ⟨rest, hl, hset⟩ := exists_perm_set h
  have hcons : ∀ c, (c :: rest).countP f = rest.countP f + (f c).toNat := by
    intro c
    cases hc : f c <;> simp [hc]
  rw [hl.countP_eq, (hset b).countP_eq, hcons, hcons]
  omega

theorem perm_filterMap_set {β : Type*} (f : α → Option β) {l : List α} {i : Nat} {a : α}
    (h : l[i]? = some a) (b : α) :
    ((f a).toList ++ (l.set i b).filterMap f).Perm ((f b).toList ++ l.filterMap f) := by
  obtain ⟨rest, hl, hset⟩ := exists_perm_set h
  have hsplit : ∀ c, (c :: rest).filterMap f = (f c).toList ++ rest.filterMap f := by
    intro c
    cases hc : f c <;> simp [hc]
  refine (((hset b).filterMap f).append_left _).trans ?_
  refine .trans ?_ ((hl.filterMap f).append_left _).symm
  rw [hsplit, hsplit]
  exact List.perm_append_comm_assoc _ _ _

end JniDegger.Interleaving
