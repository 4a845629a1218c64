import Mathlib.Data.List.Forall2
import Mathlib.Data.List.Induction
import Mathlib.Data.Nat.Find
import Mathlib.Tactic.TypeStar

/-!
# Runs of deterministic machines

A machine answers an input and moves to its next state; some answers end the
run.  Proved here, for every machine:

* `step_of_mem_trace`, `trace_invariant`: what holds of one step holds of every
  event of a run;
* `trace_grows`: a transitive relation kept by every step relates the states of
  any two moments of a run;
* `filled_once`: a field that the first use fills and nothing refreshes;
* `final_simulation`: two machines in step with each other over the same inputs
  end in related states;
* `trace_forall₂`: related inputs give related traces;
* `trace_cons`, `final_cons`, `served_cons`: a run is its first step, and the run
  over the inputs that are left after it;
* `scripted`: the machine whose inputs refer to earlier answers;
* `foldl_latched`: a property decided by the last input that matters to it.
-/

namespace JniDegger.Runs

/-- A deterministic machine.  No input is served after an answer that `stops`. -/
structure Machine (σ ι ο : Type*) where
  step : σ → ι → ο × σ
  stops : ο → Bool

structure Event (σ ι ο : Type*) where
  before : σ
  input : ι
  output : ο
  after : σ

variable {σ τ ι κ ο π : Type*}

namespace Machine

def trace (M : Machine σ ι ο) (s : σ) : List ι → List (Event σ ι ο)
  | [] => []
  | i :: is =>
    ⟨s, i, (M.step s i).1, (M.step s i).2⟩ ::
      if M.stops (M.step s i).1 then [] else M.trace (M.step s i).2 is

def final (M : Machine σ ι ο) (s : σ) : List ι → σ
  | [] => s
  | i :: is =>
    if M.stops (M.step s i).1 then (M.step s i).2 else M.final (M.step s i).2 is

theorem mem_trace_cons {M : Machine σ ι ο} {s : σ} {i : ι} {is : List ι} {e : Event σ ι ο} :
    e ∈ M.trace s (i :: is) ↔
      e = ⟨s, i, (M.step s i).1, (M.step s i).2⟩ ∨
        M.stops (M.step s i).1 = false ∧ e ∈ M.trace (M.step s i).2 is := by
  rw [trace, List.mem_cons]
  cases M.stops (M.step s i).1 <;> simp

theorem step_of_mem_trace {M : Machine σ ι ο} {s : σ} {is : List ι} {e : Event σ ι ο}
    (he : e ∈ M.trace s is) : M.step e.before e.input = (e.output, e.after) := by
  induction is generalizing s with
  | nil => simp [trace] at he
  | cons i is ih =>
    rcases mem_trace_cons.mp he with rfl | ⟨-, h⟩
    · rfl
    · exact ih h

theorem before_of_getElem?_zero {M : Machine σ ι ο} {s : σ} {is : List ι} {e : Event σ ι ο}
    (he : (M.trace s is)[0]? = some e) : e.before = s := by
  cases is with
  | nil => simp [trace] at he
  | cons i is =>
    simp only [trace, List.getElem?_cons_zero, Option.some.injEq] at he
    rw [← he]

theorem before_of_getElem?_succ {M : Machine σ ι ο} {s : σ} {is : List ι} {k : Nat}
    {f : Event σ ι ο} (hf : (M.trace s is)[k + 1]? = some f) :
    ∃ e, (M.trace s is)[k]? = some e ∧ f.before = e.after := by
  induction is generalizing s k with
  | nil => simp [trace] at hf
  | cons i is ih =>
    simp only [trace, List.getElem?_cons_succ] at hf
    split at hf
    · simp at hf
    · next hgo =>
      cases k with
      | zero => exact ⟨_, by rw [trace, List.getElem?_cons_zero], before_of_getElem?_zero hf⟩
      | succ k =>
        obtain ⟨e, he, hb⟩ := ih hf
        exact ⟨e, by rw [trace, List.getElem?_cons_succ, if_neg hgo]; exact he, hb⟩

theorem input_of_getElem? {M : Machine σ ι ο} {s : σ} {is : List ι} {k : Nat}
    {e : Event σ ι ο} (he : (M.trace s is)[k]? = some e) : is[k]? = some e.input := by
  induction is generalizing s k with
  | nil => simp [trace] at he
  | cons i is ih =>
    cases k with
    | zero =>
      simp only [trace, List.getElem?_cons_zero, Option.some.injEq] at he
      rw [← he]
      rfl
    | succ k =>
      simp only [trace, List.getElem?_cons_succ] at he ⊢
      split at he
      · simp at he
      · exact ih he

theorem trace_cons (M : Machine σ ι ο) (s : σ) (i : ι) (is : List ι) :
    M.trace s (i :: is) = ⟨s, i, (M.step s i).1, (M.step s i).2⟩ ::
      M.trace (M.step s i).2 (if M.stops (M.step s i).1 then [] else is) := by
  rw [trace]
  split <;> rfl

theorem final_cons (M : Machine σ ι ο) (s : σ) (i : ι) (is : List ι) :
    M.final s (i :: is) =
      M.final (M.step s i).2 (if M.stops (M.step s i).1 then [] else is) := by
  rw [final]
  split <;> rfl

/-- **Invariant rule.**  A property of states kept by every step holds before
and after every event. -/
theorem trace_invariant {M : Machine σ ι ο} (Inv : σ → Prop)
    (hstep : ∀ s i, Inv s → Inv (M.step s i).2) {s : σ} (hs : Inv s) (is : List ι) :
    ∀ e ∈ M.trace s is, Inv e.before ∧ Inv e.after := by
  induction is generalizing s with
  | nil => intro e he; simp [trace] at he
  | cons i is ih =>
    intro e he
    rcases mem_trace_cons.mp he with rfl | ⟨-, h⟩
    · exact ⟨hs, hstep s i hs⟩
    · exact ih (hstep s i hs) e h

/-! ## Two moments of one run -/

section Growth

variable {M : Machine σ ι ο} (Inv : σ → Prop) (Le : σ → σ → Prop)

theorem start_le_of_mem_trace (hrefl : ∀ s, Le s s)
    (htrans : ∀ s t u, Le s t → Le t u → Le s u)
    (hinv : ∀ s i, Inv s → Inv (M.step s i).2)
    (hstep : ∀ s i, Inv s → Le s (M.step s i).2) {s : σ} (hs : Inv s) (is : List ι) :
    ∀ e ∈ M.trace s is, Le s e.before ∧ Le s e.after := by
  induction is generalizing s with
  | nil => intro e he; simp [trace] at he
  | cons i is ih =>
    intro e he
    rcases mem_trace_cons.mp he with rfl | ⟨-, h⟩
    · exact ⟨hrefl s, hstep s i hs⟩
    · obtain ⟨hb, ha⟩ := ih (hinv s i hs) e h
      exact ⟨htrans _ _ _ (hstep s i hs) hb, htrans _ _ _ (hstep s i hs) ha⟩

/-- **Growth rule.**  A preorder that every step climbs relates the state after
an event to the state before any later event. -/
theorem trace_grows (hrefl : ∀ s, Le s s)
    (htrans : ∀ s t u, Le s t → Le t u → Le s u)
    (hinv : ∀ s i, Inv s → Inv (M.step s i).2)
    (hstep : ∀ s i, Inv s → Le s (M.step s i).2) {s : σ} (hs : Inv s) (is : List ι) :
    (M.trace s is).Pairwise (fun e f => Le e.after f.before) := by
  induction is generalizing s with
  | nil => exact List.Pairwise.nil
  | cons i is ih =>
    rw [trace]
    split
    · exact List.pairwise_singleton _ _
    · refine List.pairwise_cons.mpr ⟨fun f hf => ?_, ih (hinv s i hs)⟩
      exact (start_le_of_mem_trace Inv Le hrefl htrans hinv hstep (hinv s i hs) is f hf).1

theorem after_le_final (hrefl : ∀ s, Le s s)
    (htrans : ∀ s t u, Le s t → Le t u → Le s u)
    (hinv : ∀ s i, Inv s → Inv (M.step s i).2)
    (hstep : ∀ s i, Inv s → Le s (M.step s i).2) {s : σ} (hs : Inv s) (is : List ι) :
    Le s (M.final s is) ∧ ∀ e ∈ M.trace s is, Le e.after (M.final s is) := by
  induction is generalizing s with
  | nil => exact ⟨hrefl s, fun e he => by simp [trace] at he⟩
  | cons i is ih =>
    have h1 := hstep s i hs
    obtain ⟨h2, h3⟩ := ih (hinv s i hs)
    rw [final]
    split
    · next hstop =>
      refine ⟨h1, fun e he => ?_⟩
      rcases mem_trace_cons.mp he with rfl | ⟨hgo, -⟩
      · exact hrefl _
      · rw [hstop] at hgo; cases hgo
    · refine ⟨htrans _ _ _ h1 h2, fun e he => ?_⟩
      rcases mem_trace_cons.mp he with rfl | ⟨-, h⟩
      · exact h2
      · exact h3 e h

end Growth

theorem pairwise_getElem? {α : Type*} {r : α → α → Prop} {l : List α} (h : l.Pairwise r)
    {i j : Nat} {a b : α} (hij : i < j) (hi : l[i]? = some a) (hj : l[j]? = some b) : r a b := by
  obtain ⟨hil, rfl⟩ := List.getElem?_eq_some_iff.mp hi
  obtain ⟨hjl, rfl⟩ := List.getElem?_eq_some_iff.mp hj
  exact List.pairwise_iff_getElem.mp h i j hil hjl hij

theorem mem_take_getElem? {α : Type*} {l : List α} {j : Nat} {a : α} (ha : a ∈ l.take j) :
    ∃ i < j, l[i]? = some a := by
  obtain ⟨i, hi, rfl⟩ := List.mem_take_iff_getElem.mp ha
  exact ⟨i, by omega, List.getElem?_eq_getElem (by omega)⟩

theorem exists_first {P : Nat → Prop} {j : Nat} (hj : P j) :
    ∃ k ≤ j, P k ∧ ∀ l < k, ¬ P l := by
  classical
  have hex : ∃ k, P k := ⟨j, hj⟩
  exact ⟨Nat.find hex, Nat.find_min' hex hj, Nat.find_spec hex, fun l => Nat.find_min hex⟩

/-! ## Fields filled on first use -/

/-- Event `m` is the first with the property. -/
def First (P : Event σ ι ο → Prop) (events : List (Event σ ι ο)) (m : Nat)
    (g : Event σ ι ο) : Prop :=
  events[m]? = some g ∧ P g ∧ ∀ l < m, ∀ e, events[l]? = some e → ¬ P e

theorem First.unique {P : Event σ ι ο → Prop} {events : List (Event σ ι ο)} {m n : Nat}
    {g h : Event σ ι ο} (hm : First P events m g) (hn : First P events n h) : m = n ∧ g = h := by
  obtain ⟨hg, hPg, hgmin⟩ := hm
  obtain ⟨hh, hPh, hhmin⟩ := hn
  rcases Nat.lt_trichotomy m n with hlt | rfl | hlt
  · exact absurd hPg (hhmin m hlt g hg)
  · rw [hg] at hh
    exact ⟨rfl, Option.some.inj hh⟩
  · exact absurd hPh (hgmin n hlt h hh)

/-- **Once rule.**  A field that the first use fills and nothing refreshes is empty
up to the first use, and from then on holds what that use put there. -/
theorem filled_once {α : Type*} {M : Machine σ ι ο} (field : σ → Option α) (value : σ → α)
    (Uses : σ → ι → Prop)
    (hkeep : ∀ s i a, field s = some a → field (M.step s i).2 = some a)
    (hfill : ∀ s i, field s = none → Uses s i → field (M.step s i).2 = some (value s))
    (hwait : ∀ s i, field s = none → ¬ Uses s i → field (M.step s i).2 = none)
    {s : σ} (hs : field s = none) {is : List ι} {k : Nat} {e : Event σ ι ο}
    (he : (M.trace s is)[k]? = some e) :
    (field e.before = none ∧
        ∀ l < k, ∀ g, (M.trace s is)[l]? = some g → ¬ Uses g.before g.input) ∨
      ∃ m < k, ∃ g, First (fun g => Uses g.before g.input) (M.trace s is) m g ∧
        field e.before = some (value g.before) := by
  induction k generalizing e with
  | zero =>
    rw [before_of_getElem?_zero he]
    exact Or.inl ⟨hs, fun l hl => absurd hl (Nat.not_lt_zero l)⟩
  | succ k ih =>
    obtain ⟨d, hd, hbefore⟩ := before_of_getElem?_succ he
    have hafter : d.after = (M.step d.before d.input).2 := by
      rw [step_of_mem_trace (List.mem_of_getElem? hd)]
    rw [hbefore, hafter]
    rcases ih hd with ⟨hempty, hnone⟩ | ⟨m, hm, g, hg, hfield⟩
    · by_cases huse : Uses d.before d.input
      · exact Or.inr ⟨k, Nat.lt_succ_self k, d, ⟨hd, huse, hnone⟩, hfill _ _ hempty huse⟩
      · refine Or.inl ⟨hwait _ _ hempty huse, fun l hl g hg => ?_⟩
        by_cases hlk : l < k
        · exact hnone l hlk g hg
        · obtain rfl : l = k := by omega
          rw [hd] at hg
          exact Option.some.inj hg ▸ huse
    · exact Or.inr ⟨m, by omega, g, hg, hkeep _ _ _ hfield⟩

/-! ## Two machines in step -/

/-- **Simulation rule.**  `R` relates two states and the inputs still to come.
If two related machines stop together and stay related, their runs end in related
states. -/
theorem final_simulation {M : Machine σ ι ο} {N : Machine τ ι π} {R : σ → τ → List ι → Prop}
    (hstep : ∀ s t i is, R s t (i :: is) →
      M.stops (M.step s i).1 = N.stops (N.step t i).1 ∧
        R (M.step s i).2 (N.step t i).2 (if M.stops (M.step s i).1 then [] else is))
    {s : σ} {t : τ} {is : List ι} (h : R s t is) : R (M.final s is) (N.final t is) [] := by
  induction is generalizing s t with
  | nil => exact h
  | cons i is ih =>
    obtain ⟨hst, hr⟩ := hstep s t i is h
    rw [final, final, ← hst]
    cases hstop : M.stops (M.step s i).1
    · rw [hstop] at hr
      exact ih hr
    · rw [hstop] at hr
      exact hr

/-- **Trace rule.**  Two machines that answer related inputs in related states with
related answers, and stop on related answers together, have related traces. -/
theorem trace_forall₂ {M : Machine σ ι ο} {N : Machine τ κ π} {R : σ → τ → Prop}
    {I : ι → κ → Prop} {O : ο → π → Prop} (hstops : ∀ o p, O o p → M.stops o = N.stops p)
    (hstep : ∀ s t i j, R s t → I i j →
      O (M.step s i).1 (N.step t j).1 ∧ R (M.step s i).2 (N.step t j).2)
    {s : σ} {t : τ} {is : List ι} {js : List κ} (h : R s t) (hin : List.Forall₂ I is js) :
    List.Forall₂ (fun e f => R e.before f.before ∧ I e.input f.input ∧ O e.output f.output ∧
      R e.after f.after) (M.trace s is) (N.trace t js) := by
  induction hin generalizing s t with
  | nil => exact .nil
  | cons hi his ih =>
    obtain ⟨ho, hr⟩ := hstep _ _ _ _ h hi
    rw [trace, trace, ← hstops _ _ ho]
    refine .cons ⟨h, hi, ho, hr⟩ ?_
    split
    · exact .nil
    · exact ih hr

/-! ## Served inputs -/

/-- The inputs up to the answer that stops the run, if there is one. -/
def served (M : Machine σ ι ο) (s : σ) (is : List ι) : List ι := (M.trace s is).map Event.input

theorem served_cons (M : Machine σ ι ο) (s : σ) (i : ι) (is : List ι) :
    M.served s (i :: is) =
      i :: M.served (M.step s i).2 (if M.stops (M.step s i).1 then [] else is) := by
  rw [served, trace_cons, List.map_cons, served]

/-! ## Inputs that refer to earlier answers -/

/-- The machine whose inputs are filled in from the answers given so far. -/
def scripted (M : Machine σ ι ο) (resolve : List ο → κ → ι) :
    Machine (σ × List ο) κ ο where
  step s k := ((M.step s.1 (resolve s.2 k)).1,
    ((M.step s.1 (resolve s.2 k)).2, s.2 ++ [(M.step s.1 (resolve s.2 k)).1]))
  stops := M.stops

theorem scripted_answers {M : Machine σ ι ο} {resolve : List ο → κ → ι} {s : σ × List ο}
    {ks : List κ} : ((M.scripted resolve).final s ks).2 =
      s.2 ++ ((M.scripted resolve).trace s ks).map Event.output := by
  induction ks generalizing s with
  | nil => simp [final, trace]
  | cons k ks ih =>
    have hstep : ((M.scripted resolve).step s k).2.2 =
        s.2 ++ [((M.scripted resolve).step s k).1] := rfl
    rw [final, trace]
    cases hstop : (M.scripted resolve).stops ((M.scripted resolve).step s k).1
    · have hrest := ih (s := ((M.scripted resolve).step s k).2)
      rw [hstep] at hrest
      simpa using hrest
    · simpa using hstep

end Machine

/-! ## The last input that decides -/

section Latch

variable {sets clears : ι → Prop}

/-- An input that sets, with no input after it that clears. -/
def Latched (sets clears : ι → Prop) (is : List ι) : Prop :=
  ∃ (i : Nat) (a : ι), is[i]? = some a ∧ sets a ∧
    ∀ (k : Nat) (b : ι), i < k → is[k]? = some b → ¬ clears b

theorem not_latched_nil : ¬ Latched sets clears [] := by
  rintro ⟨i, a, hi, -⟩
  simp at hi

theorem latched_concat {is : List ι} {a : ι} :
    Latched sets clears (is ++ [a]) ↔ sets a ∨ ¬ clears a ∧ Latched sets clears is := by
  constructor
  · rintro ⟨i, c, hi, hset, hclear⟩
    rcases Nat.lt_or_ge i is.length with hlt | hge
    · rw [List.getElem?_append_left hlt] at hi
      refine Or.inr ⟨hclear is.length a hlt List.getElem?_concat_length, i, c, hi, hset, ?_⟩
      intro k b hik hk
      obtain ⟨hkl, -⟩ := List.getElem?_eq_some_iff.mp hk
      exact hclear k b hik (by rw [List.getElem?_append_left hkl, hk])
    · rw [List.getElem?_append_right hge, List.getElem?_singleton] at hi
      split at hi
      · exact Or.inl (Option.some.inj hi ▸ hset)
      · cases hi
  · rintro (hset | ⟨ha, i, c, hi, hset, hclear⟩)
    · refine ⟨is.length, a, List.getElem?_concat_length, hset, fun k b hk hget => ?_⟩
      obtain ⟨hkl, -⟩ := List.getElem?_eq_some_iff.mp hget
      rw [List.length_append, List.length_singleton] at hkl
      omega
    · obtain ⟨hil, -⟩ := List.getElem?_eq_some_iff.mp hi
      refine ⟨i, c, by rw [List.getElem?_append_left hil, hi], hset, fun k b hik hk => ?_⟩
      rcases Nat.lt_or_ge k is.length with hlt | hge
      · exact hclear k b hik (by rw [← hk, List.getElem?_append_left hlt])
      · rw [List.getElem?_append_right hge, List.getElem?_singleton] at hk
        split at hk
        · exact Option.some.inj hk ▸ ha
        · cases hk

/-- **Latch rule.**  A property that some inputs establish, some destroy and all others
keep holds at the end exactly when the last of them that matters established it. -/
theorem foldl_latched {f : σ → ι → σ} (Inv P : σ → Prop) (hinv : ∀ s a, Inv s → Inv (f s a))
    (hset : ∀ s a, Inv s → sets a → P (f s a))
    (hclear : ∀ s a, Inv s → clears a → ¬ P (f s a))
    (hkeep : ∀ s a, Inv s → ¬ sets a → ¬ clears a → (P (f s a) ↔ P s))
    {s : σ} (hs : Inv s) (hno : ¬ P s) (is : List ι) :
    P (is.foldl f s) ↔ Latched sets clears is := by
  suffices h : Inv (is.foldl f s) ∧ (P (is.foldl f s) ↔ Latched sets clears is) from h.2
  induction is using List.reverseRecOn with
  | nil => exact ⟨hs, iff_of_false hno not_latched_nil⟩
  | append_singleton is a ih =>
    obtain ⟨hI, hP⟩ := ih
    rw [List.foldl_append, List.foldl_cons, List.foldl_nil, latched_concat]
    refine ⟨hinv _ _ hI, ?_⟩
    by_cases ha : sets a
    · exact iff_of_true (hset _ _ hI ha) (Or.inl ha)
    · by_cases hc : clears a
      · exact iff_of_false (hclear _ _ hI hc) (by simp [ha, hc])
      · rw [hkeep _ _ hI ha hc, hP]
        simp [ha, hc]

end Latch

end JniDegger.Runs
