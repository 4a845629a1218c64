import JniDegger.Scripts
import Mathlib.Data.Set.Function

/-!
# The trace does not depend on addresses

Two processes run one script from empty tables over two allocators.  Both follow
the same run of the registry, so their replies differ by the addresses alone:

* `bijOn_relocate`: two processes with one registry correspond by a bijection;
* `address_free`: equal logs, faults at the same steps, and replies that
  correspond through one bijection of the allocated addresses.
-/

namespace JniDegger.FakeEnv

open Runs InternTable

/-- The addresses `new string` returned during a script from empty tables. -/
def allocated (A : Allocator) (script : List (Call Arg)) : Set Handle :=
  A.used (finalEnv A (initial Env.start) script).news

/-- Event `i` enters the real-object branch of `hook_GetObjectClass`. -/
def RealBranch {σ : Type} (events : List (Event σ (Call Arg) (Reply Handle))) (i : Nat) : Prop :=
  ∃ e o, events[i]? = some e ∧ e.input = .getObjectClass o ∧ e.output.answer = .segv

/-- A step with a non-empty class name and a signature that begins with `(`, whose
fixed values are not among the addresses `S`. -/
structure Portable (S : Set Handle) (c : Call Arg) : Prop where
  className : ∀ n, c = .findClass n → n ≠ ""
  signature : ∀ b cls n sig, c = .lookupMethod b cls n sig → sig.toList.head? = some '('
  fixed : ∀ v, Arg.fixed v ∈ c.handles → v ∉ S

theorem Portable.scriptable {A : Allocator} {N : Nat} {c : Call Arg}
    (hc : Portable (A.used N) c) : Scriptable A N c where
  named μ hμ := by
    cases c with
    | findClass n =>
      cases hμ
      exact hc.className n rfl
    | getMethodID cls n sig =>
      cases hμ
      exact methodText_ne_empty (b := false) (hc.signature false cls n sig rfl)
    | getStaticMethodID cls n sig =>
      cases hμ
      exact methodText_ne_empty (b := true) (hc.signature true cls n sig rfl)
    | _ => cases hμ
  fixed := hc.fixed

theorem portable_matches {A : Allocator} (h1 : ∀ i, A.addr i ≠ 1) {script : List (Call Arg)}
    (hscript : ∀ c ∈ script, Portable (allocated A script) c) :
    Matches A ∅ (finalEnv A (initial Env.start) script).news
      (finalEnv A (initial Env.start) script,
        (runScript A (initial Env.start) script).map Event.output)
      (Registry.scriptMachine.final (.start, []) script) [] :=
  script_matches h1 (represents_start A) (fun _ ⟨i, hi, _⟩ => absurd hi (Nat.not_lt_zero i))
    fun c hc => (hscript c hc).scriptable

section TwoProcesses

variable {A A' : Allocator} {s s' : Env} {r : Registry}

theorem bijOn_relocate (hr : Represents A s r) (hr' : Represents A' s' r)
    (hn : ∀ h ∈ A.used s.news, (s.meaning h).Real)
    (hn' : ∀ h ∈ A'.used s'.news, (s'.meaning h).Real) :
    Set.BijOn (relocate s s') (A.used s.news) (A'.used s'.news) := by
  have across : ∀ h ∈ A.used s.news, ∃ h', s'.meaning h' = s.meaning h ∧ relocate s s' h = h' := by
    intro h hh
    have hreal := hn h hh
    have hknown := (hr.known _ hreal).mp ⟨h, rfl⟩
    obtain ⟨h', hh'⟩ := (hr'.known _ hreal).mpr hknown
    exact ⟨h', hh', relocate_eq hr'.wf hh'.symm⟩
  refine ⟨?_, ?_, ?_⟩
  · intro h hh
    obtain ⟨h', hm, he⟩ := across h hh
    rw [he]
    exact used_of_meaning hr'.wf (by rw [hm]; exact hn h hh)
  · intro h hh k hk heq
    obtain ⟨h', hm, he⟩ := across h hh
    obtain ⟨k', hm', he'⟩ := across k hk
    have hsame : s.meaning h = s.meaning k := by
      rw [← hm, ← hm', ← he, ← he', heq]
    have hl := (locate?_eq_some_iff hr.wf (hn h hh)).mpr rfl
    have hl' := (locate?_eq_some_iff hr.wf (hn k hk)).mpr rfl
    rw [hsame, hl'] at hl
    exact (Option.some.inj hl).symm
  · intro h' hh'
    have hreal := hn' h' hh'
    have hknown := (hr'.known _ hreal).mp ⟨h', rfl⟩
    obtain ⟨h, hh⟩ := (hr.known _ hreal).mpr hknown
    exact ⟨h, used_of_meaning hr.wf (by rw [hh]; exact hreal), relocate_eq hr'.wf hh⟩

end TwoProcesses

theorem realBranch_iff {A A' : Allocator} {s s' : Env} {script : List (Call Arg)}
    {f : Handle → Handle} (hf : (runScript A' s' script).map Event.output =
      (runScript A s script).map fun e => e.output.map f) (i : Nat) :
    RealBranch (runScript A s script) i ↔ RealBranch (runScript A' s' script) i := by
  have hi : (runScript A' s' script)[i]?.map Event.output =
      (runScript A s script)[i]?.map fun e => e.output.map f := by
    rw [← List.getElem?_map, ← List.getElem?_map, hf]
  have hsegv : ∀ a : Answer Handle, a.map f = .segv ↔ a = .segv := by
    intro a
    cases a <;> simp [Answer.map]
  constructor
  · rintro ⟨e, o, he, hin, hans⟩
    rw [he, Option.map_some, Option.map_eq_some_iff] at hi
    obtain ⟨e', he', ho⟩ := hi
    have hin' : e'.input = e.input :=
      Option.some.inj ((Machine.input_of_getElem? he').symm.trans (Machine.input_of_getElem? he))
    exact ⟨e', o, he', hin'.trans hin, by rw [ho]; exact (hsegv _).mpr hans⟩
  · rintro ⟨e', o, he', hin, hans⟩
    rw [he', Option.map_some, eq_comm, Option.map_eq_some_iff] at hi
    obtain ⟨e, he, ho⟩ := hi
    have hin' : e.input = e'.input :=
      Option.some.inj ((Machine.input_of_getElem? he).symm.trans (Machine.input_of_getElem? he'))
    refine ⟨e, o, he, hin'.trans hin, (hsegv _).mp ?_⟩
    rw [← hans, ← ho]
    rfl

/-- **The trace does not depend on memory addresses.**  One script, run from
empty tables over two allocators that never return the constant `1`, gives equal
logs and faults at the same steps; its replies correspond through one bijection
of the allocated addresses, the identity on everything else. -/
theorem address_free {A A' : Allocator} (h1 : ∀ i, A.addr i ≠ 1) (h1' : ∀ i, A'.addr i ≠ 1)
    {script : List (Call Arg)}
    (hscript : ∀ c ∈ script, Portable (allocated A script) c ∧ Portable (allocated A' script) c) :
    log (runScript A (initial Env.start) script) =
        log (runScript A' (initial Env.start) script) ∧
      (∀ i, RealBranch (runScript A (initial Env.start) script) i ↔
        RealBranch (runScript A' (initial Env.start) script) i) ∧
      ∃ f : Handle → Handle, Set.BijOn f (allocated A script) (allocated A' script) ∧
        (∀ v, v ∉ allocated A script → f v = v) ∧
        (runScript A' (initial Env.start) script).map Event.output =
          (runScript A (initial Env.start) script).map fun e => e.output.map f := by
  have hm := portable_matches h1 fun c hc => (hscript c hc).1
  have hm' := portable_matches h1' fun c hc => (hscript c hc).2
  let f := relocate (finalEnv A (initial Env.start) script) (finalEnv A' (initial Env.start) script)
  have hreplies : (runScript A' (initial Env.start) script).map Event.output =
      (runScript A (initial Env.start) script).map fun e => e.output.map f := by
    have h := replies_relocate hm'.represents.wf (hm.answers.symm.trans hm'.answers)
    rwa [List.map_map] at h
  refine ⟨log_congr hreplies, realBranch_iff hreplies, f, ?_, ?_, hreplies⟩
  · exact bijOn_relocate hm.represents hm'.represents
      (fun h hh => (hm.named h hh).resolve_right id)
      fun h hh => (hm'.named h hh).resolve_right id
  · exact fun v hv => relocate_of_not_used hm.represents.wf hv

/-- A class, a method, an object of the class, and then a foreign object, which
reaches the real-object branch. -/
def objectThenForeign : List (Call Arg) :=
  [.findClass "A", .getMethodID (.result 0) "run" "()V",
    .call .newObject (.result 0) (.result 1) [], .getObjectClass (.fixed 7)]

theorem portable_objectThenForeign {S : Set Handle} (h7 : 7 ∉ S) :
    ∀ c ∈ objectThenForeign, Portable S c := by
  intro c hc
  simp only [objectThenForeign, List.mem_cons, List.not_mem_nil, or_false] at hc
  refine ⟨?_, ?_, ?_⟩
  · rintro n rfl
    simp at hc
    simp [hc]
  · rintro b cls n sig rfl
    cases b <;> simp [Call.lookupMethod] at hc
    simp [hc.2.2]
  · intro v hv
    rcases hc with rfl | rfl | rfl | rfl <;> simp [Call.handles, Call.objects] at hv
    rw [hv]
    exact h7

/-- The second allocator hands its first two blocks out in the other order. -/
theorem address_free_swapped :
    log (runScript .bump (initial Env.start) objectThenForeign) =
        log (runScript (.heap (Equiv.swap 0 1)) (initial Env.start) objectThenForeign) ∧
      RealBranch (runScript (.heap (Equiv.swap 0 1)) (initial Env.start) objectThenForeign) 3 := by
  have h1 : ∀ (σ : Equiv.Perm Nat) (i : Nat), (Allocator.heap σ).addr i ≠ 1 := fun σ =>
    Allocator.heap_addr_ne σ (by decide)
  have h7 : ∀ (σ : Equiv.Perm Nat) (k : Nat), 7 ∉ (Allocator.heap σ).used k :=
    fun σ k ⟨i, _, he⟩ => Allocator.heap_addr_ne σ (by decide) i he
  obtain ⟨hlog, hreal, -⟩ := address_free (A := .bump) (h1 _) (h1 (Equiv.swap 0 1)) fun c hc =>
    ⟨portable_objectThenForeign (h7 _ _) c hc, portable_objectThenForeign (h7 _ _) c hc⟩
  exact ⟨hlog, (hreal 3).mp ⟨_, .fixed 7, rfl, rfl, rfl⟩⟩

end JniDegger.FakeEnv
