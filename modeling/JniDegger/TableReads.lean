import JniDegger.Registry

/-!
# Reading the tables

Every hook that prints a name reads it with `operator[]`, which plants an empty name
under a handle it does not know.  Proved here:

* `tablesKept_iff`: a call leaves the tables as they are exactly when the handles it
  reads are keys already;
* `owned_step`: such a call keeps every key an address that a look-up hook allocated
  for the value stored under it;
* `readsPure_iff`: the runs in which no look-up plants anything, and `FindClass`
  returns what it allocated itself;
* `not_readsPure`: a run in which `FindClass` returns null.
-/

namespace JniDegger.FakeEnv

open Runs InternTable

/-! ## What a call reads -/

/-- The handle the hook looks up in `gClassNameMap`. -/
def Call.readsClass? {η : Type} : Call η → Option η
  | .registerNatives c _ _ | .getMethodID c _ _ | .getStaticMethodID c _ _ => some c
  | .getObjectClass o | .deleteLocalRef o | .deleteGlobalRef o | .newGlobalRef o => some o
  | .call slot o _ _ => if slot.printsClass then some o else none
  | _ => none

/-- The handle the hook looks up in `gMethodIDMap`. -/
def Call.readsMethod? {η : Type} : Call η → Option η
  | .call _ _ m _ => some m
  | _ => none

/-- The handles the hook looks up are keys of the tables. -/
def KnownReads (s : Env) (c : Call Handle) : Prop :=
  (∀ h ∈ c.readsClass?, h ∈ s.gClassNameMap) ∧ ∀ h ∈ c.readsMethod?, h ∈ s.gMethodIDMap

/-- A hook other than `FindClass` leaves `gClassNameMap` as it is, and if it is not one
of the two method look-ups either it leaves `gMethodIDMap` as it is. -/
def TablesKept (A : Allocator) (s : Env) (c : Call Handle) : Prop :=
  (∀ n, c ≠ .findClass n) →
    (serve A s c).env.gClassNameMap = s.gClassNameMap ∧
      (c.lookup? = none → (serve A s c).env.gMethodIDMap = s.gMethodIDMap)

section Tables

variable (A : Allocator) (s : Env)

theorem serve_tables {c : Call Handle} (hc : ∀ n, c ≠ .findClass n) (hl : c.lookup? = none) :
    (serve A s c).env.gClassNameMap = c.readsClass?.elim s.gClassNameMap (touch s.gClassNameMap) ∧
      (serve A s c).env.gMethodIDMap = c.readsMethod?.elim s.gMethodIDMap (touch s.gMethodIDMap) := by
  cases c with
  | findClass n => exact absurd rfl (hc n)
  | getMethodID cls n sig => cases hl
  | getStaticMethodID cls n sig => cases hl
  | call slot o m args => cases slot <;> exact ⟨rfl, rfl⟩
  | getObjectClass o =>
    simp only [serve, hookGetObjectClass, Effect.answer]
    split <;> exact ⟨rfl, rfl⟩
  | getStringUTFChars o =>
    simp only [serve, hookGetStringUTFChars, Effect.answer]
    split <;> exact ⟨rfl, rfl⟩
  | _ => exact ⟨rfl, rfl⟩

theorem reads_of_lookup {c : Call Handle} {cls : Handle} {fn t : String}
    (hl : c.lookup? = some (cls, fn, t)) : c.readsClass? = some cls ∧ c.readsMethod? = none := by
  cases c <;> cases hl <;> exact ⟨rfl, rfl⟩

theorem serve_classTable {c : Call Handle} (hc : ∀ n, c ≠ .findClass n) :
    (serve A s c).env.gClassNameMap =
      c.readsClass?.elim s.gClassNameMap (touch s.gClassNameMap) := by
  cases hl : c.lookup? with
  | none => exact (serve_tables A s hc hl).1
  | some p =>
    obtain ⟨cls, fn, t⟩ := p
    rw [(reads_of_lookup hl).1, serve_lookup A s hl, Effect.answer, methodLookup]
    split <;> rfl

end Tables

/-- **When a call leaves the tables as they are.** -/
theorem tablesKept_iff {A : Allocator} {s : Env} {c : Call Handle} :
    TablesKept A s c ↔ KnownReads s c := by
  have elim : ∀ (m : NameMap) (o : Option Handle), o.elim m (touch m) = m ↔ ∀ h ∈ o, h ∈ m := by
    intro m o
    cases o with
    | none => simp
    | some h => simp [touch_eq_self_iff]
  by_cases hc : ∃ n, c = .findClass n
  · obtain ⟨n, rfl⟩ := hc
    constructor
    · exact fun _ => ⟨fun h hh => absurd hh (by simp [Call.readsClass?]),
        fun h hh => absurd hh (by simp [Call.readsMethod?])⟩
    · exact fun _ h => absurd rfl (h n)
  · have hne : ∀ n, c ≠ .findClass n := fun n hn => hc ⟨n, hn⟩
    rw [TablesKept, KnownReads, serve_classTable A s hne, elim]
    cases hl : c.lookup? with
    | none => simp [hne, (serve_tables A s hne hl).2, elim]
    | some p => simp [hne, (reads_of_lookup hl).2]

/-! ## Where the keys come from -/

/-- The event ran `new string` and got `h`; the string is the name the call asked for. -/
def Allocated (A : Allocator) (e : Event Env (Call Handle) (Reply Handle)) (h : Handle) : Prop :=
  h = A.addr e.before.news ∧ e.after.news = e.before.news + 1

/-- Before event `j`, every key is an address that an earlier look-up hook allocated for
the string the key now holds. -/
structure Owned (A : Allocator) (events : List (Event Env (Call Handle) (Reply Handle)))
    (j : Nat) (s : Env) : Prop where
  classes : ∀ (h : Handle) n, s.gClassNameMap[h]? = some n → ∃ i < j, ∃ d, events[i]? = some d ∧
    d.input = .findClass n ∧ Allocated A d h
  methods : ∀ (h : Handle) t, s.gMethodIDMap[h]? = some t → ∃ i < j, ∃ d, events[i]? = some d ∧
    (∃ cls fn, d.input.lookup? = some (cls, fn, t)) ∧ Allocated A d h

theorem Owned.mono {A : Allocator} {events : List (Event Env (Call Handle) (Reply Handle))}
    {i j : Nat} {s : Env} (h : Owned A events i s) (hij : i ≤ j) : Owned A events j s where
  classes k n hk := by
    obtain ⟨l, hl, d, hd⟩ := h.classes k n hk
    exact ⟨l, by omega, d, hd⟩
  methods k t hk := by
    obtain ⟨l, hl, d, hd⟩ := h.methods k t hk
    exact ⟨l, by omega, d, hd⟩

section Step

variable {A : Allocator} {s : Env}

/-- `FindClass` returns a key it found, or the address it allocates. -/
theorem serve_findClass (n : String) :
    (∃ h, search s.gClassNameMap n = some h ∧ (serve A s (.findClass n)).value = .jclass h ∧
        (serve A s (.findClass n)).env = s) ∨
      (serve A s (.findClass n)).value = .jclass (A.addr s.news) ∧
        (serve A s (.findClass n)).env = s.newClass A n := by
  simp only [serve, hookFindClass, Effect.answer]
  cases search s.gClassNameMap n with
  | some h => exact Or.inl ⟨h, rfl, rfl, rfl⟩
  | none => exact Or.inr ⟨rfl, rfl⟩

theorem classTable_after {c : Call Handle} (hk : KnownReads s c) {h : Handle} {n : String}
    (hh : (serve A s c).env.gClassNameMap[h]? = some n) :
    s.gClassNameMap[h]? = some n ∨ c = .findClass n ∧ h = A.addr s.news ∧
      (serve A s c).env.news = s.news + 1 := by
  by_cases hc : ∃ m, c = .findClass m
  · obtain ⟨m, rfl⟩ := hc
    rcases serve_findClass (A := A) (s := s) m with ⟨-, -, -, he⟩ | ⟨-, he⟩ <;> rw [he] at hh ⊢
    · exact Or.inl hh
    · rcases eq_or_of_getElem?_insert hh with ⟨rfl, rfl⟩ | hh
      · exact Or.inr ⟨rfl, rfl, rfl⟩
      · exact Or.inl hh
  · rw [((tablesKept_iff (A := A)).mpr hk fun m hm => hc ⟨m, hm⟩).1] at hh
    exact Or.inl hh

theorem methodTable_after {c : Call Handle} (hk : KnownReads s c) {h : Handle} {t : String}
    (hh : (serve A s c).env.gMethodIDMap[h]? = some t) :
    s.gMethodIDMap[h]? = some t ∨ (∃ cls fn, c.lookup? = some (cls, fn, t)) ∧
      h = A.addr s.news ∧ (serve A s c).env.news = s.news + 1 := by
  cases hl : c.lookup? with
  | none =>
    by_cases hc : ∃ m, c = .findClass m
    · obtain ⟨m, rfl⟩ := hc
      rcases serve_findClass (A := A) (s := s) m with ⟨-, -, -, he⟩ | ⟨-, he⟩ <;>
        rw [he] at hh <;> exact Or.inl hh
    · rw [((tablesKept_iff (A := A)).mpr hk fun m hm => hc ⟨m, hm⟩).2 hl] at hh
      exact Or.inl hh
  | some p =>
    obtain ⟨cls, fn, t'⟩ := p
    rw [serve_lookup A s hl, Effect.answer, methodLookup] at hh ⊢
    split at hh
    · exact Or.inl hh
    · dsimp only
      rcases eq_or_of_getElem?_insert hh with ⟨rfl, rfl⟩ | hh
      · exact Or.inr ⟨⟨cls, fn, rfl⟩, rfl, rfl⟩
      · exact Or.inl hh

end Step

section Run

variable {A : Allocator} {calls : List (Call Handle)}

/-- **A call that plants nothing keeps the keys owned.** -/
theorem owned_step {j : Nat} {e : Event Env (Call Handle) (Reply Handle)}
    (he : (run A calls)[j]? = some e) (hk : KnownReads e.before e.input)
    (ho : Owned A (run A calls) j e.before) : Owned A (run A calls) (j + 1) e.after := by
  have hafter := (run_serve (List.mem_of_getElem? he)).2
  have hlater := ho.mono (Nat.le_succ j)
  constructor
  · intro h n hh
    rw [hafter] at hh
    rcases classTable_after hk hh with hh | ⟨hin, haddr, hnews⟩
    · exact hlater.classes h n hh
    · exact ⟨j, Nat.lt_succ_self j, e, he, hin, haddr, by rw [hafter, hnews]⟩
  · intro h t hh
    rw [hafter] at hh
    rcases methodTable_after hk hh with hh | ⟨hin, haddr, hnews⟩
    · exact hlater.methods h t hh
    · exact ⟨j, Nat.lt_succ_self j, e, he, hin, haddr, by rw [hafter, hnews]⟩

theorem run_owned (hk : ∀ e ∈ run A calls, KnownReads e.before e.input) {j : Nat}
    {e : Event Env (Call Handle) (Reply Handle)} (he : (run A calls)[j]? = some e) :
    Owned A (run A calls) j e.before := by
  induction j generalizing e with
  | zero =>
    rw [Machine.before_of_getElem?_zero he]
    exact ⟨fun h n hh => by simp [initial, Env.start] at hh,
      fun h t hh => by simp [initial, Env.start] at hh⟩
  | succ j ih =>
    obtain ⟨d, hd, hbefore⟩ := Machine.before_of_getElem?_succ he
    rw [hbefore]
    exact owned_step hd (hk d (List.mem_of_getElem? hd)) (ih hd)

end Run

/-- What a run promises if look-ups do not change the tables. -/
structure ReadsPure (A : Allocator) (calls : List (Call Handle)) : Prop where
  kept : ∀ e ∈ run A calls, TablesKept A e.before e.input
  owned : ∀ (j : Nat) e, (run A calls)[j]? = some e → Owned A (run A calls) (j + 1) e.after
  found : ∀ (j : Nat) e n, (run A calls)[j]? = some e → e.input = .findClass n →
    ∃ h, e.output.answer = .jclass h ∧ h ≠ 0 ∧ ∃ i ≤ j, ∃ d, (run A calls)[i]? = some d ∧
      d.input = .findClass n ∧ Allocated A d h

/-- **When look-ups do not change the tables.**  In a run, every hook other than the three
look-ups leaves the tables as they are exactly when every handle a hook reads is a key of
the table it is read in; and then the keys are the allocated addresses, and `FindClass`
returns one it allocated itself. -/
theorem readsPure_iff (A : Allocator) (calls : List (Call Handle)) :
    ReadsPure A calls ↔ ∀ e ∈ run A calls, KnownReads e.before e.input := by
  constructor
  · exact fun h e he => tablesKept_iff.mp (h.kept e he)
  · intro hk
    refine ⟨fun e he => tablesKept_iff.mpr (hk e he), fun j e he => ?_, fun j e n he hin => ?_⟩
    · exact owned_step he (hk e (List.mem_of_getElem? he)) (run_owned hk he)
    · have howned := run_owned hk he
      obtain ⟨hout, hafter⟩ := run_serve (List.mem_of_getElem? he)
      rw [hin] at hout hafter
      rcases serve_findClass (A := A) (s := e.before) n with ⟨h, hs, hv, -⟩ | ⟨hv, henv⟩
      · obtain ⟨i, hi, d, hd, hdin, hda⟩ := howned.classes h n (getElem?_of_search hs)
        refine ⟨h, by rw [hout, hv], ?_, i, by omega, d, hd, hdin, hda⟩
        rw [hda.1]
        exact A.ne_null _
      · refine ⟨_, by rw [hout, hv], A.ne_null _, j, Nat.le_refl j, e, he, hin, rfl, ?_⟩
        rw [hafter, henv, Env.newClass]

/-- A null reference is read, and `FindClass` of the empty name returns it. -/
theorem not_readsPure : ¬ ∀ A calls, ReadsPure A calls := by
  intro h
  obtain ⟨h', hout, hne, -⟩ := (h .bump [.newGlobalRef 0, .findClass ""]).found 1 _ "" rfl rfl
  cases hout
  exact hne rfl

end JniDegger.FakeEnv
