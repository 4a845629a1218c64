import JniDegger.FakedSignature

/-!
# Installing the proxy (`ServiceManagerWraper.java`)

`hookPMS` hands its sign string to `SignatureFake`, wraps the package manager in a proxy
and writes the proxy to two fields.  Any step in between may throw, and the catch block
only logs.  Proved here, for every sequence of calls:

* `hookPMS_cases`: the three states a call can leave behind;
* `hookPMS_fresh`: a call keeps the numbers of the proxies apart;
* `hookAll_sameProxy_iff`: when the two fields hold the same proxy;
* `reports_after_iff`: when a call changes what the proxies report;
* `installs`: what a call changes, by the step that throws;
* `not_allOrNothing`: a call that fails is not undone.
-/

namespace JniDegger.ServiceManagerWraper

open JavaText SignatureFake Runs

/-- A package manager: an object of the system, or a proxy with the number of its
creation and what `PmsHookBinderInvocationHandler` was given. -/
inductive Pm (ι : Type)
  | system (o : ι)
  | proxy (id : Nat) (base : Pm ι) (appPkgName : Option JString)

/-- The static state of `SignatureFake`, `ActivityThread.sPackageManager`, the `mPM` of
the context's package manager, and the number of proxies created so far. -/
structure Process (ι : Type) where
  fake : State
  sPackageManager : Pm ι
  mPM : Pm ι
  proxies : Nat

/-- Before the first call both fields hold objects of the system. -/
def Process.start {ι : Type} (fake : State) (a b : ι) : Process ι :=
  ⟨fake, .system a, .system b, 0⟩

/-- The steps of `hookPMS` that may throw, in the order of the source. -/
inductive Step
  | onClassActivityThread
  | callCurrentActivityThread
  | onClassActivityThreadAgain
  | fieldSPackageManager
  | onClassIPackageManager
  | newProxyInstance
  | setSPackageManager
  | getPackageManager
  | setMPM
  deriving DecidableEq

/-- A call of `hookPMS`, and the step that throws in it, if one does. -/
structure HookCall where
  packageName : Option JString
  sign : Option JString
  fails : Option Step

variable {ι : Type}

/-- A step that has no effect when it throws. -/
def attempt (fails : Option Step) (step : Step) : ExceptT Step (StateM (Process ι)) Unit :=
  if fails = some step then throw step else pure ()

/-- The `try` block of `hookPMS`. -/
def hookBody (packageName sign : Option JString) (fails : Option Step) :
    ExceptT Step (StateM (Process ι)) Unit := do
  modify fun p => { p with fake := setSign p.fake sign }
  attempt fails .onClassActivityThread
  attempt fails .callCurrentActivityThread
  attempt fails .onClassActivityThreadAgain
  attempt fails .fieldSPackageManager
  let sPackageManager := (← get).sPackageManager
  attempt fails .onClassIPackageManager
  attempt fails .newProxyInstance
  let proxy := Pm.proxy (← get).proxies sPackageManager packageName
  modify fun p => { p with proxies := p.proxies + 1 }
  attempt fails .setSPackageManager
  modify fun p => { p with sPackageManager := proxy }
  attempt fails .getPackageManager
  attempt fails .setMPM
  modify fun p => { p with mPM := proxy }

/-- The step whose exception the catch block logs, if it runs, and the state afterwards. -/
def hookPMS (p : Process ι) (c : HookCall) : Option Step × Process ι :=
  match (hookBody c.packageName c.sign c.fails).run.run p with
  | (.ok (), p') => (none, p')
  | (.error step, p') => (some step, p')

def hookAll (p : Process ι) (calls : List HookCall) : Process ι :=
  calls.foldl (fun p c => (hookPMS p c).2) p

/-! ## All or nothing -/

def SameProxy (p : Process ι) : Prop :=
  ∃ id base appPkgName, p.sPackageManager = .proxy id base appPkgName ∧
    p.mPM = .proxy id base appPkgName

/-- What an installed proxy puts in the place of the signatures. -/
def reports (p : Process ι) (stackText : JString) (orig : Signatures) :
    Except NumberFormatException Signatures :=
  (getSignature p.fake stackText orig).1

/-- The call fails after `sPackageManager` and before `mPM` is written. -/
def HookCall.Between (c : HookCall) : Prop :=
  c.fails = some .getPackageManager ∨ c.fails = some .setMPM

/-- A call that ends in its catch block leaves the three pieces of state alone. -/
def Undone (p : Process ι) (c : HookCall) : Prop :=
  (hookPMS p c).1 ≠ none →
    (hookPMS p c).2.fake.sSingautre = p.fake.sSingautre ∧
      (hookPMS p c).2.sPackageManager = p.sPackageManager ∧ (hookPMS p c).2.mPM = p.mPM

/-- A call that ends in its catch block leaves alone what the proxies report. -/
def ReportKept (p : Process ι) (c : HookCall) : Prop :=
  (hookPMS p c).1 ≠ none →
    ∀ stackText orig, reports (hookPMS p c).2 stackText orig = reports p stackText orig

/-- Installing the hook is all or nothing, for a sequence of calls and one call more. -/
structure AllOrNothing (p : Process ι) (calls : List HookCall) (c : HookCall) : Prop where
  undone : Undone (hookAll p calls) c
  same : (∃ d ∈ calls, d.fails = none) → SameProxy (hookAll p calls)
  report : ReportKept (hookAll p calls) c

/-- The proxy that a call creates. -/
def newProxy (p : Process ι) (c : HookCall) : Pm ι :=
  .proxy p.proxies p.sPackageManager c.packageName

/-- What a sequence of calls promises, and one call more. -/
structure Installs (p : Process ι) (calls : List HookCall) (c : HookCall) : Prop where
  mPM : (hookPMS (hookAll p calls) c).1 ≠ none →
    (hookPMS (hookAll p calls) c).2.mPM = (hookAll p calls).mPM
  sPackageManager : (hookPMS (hookAll p calls) c).1 ≠ none →
    (¬ c.Between → (hookPMS (hookAll p calls) c).2.sPackageManager =
        (hookAll p calls).sPackageManager) ∧
      (c.Between → (hookPMS (hookAll p calls) c).2.sPackageManager =
        newProxy (hookAll p calls) c)
  sign : (hookPMS (hookAll p calls) c).2.fake.sSingautre =
    ((Op.setSign c.sign).accepted?).getD (hookAll p calls).fake.sSingautre
  same : (∃ d ∈ calls, d.fails = none) →
    (SameProxy (hookAll p calls) ↔ Latched (·.fails = none) HookCall.Between calls)
  report : ∀ stackText orig,
    reports (hookPMS (hookAll p calls) c).2 stackText orig =
        reports (hookAll p calls) stackText orig ↔
      shouldUseFakeSignature (hookAll p calls).fake stackText = false ∨
        (hookAll p calls).fake.sSignature ≠ none ∨
        sigBytes (((Op.setSign c.sign).accepted?).getD (hookAll p calls).fake.sSingautre) =
          sigBytes (hookAll p calls).fake.sSingautre

/-! ## One call -/

/-- The catch block logs the exception of the step that throws. -/
@[simp]
theorem hookPMS_fst (p : Process ι) (c : HookCall) : (hookPMS p c).1 = c.fails := by
  obtain ⟨packageName, sign, fails⟩ := c
  cases fails with
  | none => rfl
  | some step => cases step <;> rfl

@[simp]
theorem hookPMS_fake (p : Process ι) (c : HookCall) :
    (hookPMS p c).2.fake = setSign p.fake c.sign := by
  obtain ⟨packageName, sign, fails⟩ := c
  cases fails with
  | none => rfl
  | some step => cases step <;> rfl

/-- **What a call can do to the two fields**: write both, write only the first, or write
neither. -/
theorem hookPMS_cases (p : Process ι) (c : HookCall) :
    (c.fails = none ∧
      (hookPMS p c).2 = ⟨setSign p.fake c.sign, newProxy p c, newProxy p c, p.proxies + 1⟩) ∨
    (c.Between ∧
      (hookPMS p c).2 = ⟨setSign p.fake c.sign, newProxy p c, p.mPM, p.proxies + 1⟩) ∨
    (c.fails ≠ none ∧ ¬ c.Between ∧ ∃ n, p.proxies ≤ n ∧
      (hookPMS p c).2 = ⟨setSign p.fake c.sign, p.sPackageManager, p.mPM, n⟩) := by
  obtain ⟨packageName, sign, fails⟩ := c
  cases fails with
  | none => exact Or.inl ⟨rfl, rfl⟩
  | some step =>
    cases step with
    | getPackageManager => exact Or.inr (Or.inl ⟨Or.inl rfl, rfl⟩)
    | setMPM => exact Or.inr (Or.inl ⟨Or.inr rfl, rfl⟩)
    | setSPackageManager =>
      -- the proxy exists, and nothing refers to it
      exact Or.inr (Or.inr ⟨by simp, by simp [HookCall.Between], _, Nat.le_succ _, rfl⟩)
    | _ => exact Or.inr (Or.inr ⟨by simp, by simp [HookCall.Between], _, Nat.le_refl _, rfl⟩)

/-! ## Whole sequences -/

theorem hookAll_concat (p : Process ι) (calls : List HookCall) (c : HookCall) :
    hookAll p (calls ++ [c]) = (hookPMS (hookAll p calls) c).2 := by
  rw [hookAll, List.foldl_append]
  rfl

/-- The numbers of the proxies in a package manager, from the outermost inwards. -/
def Pm.ids : Pm ι → List Nat
  | .system _ => []
  | .proxy id base _ => id :: base.ids

/-- The proxies that the two fields reach are among those created so far. -/
structure Fresh (p : Process ι) : Prop where
  sPackageManager : ∀ id ∈ p.sPackageManager.ids, id < p.proxies
  mPM : ∀ id ∈ p.mPM.ids, id < p.proxies

theorem fresh_start (fake : State) (a b : ι) : Fresh (Process.start fake a b) :=
  ⟨by simp [Process.start, Pm.ids], by simp [Process.start, Pm.ids]⟩

theorem newProxy_ids_lt {p : Process ι} (hp : Fresh p) (c : HookCall) :
    ∀ id ∈ (newProxy p c).ids, id < p.proxies + 1 := by
  intro id hid
  rw [newProxy, Pm.ids] at hid
  rcases List.mem_cons.mp hid with rfl | hid
  · exact Nat.lt_succ_self _
  · exact Nat.lt_succ_of_lt (hp.sPackageManager id hid)

/-- **A new proxy is a new object.** -/
theorem hookPMS_fresh {p : Process ι} (hp : Fresh p) (c : HookCall) :
    Fresh (hookPMS p c).2 := by
  have hnew := newProxy_ids_lt hp c
  rcases hookPMS_cases p c with ⟨-, h⟩ | ⟨-, h⟩ | ⟨-, -, n, hn, h⟩ <;> rw [h]
  · exact ⟨hnew, hnew⟩
  · exact ⟨hnew, fun id hid => Nat.lt_succ_of_lt (hp.mPM id hid)⟩
  · exact ⟨fun id hid => Nat.lt_of_lt_of_le (hp.sPackageManager id hid) hn,
      fun id hid => Nat.lt_of_lt_of_le (hp.mPM id hid) hn⟩

section SameProxy

variable {p : Process ι} {c : HookCall}

theorem sameProxy_of_succeeds (hc : c.fails = none) : SameProxy (hookPMS p c).2 := by
  rcases hookPMS_cases p c with ⟨-, h⟩ | ⟨hb, -⟩ | ⟨hf, -⟩
  · rw [h]
    exact ⟨_, _, _, rfl, rfl⟩
  · rw [HookCall.Between, hc] at hb
    simp at hb
  · exact absurd hc hf

/-- The proxy in the first field is newer than all that the second one reaches. -/
theorem not_sameProxy_of_between (hp : Fresh p) (hc : c.Between) :
    ¬ SameProxy (hookPMS p c).2 := by
  rcases hookPMS_cases p c with ⟨hf, -⟩ | ⟨-, h⟩ | ⟨-, hb, -⟩
  · rw [HookCall.Between, hf] at hc
    simp at hc
  · rw [h]
    rintro ⟨id, base, appPkgName, hfirst, hsecond⟩
    have hid : p.proxies = id := (Pm.proxy.inj hfirst).1
    have hlt : id < p.proxies := hp.mPM id (by rw [hsecond, Pm.ids]; exact List.mem_cons_self)
    omega
  · exact absurd hc hb

theorem sameProxy_keep (hf : c.fails ≠ none) (hb : ¬ c.Between) :
    SameProxy (hookPMS p c).2 ↔ SameProxy p := by
  rcases hookPMS_cases p c with ⟨hf', -⟩ | ⟨hb', -⟩ | ⟨-, -, n, -, h⟩
  · exact absurd hf' hf
  · exact absurd hb' hb
  · unfold SameProxy
    rw [h]

end SameProxy

/-- **When the two fields hold the same proxy**: a call has succeeded, and none since
then has failed between the two writes. -/
theorem hookAll_sameProxy_iff (fake : State) (a b : ι) (calls : List HookCall) :
    SameProxy (hookAll (Process.start fake a b) calls) ↔
      Latched (·.fails = none) HookCall.Between calls :=
  foldl_latched Fresh SameProxy (fun _ c hp => hookPMS_fresh hp c)
    (fun _ _ _ hc => sameProxy_of_succeeds hc) (fun _ _ hp hc => not_sameProxy_of_between hp hc)
    (fun _ _ _ hf hb => sameProxy_keep hf hb) (fresh_start fake a b)
    (by rintro ⟨id, base, appPkgName, h, -⟩; cases h) calls

/-! ## What a call changes -/

section Changes

variable {p : Process ι} {c : HookCall}

theorem mPM_of_fails (hf : c.fails ≠ none) : (hookPMS p c).2.mPM = p.mPM := by
  rcases hookPMS_cases p c with ⟨hf', -⟩ | ⟨-, h⟩ | ⟨-, -, n, -, h⟩
  · exact absurd hf' hf
  · rw [h]
  · rw [h]

theorem sPackageManager_of_between (hb : c.Between) :
    (hookPMS p c).2.sPackageManager = newProxy p c := by
  rcases hookPMS_cases p c with ⟨-, h⟩ | ⟨-, h⟩ | ⟨-, hb', -⟩
  · rw [h]
  · rw [h]
  · exact absurd hb hb'

theorem sPackageManager_of_not_between (hf : c.fails ≠ none) (hb : ¬ c.Between) :
    (hookPMS p c).2.sPackageManager = p.sPackageManager := by
  rcases hookPMS_cases p c with ⟨hf', -⟩ | ⟨hb', -⟩ | ⟨-, -, n, -, h⟩
  · exact absurd hf' hf
  · exact absurd hb' hb
  · rw [h]

theorem sSingautre_after : (hookPMS p c).2.fake.sSingautre =
    ((Op.setSign c.sign).accepted?).getD p.fake.sSingautre := by
  rw [hookPMS_fake, setSign_eq]

theorem reports_after_iff (stackText : JString) (orig : Signatures) :
    reports (hookPMS p c).2 stackText orig = reports p stackText orig ↔
      shouldUseFakeSignature p.fake stackText = false ∨ p.fake.sSignature ≠ none ∨
        sigBytes (((Op.setSign c.sign).accepted?).getD p.fake.sSingautre) =
          sigBytes p.fake.sSingautre := by
  have hcache : (hookPMS p c).2.fake.sSignature = p.fake.sSignature := by
    rw [hookPMS_fake, setSign_sSignature]
  have hlines : (hookPMS p c).2.fake.sForceFakeStackLines = p.fake.sForceFakeStackLines := by
    rw [hookPMS_fake, setSign_eq]
  unfold reports
  rw [getSignature_fst_eq_iff hcache hlines, sSingautre_after]

end Changes

/-- **What a sequence of calls promises.** -/
theorem installs (fake : State) (a b : ι) (calls : List HookCall) (c : HookCall) :
    Installs (Process.start fake a b) calls c where
  mPM hf := by
    rw [hookPMS_fst] at hf
    exact mPM_of_fails hf
  sPackageManager hf := by
    rw [hookPMS_fst] at hf
    exact ⟨sPackageManager_of_not_between hf, sPackageManager_of_between⟩
  sign := sSingautre_after
  same _ := hookAll_sameProxy_iff fake a b calls
  report := reports_after_iff

def forced : Process Unit := Process.start ⟨none, signHook, [lit "*"]⟩ () ()

/-- A call that succeeds. -/
def firstCall : HookCall := ⟨some (lit "a"), some (lit "1"), none⟩

/-- A call that fails at the last step. -/
def secondCall : HookCall := ⟨some (lit "a"), some (lit "2"), some .setMPM⟩

/-- After the second call the sign string and the first field stay changed, the two fields
disagree, and the proxy of the first call reports the new string. -/
theorem not_allOrNothing : ¬ AllOrNothing forced [firstCall] secondCall ∧
    ¬ Undone (hookAll forced [firstCall]) secondCall ∧
      ¬ SameProxy (hookAll forced [firstCall, secondCall]) ∧
        ¬ ReportKept (hookAll forced [firstCall]) secondCall := by
  have hundone : ¬ Undone (hookAll forced [firstCall]) secondCall := by
    intro h
    obtain ⟨hsign, -⟩ := h (by simp [secondCall])
    exact absurd hsign (by decide)
  refine ⟨fun h => hundone h.undone, hundone, ?_, ?_⟩
  · rintro ⟨id, base, appPkgName, hfirst, hsecond⟩
    cases hfirst
    cases hsecond
  · intro h
    have hbefore : reports (hookAll forced [firstCall]) [] none = .ok (some [some ⟨[1]⟩]) := rfl
    have hafter : reports (hookPMS (hookAll forced [firstCall]) secondCall).2 [] none =
        .ok (some [some ⟨[2]⟩]) := rfl
    have hreport := h (by simp [secondCall]) [] none
    rw [hbefore, hafter] at hreport
    cases hreport

end JniDegger.ServiceManagerWraper
