import JniDegger.SignatureFake

/-!
# The package-manager proxy (`PmsHookBinderInvocationHandler.java`)

`invoke` stands between the callers of `IPackageManager` and a base object of any
behaviour.  Proved here:

* `mustReplace_eq_ok_iff`: on which arguments the code before the base call does
  not throw;
* `transparent_iff`: on exactly which calls the caller sees the base object's own
  outcome, with the signatures replaced where the hook asks for it;
* `not_transparent`: flags that arrive as a `Long` are not among them.
-/

namespace JniDegger.PmsProxy

open JavaText SignatureFake

/-- `android.content.pm.PackageInfo`: its signatures, and all other fields. -/
structure PackageInfo (ρ : Type) where
  signatures : Signatures
  rest : ρ

/-- An object reference, as far as `invoke` can tell objects apart. -/
inductive Obj (ρ ω : Type)
  | null
  | string (s : JString)
  | integer (v : BitVec 32)
  | long (v : BitVec 64)
  | packageInfo (info : PackageInfo ρ)
  | other (o : ω)

/-- A runtime exception of the handler's own code. -/
inductive Fault
  | nullPointer
  | classCast
  | arrayIndexOutOfBounds
  | numberFormat

/-- What is thrown to the caller of `invoke`, or of a proxy.  `base e` is the base object's
own exception, unchanged. -/
inductive Thrown (ε : Type)
  | base (e : ε)
  | invocationTarget (cause : Thrown ε)
  | undeclaredThrowable (cause : Thrown ε)
  | own (fault : Fault)

structure JMethod where
  name : JString
  descriptor : JString

/-- The `Object[] args` of a call; null for a method without parameters. -/
abbrev Args (ρ ω : Type) := Option (List (Obj ρ ω))

/-- The state of the base object and the static state of `SignatureFake`. -/
structure World (σ : Type) where
  base : σ
  fake : State

/-- An object that answers method calls. -/
abbrev Target (ε σ ρ ω : Type) :=
  World σ → JMethod → Args ρ ω → Except (Thrown ε) (Obj ρ ω) × World σ

/-- A base object: any function of its state, the method and the arguments. -/
abbrev Base (ε σ ρ ω : Type) := σ → JMethod → Args ρ ω → Except ε (Obj ρ ω) × σ

variable {ε σ ρ ω : Type}

def Base.target (base : Base ε σ ρ ω) : Target ε σ ρ ω := fun w method args =>
  ((base w.base method args).1.mapError .base, { w with base := (base w.base method args).2 })

/-- `method.invoke(base, args)`: an exception of the base comes back wrapped. -/
def methodInvoke (target : Target ε σ ρ ω) : Target ε σ ρ ω := fun w method args =>
  ((target w method args).1.mapError .invocationTarget, (target w method args).2)

/-! ## The handler -/

/-- `args[i]`. -/
def element (args : Args ρ ω) (i : Nat) : Except Fault (Obj ρ ω) :=
  match args with
  | none => .error .nullPointer
  | some objs =>
    match objs[i]? with
    | some o => .ok o
    | none => .error .arrayIndexOutOfBounds

/-- The cast `(String) o`. -/
def Obj.asString : Obj ρ ω → Except Fault (Option JString)
  | null => .ok none
  | string s => .ok (some s)
  | _ => .error .classCast

/-- The cast `(Integer) o`. -/
def Obj.asInteger : Obj ρ ω → Except Fault (Option (BitVec 32))
  | null => .ok none
  | integer v => .ok (some v)
  | _ => .error .classCast

/-- The use of a reference that must not be null. -/
def notNull {α : Type} : Option α → Except Fault α
  | some a => .ok a
  | none => .error .nullPointer

/-- `PackageManager.GET_SIGNATURES`. -/
def GET_SIGNATURES : BitVec 32 := 0x40

/-- The first half of the branch for `getPackageInfo`: the arguments are cast, and
the flags and the package name are compared. -/
def mustReplace (C : CaseMaps) (appPkgName : Option JString) (args : Args ρ ω) :
    Except Fault Bool := do
  let pkgName ← (← element args 0).asString
  let flag ← (← element args 1).asInteger
  let flag ← notNull flag
  if flag &&& GET_SIGNATURES = GET_SIGNATURES then
    let app ← notNull appPkgName
    let pkg ← notNull pkgName
    return C.compareToIgnoreCase app pkg = 0
  else return false

/-- `info.signatures = SignatureFake.getSignature(info.signatures); return info;` for
the object the base returned. -/
def replaceSignatures (stackText : JString) (w : World σ) :
    Obj ρ ω → Except (Thrown ε) (Obj ρ ω) × World σ
  | .packageInfo info =>
    let r := getSignature w.fake stackText info.signatures
    match r.1 with
    | .ok signatures => (.ok (.packageInfo { info with signatures }), { w with fake := r.2 })
    | .error _ => (.error (.own .numberFormat), { w with fake := r.2 })
  | .null => (.error (.own .nullPointer), w)
  | _ => (.error (.own .classCast), w)

def invoke (C : CaseMaps) (appPkgName : Option JString) (stackText : JString)
    (base : Target ε σ ρ ω) : Target ε σ ρ ω := fun w method args =>
  if lit "getPackageInfo" = method.name then
    match mustReplace C appPkgName args with
    | .error fault => (.error (.own fault), w)
    | .ok false => methodInvoke base w method args
    | .ok true =>
      match methodInvoke base w method args with
      | (.error e, w') => (.error e, w')
      | (.ok info, w') => replaceSignatures stackText w' info
  else methodInvoke base w method args

/-! ## What a transparent call is -/

/-- An argument, if there is one at this position. -/
def arg? (args : Args ρ ω) (i : Nat) : Option (Obj ρ ω) := args.bind fun objs => objs[i]?

/-- The flags argument, of either integer type, contains `GET_SIGNATURES`. -/
def wantsSignatures (args : Args ρ ω) : Bool :=
  match arg? args 1 with
  | some (.integer v) => v &&& GET_SIGNATURES = GET_SIGNATURES
  | some (.long v) => v &&& 0x40 = 0x40
  | _ => false

/-- The package argument equals the hooked name ignoring case. -/
def namesPackage (C : CaseMaps) (appPkgName : Option JString) (args : Args ρ ω) : Bool :=
  match appPkgName, arg? args 0 with
  | some app, some (.string pkg) => C.equalsIgnoreCase app pkg
  | _, _ => false

/-- The calls whose `PackageInfo` gets faked signatures. -/
def Hooked (C : CaseMaps) (appPkgName : Option JString) (method : JMethod) (args : Args ρ ω) :
    Prop :=
  lit "getPackageInfo" = method.name ∧ wantsSignatures args = true ∧
    namesPackage C appPkgName args = true

/-- The caller of the proxy sees what the base does: its value or its exception, and
in the hooked calls its `PackageInfo` with the signatures replaced; the base is called
once. -/
def Transparent (C : CaseMaps) (appPkgName : Option JString) (stackText : JString)
    (base : Base ε σ ρ ω) (w : World σ) (method : JMethod) (args : Args ρ ω) : Prop :=
  let out := invoke C appPkgName stackText base.target w method args
  out.2.base = (base w.base method args).2 ∧
    match (base w.base method args).1 with
    | .error e => out.1 = .error (.base e)
    | .ok o =>
      (¬ Hooked C appPkgName method args → out.1 = .ok o) ∧
      (Hooked C appPkgName method args → match o with
        | .packageInfo info => ∃ signatures,
          (getSignature w.fake stackText info.signatures).1 = .ok signatures ∧
            out.1 = .ok (.packageInfo { info with signatures })
        | o => out.1 = .ok o)

/-- The next `getSignature` does not fail: the string decodes if it has to be. -/
def Decodable (s : State) (stackText : JString) : Prop :=
  shouldUseFakeSignature s stackText = true → s.sSignature = none → ∃ b, getSigBytes s = .ok b

/-- The arguments the handler is written for: a `String` and an `Integer`, and with
`GET_SIGNATURES` no null name on either side. -/
structure WellTyped (appPkgName : Option JString) (args : Args ρ ω) (pkgName : Option JString)
    (flag : BitVec 32) : Prop where
  shape : ∃ others, args = some (pkgName.elim .null .string :: .integer flag :: others)
  named : flag &&& GET_SIGNATURES = GET_SIGNATURES → appPkgName ≠ none ∧ pkgName ≠ none

/-- The calls the handler gets right: the base does not throw; a `getPackageInfo` call
is well typed; and a hooked one is answered with a `PackageInfo` while the sign string
decodes. -/
def Supported (C : CaseMaps) (appPkgName : Option JString) (stackText : JString)
    (base : Base ε σ ρ ω) (w : World σ) (method : JMethod) (args : Args ρ ω) : Prop :=
  ∃ o, (base w.base method args).1 = .ok o ∧
    (lit "getPackageInfo" = method.name →
      (∃ pkgName flag, WellTyped appPkgName args pkgName flag) ∧
        (Hooked C appPkgName method args →
          (∃ info, o = .packageInfo info) ∧ Decodable w.fake stackText))

/-! ## The code before the base call -/

section MustReplace

variable {C : CaseMaps} {appPkgName : Option JString} {args : Args ρ ω}

theorem notNull_eq_ok_iff {α : Type} {x : Option α} {a : α} :
    (notNull x : Except Fault α) = .ok a ↔ x = some a := by
  cases x <;> simp [notNull]

theorem asString_eq_ok_iff {o : Obj ρ ω} {x : Option JString} :
    (o.asString : Except Fault _) = .ok x ↔ o = x.elim .null .string := by
  cases o <;> cases x <;> simp [Obj.asString]

theorem asInteger_eq_ok_iff {o : Obj ρ ω} {v : BitVec 32} :
    (o.asInteger : Except Fault _) = .ok (some v) ↔ o = .integer v := by
  cases o <;> simp [Obj.asInteger]

theorem element_eq_ok_iff {i : Nat} {o : Obj ρ ω} :
    (element args i : Except Fault _) = .ok o ↔ arg? args i = some o := by
  cases args with
  | none => simp [element, arg?]
  | some objs =>
    simp only [element, arg?, Option.bind_some]
    cases objs[i]? <;> simp

/-- Arguments with an element at 0 and at 1 start with the two. -/
theorem args_of_two {o o' : Obj ρ ω} (h0 : arg? args 0 = some o) (h1 : arg? args 1 = some o') :
    ∃ others, args = some (o :: o' :: others) := by
  cases args with
  | none => cases h0
  | some objs =>
    match objs, h0, h1 with
    | o :: o' :: others, h0, h1 =>
      simp only [arg?, Option.bind_some, List.getElem?_cons_zero, List.getElem?_cons_succ,
        Option.some.injEq] at h0 h1
      exact ⟨others, by rw [h0, h1]⟩

theorem bind_eq_ok_iff {α β : Type} {x : Except Fault α} {f : α → Except Fault β}
    {b : β} : (x >>= f) = .ok b ↔ ∃ a, x = .ok a ∧ f a = .ok b := by
  cases x <;> simp [bind, Except.bind]

/-- **Where the first half does not throw**, and what it finds there. -/
theorem mustReplace_eq_ok_iff {b : Bool} :
    (mustReplace C appPkgName args : Except Fault Bool) = .ok b ↔
      (∃ pkgName flag, WellTyped appPkgName args pkgName flag) ∧
        b = (wantsSignatures args && namesPackage C appPkgName args) := by
  constructor
  · intro h
    simp only [mustReplace, bind_eq_ok_iff] at h
    obtain ⟨o, ho, pkgName, hpkg, o', ho', flag?, hflag, flag, hflag', h⟩ := h
    rw [element_eq_ok_iff] at ho ho'
    rw [asString_eq_ok_iff] at hpkg
    rw [notNull_eq_ok_iff] at hflag'
    subst hflag'
    rw [asInteger_eq_ok_iff] at hflag
    subst hpkg hflag
    have hshape := args_of_two ho ho'
    split at h
    · next hget =>
      simp only [bind_eq_ok_iff, notNull_eq_ok_iff] at h
      obtain ⟨app, happ, pkg, hpk, h⟩ := h
      subst happ hpk
      refine ⟨⟨some pkg, flag, hshape, fun _ => ⟨by simp, by simp⟩⟩, ?_⟩
      have hb : decide (C.compareToIgnoreCase app pkg = 0) = b := Except.ok.inj h
      rw [← hb]
      simp [wantsSignatures, namesPackage, ho, ho', hget, C.compareToIgnoreCase_eq_zero_iff]
    · next hget =>
      refine ⟨⟨pkgName, flag, hshape, fun hg => absurd hg hget⟩, ?_⟩
      have hb : false = b := Except.ok.inj h
      rw [← hb]
      simp [wantsSignatures, ho', hget]
  · rintro ⟨⟨pkgName, flag, ⟨others, rfl⟩, hnamed⟩, rfl⟩
    have h0 : (element (some (pkgName.elim .null .string :: .integer flag :: others)) 0 :
        Except Fault (Obj ρ ω)) = .ok (pkgName.elim .null .string) := rfl
    have hcast : ((pkgName.elim .null .string : Obj ρ ω).asString : Except Fault _) =
        .ok pkgName := asString_eq_ok_iff.mpr rfl
    refine bind_eq_ok_iff.mpr ⟨_, h0, bind_eq_ok_iff.mpr ⟨_, hcast,
      bind_eq_ok_iff.mpr ⟨.integer flag, rfl, bind_eq_ok_iff.mpr ⟨some flag, rfl,
        bind_eq_ok_iff.mpr ⟨flag, rfl, ?_⟩⟩⟩⟩⟩
    split
    · next hget =>
      obtain ⟨happ, hpk⟩ := hnamed hget
      obtain ⟨app, rfl⟩ := Option.ne_none_iff_exists'.mp happ
      obtain ⟨pkg, rfl⟩ := Option.ne_none_iff_exists'.mp hpk
      refine bind_eq_ok_iff.mpr ⟨app, rfl, bind_eq_ok_iff.mpr ⟨pkg, rfl, ?_⟩⟩
      simp [wantsSignatures, namesPackage, arg?, hget, C.compareToIgnoreCase_eq_zero_iff]
      rfl
    · next hget =>
      simp [wantsSignatures, arg?, hget]
      rfl

end MustReplace

theorem getSignature_isOk_iff {s : State} {stackText : JString} {orig : Signatures} :
    (∃ signatures, (getSignature s stackText orig).1 = .ok signatures) ↔ Decodable s stackText := by
  cases hf : shouldUseFakeSignature s stackText with
  | false => simp [getSignature_of_not_fake orig hf, Decodable, hf]
  | true =>
    cases ha : s.sSignature with
    | some a => simp [getSignature_of_cached orig hf ha, Decodable, ha]
    | none =>
      rw [getSignature_of_empty orig hf ha, Decodable, getSigBytes]
      cases hb : sigBytes s.sSingautre <;> simp [hf, ha, Except.map]

/-! ## The whole call -/

section Invoke

variable {C : CaseMaps} {appPkgName : Option JString} {stackText : JString} {base : Base ε σ ρ ω}
  {w : World σ} {method : JMethod} {args : Args ρ ω}

theorem hooked_iff (hm : lit "getPackageInfo" = method.name) :
    Hooked C appPkgName method args ↔
      (wantsSignatures args && namesPackage C appPkgName args) = true := by
  rw [Hooked, Bool.and_eq_true]
  exact ⟨fun h => h.2, fun h => ⟨hm, h⟩⟩

theorem invoke_of_other (target : Target ε σ ρ ω) (hm : lit "getPackageInfo" ≠ method.name) :
    invoke C appPkgName stackText target w method args = methodInvoke target w method args := by
  rw [invoke, if_neg hm]

theorem invoke_of_fault (target : Target ε σ ρ ω) (hm : lit "getPackageInfo" = method.name)
    {fault : Fault} (hr : mustReplace C appPkgName args = .error fault) :
    invoke C appPkgName stackText target w method args = (.error (.own fault), w) := by
  rw [invoke, if_pos hm, hr]

theorem invoke_of_not_hooked (target : Target ε σ ρ ω) (hm : lit "getPackageInfo" = method.name)
    (hr : mustReplace C appPkgName args = .ok false) :
    invoke C appPkgName stackText target w method args = methodInvoke target w method args := by
  rw [invoke, if_pos hm, hr]

theorem invoke_of_hooked {target : Target ε σ ρ ω} (hm : lit "getPackageInfo" = method.name)
    (hr : mustReplace C appPkgName args = .ok true) {o : Obj ρ ω} {w' : World σ}
    (ho : target w method args = (.ok o, w')) :
    invoke C appPkgName stackText target w method args = replaceSignatures stackText w' o := by
  rw [invoke, if_pos hm, hr, methodInvoke, ho]
  rfl

/-- `Method.invoke` wraps what the base throws, and so does the handler. -/
theorem invoke_of_throws {e : ε} (hbase : (base w.base method args).1 = .error e) :
    (invoke C appPkgName stackText base.target w method args).1 ≠ .error (.base e) := by
  have hwrap : (methodInvoke base.target w method args).1 =
      .error (.invocationTarget (.base e)) := by
    simp [methodInvoke, Base.target, hbase, Except.mapError]
  by_cases hm : lit "getPackageInfo" = method.name
  · cases hr : mustReplace C appPkgName args with
    | error fault => simp [invoke_of_fault _ hm hr]
    | ok b =>
      cases b with
      | false => simp [invoke_of_not_hooked _ hm hr, hwrap]
      | true =>
        rw [invoke, if_pos hm, hr]
        simp only
        split
        · next e' w' he' =>
          rw [he'] at hwrap
          have hcause : e' = .invocationTarget (.base e) := Except.error.inj hwrap
          simp [hcause]
        · next o w' he' =>
          rw [he'] at hwrap
          cases hwrap
  · simp [invoke_of_other _ hm, hwrap]

/-! The four ways a call can go: the base throws, the handler throws before the base is
called, the base's value is passed on, or its signatures are replaced. -/

theorem not_transparent_of_throws {e : ε} (hbase : (base w.base method args).1 = .error e) :
    ¬ Transparent C appPkgName stackText base w method args := by
  rintro ⟨-, hout⟩
  rw [hbase] at hout
  exact invoke_of_throws hbase hout

variable {o : Obj ρ ω} (hbase : (base w.base method args).1 = .ok o)

include hbase

theorem target_of_ok :
    base.target w method args = (.ok o, { w with base := (base w.base method args).2 }) := by
  rw [Base.target, hbase]
  rfl

theorem methodInvoke_of_ok : methodInvoke base.target w method args =
    (.ok o, { w with base := (base w.base method args).2 }) := by
  rw [methodInvoke, target_of_ok hbase]
  rfl

theorem not_transparent_of_fault (hm : lit "getPackageInfo" = method.name) {fault : Fault}
    (hr : mustReplace C appPkgName args = .error fault) :
    ¬ Transparent C appPkgName stackText base w method args := by
  rintro ⟨-, hclaim⟩
  rw [hbase, invoke_of_fault _ hm hr] at hclaim
  by_cases hh : Hooked C appPkgName method args
  · have hfake := hclaim.2 hh
    cases o <;> simp at hfake
  · exact absurd (hclaim.1 hh) (by simp)

theorem transparent_of_passed (hnot : ¬ Hooked C appPkgName method args)
    (hout : invoke C appPkgName stackText base.target w method args =
      methodInvoke base.target w method args) :
    Transparent C appPkgName stackText base w method args := by
  rw [methodInvoke_of_ok hbase] at hout
  rw [Transparent, hbase, hout]
  exact ⟨rfl, fun _ => rfl, fun hh => absurd hh hnot⟩

/-- A hooked call is answered as it should be exactly when there is a `PackageInfo` to
answer with and a signature to put in it. -/
theorem transparent_hooked_iff (hh : Hooked C appPkgName method args)
    (hr : mustReplace C appPkgName args = .ok true) :
    Transparent C appPkgName stackText base w method args ↔
      (∃ info, o = .packageInfo info) ∧ Decodable w.fake stackText := by
  have hout : invoke C appPkgName stackText base.target w method args =
      replaceSignatures stackText { w with base := (base w.base method args).2 } o :=
    invoke_of_hooked hh.1 hr (target_of_ok hbase)
  rw [Transparent, hbase, hout]
  cases o with
  | packageInfo info =>
    have hok : (∃ signatures, (getSignature w.fake stackText info.signatures).1 =
        .ok signatures) ↔ Decodable w.fake stackText := getSignature_isOk_iff
    constructor
    · rintro ⟨-, -, hclaim⟩
      obtain ⟨signatures, hs, -⟩ := hclaim hh
      exact ⟨⟨info, rfl⟩, hok.mp ⟨signatures, hs⟩⟩
    · rintro ⟨-, hdec⟩
      obtain ⟨signatures, hs⟩ := hok.mpr hdec
      refine ⟨?_, fun hnot => absurd hh hnot, fun _ => ⟨signatures, hs, ?_⟩⟩
      · simp [replaceSignatures, hs]
      · simp [replaceSignatures, hs]
  | _ =>
    constructor
    · rintro ⟨-, -, hclaim⟩
      have hfake := hclaim hh
      simp [replaceSignatures] at hfake
    · rintro ⟨⟨info, hinfo⟩, -⟩
      cases hinfo

omit hbase

/-- **When the proxy is transparent.**  The caller sees what the base object does, with
the signatures of the hooked package replaced, exactly on the supported calls. -/
theorem transparent_iff (C : CaseMaps) (appPkgName : Option JString) (stackText : JString)
    (base : Base ε σ ρ ω) (w : World σ) (method : JMethod) (args : Args ρ ω) :
    Transparent C appPkgName stackText base w method args ↔
      Supported C appPkgName stackText base w method args := by
  cases hbase : (base w.base method args).1 with
  | error e =>
    refine iff_of_false (not_transparent_of_throws hbase) ?_
    rintro ⟨o, ho, -⟩
    rw [hbase] at ho
    cases ho
  | ok o =>
    by_cases hm : lit "getPackageInfo" = method.name
    · cases hr : mustReplace C appPkgName args with
      | error fault =>
        refine iff_of_false (not_transparent_of_fault hbase hm hr) ?_
        rintro ⟨o', -, hwell⟩
        rw [mustReplace_eq_ok_iff.mpr ⟨(hwell hm).1, rfl⟩] at hr
        cases hr
      | ok b =>
        obtain ⟨htyped, hb⟩ := mustReplace_eq_ok_iff.mp hr
        cases b with
        | false =>
          have hnot : ¬ Hooked C appPkgName method args := by
            rw [hooked_iff hm, ← hb]
            simp
          exact iff_of_true (transparent_of_passed hbase hnot (invoke_of_not_hooked _ hm hr))
            ⟨o, hbase, fun _ => ⟨htyped, fun hh => absurd hh hnot⟩⟩
        | true =>
          have hh : Hooked C appPkgName method args := (hooked_iff hm).mpr hb.symm
          rw [transparent_hooked_iff hbase hh hr]
          constructor
          · exact fun hinfo => ⟨o, hbase, fun _ => ⟨htyped, fun _ => hinfo⟩⟩
          · rintro ⟨o', ho', hwell⟩
            rw [hbase] at ho'
            cases ho'
            exact (hwell hm).2 hh
    · have hnot : ¬ Hooked C appPkgName method args := fun hh => hm hh.1
      exact iff_of_true (transparent_of_passed hbase hnot (invoke_of_other _ hm))
        ⟨o, hbase, fun h => absurd h hm⟩

end Invoke

/-- A `getPackageInfo` call with `long` flags, as from API level 33 on: the base
answers it, and the cast of the flags throws. -/
theorem not_transparent : ¬ ∀ (C : CaseMaps) (appPkgName stackText : JString)
    (base : Base Unit Unit Unit Unit) (w : World Unit) (method : JMethod) (args : Args Unit Unit),
    Transparent C (some appPkgName) stackText base w method args := by
  intro h
  obtain ⟨-, hout⟩ := h .ascii (lit "a") [] (fun _ _ _ => (.ok (.packageInfo ⟨none, ()⟩), ()))
    ⟨(), .start⟩ ⟨lit "getPackageInfo", []⟩ (some [.string (lit "b"), .long 0x40])
  have hnot : ¬ Hooked .ascii (some (lit "a")) ⟨lit "getPackageInfo", []⟩
      (some [.string (lit "b"), .long 0x40] : Args Unit Unit) := by
    rintro ⟨-, -, hname⟩
    revert hname
    decide
  cases hout.1 hnot

end JniDegger.PmsProxy
