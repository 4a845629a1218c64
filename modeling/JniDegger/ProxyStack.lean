import JniDegger.HookInstall
import JniDegger.PmsProxy

/-!
# Proxies around proxies

Every `hookPMS` wraps what `sPackageManager` holds, so hooking several packages builds a
stack of proxies that share the static state of `SignatureFake`.  Proved here, for stacks
of any depth:

* `getSignature_of_fake`: what a layer puts in the place of the signatures, whichever
  layer asks first;
* `target_getPackageInfo`: a supported call through a stack, by induction on the stack;
* `hookAll_succeeds`: the stack that successful calls leave behind;
* `composes`: the outcome depends only on which names were hooked.
-/

namespace JniDegger.ServiceManagerWraper

open JavaText SignatureFake PmsProxy

/-! ## Calls through a stack -/

section Target

variable {ι ε σ ρ ω : Type}

/-- A proxy class wraps the checked exceptions of its handler; no method of
`IPackageManager` declares `InvocationTargetException`. -/
def deliver : Thrown ε → Thrown ε
  | .invocationTarget cause => .undeclaredThrowable (.invocationTarget cause)
  | t => t

/-- A call of a proxy, passed to the `invoke` of its handler and back. -/
def proxyCall (C : CaseMaps) (appPkgName : Option JString) (stackText : JString)
    (base : Target ε σ ρ ω) : Target ε σ ρ ω := fun w method args =>
  ((invoke C appPkgName stackText base w method args).1.mapError deliver,
    (invoke C appPkgName stackText base w method args).2)

/-- A call of a package manager.  `stackText id` is the call stack that `traceStack` sees in
the handler of proxy `id`. -/
def Pm.target (C : CaseMaps) (base : ι → Base ε σ ρ ω) (stackText : Nat → JString) :
    Pm ι → Target ε σ ρ ω
  | .system o => (base o).target
  | .proxy id inner appPkgName =>
    proxyCall C appPkgName (stackText id) (inner.target C base stackText)

/-- The objects of the system with a log of the calls they get. -/
def recorded (base : ι → Base ε σ ρ ω) :
    ι → Base ε (σ × List (ι × JMethod × Args ρ ω)) ρ ω := fun o s method args =>
  ((base o s.1 method args).1, (base o s.1 method args).2, s.2 ++ [(o, method, args)])

end Target

/-- The package names of a stack, from the outermost proxy inwards. -/
def Pm.names {ι : Type} : Pm ι → List (Option JString)
  | .system _ => []
  | .proxy _ base appPkgName => appPkgName :: base.names

/-- The object of the system at the bottom of a stack. -/
def Pm.origin {ι : Type} : Pm ι → ι
  | .system o => o
  | .proxy _ base _ => base.origin

/-- The arguments of `getPackageInfo`. -/
def packageInfoArgs {ρ ω : Type} (pkgName : JString) (flags : BitVec 32)
    (others : List (Obj ρ ω)) : Args ρ ω :=
  some (.string pkgName :: .integer flags :: others)

/-! ## The faked array -/

def faked (s : State) : List (Option Signature) := s.sSignature.getD (cached s.sSingautre)

/-- The state once the array is cached, if `hit`. -/
def filled (hit : Bool) (s : State) : State :=
  if hit then { s with sSignature := some (faked s) } else s

def rewritten {ρ : Type} (hit : Bool) (s : State) (info : PackageInfo ρ) : PackageInfo ρ :=
  if hit then { info with signatures := some (faked s) } else info

section Faked

variable {s : State}

@[simp]
theorem faked_filled (hit : Bool) : faked (filled hit s) = faked s := by
  cases hit <;> rfl

theorem filled_filled (hit hit' : Bool) :
    filled hit (filled hit' s) = filled (hit || hit') s := by
  cases hit <;> cases hit' <;> rfl

@[simp]
theorem shouldUse_filled (hit : Bool) (stackText : JString) :
    shouldUseFakeSignature (filled hit s) stackText = shouldUseFakeSignature s stackText := by
  cases hit <;> rfl

@[simp]
theorem getSigBytes_filled (hit : Bool) : getSigBytes (filled hit s) = getSigBytes s := by
  cases hit <;> rfl

theorem rewritten_filled {ρ : Type} (hit hit' : Bool) (info : PackageInfo ρ) :
    rewritten hit (filled hit' s) info = rewritten hit s info := by
  rw [rewritten, rewritten, faked_filled]

theorem rewritten_rewritten {ρ : Type} (hit hit' : Bool) (info : PackageInfo ρ) :
    rewritten hit s (rewritten hit' s info) = rewritten (hit || hit') s info := by
  cases hit <;> cases hit' <;> rfl

/-- **What every faking layer answers**, whether the array is cached or not. -/
theorem getSignature_of_fake {stackText : JString} (orig : Signatures)
    (hf : shouldUseFakeSignature s stackText = true) (hdec : ∃ b, getSigBytes s = .ok b) :
    getSignature s stackText orig = (.ok (some (faked s)), filled true s) := by
  obtain ⟨b, hb⟩ := hdec
  cases ha : s.sSignature with
  | some a =>
    have hfaked : faked s = a := by rw [faked, ha]; rfl
    have hfilled : filled true s = s := by
      rw [filled, if_pos rfl, hfaked, ← ha]
    rw [getSignature_of_cached orig hf ha, hfaked, hfilled]
  | none =>
    have hsig : sigBytes s.sSingautre = .ok b := hb
    have hfaked : faked s = [some ⟨b⟩] := by rw [faked, ha, Option.getD_none, cached, hsig]
    rw [getSignature_of_empty orig hf ha, cached, hsig, filled, if_pos rfl, hfaked]
    rfl

end Faked

/-! ## One layer, and all of them -/

/-- The flags ask for the signatures of the package that a layer was installed for. -/
def layerHit (C : CaseMaps) (flags : BitVec 32) (pkgName : JString)
    (appPkgName : Option JString) : Bool :=
  flags &&& GET_SIGNATURES = GET_SIGNATURES && appPkgName.any (C.equalsIgnoreCase · pkgName)

section Layers

variable {ι ε σ ρ ω : Type} (C : CaseMaps) {method : JMethod} {pkgName : JString}
  {flags : BitVec 32} {others : List (Obj ρ ω)}

theorem mustReplace_packageInfoArgs (app : JString) :
    mustReplace C (some app) (packageInfoArgs pkgName flags others) =
      .ok (layerHit C flags pkgName (some app)) := by
  have hnamed : flags &&& GET_SIGNATURES = GET_SIGNATURES →
      some app ≠ none ∧ some pkgName ≠ none := fun _ => ⟨by simp, by simp⟩
  exact mustReplace_eq_ok_iff.mpr ⟨⟨some pkgName, flags, ⟨others, rfl⟩, hnamed⟩, rfl⟩

/-- **One layer** around a target that answers a `PackageInfo`. -/
theorem proxyCall_packageInfo (hm : lit "getPackageInfo" = method.name) (app : JString)
    (stackText : JString) {target : Target ε σ ρ ω} {w w' : World σ} {info : PackageInfo ρ}
    (ht : target w method (packageInfoArgs pkgName flags others) = (.ok (.packageInfo info), w'))
    (hf : shouldUseFakeSignature w'.fake stackText = true)
    (hdec : ∃ b, getSigBytes w'.fake = .ok b) :
    proxyCall C (some app) stackText target w method (packageInfoArgs pkgName flags others) =
      (.ok (.packageInfo (rewritten (layerHit C flags pkgName (some app)) w'.fake info)),
        { w' with fake := filled (layerHit C flags pkgName (some app)) w'.fake }) := by
  have hr : mustReplace C (some app) (packageInfoArgs pkgName flags others) =
      .ok (layerHit C flags pkgName (some app)) := mustReplace_packageInfoArgs C app
  rw [proxyCall]
  cases hhit : layerHit C flags pkgName (some app) with
  | false =>
    rw [hhit] at hr
    rw [invoke_of_not_hooked _ hm hr, methodInvoke, ht]
    rfl
  | true =>
    rw [hhit] at hr
    rw [invoke_of_hooked hm hr ht, replaceSignatures, getSignature_of_fake _ hf hdec]
    rfl

variable (base : ι → Base ε σ ρ ω) {stackText : Nat → JString} {w : World σ}
  {info : PackageInfo ρ}

/-- **A call through a stack**, by induction from the object at the bottom. -/
theorem target_getPackageInfo (hm : lit "getPackageInfo" = method.name)
    (hdec : ∃ b, getSigBytes w.fake = .ok b) {pm : Pm ι}
    (hnames : ∀ n ∈ pm.names, n ≠ none)
    (hf : ∀ id ∈ pm.ids, shouldUseFakeSignature w.fake (stackText id) = true)
    (hinfo : (base pm.origin w.base method (packageInfoArgs pkgName flags others)).1 =
      .ok (.packageInfo info)) :
    pm.target C base stackText w method (packageInfoArgs pkgName flags others) =
      (.ok (.packageInfo (rewritten (pm.names.any (layerHit C flags pkgName)) w.fake info)),
        ⟨(base pm.origin w.base method (packageInfoArgs pkgName flags others)).2,
          filled (pm.names.any (layerHit C flags pkgName)) w.fake⟩) := by
  induction pm with
  | system o => exact target_of_ok hinfo
  | proxy id inner appPkgName ih =>
    rw [Pm.names, List.forall_mem_cons] at hnames
    rw [Pm.ids, List.forall_mem_cons] at hf
    obtain ⟨app, rfl⟩ := Option.ne_none_iff_exists'.mp hnames.1
    have hinner := ih hnames.2 hf.2 hinfo
    have hlayer := proxyCall_packageInfo C hm app (stackText id) hinner
      (by rw [shouldUse_filled]; exact hf.1) (by rw [getSigBytes_filled]; exact hdec)
    -- what the inner layers did is done again, or not at all
    rw [Pm.target, hlayer, Pm.names, List.any_cons, rewritten_filled, rewritten_rewritten,
      filled_filled]
    rfl

end Layers

/-! ## Repeated hooking -/

/-- A call of `hookPMS` that succeeds, for a package name and a sign string. -/
def succeeding (hook : JString × Option JString) : HookCall := ⟨some hook.1, hook.2, none⟩

section Hooks

variable {ι : Type}

theorem hookPMS_succeeding (p : Process ι) (hook : JString × Option JString) :
    (hookPMS p (succeeding hook)).2 =
      ⟨setSign p.fake hook.2, newProxy p (succeeding hook), newProxy p (succeeding hook),
        p.proxies + 1⟩ := rfl

/-- **The stack after successful calls**: one layer for each name around the original. -/
theorem hookAll_succeeds (p : Process ι) (hooks : List (JString × Option JString)) :
    (hookAll p (hooks.map succeeding)).sPackageManager.names =
        (hooks.map fun hook => some hook.1).reverse ++ p.sPackageManager.names ∧
      (hookAll p (hooks.map succeeding)).sPackageManager.origin = p.sPackageManager.origin := by
  induction hooks using List.reverseRecOn with
  | nil => exact ⟨rfl, rfl⟩
  | append_singleton hs h ih =>
    rw [List.map_append, List.map_singleton, hookAll_concat, hookPMS_succeeding]
    obtain ⟨hnames, horigin⟩ := ih
    refine ⟨?_, horigin⟩
    simp only [newProxy, Pm.names, hnames, List.map_append, List.map_cons, List.map_nil,
      List.reverse_append, List.reverse_cons, List.reverse_nil, List.nil_append,
      List.cons_append]
    rfl

theorem hookAll_fields {p : Process ι} {hooks : List (JString × Option JString)}
    (hne : hooks ≠ []) : (hookAll p (hooks.map succeeding)).mPM =
      (hookAll p (hooks.map succeeding)).sPackageManager := by
  induction hooks using List.reverseRecOn with
  | nil => exact absurd rfl hne
  | append_singleton hs h =>
    rw [List.map_append, List.map_singleton, hookAll_concat, hookPMS_succeeding]

/-- The process after hooking packages one after another. -/
def hooked (fake : State) (a b : ι) (hooks : List (JString × Option JString)) : Process ι :=
  hookAll (Process.start fake a b) (hooks.map succeeding)

theorem hooked_names (fake : State) (a b : ι) (hooks : List (JString × Option JString)) :
    (hooked fake a b hooks).sPackageManager.names =
      (hooks.map fun hook => some hook.1).reverse := by
  rw [hooked, (hookAll_succeeds _ hooks).1]
  exact List.append_nil _

theorem hooked_origin (fake : State) (a b : ι) (hooks : List (JString × Option JString)) :
    (hooked fake a b hooks).sPackageManager.origin = a := by
  rw [hooked, (hookAll_succeeds _ hooks).2]
  rfl

theorem hooked_any_hit (fake : State) (a b : ι) (hooks : List (JString × Option JString))
    (C : CaseMaps) (flags : BitVec 32) (pkgName : JString) :
    (hooked fake a b hooks).sPackageManager.names.any (layerHit C flags pkgName) = true ↔
      flags &&& GET_SIGNATURES = GET_SIGNATURES ∧
        ∃ n ∈ hooks.map Prod.fst, C.equalsIgnoreCase n pkgName = true := by
  rw [hooked_names, List.any_reverse, List.any_map, List.any_eq_true]
  simp only [Function.comp_apply, layerHit, Option.any_some, Bool.and_eq_true, decide_eq_true_eq]
  constructor
  · rintro ⟨hook, hmem, hflags, hname⟩
    exact ⟨hflags, hook.1, List.mem_map_of_mem hmem, hname⟩
  · rintro ⟨hflags, n, hmem, hname⟩
    obtain ⟨hook, hhook, rfl⟩ := List.mem_map.mp hmem
    exact ⟨hook, hhook, hflags, hname⟩

theorem hooked_names_ne_none (fake : State) (a b : ι)
    (hooks : List (JString × Option JString)) :
    ∀ n ∈ (hooked fake a b hooks).sPackageManager.names, n ≠ none := by
  intro n hn
  rw [hooked_names, List.mem_reverse, List.mem_map] at hn
  obtain ⟨hook, -, rfl⟩ := hn
  exact Option.some_ne_none _

end Hooks

/-- What a `getPackageInfo` call promises through the stack of a process: both fields lead
to it, the original is called once with the same arguments, and its `PackageInfo` comes
back with the faked array if the flags ask for the signatures of a hooked package. -/
structure Composes {ι ε σ ρ ω : Type} (C : CaseMaps) (base : ι → Base ε σ ρ ω)
    (stackText : Nat → JString) (p : Process ι) (original : ι) (names : List JString)
    (w : World (σ × List (ι × JMethod × Args ρ ω))) (method : JMethod) (pkgName : JString)
    (flags : BitVec 32) (others : List (Obj ρ ω)) (info : PackageInfo ρ) : Prop where
  fields : p.mPM = p.sPackageManager
  outcome : ∃ signatures,
    (∀ text orig, shouldUseFakeSignature w.fake text = true →
      (getSignature w.fake text orig).1 = .ok signatures) ∧
    (p.sPackageManager.target C (recorded base) stackText w method
        (packageInfoArgs pkgName flags others)).1 =
      .ok (.packageInfo
        (if flags &&& GET_SIGNATURES = GET_SIGNATURES ∧
            ∃ n ∈ names, C.equalsIgnoreCase n pkgName = true
          then { info with signatures } else info))
  once : (p.sPackageManager.target C (recorded base) stackText w method
      (packageInfoArgs pkgName flags others)).2.base =
    ((base original w.base.1 method (packageInfoArgs pkgName flags others)).2,
      w.base.2 ++ [(original, method, packageInfoArgs pkgName flags others)])

/-- **Repeated hooking composes**, whatever has happened to the static state of
`SignatureFake` by the time of the call.  The outcome does not depend on the number of
layers, nor on repetitions or the order of the names. -/
theorem composes {ι ε σ ρ ω : Type} (C : CaseMaps) (base : ι → Base ε σ ρ ω)
    (stackText : Nat → JString) (fake : State) (a b : ι)
    (hooks : List (JString × Option JString)) (hne : hooks ≠ [])
    (w : World (σ × List (ι × JMethod × Args ρ ω))) (method : JMethod)
    (hm : lit "getPackageInfo" = method.name) (pkgName : JString) (flags : BitVec 32)
    (others : List (Obj ρ ω)) (info : PackageInfo ρ)
    (hinfo : (base a w.base.1 method (packageInfoArgs pkgName flags others)).1 =
      .ok (.packageInfo info))
    (hf : ∀ id ∈ (hooked fake a b hooks).sPackageManager.ids,
      shouldUseFakeSignature w.fake (stackText id) = true)
    (hdec : ∃ bytes, getSigBytes w.fake = .ok bytes) :
    Composes C base stackText (hooked fake a b hooks) a (hooks.map Prod.fst) w method pkgName
        flags others info ∧
      ∀ hooks' ≠ [], (∀ n, n ∈ hooks'.map Prod.fst ↔ n ∈ hooks.map Prod.fst) →
        (∀ id ∈ (hooked fake a b hooks').sPackageManager.ids,
          shouldUseFakeSignature w.fake (stackText id) = true) →
        (hooked fake a b hooks').sPackageManager.target C (recorded base) stackText w method
            (packageInfoArgs pkgName flags others) =
          (hooked fake a b hooks).sPackageManager.target C (recorded base) stackText w method
            (packageInfoArgs pkgName flags others) := by
  have hcall (hooks' : List (JString × Option JString))
      (hf' : ∀ id ∈ (hooked fake a b hooks').sPackageManager.ids,
        shouldUseFakeSignature w.fake (stackText id) = true) :=
    target_getPackageInfo C (recorded base) hm hdec
      (hooked_names_ne_none fake a b hooks') hf' (by rw [hooked_origin]; exact hinfo)
  constructor
  · refine ⟨hookAll_fields hne, ⟨some (faked w.fake), ?_, ?_⟩, ?_⟩
    · intro text orig htext
      rw [getSignature_of_fake orig htext hdec]
    · rw [hcall hooks hf, rewritten]
      simp only [hooked_any_hit]
    · rw [hcall hooks hf, hooked_origin]
      rfl
  · intro hooks' _ hsame hf'
    have hhit : (hooked fake a b hooks').sPackageManager.names.any (layerHit C flags pkgName) =
        (hooked fake a b hooks).sPackageManager.names.any (layerHit C flags pkgName) := by
      rw [Bool.eq_iff_iff, hooked_any_hit, hooked_any_hit]
      simp only [hsame]
    rw [hcall hooks' hf', hcall hooks hf, hhit, hooked_origin, hooked_origin]

def repeatedHooks : List (JString × Option JString) :=
  [(lit "a", some (lit "1")), (lit "b", none), (lit "A", none)]

def answering : Unit → Base Unit Unit Unit Unit := fun _ _ _ _ =>
  (.ok (.packageInfo ⟨none, ()⟩), ())

theorem composes_repeatedHooks :
    Composes .ascii answering (fun _ => []) (hooked .start () () repeatedHooks) ()
      (repeatedHooks.map Prod.fst) ⟨((), []), ⟨none, lit "1", [lit "*"]⟩⟩
      ⟨lit "getPackageInfo", []⟩ (lit "B") 0x40 [] ⟨none, ()⟩ :=
  (composes .ascii answering (fun _ => []) .start () () repeatedHooks (by decide) _ _ rfl _ _ _ _
    rfl (fun _ _ => rfl) ⟨[1], rfl⟩).1

end JniDegger.ServiceManagerWraper
