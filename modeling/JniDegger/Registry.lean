import JniDegger.HandleTables

/-!
# The fake environment without addresses

What the tool is for, in its own terms: a handle *means* a class name, a method
text or a value from outside, and the log shows meanings.  The registry is that
machine.  It has no tables and no allocator; it only remembers which names were
asked for and whether an exception is pending.

* `Env.meaning`: the meaning of a handle in a state of the fake environment, and
  `Env.locate?`, its inverse on names;
* `serve_observe`: a reply depends only on what the handle arguments read as, and
  on whether an interning hook stored its name just now;
* `observe_map`: renaming handles renames the reply;
* `serve_represents`: which names are stored and whether an exception is pending
  follows the registry, whatever handles are passed;
* `serve_refines`: on stable handles one call of the fake environment is one call
  of the registry.
-/

namespace JniDegger.FakeEnv

open Runs InternTable

/-! ## Replies as functions of what the handles read as -/

namespace CallSlot

/-- `__FUNCTION__` in the hook behind a slot. -/
def hookName : CallSlot → String
  | callStaticObjectMethod => "hook_CallStaticObjectMethod"
  | callStaticObjectMethodA => "hook_CallStaticObjectMethodA"
  | callStaticObjectMethodV => "hook_CallStaticObjectMethodV"
  | callObjectMethod | callIntMethod | callShortMethod => "hook_CallObjectMethod"
  | callObjectMethodV | callIntMethodV | callShortMethodV => "hook_CallObjectMethodV"
  | callObjectMethodA | callIntMethodA | callShortMethodA => "hook_CallObjectMethodA"
  | callStaticLongMethodV => "hook_CallStaticLongMethodV"
  | newObject => "hook_NewObject"
  | newObjectV => "hook_NewObjectV"
  | newObjectA => "hook_NewObjectA"

/-- `hook_CallObjectMethodA` is the one call hook that prints no class. -/
def printsClass : CallSlot → Bool
  | callObjectMethodA | callIntMethodA | callShortMethodA => false
  | _ => true

/-- The lines of a call, given the class name and the method text read. -/
def lines (slot : CallSlot) (clsName nameSig : String) : List LogLine :=
  if slot.printsClass then [alogd "%s %s %s" [slot.hookName, clsName, nameSig]]
  else [funcLog slot.hookName, alogd "%s %s" [slot.hookName, nameSig]]

def answer {η : Type} (slot : CallSlot) (h : η) : Answer η :=
  match slot with
  | callIntMethod | callIntMethodV | callIntMethodA => .jintOf h
  | callShortMethod | callShortMethodV | callShortMethodA => .jshortOf h
  | callStaticLongMethodV => .jlongOf h
  | _ => .jobject h

theorem serve_lines (slot : CallSlot) (s : Env) (obj mid : Handle) (args : List JValue) :
    (slot.serve s obj mid args).lines = slot.lines (s.clsName obj) (s.nameSig mid) := by
  cases slot <;> rfl

theorem serve_value (slot : CallSlot) (s : Env) (obj mid : Handle) (args : List JValue) :
    (slot.serve s obj mid args).value = slot.answer obj := by
  cases slot <;> rfl

end CallSlot

/-- What a hook can see of a handle, and the handles made from constants. -/
structure Reading (η : Type) where
  clsName : η → String
  nameSig : η → String
  isNull : η → Bool
  const : Handle → η

/-- The reply to a call.  `found` is the handle an interning call ends up with,
and `fresh` says that it was stored just now. -/
def observe {η : Type} (R : Reading η) (exc : Bool) (found : η) (fresh : Bool) :
    Call η → Reply η
  | .findClass _ => ⟨[], .jclass found⟩
  | .registerNatives c ms n =>
    ⟨(ms.take n.toNat).map fun m =>
        ⟨"hook_RegisterNatives %s.%s %s %p",
          [.str (R.clsName c), .str m.name, .str m.signature, .ptr m.fnPtr]⟩, .jint 1⟩
  | .fromReflectedMethod _ => ⟨[funcLog "hook_FromReflectedMethod"], .jmethodID (R.const 1)⟩
  | .fromReflectedField _ => ⟨[funcLog "hook_FromReflectedField"], .jfieldID (R.const 1)⟩
  | .toReflectedMethod _ _ _ => ⟨[funcLog "hook_ToReflectedMethod"], .jobject (R.const 1)⟩
  | .getObjectClass o =>
    if R.clsName o ≠ "" then ⟨[alogd "hook_GetObjectClass %s" [R.clsName o]], .jclass o⟩
    else ⟨[], .segv⟩
  | .getMethodID c n sig =>
    ⟨if fresh then [alogd "%s %s.%s" ["hook_GetMethodID", R.clsName c, n ++ sig]] else [],
      .jmethodID found⟩
  | .getStaticMethodID c n sig =>
    ⟨if fresh then
        [alogd "%s %s.%s" ["hook_GetStaticMethodID", R.clsName c, "static " ++ n ++ sig]]
      else [], .jmethodID found⟩
  | .call slot o m _ => ⟨slot.lines (R.clsName o) (R.nameSig m), slot.answer o⟩
  | .deleteLocalRef o => ⟨[alogd "%s %s" ["hook_DeleteGlobalRef", R.clsName o]], .void⟩
  | .deleteGlobalRef o => ⟨[alogd "%s %s" ["hook_DeleteGlobalRef", R.clsName o]], .void⟩
  | .newGlobalRef o => ⟨[alogd "%s %s" ["hook_NewGlobalRef", R.clsName o]], .jobject o⟩
  | .exceptionClear => ⟨[funcLog "hook_ExceptionClear"], .void⟩
  | .exceptionDescribe => ⟨[funcLog "hook_ExceptionDescribe"], .void⟩
  | .fatalError m => ⟨[alogd "%s %s" ["hook_FatalError", m]], .void⟩
  | .popLocalFrame _ => ⟨[funcLog "tryError"], .indeterminate⟩
  | .pushLocalFrame _ => ⟨[funcLog "hook_PushLocalFrame"], .jint 0⟩
  | .exceptionCheck => ⟨[funcLog "hook_ExceptionCheck"], .jboolean false⟩
  | .exceptionOccurred =>
    ⟨[funcLog "hook_ExceptionOccurred"], .jthrowable (R.const (if exc then 1 else 0))⟩
  | .getStringUTFChars o =>
    if R.isNull o then ⟨[funcLog "hook_GetStringUTFChars", alogd "%s" ["null"]], .chars "null"⟩
    else
      ⟨[funcLog "hook_GetStringUTFChars", alogd "%s" ["parse urself"]], .chars "parse urself"⟩
  | .releaseStringUTFChars _ cs =>
    ⟨[funcLog "hook_ReleaseStringUTFChars", alogd "%s" [cs]], .void⟩
  | .throw _ => ⟨[funcLog "hook_Throw"], .jint 0⟩
  | .getEnv _ => ⟨[funcLog "hook_GetEnv"], .env⟩
  | .destroyJavaVM => ⟨[funcLog "hook_DestoryJavaVM"], .jint 0⟩
  | .detachCurrentThread => ⟨[funcLog "hook_DetachCurrentThread"], .jint 0⟩
  | .attachCurrentThread => ⟨[funcLog "hook_AttachCurrentThread"], .jint 0⟩
  | .attachCurrentThreadAsDaemon => ⟨[funcLog "hook_AttachCurrentThreadAsDaemon"], .jint 0⟩

/-! ## Renaming handles -/

def Answer.map {η θ : Type} (f : η → θ) : Answer η → Answer θ
  | .jclass h => .jclass (f h)
  | .jobject h => .jobject (f h)
  | .jthrowable h => .jthrowable (f h)
  | .jmethodID h => .jmethodID (f h)
  | .jfieldID h => .jfieldID (f h)
  | .jint v => .jint v
  | .jboolean b => .jboolean b
  | .jintOf h => .jintOf (f h)
  | .jshortOf h => .jshortOf (f h)
  | .jlongOf h => .jlongOf (f h)
  | .chars s => .chars s
  | .env => .env
  | .void => .void
  | .indeterminate => .indeterminate
  | .segv => .segv

/-- The handle an answer is made of, at whatever type it is returned. -/
def Answer.carried? {η : Type} : Answer η → Option η
  | .jclass h | .jobject h | .jthrowable h | .jmethodID h | .jfieldID h => some h
  | .jintOf h | .jshortOf h | .jlongOf h => some h
  | _ => none

def Reply.map {η θ : Type} (f : η → θ) (r : Reply η) : Reply θ := ⟨r.lines, r.answer.map f⟩

section Rename

variable {η θ ζ : Type}

theorem Answer.map_congr {f g : η → θ} {a : Answer η} (h : ∀ x ∈ a.carried?, f x = g x) :
    a.map f = a.map g := by
  cases a <;> simp_all [Answer.map, Answer.carried?]

@[simp]
theorem Answer.isSegv_map (f : η → θ) (a : Answer η) : (a.map f).isSegv = a.isSegv := by
  cases a <;> rfl

@[simp]
theorem Answer.handle?_map (f : η → θ) (a : Answer η) : (a.map f).handle? = a.handle?.map f := by
  cases a <;> rfl

theorem Answer.carried?_of_handle? {a : Answer η} {h : η} (ha : a.handle? = some h) :
    a.carried? = some h := by
  cases a <;> simp_all [Answer.handle?, Answer.carried?]

@[simp]
theorem Reply.lines_map (f : η → θ) (r : Reply η) : (r.map f).lines = r.lines := rfl

@[simp]
theorem Reply.answer_map (f : η → θ) (r : Reply η) : (r.map f).answer = r.answer.map f := rfl

theorem Reply.map_congr {f g : η → θ} {r : Reply η} (h : ∀ x ∈ r.answer.carried?, f x = g x) :
    r.map f = r.map g := by
  rw [Reply.map, Reply.map, Answer.map_congr h]

theorem Call.map_map (f : η → θ) (g : θ → ζ) (c : Call η) : (c.map f).map g = c.map (g ∘ f) := by
  cases c <;> rfl

theorem Call.handles_map (f : η → θ) (c : Call η) : (c.map f).handles = c.handles.map f := by
  cases c <;> rfl

theorem Call.map_congr {f g : η → θ} {c : Call η} (h : ∀ x ∈ c.handles, f x = g x) :
    c.map f = c.map g := by
  cases c <;> simp_all [Call.map, Call.handles, Call.objects]

/-- **Renaming handles renames the reply**, if what the hook looks at reads as before. -/
theorem observe_map (f : η → θ) {P : Reading η} {Q : Reading θ} {c : Call η} {exc exc' : Bool}
    (found : η) {fresh fresh' : Bool} (hexc : c = .exceptionOccurred → exc' = exc)
    (hfresh : c.lookup? ≠ none → fresh' = fresh)
    (hcls : ∀ h ∈ c.handles, Q.clsName (f h) = P.clsName h)
    (hsig : ∀ slot o m args, c = .call slot o m args → Q.nameSig (f m) = P.nameSig m)
    (hnull : ∀ h ∈ c.handles, Q.isNull (f h) = P.isNull h)
    (hconst : ∀ v ≤ 1, f (P.const v) = Q.const v) :
    observe Q exc' (f found) fresh' (c.map f) = (observe P exc found fresh c).map f := by
  have h0 := hconst 0 (Nat.zero_le 1)
  have h1 := hconst 1 (Nat.le_refl 1)
  cases c with
  | getMethodID cls n sig =>
    rw [hfresh (by simp [Call.lookup?])]
    simp_all [Call.map, Call.handles, Call.objects, observe, Reply.map, Answer.map]
  | getStaticMethodID cls n sig =>
    rw [hfresh (by simp [Call.lookup?])]
    simp_all [Call.map, Call.handles, Call.objects, observe, Reply.map, Answer.map]
  | getObjectClass o =>
    have ho : Q.clsName (f o) = P.clsName o := hcls o (by simp [Call.handles, Call.objects])
    simp only [Call.map, observe, ho]
    split <;> rfl
  | getStringUTFChars o =>
    have ho : Q.isNull (f o) = P.isNull o := hnull o (by simp [Call.handles])
    simp only [Call.map, observe, ho]
    split <;> rfl
  | call slot o m args =>
    have ho : Q.clsName (f o) = P.clsName o := hcls o (by simp [Call.handles])
    have hm : Q.nameSig (f m) = P.nameSig m := hsig slot o m args rfl
    simp only [Call.map, observe, ho, hm]
    cases slot <;> rfl
  | exceptionOccurred =>
    rw [hexc rfl]
    cases exc <;> simp [Call.map, observe, Reply.map, Answer.map, h0, h1]
  | _ => simp_all [Call.map, Call.handles, Call.objects, observe, Reply.map, Answer.map]

end Rename

/-! ## Meanings -/

/-- What a handle stands for. -/
inductive Meaning
  | cls (n : String)
  | method (t : String)
  | value (v : Handle)
  deriving DecidableEq, Repr

namespace Meaning

/-- A name, and not the empty one that marks a planted entry. -/
def Real : Meaning → Prop
  | cls n => n ≠ ""
  | method t => t ≠ ""
  | value _ => False

instance : DecidablePred Real
  | cls n => inferInstanceAs (Decidable (n ≠ ""))
  | method t => inferInstanceAs (Decidable (t ≠ ""))
  | value _ => inferInstanceAs (Decidable False)

def clsName : Meaning → String
  | cls n => n
  | _ => ""

def nameSig : Meaning → String
  | method t => t
  | _ => ""

def reading : Reading Meaning where
  clsName := clsName
  nameSig := nameSig
  isNull μ := μ == .value 0
  const := .value

end Meaning

/-- The name an interning call asks for. -/
def Call.interned? {η : Type} : Call η → Option Meaning
  | .findClass n => some (.cls n)
  | c => c.lookup?.map fun p => .method p.2.2

/-- Whether an exception is pending after the call. -/
def Call.pendingAfter {η : Type} : Call η → Bool → Bool
  | .throw _, _ => true
  | .exceptionClear, _ => false
  | _, p => p

/-- A call that asks for no empty name.  A look-up whose signature begins with
`(` never does. -/
def Call.Named {η : Type} (c : Call η) : Prop := ∀ μ ∈ c.interned?, μ.Real

instance {η : Type} (c : Call η) : Decidable c.Named :=
  inferInstanceAs (Decidable (∀ μ ∈ c.interned?, μ.Real))

@[simp]
theorem Call.interned?_map {η θ : Type} (f : η → θ) (c : Call η) :
    (c.map f).interned? = c.interned? := by
  cases c <;> rfl

@[simp]
theorem Call.pendingAfter_map {η θ : Type} (f : η → θ) (c : Call η) :
    (c.map f).pendingAfter = c.pendingAfter := by
  cases c <;> rfl

/-! ## The registry -/

/-- The names asked for so far and the pending-exception flag. -/
structure Registry where
  known : List Meaning
  pending : Bool
  deriving DecidableEq, Repr

namespace Registry

def start : Registry := ⟨[], false⟩

/-- What a call leaves behind; its handle arguments do not matter. -/
def after {η : Type} (r : Registry) (c : Call η) : Registry :=
  ⟨c.interned?.toList ++ r.known, c.pendingAfter r.pending⟩

/-- Whether the call asks for a name that is not known. -/
def fresh {η : Type} (r : Registry) (c : Call η) : Bool := c.interned?.any fun μ => μ ∉ r.known

def reply (r : Registry) (c : Call Meaning) : Reply Meaning :=
  observe Meaning.reading r.pending (c.interned?.getD (.value 0)) (r.fresh c) c

def machine : Machine Registry (Call Meaning) (Reply Meaning) where
  step r c := (r.reply c, r.after c)
  stops r := r.answer.isSegv

end Registry

/-! ## From handles to meanings and back -/

/-- What a handle stands for in a state of the fake environment. -/
def Env.meaning (s : Env) (h : Handle) : Meaning :=
  if s.clsName h ≠ "" then .cls (s.clsName h)
  else if s.nameSig h ≠ "" then .method (s.nameSig h)
  else .value h

/-- The handle that stands for a meaning: the one the search loops find. -/
def Env.locate? (s : Env) : Meaning → Option Handle
  | .cls n => search s.gClassNameMap n
  | .method t => search s.gMethodIDMap t
  | .value v => some v

def Env.reading (s : Env) : Reading Handle where
  clsName := s.clsName
  nameSig := s.nameSig
  isNull h := h == 0
  const := id

/-- The handle an interning call ends up with (`0` for any other call), and
whether it is stored now. -/
def Env.interned (A : Allocator) (s : Env) (c : Call Handle) : Handle × Bool :=
  match c.interned? with
  | some μ => ((s.locate? μ).getD (A.addr s.news), (s.locate? μ).isNone)
  | none => (0, false)

/-- What the outside sees of a call through the tables. -/
def Env.reply (A : Allocator) (s : Env) (c : Call Handle) : Reply Handle :=
  ⟨(serve A s c).lines, (serve A s c).value⟩

/-- **A reply depends on readings only.** -/
theorem serve_observe (A : Allocator) (s : Env) (c : Call Handle) :
    s.reply A c =
      observe s.reading s.hasException (s.interned A c).1 (s.interned A c).2 c := by
  have lookup : ∀ cls fn t,
      (methodLookup A (s.touchClass cls) fn (s.clsName cls) t).lines =
          (if (s.locate? (.method t)).isNone then [alogd "%s %s.%s" [fn, s.clsName cls, t]]
            else []) ∧
        (methodLookup A (s.touchClass cls) fn (s.clsName cls) t).value =
          (s.locate? (.method t)).getD (A.addr s.news) := by
    intro cls fn t
    have htable : (s.touchClass cls).gMethodIDMap = s.gMethodIDMap := rfl
    rw [methodLookup, Env.locate?, htable]
    split
    · next h => simp [h]
    · next h => simp [h, Env.touchClass]
  cases c with
  | findClass n =>
    simp only [Env.reply, serve, hookFindClass, Effect.answer, observe, Env.interned,
      Call.interned?, Env.locate?]
    cases search s.gClassNameMap n <;> rfl
  | getMethodID c n sig =>
    obtain ⟨hl, hv⟩ := lookup c "hook_GetMethodID" (n ++ sig)
    simp only [Env.reply, serve, hookGetMethodID, Effect.answer, hl, hv]
    rfl
  | getStaticMethodID c n sig =>
    obtain ⟨hl, hv⟩ := lookup c "hook_GetStaticMethodID" ("static " ++ n ++ sig)
    simp only [Env.reply, serve, hookGetStaticMethodID, Effect.answer, hl, hv]
    rfl
  | call slot o m args =>
    simp only [Env.reply, serve, observe, CallSlot.serve_lines, CallSlot.serve_value]
    rfl
  | getObjectClass o =>
    simp only [Env.reply, serve, hookGetObjectClass, Effect.answer, observe, Env.reading]
    by_cases ho : s.clsName o = "" <;> simp [ho]
  | getStringUTFChars o =>
    simp only [Env.reply, serve, hookGetStringUTFChars, Effect.answer, observe, Env.reading]
    by_cases ho : o = 0 <;> simp [ho]
  | _ => rfl

section Meanings

variable {A : Allocator} {s : Env}

theorem meaning_eq_cls_iff {h : Handle} {n : String} (hn : n ≠ "") :
    s.meaning h = .cls n ↔ Binds s.gClassNameMap h n := by
  rw [← peek_eq_iff hn, Env.meaning]
  split
  · simp [Env.clsName]
  · next hempty =>
    have he : s.clsName h = "" := not_not.mp hempty
    constructor
    · intro hm
      split at hm <;> cases hm
    · intro hm
      exact absurd (he.symm.trans hm).symm hn

theorem meaning_eq_method_iff (hs : WF A s) {h : Handle} {t : String} (ht : t ≠ "") :
    s.meaning h = .method t ↔ Binds s.gMethodIDMap h t := by
  rw [Env.meaning]
  split
  · next hcls =>
    constructor
    · intro hm
      cases hm
    · intro hb
      exact absurd hb (hs.disjoint h _ t ((peek_eq_iff hcls).mp rfl))
  · rw [← peek_eq_iff ht]
    split
    · simp [Env.nameSig]
    · next hempty =>
      have he : s.nameSig h = "" := not_not.mp hempty
      constructor
      · intro hm
        cases hm
      · intro hm
        exact absurd (he.symm.trans hm).symm ht

theorem locate?_eq_some_iff (hs : WF A s) {μ : Meaning} (hμ : μ.Real) {h : Handle} :
    s.locate? μ = some h ↔ s.meaning h = μ := by
  cases μ with
  | cls n => rw [Env.locate?, search_eq_some_iff hs.classes.one hμ, meaning_eq_cls_iff hμ]
  | method t => rw [Env.locate?, search_eq_some_iff hs.methods.one hμ, meaning_eq_method_iff hs hμ]
  | value v => exact absurd hμ id

theorem used_of_meaning (hs : WF A s) {h : Handle} (hr : (s.meaning h).Real) :
    h ∈ A.used s.news := by
  cases hm : s.meaning h with
  | cls n =>
    rw [hm] at hr
    exact hs.classes.owned h n ((meaning_eq_cls_iff hr).mp hm)
  | method t =>
    rw [hm] at hr
    exact hs.methods.owned h t ((meaning_eq_method_iff hs hr).mp hm)
  | value v =>
    rw [hm] at hr
    exact absurd hr id

theorem meaning_eq_value {h : Handle} (hr : ¬ (s.meaning h).Real) : s.meaning h = .value h := by
  revert hr
  rw [Env.meaning]
  split
  · next hc => exact fun hr => absurd hc hr
  · split
    · next hm => exact fun hr => absurd hm hr
    · exact fun _ => rfl

theorem eq_of_meaning_eq_value {h v : Handle} (hm : s.meaning h = .value v) : h = v := by
  have hnot : ¬ (s.meaning h).Real := by
    rw [hm]
    exact id
  rw [meaning_eq_value hnot] at hm
  exact Meaning.value.inj hm

theorem meaning_of_not_used (hs : WF A s) {h : Handle} (hh : h ∉ A.used s.news) :
    s.meaning h = .value h :=
  meaning_eq_value fun hr => hh (used_of_meaning hs hr)

theorem reading_meaning (hs : WF A s) (h : Handle) :
    (s.meaning h).clsName = s.clsName h ∧ (s.meaning h).nameSig = s.nameSig h ∧
      (s.meaning h == .value 0) = (h == 0) := by
  have hnull : (s.meaning h).Real → h ≠ 0 := fun hr =>
    Allocator.ne_null_of_used (used_of_meaning hs hr)
  by_cases hc : s.clsName h = ""
  · by_cases hm : s.nameSig h = ""
    · have hv : s.meaning h = .value h := by simp [Env.meaning, hc, hm]
      rw [hv]
      refine ⟨hc.symm, hm.symm, ?_⟩
      by_cases h0 : h = 0 <;> simp [h0]
    · have hv : s.meaning h = .method (s.nameSig h) := by simp [Env.meaning, hc, hm]
      rw [hv] at hnull ⊢
      exact ⟨hc.symm, rfl, by simp [hnull hm]⟩
  · have hv : s.meaning h = .cls (s.clsName h) := by simp [Env.meaning, hc]
    have hm : s.nameSig h = "" := by
      refine peek_eq_default_iff.mpr fun t => ?_
      exact hs.disjoint h _ t ((peek_eq_iff hc).mp rfl)
    rw [hv] at hnull ⊢
    exact ⟨rfl, hm.symm, by simp [hnull hc]⟩

end Meanings

/-! ## The registry follows the tables -/

/-- The registry knows the stored names and the pending-exception flag. -/
structure Represents (A : Allocator) (s : Env) (r : Registry) : Prop where
  wf : WF A s
  known : ∀ μ : Meaning, μ.Real → ((∃ h, s.meaning h = μ) ↔ μ ∈ r.known)
  pending : s.hasException = r.pending

theorem represents_start (A : Allocator) : Represents A (initial Env.start) .start where
  wf := wf_initial A
  known μ hμ := by
    have hmiss : ∀ h, (initial Env.start).meaning h ≠ μ := by
      rintro h rfl
      obtain ⟨i, hi, -⟩ := used_of_meaning (wf_initial A) hμ
      exact absurd hi (Nat.not_lt_zero i)
    simp [Registry.start, hmiss]
  pending := rfl

theorem serve_hasException (A : Allocator) (s : Env) (c : Call Handle) :
    (serve A s c).env.hasException = c.pendingAfter s.hasException := by
  cases c with
  | findClass n =>
    simp only [serve, hookFindClass, Effect.answer]
    split <;> rfl
  | getMethodID cls n sig =>
    simp only [serve, hookGetMethodID, methodLookup, Effect.answer]
    split <;> rfl
  | getStaticMethodID cls n sig =>
    simp only [serve, hookGetStaticMethodID, methodLookup, Effect.answer]
    split <;> rfl
  | call slot o m args => cases slot <;> rfl
  | getObjectClass o =>
    simp only [serve, hookGetObjectClass, Effect.answer]
    split <;> rfl
  | getStringUTFChars o =>
    simp only [serve, hookGetStringUTFChars, Effect.answer]
    split <;> rfl
  | _ => rfl

section Refinement

variable {A : Allocator} {N : Nat} {s : Env} {r : Registry}

/-- An interning call ends up with the handle of the name it asked for. -/
theorem interned_meaning (hs : WF A s) {c : Call Handle} {μ : Meaning}
    (hc : c.interned? = some μ) (hμ : μ.Real) :
    (serve A s c).env.meaning (s.interned A c).1 = μ := by
  have hobs := congrArg Reply.answer (serve_observe A s c)
  have lookup : ∀ cls fn t, c.lookup? = some (cls, fn, t) → μ = .method t →
      (observe s.reading s.hasException (s.interned A c).1 (s.interned A c).2 c).answer =
        .jmethodID (s.interned A c).1 →
      (serve A s c).env.meaning (s.interned A c).1 = μ := by
    rintro cls fn t hl rfl ho
    obtain ⟨h, hv, hb⟩ := lookup_binds hs hl hμ
    have he : h = (s.interned A c).1 := by
      rw [ho] at hobs
      exact Answer.jmethodID.inj (hv.symm.trans hobs)
    exact (meaning_eq_method_iff (serve_wf hs c) hμ).mpr (he ▸ hb)
  cases c with
  | findClass n =>
    cases hc
    obtain ⟨h, hv, hb⟩ := findClass_binds (A := A) hs hμ
    have he : h = (s.interned A (.findClass n)).1 := Answer.jclass.inj (hv.symm.trans hobs)
    exact (meaning_eq_cls_iff hμ).mpr (he ▸ hb)
  | getMethodID cls n sig => exact lookup _ _ _ rfl (Option.some.inj hc).symm rfl
  | getStaticMethodID cls n sig => exact lookup _ _ _ rfl (Option.some.inj hc).symm rfl
  | _ => cases hc

/-- **What names are stored after a call**: those before it, and the one asked
for. -/
theorem serve_named (hs : WF A s) (c : Call Handle) {μ : Meaning} (hμ : μ.Real) :
    (∃ h, (serve A s c).env.meaning h = μ) ↔ (∃ h, s.meaning h = μ) ∨ c.interned? = some μ := by
  have hs' := serve_wf hs c
  constructor
  · rintro ⟨h, hh⟩
    cases μ with
    | cls n =>
      rcases serve_binds_class hs ((meaning_eq_cls_iff hμ).mp hh) with hb | rfl
      · exact Or.inl ⟨h, (meaning_eq_cls_iff hμ).mpr hb⟩
      · exact Or.inr rfl
    | method t =>
      rcases serve_binds_method hs ((meaning_eq_method_iff hs' hμ).mp hh) with hb | ⟨cls, fn, hc⟩
      · exact Or.inl ⟨h, (meaning_eq_method_iff hs hμ).mpr hb⟩
      · refine Or.inr ?_
        cases c <;> cases hc <;> rfl
    | value v => exact absurd hμ id
  · rintro (⟨h, hh⟩ | hc)
    · have hg := serve_grows hs c
      cases μ with
      | cls n =>
        exact ⟨h, (meaning_eq_cls_iff hμ).mpr (hg.classes h n ((meaning_eq_cls_iff hμ).mp hh))⟩
      | method t =>
        have hb := (meaning_eq_method_iff hs hμ).mp hh
        exact ⟨h, (meaning_eq_method_iff hs' hμ).mpr (hg.methods h t hb)⟩
      | value v => exact absurd hμ id
    · exact ⟨_, interned_meaning hs hc hμ⟩

/-- **The registry follows every call**, whatever handles are passed. -/
theorem serve_represents (hr : Represents A s r) (c : Call Handle) :
    Represents A (serve A s c).env (r.after c) where
  wf := serve_wf hr.wf c
  known μ hμ := by
    rw [serve_named hr.wf c hμ, hr.known μ hμ, Registry.after, List.mem_append,
      Option.mem_toList, or_comm]
  pending := by rw [serve_hasException, hr.pending]; rfl

/-- A handle whose meaning does not change before allocation `N`: it has a name,
or it is not allocated by then. -/
def Stable (A : Allocator) (N : Nat) (s : Env) (h : Handle) : Prop :=
  (s.meaning h).Real ∨ h ∉ A.used N

theorem stable_null (A : Allocator) (N : Nat) (s : Env) : Stable A N s 0 :=
  Or.inr fun h => Allocator.ne_null_of_used h rfl

theorem Stable.meaning {s' : Env} {h : Handle} (hst : Stable A N s h) (hs : WF A s)
    (hs' : WF A s') (hg : Grows s s') (hN : s'.news ≤ N) : s'.meaning h = s.meaning h := by
  rcases hst with hr | hu
  · cases hm : s.meaning h with
    | cls n =>
      rw [hm] at hr
      exact (meaning_eq_cls_iff hr).mpr (hg.classes h n ((meaning_eq_cls_iff hr).mp hm))
    | method t =>
      rw [hm] at hr
      have hb := (meaning_eq_method_iff hs hr).mp hm
      exact (meaning_eq_method_iff hs' hr).mpr (hg.methods h t hb)
    | value v =>
      rw [hm] at hr
      exact absurd hr id
  · have hu' : h ∉ A.used s'.news := fun hm => hu (A.used_mono hN hm)
    have hu₀ : h ∉ A.used s.news := fun hm => hu' (A.used_mono hg.news hm)
    rw [meaning_of_not_used hs hu₀, meaning_of_not_used hs' hu']

theorem Stable.mono {s' : Env} {h : Handle} (hst : Stable A N s h) (hs : WF A s) (hs' : WF A s')
    (hg : Grows s s') (hN : s'.news ≤ N) : Stable A N s' h := by
  rw [Stable, hst.meaning hs hs' hg hN]
  exact hst

/-- A reply is made of the handle arguments, the constants `0` and `1`, and the
interned handle. -/
theorem carried_observe {η : Type} (R : Reading η) (exc : Bool) (found : η) (fresh : Bool)
    (c : Call η) {h : η} (hh : (observe R exc found fresh c).answer.carried? = some h) :
    h ∈ c.handles ∨ h = found ∨ h = R.const 0 ∨ h = R.const 1 := by
  cases c with
  | getObjectClass o =>
    revert hh
    simp only [observe]
    split <;> simp +contextual [Answer.carried?, Call.handles, Call.objects]
  | getStringUTFChars o =>
    revert hh
    simp only [observe]
    split <;> simp [Answer.carried?]
  | call slot o m args =>
    cases slot <;> simp_all [observe, CallSlot.answer, Answer.carried?, Call.handles]
  | exceptionOccurred => cases exc <;> simp_all [observe, Answer.carried?]
  | _ => simp_all [observe, Answer.carried?, Call.handles, Call.objects]

theorem interned_fresh (hr : Represents A s r) {c : Call Handle} (hc : c.Named) :
    (s.interned A c).2 = r.fresh c := by
  rw [Env.interned, Registry.fresh]
  cases hi : c.interned? with
  | none => rfl
  | some μ =>
    have hμ : μ.Real := hc μ hi
    have hnone : s.locate? μ = none ↔ μ ∉ r.known := by
      rw [← hr.known μ hμ, not_exists]
      constructor
      · intro hn h hh
        rw [(locate?_eq_some_iff hr.wf hμ).mpr hh] at hn
        cases hn
      · intro hn
        cases hl : s.locate? μ with
        | none => rfl
        | some h => exact absurd ((locate?_eq_some_iff hr.wf hμ).mp hl) (hn h)
    simp only [Option.any_some, ← hnone]
    cases s.locate? μ <;> rfl

/-- **One call of the fake environment is one call of the registry**, on stable
handles; and what it answers is stable again. -/
theorem serve_refines (hr : Represents A s r) (h1 : ∀ i, A.addr i ≠ 1) {c : Call Handle}
    (hc : c.Named) (hst : ∀ h ∈ c.handles, Stable A N s h)
    (hN : (serve A s c).env.news ≤ N) :
    r.reply (c.map s.meaning) = (s.reply A c).map (serve A s c).env.meaning ∧
      ∀ h ∈ (s.reply A c).answer.carried?, Stable A N (serve A s c).env h := by
  have hs' := serve_wf hr.wf c
  have hg := serve_grows hr.wf c
  have hconst : ∀ v ≤ 1, ∀ k, v ∉ A.used k := by
    rintro v hv k ⟨i, -, hi⟩
    rcases Nat.le_one_iff_eq_zero_or_eq_one.mp hv with rfl | rfl
    · exact A.ne_null i hi
    · exact h1 i hi
  have hsame : ∀ h ∈ c.handles, (serve A s c).env.meaning h = s.meaning h := fun h hh =>
    (hst h hh).meaning hr.wf hs' hg hN
  have hfound : c.interned?.getD (.value 0) =
      (serve A s c).env.meaning (s.interned A c).1 := by
    cases hi : c.interned? with
    | none =>
      rw [Env.interned, hi]
      exact (meaning_of_not_used hs' (hconst 0 (Nat.zero_le 1) _)).symm
    | some μ => exact (interned_meaning hr.wf hi (hc μ hi)).symm
  have hargs : c.map s.meaning = c.map (serve A s c).env.meaning :=
    Call.map_congr fun h hh => (hsame h hh).symm
  constructor
  · rw [serve_observe, Registry.reply, Call.interned?_map, hfound, ← hr.pending, hargs,
      ← observe_map (Q := Meaning.reading) _ _ (fun _ => rfl) (fun _ => rfl) (fun h hh => ?_)
        (fun slot o m args hm => ?_) (fun h hh => ?_)
        fun v hv => meaning_of_not_used hs' (hconst v hv _)]
    · rw [interned_fresh hr hc, Registry.fresh, Registry.fresh, Call.interned?_map]
    · rw [hsame h hh]
      exact (reading_meaning hr.wf h).1
    · rw [hsame m (by simp [hm, Call.handles])]
      exact (reading_meaning hr.wf m).2.1
    · rw [hsame h hh]
      exact (reading_meaning hr.wf h).2.2
  · intro h hh
    rw [serve_observe] at hh
    rcases carried_observe _ _ _ _ _ hh with hh | rfl | rfl | rfl
    · exact (hst h hh).mono hr.wf hs' hg hN
    · cases hi : c.interned? with
      | none =>
        rw [Env.interned, hi]
        exact stable_null A N _
      | some μ => exact Or.inl (by rw [interned_meaning hr.wf hi (hc μ hi)]; exact hc μ hi)
    · exact Or.inr (hconst 0 (Nat.zero_le 1) N)
    · exact Or.inr (hconst 1 (Nat.le_refl 1) N)

end Refinement

end JniDegger.FakeEnv
