import JniDegger.Runs
import JniDegger.InternTable
import Mathlib.Logic.Equiv.Basic

/-!
# The fake JNI environment (`native-lib.cpp`)

The hooks that `initial()` installs in `fake_env` and `fake_jvm`, each as a
function of the globals it reads and writes.  A hook yields the lines it logs,
the value it returns and the globals it leaves; the traced library is a list of
calls with any arguments at all.

* A C string is a `String`, one character per byte; a pointer is a `Nat`, null
  is `0`.
* `gClassNameMap[h]` and `gMethodIDMap[h]` are `operator[]` reads: they plant an
  empty name for an unknown key.
* `new string` is the only allocation whose address a caller ever sees; the
  `Allocator` lists the addresses it returns, in order.
* `oEnv` is null in every state, since no code assigns it: the real-object
  branch of `hook_GetObjectClass` faults on its first statement and the process
  is gone.
-/

namespace JniDegger.FakeEnv

open Runs InternTable

/-! ## Values -/

/-- A pointer-sized value passed or returned as a handle. -/
abbrev Handle := Nat

/-- `std::map<string *, string>`, walked in address order. -/
abbrev NameMap := Std.ExtTreeMap Handle String compare

/-- A `jvalue`: eight bytes that no hook looks at. -/
abbrev JValue := BitVec 64

structure JNINativeMethod where
  name : String
  signature : String
  fnPtr : Handle
  deriving DecidableEq, Repr

/-- The addresses `new string` returns, in order.  The strings are never freed,
so no address comes back. -/
structure Allocator where
  addr : Nat → Handle
  ne_null : ∀ i, addr i ≠ 0
  injective : Function.Injective addr

def Allocator.heap (σ : Equiv.Perm Nat) : Allocator where
  addr i := 16 * (σ i + 1)
  ne_null i := Nat.mul_ne_zero (by decide) (Nat.succ_ne_zero _)
  injective i j h := σ.injective (Nat.succ.inj (Nat.eq_of_mul_eq_mul_left (by decide) h))

/-- Blocks handed out upwards: 16, 32, 48, ... -/
def Allocator.bump : Allocator := .heap (Equiv.refl Nat)

inductive LogArg
  | str (s : String)
  | ptr (p : Handle)
  deriving DecidableEq, Repr

/-- One `ALOGD(fmt, ...)`. -/
structure LogLine where
  fmt : String
  args : List LogArg
  deriving DecidableEq, Repr

def alogd (fmt : String) (args : List String) : LogLine := ⟨fmt, args.map .str⟩

/-- `ALOGD("%s", __FUNCTION__)`, also spelled `FUNC_LOG()`. -/
def funcLog (fn : String) : LogLine := alogd "%s" [fn]

/-- What a call answers.  `η` is the type of handles.  The slots that reach a
hook through a cast return a pointer that the caller reads as an integer:
`jintOf h`, `jshortOf h` and `jlongOf h` are the low bits of `h`. -/
inductive Answer (η : Type)
  | jclass (h : η)
  | jobject (h : η)
  | jthrowable (h : η)
  | jmethodID (h : η)
  | jfieldID (h : η)
  | jint (v : Int)
  | jboolean (b : Bool)
  | jintOf (h : η)
  | jshortOf (h : η)
  | jlongOf (h : η)
  | chars (s : String)
  /-- `JNI_OK`, with `*env` set to `&fake_env`. -/
  | env
  | void
  /-- What a caller reads after a function that returns nothing. -/
  | indeterminate
  /-- The process died on a null or poisoned pointer. -/
  | segv
  deriving DecidableEq, Repr

namespace Answer

variable {η θ : Type}

def isSegv : Answer η → Bool
  | segv => true
  | _ => false

def handle? : Answer η → Option η
  | jclass h | jobject h | jthrowable h | jmethodID h => some h
  | _ => none

def object? : Answer η → Option η
  | jclass h | jobject h | jthrowable h => some h
  | _ => none

end Answer

/-! ## Globals -/

structure Env where
  gClassNameMap : NameMap
  gMethodIDMap : NameMap
  hasException : Bool
  /-- `fake_env.functions` and `fake_jvm.functions` point to filled tables. -/
  functions : Bool
  /-- How many times `new string` has run. -/
  news : Nat

def Env.start : Env := ⟨∅, ∅, false, false, 0⟩

def Env.touchClass (s : Env) (h : Handle) : Env :=
  { s with gClassNameMap := touch s.gClassNameMap h }

def Env.touchMethod (s : Env) (h : Handle) : Env :=
  { s with gMethodIDMap := touch s.gMethodIDMap h }

/-- `gClassNameMap[h]`, as a read. -/
def Env.clsName (s : Env) (h : Handle) : String := peek s.gClassNameMap h

/-- `gMethodIDMap[h]`, as a read. -/
def Env.nameSig (s : Env) (h : Handle) : String := peek s.gMethodIDMap h

/-- `name = new string(v); gClassNameMap[name] = v`. -/
def Env.newClass (A : Allocator) (s : Env) (v : String) : Env :=
  { s with gClassNameMap := s.gClassNameMap.insert (A.addr s.news) v, news := s.news + 1 }

/-- `value = new string(v); gMethodIDMap[value] = v`. -/
def Env.newMethod (A : Allocator) (s : Env) (v : String) : Env :=
  { s with gMethodIDMap := s.gMethodIDMap.insert (A.addr s.news) v, news := s.news + 1 }

/-! ## The hooks -/

structure Effect (α : Type) where
  lines : List LogLine
  value : α
  env : Env

def Effect.answer {α : Type} (r : Effect α) (f : α → Answer Handle) : Effect (Answer Handle) :=
  ⟨r.lines, f r.value, r.env⟩

/-- Also stores `&fake_env` in `*env`. -/
def hookGetEnv (s : Env) (_version : Int) : Effect Int := ⟨[funcLog "hook_GetEnv"], 0, s⟩

def hookDestoryJavaVM (s : Env) : Effect Int := ⟨[funcLog "hook_DestoryJavaVM"], 0, s⟩

def hookAttachCurrentThread (s : Env) : Effect Int := ⟨[funcLog "hook_AttachCurrentThread"], 0, s⟩

def hookDetachCurrentThread (s : Env) : Effect Int := ⟨[funcLog "hook_DetachCurrentThread"], 0, s⟩

def hookAttachCurrentThreadAsDaemon (s : Env) : Effect Int :=
  ⟨[funcLog "hook_AttachCurrentThreadAsDaemon"], 0, s⟩

def hookFindClass (A : Allocator) (s : Env) (className : String) : Effect Handle :=
  match search s.gClassNameMap className with
  | some iter => ⟨[], iter, s⟩
  | none => ⟨[], A.addr s.news, s.newClass A className⟩

/-- The loop runs over the first `n` entries; a count that is not positive
prints nothing. -/
def hookRegisterNatives (s : Env) (cls : Handle) (jniNativeMethod : List JNINativeMethod)
    (n : Int) : Effect Int :=
  ⟨(jniNativeMethod.take n.toNat).map fun m =>
      ⟨"hook_RegisterNatives %s.%s %s %p",
        [.str (s.clsName cls), .str m.name, .str m.signature, .ptr m.fnPtr]⟩,
    1, s.touchClass cls⟩

def hookFromReflectedMethod (s : Env) (_method : Handle) : Effect Handle :=
  ⟨[funcLog "hook_FromReflectedMethod"], 1, s⟩

def hookFromReflectedField (s : Env) (_field : Handle) : Effect Handle :=
  ⟨[funcLog "hook_FromReflectedField"], 1, s⟩

def hookToReflectedMethod (s : Env) (_cls _mid : Handle) (_isStatic : Bool) : Effect Handle :=
  ⟨[funcLog "hook_ToReflectedMethod"], 1, s⟩

/-- `none`: the object is taken for a real one and `oEnv`, which is null, is
dereferenced. -/
def hookGetObjectClass (s : Env) (obj : Handle) : Effect (Option Handle) :=
  if s.clsName obj ≠ "" then
    ⟨[alogd "hook_GetObjectClass %s" [s.clsName obj]], some obj, s.touchClass obj⟩
  else ⟨[], none, s.touchClass obj⟩

/-- The look-up loop shared by the two method hooks: a text already stored is
returned at once, and only a text stored now is logged. -/
def methodLookup (A : Allocator) (s : Env) (fn clsName nameSig : String) : Effect Handle :=
  match search s.gMethodIDMap nameSig with
  | some iter => ⟨[], iter, s⟩
  | none =>
    ⟨[alogd "%s %s.%s" [fn, clsName, nameSig]], A.addr s.news, s.newMethod A nameSig⟩

def hookGetMethodID (A : Allocator) (s : Env) (cls : Handle) (name sig : String) :
    Effect Handle :=
  methodLookup A (s.touchClass cls) "hook_GetMethodID" (s.clsName cls) (name ++ sig)

def hookGetStaticMethodID (A : Allocator) (s : Env) (cls : Handle) (name sig : String) :
    Effect Handle :=
  methodLookup A (s.touchClass cls) "hook_GetStaticMethodID" (s.clsName cls)
    ("static " ++ name ++ sig)

/-- The body shared by the call hooks that print a class: both tables are read,
one line is logged and the first handle comes back. -/
def callHook (fn : String) (s : Env) (cls mid : Handle) : Effect Handle :=
  ⟨[alogd "%s %s %s" [fn, s.clsName cls, s.nameSig mid]], cls, (s.touchClass cls).touchMethod mid⟩

def hookCallStaticObjectMethod (s : Env) (cls mid : Handle) (_ : List JValue) : Effect Handle :=
  callHook "hook_CallStaticObjectMethod" s cls mid

def hookCallStaticObjectMethodA (s : Env) (cls mid : Handle) (_ : List JValue) : Effect Handle :=
  callHook "hook_CallStaticObjectMethodA" s cls mid

def hookCallStaticObjectMethodV (s : Env) (cls mid : Handle) (_ : List JValue) : Effect Handle :=
  callHook "hook_CallStaticObjectMethodV" s cls mid

def hookCallObjectMethod (s : Env) (cls mid : Handle) (_ : List JValue) : Effect Handle :=
  callHook "hook_CallObjectMethod" s cls mid

/-- Logs its own name first and then no class; `gClassNameMap` is not read. -/
def hookCallObjectMethodA (s : Env) (jobj mid : Handle) (_ : List JValue) : Effect Handle :=
  ⟨[funcLog "hook_CallObjectMethodA", alogd "%s %s" ["hook_CallObjectMethodA", s.nameSig mid]],
    jobj, s.touchMethod mid⟩

def hookCallStaticLongMethodV (s : Env) (cls mid : Handle) (_ : List JValue) : Effect Handle :=
  callHook "hook_CallStaticLongMethodV" s cls mid

def hookCallObjectMethodV (s : Env) (jobj mid : Handle) (_ : List JValue) : Effect Handle :=
  callHook "hook_CallObjectMethodV" s jobj mid

def hookNewGlobalRef (s : Env) (jobj : Handle) : Effect Handle :=
  ⟨[alogd "%s %s" ["hook_NewGlobalRef", s.clsName jobj]], jobj, s.touchClass jobj⟩

def hookNewObject (s : Env) (cls mid : Handle) (_ : List JValue) : Effect Handle :=
  callHook "hook_NewObject" s cls mid

def hookNewObjectV (s : Env) (cls mid : Handle) (_ : List JValue) : Effect Handle :=
  callHook "hook_NewObjectV" s cls mid

def hookNewObjectA (s : Env) (cls mid : Handle) (_ : List JValue) : Effect Handle :=
  callHook "hook_NewObjectA" s cls mid

def hookDeleteGlobalRef (s : Env) (jobj : Handle) : Effect Unit :=
  ⟨[alogd "%s %s" ["hook_DeleteGlobalRef", s.clsName jobj]], (), s.touchClass jobj⟩

def hookExceptionClear (s : Env) : Effect Unit :=
  ⟨[funcLog "hook_ExceptionClear"], (), { s with hasException := false }⟩

def hookExceptionDescribe (s : Env) : Effect Unit := ⟨[funcLog "hook_ExceptionDescribe"], (), s⟩

/-- The flag itself, cast to a pointer. -/
def hookExceptionOccurred (s : Env) : Effect Handle :=
  ⟨[funcLog "hook_ExceptionOccurred"], if s.hasException then 1 else 0, s⟩

def hookExceptionCheck (s : Env) : Effect Bool := ⟨[funcLog "hook_ExceptionCheck"], false, s⟩

def hookFatalError (s : Env) (str : String) : Effect Unit :=
  ⟨[alogd "%s %s" ["hook_FatalError", str]], (), s⟩

/-- Installed in the `PopLocalFrame` slot through a cast; returns nothing. -/
def tryError (s : Env) : Effect Unit := ⟨[funcLog "tryError"], (), s⟩

def hookPushLocalFrame (s : Env) (_num : Int) : Effect Int :=
  ⟨[funcLog "hook_PushLocalFrame"], 0, s⟩

def hookGetStringUTFChars (s : Env) (pjstr : Handle) : Effect String :=
  if pjstr = 0 then ⟨[funcLog "hook_GetStringUTFChars", alogd "%s" ["null"]], "null", s⟩
  else ⟨[funcLog "hook_GetStringUTFChars", alogd "%s" ["parse urself"]], "parse urself", s⟩

def hookReleaseStringUTFChars (s : Env) (_pjstr : Handle) (cchr : String) : Effect Unit :=
  ⟨[funcLog "hook_ReleaseStringUTFChars", alogd "%s" [cchr]], (), s⟩

def hookThrow (s : Env) (_exc : Handle) : Effect Int :=
  ⟨[funcLog "hook_Throw"], 0, { s with hasException := true }⟩

/-! ## The function tables -/

/-- The slots of the call families that `initial()` assigns. -/
inductive CallSlot
  | callStaticObjectMethod | callStaticObjectMethodA | callStaticObjectMethodV
  | callObjectMethod | callObjectMethodV | callObjectMethodA
  | callIntMethod | callIntMethodV | callIntMethodA
  | callShortMethod | callShortMethodV | callShortMethodA
  | callStaticLongMethodV
  | newObject | newObjectV | newObjectA
  deriving DecidableEq, Repr

/-- A call through one of the slots that `initial()` assigns, with handles of
type `η`. -/
inductive Call (η : Type)
  | findClass (className : String)
  | registerNatives (cls : η) (methods : List JNINativeMethod) (n : Int)
  | fromReflectedMethod (method : η)
  | fromReflectedField (field : η)
  | toReflectedMethod (cls mid : η) (isStatic : Bool)
  | getObjectClass (obj : η)
  | getMethodID (cls : η) (name sig : String)
  | getStaticMethodID (cls : η) (name sig : String)
  | call (slot : CallSlot) (obj mid : η) (args : List JValue)
  | deleteLocalRef (obj : η)
  | deleteGlobalRef (obj : η)
  | newGlobalRef (obj : η)
  | exceptionClear
  | exceptionDescribe
  | fatalError (msg : String)
  | popLocalFrame (result : η)
  | pushLocalFrame (capacity : Int)
  | exceptionCheck
  | exceptionOccurred
  | getStringUTFChars (str : η)
  | releaseStringUTFChars (str : η) (chars : String)
  | throw (exc : η)
  | getEnv (version : Int)
  | destroyJavaVM
  | detachCurrentThread
  | attachCurrentThread
  | attachCurrentThreadAsDaemon
  deriving DecidableEq, Repr

namespace Call

variable {η θ : Type}

def map (f : η → θ) : Call η → Call θ
  | findClass n => findClass n
  | registerNatives c ms n => registerNatives (f c) ms n
  | fromReflectedMethod o => fromReflectedMethod (f o)
  | fromReflectedField o => fromReflectedField (f o)
  | toReflectedMethod c m b => toReflectedMethod (f c) (f m) b
  | getObjectClass o => getObjectClass (f o)
  | getMethodID c n s => getMethodID (f c) n s
  | getStaticMethodID c n s => getStaticMethodID (f c) n s
  | call k o m as => call k (f o) (f m) as
  | deleteLocalRef o => deleteLocalRef (f o)
  | deleteGlobalRef o => deleteGlobalRef (f o)
  | newGlobalRef o => newGlobalRef (f o)
  | exceptionClear => exceptionClear
  | exceptionDescribe => exceptionDescribe
  | fatalError m => fatalError m
  | popLocalFrame o => popLocalFrame (f o)
  | pushLocalFrame n => pushLocalFrame n
  | exceptionCheck => exceptionCheck
  | exceptionOccurred => exceptionOccurred
  | getStringUTFChars o => getStringUTFChars (f o)
  | releaseStringUTFChars o s => releaseStringUTFChars (f o) s
  | throw o => throw (f o)
  | getEnv v => getEnv v
  | destroyJavaVM => destroyJavaVM
  | detachCurrentThread => detachCurrentThread
  | attachCurrentThread => attachCurrentThread
  | attachCurrentThreadAsDaemon => attachCurrentThreadAsDaemon

/-- The `jobject`, `jclass` and `jthrowable` arguments. -/
def objects : Call η → List η
  | registerNatives c _ _ | getMethodID c _ _ | getStaticMethodID c _ _
  | toReflectedMethod c _ _ => [c]
  | call _ o _ _ => [o]
  | fromReflectedMethod o | fromReflectedField o | getObjectClass o | deleteLocalRef o
  | deleteGlobalRef o | newGlobalRef o | popLocalFrame o | throw o => [o]
  | _ => []

def handles : Call η → List η
  | toReflectedMethod c m _ => [c, m]
  | call _ o m _ => [o, m]
  | getStringUTFChars o | releaseStringUTFChars o _ => [o]
  | c => c.objects

end Call

/-- The call families: each slot with the hook assigned to it. -/
def CallSlot.serve (slot : CallSlot) (s : Env) (obj mid : Handle) (args : List JValue) :
    Effect (Answer Handle) :=
  match slot with
  | callStaticObjectMethod => (hookCallStaticObjectMethod s obj mid args).answer .jobject
  | callStaticObjectMethodA => (hookCallStaticObjectMethodA s obj mid args).answer .jobject
  | callStaticObjectMethodV => (hookCallStaticObjectMethodV s obj mid args).answer .jobject
  | callObjectMethod => (hookCallObjectMethod s obj mid args).answer .jobject
  | callObjectMethodV => (hookCallObjectMethodV s obj mid args).answer .jobject
  | callObjectMethodA => (hookCallObjectMethodA s obj mid args).answer .jobject
  | callIntMethod => (hookCallObjectMethod s obj mid args).answer .jintOf
  | callIntMethodV => (hookCallObjectMethodV s obj mid args).answer .jintOf
  | callIntMethodA => (hookCallObjectMethodA s obj mid args).answer .jintOf
  | callShortMethod => (hookCallObjectMethod s obj mid args).answer .jshortOf
  | callShortMethodV => (hookCallObjectMethodV s obj mid args).answer .jshortOf
  | callShortMethodA => (hookCallObjectMethodA s obj mid args).answer .jshortOf
  | callStaticLongMethodV => (hookCallStaticLongMethodV s obj mid args).answer .jlongOf
  | newObject => (hookNewObject s obj mid args).answer .jobject
  | newObjectV => (hookNewObjectV s obj mid args).answer .jobject
  | newObjectA => (hookNewObjectA s obj mid args).answer .jobject

/-- A call through the installed tables. -/
def serve (A : Allocator) (s : Env) : Call Handle → Effect (Answer Handle)
  | .findClass n => (hookFindClass A s n).answer .jclass
  | .registerNatives c ms n => (hookRegisterNatives s c ms n).answer .jint
  | .fromReflectedMethod o => (hookFromReflectedMethod s o).answer .jmethodID
  | .fromReflectedField o => (hookFromReflectedField s o).answer .jfieldID
  | .toReflectedMethod c m b => (hookToReflectedMethod s c m b).answer .jobject
  | .getObjectClass o => (hookGetObjectClass s o).answer fun r => r.elim .segv .jclass
  | .getMethodID c n sig => (hookGetMethodID A s c n sig).answer .jmethodID
  | .getStaticMethodID c n sig => (hookGetStaticMethodID A s c n sig).answer .jmethodID
  | .call slot o m args => slot.serve s o m args
  | .deleteLocalRef o => (hookDeleteGlobalRef s o).answer fun _ => .void
  | .deleteGlobalRef o => (hookDeleteGlobalRef s o).answer fun _ => .void
  | .newGlobalRef o => (hookNewGlobalRef s o).answer .jobject
  | .exceptionClear => (hookExceptionClear s).answer fun _ => .void
  | .exceptionDescribe => (hookExceptionDescribe s).answer fun _ => .void
  | .fatalError m => (hookFatalError s m).answer fun _ => .void
  | .popLocalFrame _ => (tryError s).answer fun _ => .indeterminate
  | .pushLocalFrame n => (hookPushLocalFrame s n).answer .jint
  | .exceptionCheck => (hookExceptionCheck s).answer .jboolean
  | .exceptionOccurred => (hookExceptionOccurred s).answer .jthrowable
  | .getStringUTFChars o => (hookGetStringUTFChars s o).answer .chars
  | .releaseStringUTFChars o cs => (hookReleaseStringUTFChars s o cs).answer fun _ => .void
  | .throw o => (hookThrow s o).answer .jint
  | .getEnv v => (hookGetEnv s v).answer fun _ => .env
  | .destroyJavaVM => (hookDestoryJavaVM s).answer .jint
  | .detachCurrentThread => (hookDetachCurrentThread s).answer .jint
  | .attachCurrentThread => (hookAttachCurrentThread s).answer .jint
  | .attachCurrentThreadAsDaemon => (hookAttachCurrentThreadAsDaemon s).answer .jint

/-- `Java_com_example_myapplication_MainActivity_initial`: new function tables
are filled; no other global is touched. -/
def initial (s : Env) : Env := { s with functions := true }

/-! ## Runs -/

structure Reply (η : Type) where
  lines : List LogLine
  answer : Answer η
  deriving DecidableEq, Repr

/-- Before `initial()` the table pointers are null. -/
def step (A : Allocator) (s : Env) (c : Call Handle) : Reply Handle × Env :=
  if s.functions then (⟨(serve A s c).lines, (serve A s c).value⟩, (serve A s c).env)
  else (⟨[], .segv⟩, s)

/-- The fake environment as a machine; a fault ends the process. -/
def machine (A : Allocator) : Machine Env (Call Handle) (Reply Handle) where
  step := step A
  stops r := r.answer.isSegv

/-- A run from empty tables. -/
def run (A : Allocator) (calls : List (Call Handle)) :
    List (Event Env (Call Handle) (Reply Handle)) :=
  (machine A).trace (initial Env.start) calls

def log {σ ι η : Type} (events : List (Event σ ι (Reply η))) : List LogLine :=
  events.flatMap fun e => e.output.lines

end JniDegger.FakeEnv
