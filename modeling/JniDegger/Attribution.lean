import JniDegger.ClosedHandles
import JniDegger.Registry

/-!
# Which class a call is attributed to

The hooks that stand for a method call, a constructor or a new reference return the
handle they were given, so an object keeps the handle of its class along any chain of
such calls.  Proved here:

* `serve_passes`: a call that hands an object on returns the handle it was given;
* `serve_className`: a line names the class that the object of the call reads as;
* `Chain.binds`: along a chain the handle stays bound to the class it was found for;
* `attributed`: the lines, the answers and the native methods of every later call on
  the handle.
-/

namespace JniDegger.FakeEnv

open Runs InternTable

/-! ## The class a line names -/

/-- The class name in a line, at the place its format gives it. -/
def LogLine.className? (line : LogLine) : Option String :=
  if line.fmt = "hook_RegisterNatives %s.%s %s %p" ∨ line.fmt = "hook_GetObjectClass %s" then
    match line.args with
    | .str c :: _ => some c
    | _ => none
  else if line.fmt = "%s %s.%s" ∨ line.fmt = "%s %s %s" then
    match line.args with
    | _ :: .str c :: _ => some c
    | _ => none
  else if line.fmt = "%s %s" then
    match line.args with
    | [.str fn, .str c] =>
      if fn = "hook_NewGlobalRef" ∨ fn = "hook_DeleteGlobalRef" then some c else none
    | _ => none
  else none

/-- The line of one entry of a `RegisterNatives` call on the class `n`. -/
def nativeLine (n : String) (m : JNINativeMethod) : LogLine :=
  ⟨"hook_RegisterNatives %s.%s %s %p", [.str n, .str m.name, .str m.signature, .ptr m.fnPtr]⟩

section Lines

variable (fn c t : String)

@[simp]
theorem className?_funcLog : (funcLog fn).className? = none := by
  simp [funcLog, alogd, LogLine.className?]

@[simp]
theorem className?_call : (alogd "%s %s %s" [fn, c, t]).className? = some c := by
  simp [alogd, LogLine.className?]

@[simp]
theorem className?_lookup : (alogd "%s %s.%s" [fn, c, t]).className? = some c := by
  simp [alogd, LogLine.className?]

@[simp]
theorem className?_getObjectClass :
    (alogd "hook_GetObjectClass %s" [c]).className? = some c := by
  simp [alogd, LogLine.className?]

@[simp]
theorem className?_reference : (alogd "%s %s" [fn, c]).className? =
    if fn = "hook_NewGlobalRef" ∨ fn = "hook_DeleteGlobalRef" then some c else none := by
  simp [alogd, LogLine.className?]

@[simp]
theorem className?_nativeLine (m : JNINativeMethod) : (nativeLine c m).className? = some c := by
  simp [nativeLine, LogLine.className?]

end Lines

theorem serve_registerNatives (A : Allocator) (s : Env) (cls : Handle)
    (ms : List JNINativeMethod) (n : Int) :
    (serve A s (.registerNatives cls ms n)).lines =
      (ms.take n.toNat).map (nativeLine (s.clsName cls)) := rfl

/-- The second line of `hook_CallObjectMethodA` prints a method where a line of its format
may print a class. -/
theorem className?_slot {slot : CallSlot} {c t m : String} {line : LogLine}
    (hl : line ∈ slot.lines c t) (hm : line.className? = some m) : m = c := by
  have hname : ¬ (slot.hookName = "hook_NewGlobalRef" ∨ slot.hookName = "hook_DeleteGlobalRef") := by
    cases slot <;> simp [CallSlot.hookName]
  rw [CallSlot.lines] at hl
  split at hl
  · rw [List.mem_singleton.mp hl, className?_call] at hm
    exact (Option.some.inj hm).symm
  · rcases List.mem_cons.mp hl with rfl | hl
    · rw [className?_funcLog] at hm
      cases hm
    · rw [List.mem_singleton.mp hl, className?_reference, if_neg hname] at hm
      cases hm

/-- **A line names the class that the object of the call reads as.** -/
theorem serve_className {A : Allocator} {s : Env} {c : Call Handle} {o : Handle}
    (ho : o ∈ c.objects) {line : LogLine} (hl : line ∈ (serve A s c).lines) {m : String}
    (hm : line.className? = some m) : m = s.clsName o := by
  have hobs : (serve A s c).lines = _ := congrArg Reply.lines (serve_observe A s c)
  rw [hobs] at hl
  cases c with
  | registerNatives cls ms n =>
    obtain ⟨e, -, rfl⟩ := List.mem_map.mp hl
    have hname := className?_nativeLine (s.clsName cls) e
    rw [List.mem_singleton.mp ho]
    exact Option.some.inj (hm.symm.trans hname)
  | call slot obj mid args =>
    rw [List.mem_singleton.mp ho]
    exact className?_slot hl hm
  | getObjectClass obj =>
    simp only [observe] at hl
    split at hl <;> simp_all [Call.objects, Env.reading]
  | getMethodID cls n sig =>
    simp only [observe] at hl
    split at hl <;> simp_all [Call.objects, Env.reading]
  | getStaticMethodID cls n sig =>
    simp only [observe] at hl
    split at hl <;> simp_all [Call.objects, Env.reading]
  | _ => simp_all [Call.objects, observe, Env.reading]

/-! ## Chains of calls -/

/-- The object that a call through `CallStaticObjectMethod`, `CallObjectMethod` or
`NewObject`, in any form, or through `NewGlobalRef` or `GetObjectClass` is made on. -/
def Call.passes? {η : Type} : Call η → Option η
  | .call slot o _ _ =>
    match slot with
    | .callStaticObjectMethod | .callStaticObjectMethodA | .callStaticObjectMethodV
    | .callObjectMethod | .callObjectMethodV | .callObjectMethodA
    | .newObject | .newObjectV | .newObjectA => some o
    | _ => none
  | .newGlobalRef o | .getObjectClass o => some o
  | _ => none

/-- **Handing on returns the handle.** -/
theorem serve_passes {A : Allocator} {s : Env} {c : Call Handle} {h h' : Handle}
    (hc : c.passes? = some h) (hv : (serve A s c).value.object? = some h') : h' = h := by
  cases c with
  | call slot o m args =>
    cases slot <;> cases hc <;> exact (Option.some.inj hv).symm
  | newGlobalRef o =>
    cases hc
    exact (Option.some.inj hv).symm
  | getObjectClass o =>
    cases hc
    rw [serve_getObjectClass] at hv
    split at hv
    · exact (Option.some.inj hv).symm
    · cases hv
  | _ => cases hc

/-- `h` is what event `i` returned, at the end of a chain that begins with
`FindClass(n)` and hands the handle on.  Any other calls may stand in between. -/
inductive Chain (events : List (Event Env (Call Handle) (Reply Handle))) (n : String) :
    Nat → Handle → Prop
  | found {i : Nat} {e : Event Env (Call Handle) (Reply Handle)} {h : Handle}
      (he : events[i]? = some e) (hin : e.input = .findClass n)
      (hout : e.output.answer = .jclass h) : Chain events n i h
  | passed {i j : Nat} {e : Event Env (Call Handle) (Reply Handle)} {h h' : Handle}
      (hc : Chain events n i h) (hij : i < j) (he : events[j]? = some e)
      (hin : e.input.passes? = some h) (hout : e.output.answer.object? = some h') :
      Chain events n j h'

/-- What the run shows of a handle `h` that event `i` returned for the class `n`. -/
structure Attributed (events : List (Event Env (Call Handle) (Reply Handle))) (n : String)
    (i : Nat) (h : Handle) : Prop where
  found : ∀ (k : Nat) (e : Event Env (Call Handle) (Reply Handle)), events[k]? = some e →
    e.input = .findClass n → e.output.answer = .jclass h
  notReal : ∀ (k : Nat) (e : Event Env (Call Handle) (Reply Handle)), i < k →
    events[k]? = some e → e.input = .getObjectClass h → ¬ EntersRealBranch e
  lines : ∀ (k : Nat) (e : Event Env (Call Handle) (Reply Handle)), i < k →
    events[k]? = some e → h ∈ e.input.objects →
      ∀ line ∈ e.output.lines, ∀ m, line.className? = some m → m = n
  natives : ∀ (k : Nat) (e : Event Env (Call Handle) (Reply Handle)) ms, i < k →
    events[k]? = some e → e.input = .registerNatives h ms ms.length →
      e.output.lines = ms.map (nativeLine n)

section Run

variable {A : Allocator} {calls : List (Call Handle)} {n : String}

/-- **The handle of a chain stays bound to the class.** -/
theorem Chain.binds (hn : n ≠ "") {i : Nat} {h : Handle} (hc : Chain (run A calls) n i h) :
    ∃ e, (run A calls)[i]? = some e ∧ Binds e.after.gClassNameMap h n := by
  induction hc with
  | found he hin hout =>
    obtain ⟨h', hh', hb⟩ := run_findClass hn he hin
    rw [hout] at hh'
    cases hh'
    exact ⟨_, he, hb⟩
  | passed hc hij he hin hout ih =>
    obtain ⟨d, hd, hb⟩ := ih
    rw [(run_serve (List.mem_of_getElem? he)).1] at hout
    rw [serve_passes hin hout]
    exact ⟨_, he, (run_grows_after (Nat.le_of_lt hij) hd he).classes _ n hb⟩

theorem Chain.clsName (hn : n ≠ "") {i k : Nat} {h : Handle} (hc : Chain (run A calls) n i h)
    (hik : i < k) {e : Event Env (Call Handle) (Reply Handle)}
    (he : (run A calls)[k]? = some e) : e.before.clsName h = n := by
  obtain ⟨d, hd, hb⟩ := hc.binds hn
  have hlater := (Machine.pairwise_getElem? run_grows hik hd he).classes h n hb
  exact hlater.peek_eq

/-- **Attribution along handle chains.** -/
theorem attributed (hn : n ≠ "") {i : Nat} {h : Handle} (hc : Chain (run A calls) n i h) :
    Attributed (run A calls) n i h where
  found k e he hin := by
    obtain ⟨d, hd, hb⟩ := hc.binds hn
    obtain ⟨h', hh', hb'⟩ := run_findClass hn he hin
    rcases Nat.le_total i k with hik | hki
    · have hone := (run_wf (List.mem_of_getElem? he)).2.classes.one
      rw [hh', hone h' h n hb' ((run_grows_after hik hd he).classes h n hb)]
    · have hone := (run_wf (List.mem_of_getElem? hd)).2.classes.one
      rw [hh', hone h' h n ((run_grows_after hki he hd).classes h' n hb') hb]
  notReal k e hik he hin := by
    rintro ⟨o, ho, hans⟩
    rw [hin] at ho
    cases ho
    rw [(run_serve (List.mem_of_getElem? he)).1, hin, serve_getObjectClass,
      hc.clsName hn hik he, if_pos hn] at hans
    cases hans
  lines k e hik he ho line hl m hm := by
    rw [(run_serve (List.mem_of_getElem? he)).1] at hl
    rw [serve_className ho hl hm, hc.clsName hn hik he]
  natives k e ms hik he hin := by
    rw [(run_serve (List.mem_of_getElem? he)).1, hin, serve_registerNatives,
      hc.clsName hn hik he, Int.toNat_natCast, List.take_length]

end Run

/-- An object of a class, kept through a reference that is deleted, and two native
methods registered on it. -/
def nativesOnObject : List (Call Handle) :=
  [.findClass "A", .call .newObject 16 0 [], .newGlobalRef 16, .deleteLocalRef 16,
    .registerNatives 16 [⟨"f", "()V", 7⟩, ⟨"g", "()I", 9⟩] 2]

theorem attributed_nativesOnObject : Attributed (run .bump nativesOnObject) "A" 2 16 := by
  have hfound : Chain (run .bump nativesOnObject) "A" 0 16 := .found rfl rfl rfl
  have hobject : Chain (run .bump nativesOnObject) "A" 1 16 :=
    .passed hfound (by decide) rfl rfl rfl
  exact attributed (by decide) (.passed hobject (by decide) rfl rfl rfl)

end JniDegger.FakeEnv
