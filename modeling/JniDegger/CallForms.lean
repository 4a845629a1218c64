import JniDegger.Registry

/-!
# The three forms of a call

`initial()` installs five JNI calls in a variadic form, in a form that takes a
`va_list` and in one that takes an array.  Proved here:

* `variadic_agrees`: the first two forms of every call agree;
* `forms_agree_iff`: the array form agrees with them exactly where
  `hook_CallObjectMethodA` is not behind it, and there a target may switch between all
  three forms in the middle of a run;
* `not_formsAgree`: a `CallObjectMethodA` that leaves out the class.
-/

namespace JniDegger.FakeEnv

open Runs InternTable

/-- The calls that are installed in all three forms. -/
inductive CallFamily
  | callStaticObjectMethod
  | callObjectMethod
  | callIntMethod
  | callShortMethod
  | newObject
  deriving DecidableEq, Repr

namespace CallFamily

def variadic : CallFamily → CallSlot
  | callStaticObjectMethod => .callStaticObjectMethod
  | callObjectMethod => .callObjectMethod
  | callIntMethod => .callIntMethod
  | callShortMethod => .callShortMethod
  | newObject => .newObject

def vaList : CallFamily → CallSlot
  | callStaticObjectMethod => .callStaticObjectMethodV
  | callObjectMethod => .callObjectMethodV
  | callIntMethod => .callIntMethodV
  | callShortMethod => .callShortMethodV
  | newObject => .newObjectV

def array : CallFamily → CallSlot
  | callStaticObjectMethod => .callStaticObjectMethodA
  | callObjectMethod => .callObjectMethodA
  | callIntMethod => .callIntMethodA
  | callShortMethod => .callShortMethodA
  | newObject => .newObjectA

/-- `hook_CallObjectMethodA` serves the array form of the other three. -/
def Uniform (family : CallFamily) : Prop := family = callStaticObjectMethod ∨ family = newObject

instance (family : CallFamily) : Decidable family.Uniform := by
  unfold Uniform
  infer_instance

end CallFamily

/-- A line without the name of the hook, which every call line begins with. -/
def LogLine.unnamed (line : LogLine) : LogLine := { line with args := line.args.tail }

/-- Two calls that differ in the name of the hook alone: the same value, the same
contents of the tables, the same class name and method text in the log. -/
structure SameCall (r r' : Effect (Answer Handle)) : Prop where
  value : r.value = r'.value
  classes : r.env.gClassNameMap = r'.env.gClassNameMap
  methods : r.env.gMethodIDMap = r'.env.gMethodIDMap
  lines : r.lines.map LogLine.unnamed = r'.lines.map LogLine.unnamed

/-- The three forms of a call, made on the same handles in the same state. -/
def FormsAgree (A : Allocator) (s : Env) (family : CallFamily) (obj mid : Handle)
    (args : List JValue) : Prop :=
  SameCall (serve A s (.call family.variadic obj mid args))
      (serve A s (.call family.vaList obj mid args)) ∧
    SameCall (serve A s (.call family.variadic obj mid args))
      (serve A s (.call family.array obj mid args))

section Forms

variable (A : Allocator) (s : Env) (obj mid : Handle) (args : List JValue)

theorem variadic_agrees (family : CallFamily) :
    SameCall (serve A s (.call family.variadic obj mid args))
      (serve A s (.call family.vaList obj mid args)) := by
  cases family <;> exact ⟨rfl, rfl, rfl, rfl⟩

theorem array_agrees {family : CallFamily} (h : family.Uniform) :
    SameCall (serve A s (.call family.variadic obj mid args))
      (serve A s (.call family.array obj mid args)) := by
  rcases h with rfl | rfl <;> exact ⟨rfl, rfl, rfl, rfl⟩

/-- `hook_CallObjectMethodA` logs two lines. -/
theorem array_differs {family : CallFamily} (h : ¬ family.Uniform) :
    ¬ SameCall (serve A s (.call family.variadic obj mid args))
      (serve A s (.call family.array obj mid args)) := by
  rintro ⟨-, -, -, hlines⟩
  have hlen := congrArg List.length hlines
  cases family
  · exact h (Or.inl rfl)
  · cases hlen
  · cases hlen
  · cases hlen
  · exact h (Or.inr rfl)

end Forms

/-! ## Runs in another form -/

/-- The same call, or the same call in another form of a family whose forms agree. -/
inductive Switched : Call Handle → Call Handle → Prop
  | same (c : Call Handle) : Switched c c
  | form {family : CallFamily} {slot slot' : CallSlot} (obj mid : Handle) (args : List JValue)
      (h : family.Uniform) (hs : slot ∈ [family.variadic, family.vaList, family.array])
      (hs' : slot' ∈ [family.variadic, family.vaList, family.array]) :
      Switched (.call slot obj mid args) (.call slot' obj mid args)

/-- Two replies that differ in the names of the hooks alone. -/
structure SameReply (r r' : Reply Handle) : Prop where
  answer : r.answer = r'.answer
  lines : r.lines.map LogLine.unnamed = r'.lines.map LogLine.unnamed

/-- Two events that differ in the form of the call alone. -/
structure SameEvent (e f : Event Env (Call Handle) (Reply Handle)) : Prop where
  before : e.before = f.before
  reply : SameReply e.output f.output
  after : e.after = f.after

theorem serve_switched {A : Allocator} {s : Env} {c c' : Call Handle} (h : Switched c c') :
    SameReply ⟨(serve A s c).lines, (serve A s c).value⟩
        ⟨(serve A s c').lines, (serve A s c').value⟩ ∧
      (serve A s c).env = (serve A s c').env := by
  cases h with
  | same c => exact ⟨⟨rfl, rfl⟩, rfl⟩
  | form obj mid args h hs hs' =>
    simp only [List.mem_cons, List.not_mem_nil, or_false] at hs hs'
    rcases h with rfl | rfl <;> rcases hs with rfl | rfl | rfl <;>
      rcases hs' with rfl | rfl | rfl <;> exact ⟨⟨rfl, rfl⟩, rfl⟩

/-- **One step in another form.** -/
theorem step_switched {A : Allocator} {s : Env} {c c' : Call Handle} (h : Switched c c') :
    SameReply (step A s c).1 (step A s c').1 ∧ (step A s c).2 = (step A s c').2 := by
  rw [step, step]
  split
  · exact serve_switched h
  · exact ⟨⟨rfl, rfl⟩, rfl⟩

/-- **A run in another form** gives the same answers and leaves the same globals, and its
lines differ in the names of the hooks alone. -/
theorem run_switched {A : Allocator} {calls calls' : List (Call Handle)}
    (h : List.Forall₂ Switched calls calls') :
    List.Forall₂ SameEvent (run A calls) (run A calls') := by
  have hstops : ∀ r r', SameReply r r' → (machine A).stops r = (machine A).stops r' :=
    fun r r' hr => congrArg Answer.isSegv hr.answer
  have hstep : ∀ (s t : Env) c c', s = t → Switched c c' →
      SameReply ((machine A).step s c).1 ((machine A).step t c').1 ∧
        ((machine A).step s c).2 = ((machine A).step t c').2 := by
    rintro s t c c' rfl hc
    exact step_switched hc
  refine (Machine.trace_forall₂ hstops hstep rfl h).imp ?_
  rintro e f ⟨hbefore, -, hreply, hafter⟩
  exact ⟨hbefore, hreply, hafter⟩

/-- **When the three forms agree.**  In every state and on all handles the three forms of
`CallStaticObjectMethod` and of `NewObject` agree, and those of the other calls do not; and
a run whose calls are switched between forms that agree is the same run. -/
theorem forms_agree_iff (A : Allocator) :
    (∀ s family obj mid args, FormsAgree A s family obj mid args ↔ family.Uniform) ∧
      ∀ calls calls', List.Forall₂ Switched calls calls' →
        List.Forall₂ SameEvent (run A calls) (run A calls') := by
  refine ⟨fun s family obj mid args => ⟨fun h => ?_, fun h => ?_⟩, fun _ _ => run_switched⟩
  · by_contra hno
    exact array_differs A s obj mid args hno h.2
  · exact ⟨variadic_agrees A s obj mid args family, array_agrees A s obj mid args h⟩

/-- `NewObject` and `NewObjectA`, and a run that takes one for the other. -/
theorem forms_agree_newObject :
    FormsAgree .bump (initial Env.start) .newObject 16 0 [] ∧
      List.Forall₂ SameEvent (run .bump [.findClass "A", .call .newObject 16 0 []])
        (run .bump [.findClass "A", .call .newObjectA 16 0 []]) := by
  have hfamily : CallFamily.newObject.Uniform := Or.inr rfl
  have hswitched : Switched (.call .newObject 16 0 []) (.call .newObjectA 16 0 []) :=
    .form 16 0 [] hfamily (by decide) (by decide)
  exact ⟨((forms_agree_iff .bump).1 _ _ _ _ _).mpr hfamily,
    (forms_agree_iff .bump).2 _ _ (.cons (.same _) (.cons hswitched .nil))⟩

/-- `CallObjectMethodA` on a class that was found: no line of it names the class. -/
theorem not_formsAgree : ¬ ∀ (A : Allocator) (calls : List (Call Handle)) (family : CallFamily)
    (obj mid : Handle) (args : List JValue),
    FormsAgree A ((machine A).final (initial Env.start) calls) family obj mid args := by
  intro h
  obtain ⟨-, hlines⟩ := h .bump [.findClass "A"] .callObjectMethod 16 0 []
  cases congrArg List.length hlines.lines

end JniDegger.FakeEnv
