import JniDegger.Registry

/-!
# Scripts against the registry

A script is a list of calls whose handle arguments are fixed values or results
of its own earlier steps.  Proved here, for every script that asks for no empty
name and fixes no value the allocator returns:

* `matches_step`: a step of the fake environment is a step of the registry, with
  every answer so far read through `Env.meaning`;
* `script_refines`: so the replies of a whole script, read at its end, are the
  registry's replies.
-/

namespace JniDegger.FakeEnv

open Runs InternTable

/-- A handle argument of a script. -/
inductive Arg
  | fixed (v : Handle)
  /-- The handle-typed result of step `i`. -/
  | result (i : Nat)
  deriving DecidableEq, Repr

/-- A step that answered no handle is referred to in vain and reads as null. -/
def Arg.resolve {η : Type} (const : Handle → η) (answers : List (Reply η)) : Arg → η
  | .fixed v => const v
  | .result i => (answers[i]?.bind fun r => r.answer.handle?).getD (const 0)

/-- The fake environment, driven by scripts. -/
def scriptMachine (A : Allocator) :
    Machine (Env × List (Reply Handle)) (Call Arg) (Reply Handle) :=
  (machine A).scripted fun answers c => c.map (Arg.resolve id answers)

/-- The registry, driven by scripts. -/
def Registry.scriptMachine :
    Machine (Registry × List (Reply Meaning)) (Call Arg) (Reply Meaning) :=
  Registry.machine.scripted fun answers c => c.map (Arg.resolve .value answers)

/-- The call asks for no empty name, and fixes no value among the first `N`
addresses. -/
structure Scriptable (A : Allocator) (N : Nat) (c : Call Arg) : Prop where
  named : c.Named
  fixed : ∀ v, Arg.fixed v ∈ c.handles → v ∉ A.used N

/-- The registry, at the meanings of the answers so far, with `rest` still to come
and `N` allocations at the end.  `U` holds the addresses that were left without a
name before the script began. -/
structure Matches (A : Allocator) (U : Set Handle) (N : Nat) (s : Env × List (Reply Handle))
    (r : Registry × List (Reply Meaning)) (rest : List (Call Arg)) : Prop where
  represents : Represents A s.1 r.1
  answers : r.2 = s.2.map (Reply.map s.1.meaning)
  stable : ∀ a ∈ s.2, ∀ h ∈ a.answer.carried?, Stable A N s.1 h
  named : ∀ h ∈ A.used s.1.news, (s.1.meaning h).Real ∨ h ∈ U
  scriptable : ∀ c ∈ rest, Scriptable A N c
  allocations : ((scriptMachine A).final s rest).1.news ≤ N

section Step

variable {A : Allocator} {N : Nat} {s : Env}

theorem script_grows {s : Env × List (Reply Handle)} (hs : WF A s.1) (script : List (Call Arg)) :
    Grows s.1 ((scriptMachine A).final s script).1 :=
  (Machine.after_le_final (M := scriptMachine A) (fun s => WF A s.1) (fun s t => Grows s.1 t.1)
    (fun s => Grows.refl s.1) (fun _ _ _ => Grows.trans) (fun s _ h => machine_wf s.1 _ h)
    (fun s _ h => machine_grows s.1 _ h) hs script).1

/-- An argument resolves to a stable handle, and to its meaning in the registry. -/
theorem resolve_meaning (hs : WF A s) (hN : s.news ≤ N) {answers : List (Reply Handle)}
    (hst : ∀ a ∈ answers, ∀ h ∈ a.answer.carried?, Stable A N s h) {a : Arg}
    (hfix : ∀ v, a = .fixed v → v ∉ A.used N) :
    Stable A N s (a.resolve id answers) ∧
      a.resolve .value (answers.map (Reply.map s.meaning)) = s.meaning (a.resolve id answers) := by
  have hnull := stable_null A N s
  have hzero : s.meaning 0 = .value 0 :=
    meaning_of_not_used hs fun h => Allocator.ne_null_of_used h rfl
  cases a with
  | fixed v =>
    have hv := hfix v rfl
    exact ⟨Or.inr hv, (meaning_of_not_used hs fun h => hv (A.used_mono hN h)).symm⟩
  | result i =>
    simp only [Arg.resolve, List.getElem?_map]
    cases hi : answers[i]? with
    | none => exact ⟨hnull, hzero.symm⟩
    | some r =>
      cases hr : r.answer.handle? with
      | none => simp [hr, hnull, hzero]
      | some h =>
        have hh := hst r (List.mem_of_getElem? hi) h (Answer.carried?_of_handle? hr)
        simp [hr, hh]

theorem serve_allocated (hs : WF A s) {c : Call Handle} (hc : c.Named) {h : Handle}
    (hh : h ∈ A.used (serve A s c).env.news) :
    h ∈ A.used s.news ∨ ((serve A s c).env.meaning h).Real := by
  have hs' := serve_wf hs c
  rcases serve_cases A s c with hn | ⟨n, rfl, -, he⟩ | ⟨cls, fn, t, hl, -, he⟩
  · rw [hn.news] at hh
    exact Or.inl hh
  · have hn : n ≠ "" := hc (.cls n) rfl
    rw [he] at hh hs' ⊢
    rw [Env.newClass, A.used_succ] at hh
    rcases hh with rfl | hh
    · refine Or.inr ?_
      rw [(meaning_eq_cls_iff hn).mpr ((binds_newClass hs).mpr (Or.inr ⟨rfl, rfl, hn⟩))]
      exact hn
    · exact Or.inl hh
  · have ht : t ≠ "" := hc (.method t) (by cases c <;> cases hl <;> rfl)
    have hw := (sameNames_touchClass s cls).wf hs
    rw [he] at hh hs' ⊢
    rw [Env.newMethod, A.used_succ] at hh
    rcases hh with rfl | hh
    · refine Or.inr ?_
      rw [(meaning_eq_method_iff hs' ht).mpr
        ((binds_newMethod hw).mpr (Or.inr ⟨rfl, rfl, ht⟩))]
      exact ht
    · exact Or.inl hh

/-- The call a step makes: allowed on stable handles only, and in the registry the
call at their meanings. -/
theorem resolved_call (hs : WF A s) (hN : s.news ≤ N) {answers : List (Reply Handle)}
    (hst : ∀ a ∈ answers, ∀ h ∈ a.answer.carried?, Stable A N s h) {c : Call Arg}
    (hc : Scriptable A N c) :
    (c.map (Arg.resolve id answers)).Named ∧
      (∀ h ∈ (c.map (Arg.resolve id answers)).handles, Stable A N s h) ∧
      c.map (Arg.resolve .value (answers.map (Reply.map s.meaning))) =
        (c.map (Arg.resolve id answers)).map s.meaning := by
  have hargs : ∀ a ∈ c.handles, Stable A N s (a.resolve id answers) ∧
      a.resolve .value (answers.map (Reply.map s.meaning)) = s.meaning (a.resolve id answers) := by
    intro a ha
    exact resolve_meaning hs hN hst fun v hv => hc.fixed v (hv ▸ ha)
  refine ⟨?_, ?_, ?_⟩
  · rw [Call.Named, Call.interned?_map]
    exact hc.named
  · intro h hh
    rw [Call.handles_map] at hh
    obtain ⟨a, ha, rfl⟩ := List.mem_map.mp hh
    exact (hargs a ha).1
  · rw [Call.map_map]
    exact Call.map_congr fun a ha => (hargs a ha).2

theorem scriptMachine_step (hs : WF A s) (answers : List (Reply Handle)) (c : Call Arg) :
    (scriptMachine A).step (s, answers) c =
      (s.reply A (c.map (Arg.resolve id answers)),
        (serve A s (c.map (Arg.resolve id answers))).env,
        answers ++ [s.reply A (c.map (Arg.resolve id answers))]) := by
  simp only [scriptMachine, Machine.scripted, machine, step_eq hs.functions, Env.reply]

theorem Registry.scriptMachine_step (r : Registry) (answers : List (Reply Meaning))
    (c : Call Arg) : Registry.scriptMachine.step (r, answers) c =
      (r.reply (c.map (Arg.resolve .value answers)), r.after c,
        answers ++ [r.reply (c.map (Arg.resolve .value answers))]) := by
  simp [Registry.scriptMachine, Machine.scripted, Registry.machine, Registry.after]

theorem news_step_le (hs : WF A s) {answers : List (Reply Handle)} {c : Call Arg}
    {rest : List (Call Arg)} (hN : ((scriptMachine A).final (s, answers) (c :: rest)).1.news ≤ N) :
    (serve A s (c.map (Arg.resolve id answers))).env.news ≤ N := by
  rw [Machine.final_cons, scriptMachine_step hs] at hN
  exact (script_grows (serve_wf hs _) _).news.trans hN

end Step

/-- **One step of a script is one step of the registry.** -/
theorem matches_step {A : Allocator} (h1 : ∀ i, A.addr i ≠ 1) {U : Set Handle} {N : Nat}
    (s : Env × List (Reply Handle)) (r : Registry × List (Reply Meaning)) (c : Call Arg)
    (rest : List (Call Arg)) (hm : Matches A U N s r (c :: rest)) :
    (scriptMachine A).stops ((scriptMachine A).step s c).1 =
        Registry.scriptMachine.stops (Registry.scriptMachine.step r c).1 ∧
      Matches A U N ((scriptMachine A).step s c).2 (Registry.scriptMachine.step r c).2
        (if (scriptMachine A).stops ((scriptMachine A).step s c).1 then [] else rest) := by
  have hend := hm.allocations
  obtain ⟨s, answers⟩ := s
  obtain ⟨r, ranswers⟩ := r
  obtain ⟨hrep, rfl, hst, hnamed, hscr, -⟩ := hm
  have hs := hrep.wf
  have hN := news_step_le hs hend
  have hg := serve_grows hs (c.map (Arg.resolve id answers))
  have hrep' := serve_represents hrep (c.map (Arg.resolve id answers))
  obtain ⟨hname, hstable, hcall⟩ :=
    resolved_call hs (hg.news.trans hN) hst (hscr c List.mem_cons_self)
  obtain ⟨hreply, hans⟩ := serve_refines hrep h1 hname hstable hN
  rw [Machine.final_cons] at hend
  rw [scriptMachine_step hs] at hend ⊢
  rw [Registry.scriptMachine_step, hcall, hreply]
  refine ⟨?_, ?_, ?_, ?_, ?_, ?_, hend⟩
  · simp [scriptMachine, Registry.scriptMachine, Machine.scripted, machine, Registry.machine]
  · simpa [Registry.after] using hrep'
  · -- the meanings of earlier answers have not changed
    simp only [List.map_append, List.map_cons, List.map_nil, List.append_cancel_right_eq]
    refine List.map_congr_left fun a ha => Reply.map_congr fun h hh => ?_
    exact ((hst a ha h hh).meaning hs hrep'.wf hg hN).symm
  · intro a ha h hh
    rcases List.mem_append.mp ha with ha | ha
    · exact (hst a ha h hh).mono hs hrep'.wf hg hN
    · rw [List.mem_singleton.mp ha] at hh
      exact hans h hh
  · intro h hh
    rcases serve_allocated hs hname hh with hu | hr
    · rcases hnamed h hu with hr | hU
      · have hold : Stable A N s h := Or.inl hr
        refine Or.inl ?_
        rw [hold.meaning hs hrep'.wf hg hN]
        exact hr
      · exact Or.inr hU
    · exact Or.inl hr
  · intro c' hc'
    split at hc'
    · exact absurd hc' List.not_mem_nil
    · exact hscr c' (List.mem_cons_of_mem c hc')

/-- **A script of the fake environment is a script of the registry**: at its end
the answers mean what the registry answered. -/
theorem script_refines {A : Allocator} (h1 : ∀ i, A.addr i ≠ 1) {U : Set Handle} {N : Nat}
    {s : Env × List (Reply Handle)} {r : Registry × List (Reply Meaning)}
    {script : List (Call Arg)} (hm : Matches A U N s r script) :
    Matches A U N ((scriptMachine A).final s script) (Registry.scriptMachine.final r script) [] :=
  Machine.final_simulation (matches_step h1) hm

def runScript (A : Allocator) (s : Env) (script : List (Call Arg)) :
    List (Event (Env × List (Reply Handle)) (Call Arg) (Reply Handle)) :=
  (scriptMachine A).trace (s, []) script

def finalEnv (A : Allocator) (s : Env) (script : List (Call Arg)) : Env :=
  ((scriptMachine A).final (s, []) script).1

/-- The replies of a whole script, read at its end, are the registry's replies. -/
theorem script_matches {A : Allocator} (h1 : ∀ i, A.addr i ≠ 1) {U : Set Handle} {s : Env}
    {r : Registry} {script : List (Call Arg)} (hr : Represents A s r)
    (hnamed : ∀ h ∈ A.used s.news, (s.meaning h).Real ∨ h ∈ U)
    (hscript : ∀ c ∈ script, Scriptable A (finalEnv A s script).news c) :
    Matches A U (finalEnv A s script).news
      (finalEnv A s script, (runScript A s script).map Event.output)
      (Registry.scriptMachine.final (r, []) script) [] := by
  have hstart : Matches A U (finalEnv A s script).news (s, []) (r, []) script :=
    { represents := hr
      answers := rfl
      stable := fun a ha => absurd ha List.not_mem_nil
      named := hnamed
      scriptable := hscript
      allocations := Nat.le_refl _ }
  have hm := script_refines h1 hstart
  have hans : ((scriptMachine A).final (s, []) script).2 =
      (runScript A s script).map Event.output := by
    rw [scriptMachine, Machine.scripted_answers]
    rfl
  have hend : (scriptMachine A).final (s, []) script =
      (finalEnv A s script, (runScript A s script).map Event.output) := Prod.ext rfl hans
  rwa [hend] at hm

theorem log_eq {σ ι η : Type} (events : List (Event σ ι (Reply η))) :
    log events = (events.map Event.output).flatMap Reply.lines := by
  rw [log, List.flatMap_map]

theorem log_congr {σ τ ι κ η θ : Type} {f : η → θ} {es : List (Event σ ι (Reply η))}
    {fs : List (Event τ κ (Reply θ))}
    (h : fs.map Event.output = es.map fun e => e.output.map f) : log es = log fs := by
  rw [log_eq, log_eq, h, List.flatMap_map, List.flatMap_map]
  rfl

/-! ## Carrying handles from one process to another -/

/-- The handle of `s'` that stands for what `h` stands for in `s`. -/
def relocate (s s' : Env) (h : Handle) : Handle := (s'.locate? (s.meaning h)).getD h

section Relocate

variable {A' : Allocator} {s s' : Env}

theorem relocate_eq (hs' : WF A' s') {h h' : Handle} (hm : s.meaning h = s'.meaning h') :
    relocate s s' h = h' := by
  by_cases hr : (s.meaning h).Real
  · rw [relocate, (locate?_eq_some_iff hs' hr).mpr hm.symm]
    rfl
  · have hv : s'.meaning h' = .value h' := meaning_eq_value (by rw [← hm]; exact hr)
    rw [relocate, hm, hv]
    rfl

theorem relocate_of_not_used {A : Allocator} (hs : WF A s) {h : Handle}
    (hh : h ∉ A.used s.news) : relocate s s' h = h := by
  rw [relocate, meaning_of_not_used hs hh]
  rfl

theorem Answer.map_relocate (hs' : WF A' s') {a b : Answer Handle}
    (h : a.map s.meaning = b.map s'.meaning) : b = a.map (relocate s s') := by
  cases a <;> cases b <;> simp only [Answer.map, reduceCtorEq, Answer.jclass.injEq,
    Answer.jobject.injEq, Answer.jthrowable.injEq, Answer.jmethodID.injEq, Answer.jfieldID.injEq,
    Answer.jintOf.injEq, Answer.jshortOf.injEq, Answer.jlongOf.injEq] at h ⊢ <;>
    first | exact (relocate_eq hs' h).symm | (cases h; rfl)

theorem replies_relocate (hs' : WF A' s') {as as' : List (Reply Handle)}
    (hm : as.map (Reply.map s.meaning) = as'.map (Reply.map s'.meaning)) :
    as' = as.map (Reply.map (relocate s s')) := by
  induction as generalizing as' with
  | nil => simpa using hm.symm
  | cons a as ih =>
    cases as' with
    | nil => cases hm
    | cons a' as' =>
      simp only [List.map_cons, List.cons.injEq] at hm ⊢
      refine ⟨?_, ih hm.2⟩
      obtain ⟨lines, ans⟩ := a
      obtain ⟨lines', ans'⟩ := a'
      have hlines : lines = lines' := congrArg Reply.lines hm.1
      have hans : ans.map s.meaning = ans'.map s'.meaning := congrArg Reply.answer hm.1
      rw [Reply.map, hlines, Answer.map_relocate hs' hans]

end Relocate

end JniDegger.FakeEnv
