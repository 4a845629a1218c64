import JniDegger.Renaming

/-!
# What one session leaves to the next

`initial()` installs new function tables and nothing else: the two name tables and
the pending-exception flag are those the last session left.  Proved here:

* `run_represents`: the registry after a run knows the names the run asked for;
* `inStep_step`: two processes that agree on the method texts a script looks up, on the
  flag it reads and on where its searches for empty names end stay in step;
* `SameAnswers.agree`, `SameAnswers.alike`: two that stay in step have agreed;
* `session_isolated_iff`: so a session is traced as in a fresh process exactly when it
  shares no method text with the run before it, reads no flag left pending and finds
  under empty names what a fresh process finds;
* `not_sessionIsolated`: two sessions that look up one constructor are not.
-/

namespace JniDegger.FakeEnv

open Runs InternTable

/-- The globals of a process in which the calls `R` were made, after the next
`initial()`. -/
def nextSession (A : Allocator) (R : List (Call Handle)) : Env :=
  initial ((machine A).final (initial Env.start) R)

/-- The addresses of the first process after `S` has run in its next session. -/
def allocatedAfter (A : Allocator) (R : List (Call Handle)) (S : List (Call Arg)) : Set Handle :=
  A.used (finalEnv A (nextSession A R) S).news

/-- `S`, run after `R`, logs what it logs in a fresh process, and its answers are
those of the fresh process with the allocated addresses renamed. -/
def SessionIsolated (A A' : Allocator) (R : List (Call Handle)) (S : List (Call Arg)) : Prop :=
  log (runScript A (nextSession A R) S) = log (runScript A' (initial Env.start) S) ∧
    ∃ f : Handle → Handle, Set.InjOn f (allocated A' S) ∧
      Set.MapsTo f (allocated A' S) (allocatedAfter A R S) ∧
      (∀ v, v ∉ allocated A' S → f v = v) ∧
      (runScript A (nextSession A R) S).map Event.output =
        (runScript A' (initial Env.start) S).map fun e => e.output.map f

/-- Every handle argument is null or a result of an earlier step. -/
def SelfContained (S : List (Call Arg)) : Prop := ∀ c ∈ S, ∀ v, Arg.fixed v ∈ c.handles → v = 0

/-- The calls of `S` that a fresh process serves: all of them, or those up to the one
that ends it. -/
def servedFresh (A' : Allocator) (S : List (Call Arg)) : List (Call Arg) :=
  (scriptMachine A').served (initial Env.start, []) S

/-! ## What a run leaves behind -/

/-- The registry after the given calls. -/
def Registry.afterAll {η : Type} (r : Registry) (calls : List (Call η)) : Registry :=
  calls.foldl Registry.after r

theorem Registry.mem_known_afterAll {η : Type} {r : Registry} {calls : List (Call η)}
    {μ : Meaning} : μ ∈ (r.afterAll calls).known ↔
      μ ∈ r.known ∨ ∃ c ∈ calls, c.interned? = some μ := by
  induction calls generalizing r with
  | nil => simp [afterAll]
  | cons c cs ih =>
    have hcons : r.afterAll (c :: cs) = (r.after c).afterAll cs := rfl
    rw [hcons, ih, after]
    simp only [List.mem_append, Option.mem_toList, List.mem_cons, exists_eq_or_imp]
    constructor
    · rintro ((hc | hk) | hcs)
      · exact Or.inr (Or.inl hc)
      · exact Or.inl hk
      · exact Or.inr (Or.inr hcs)
    · rintro (hk | hc | hcs)
      · exact Or.inl (Or.inr hk)
      · exact Or.inl (Or.inl hc)
      · exact Or.inr hcs

/-- **The registry after a run** follows the calls that were served. -/
theorem run_represents {A : Allocator} {s : Env} {r : Registry} (hr : Represents A s r)
    (R : List (Call Handle)) :
    Represents A ((machine A).final s R)
      (r.afterAll (((machine A).trace s R).map Event.input)) := by
  induction R generalizing s r with
  | nil => exact hr
  | cons c cs ih =>
    have hstep : (machine A).step s c =
        (⟨(serve A s c).lines, (serve A s c).value⟩, (serve A s c).env) :=
      step_eq hr.wf.functions c
    have hnext := serve_represents hr c
    rw [Machine.final, Machine.trace, hstep]
    split
    · exact hnext
    · exact ih hnext

/-- `initial()` installs tables that are already there. -/
theorem nextSession_represents {A : Allocator} {R : List (Call Handle)} :
    Represents A (nextSession A R) (Registry.start.afterAll ((run A R).map Event.input)) := by
  have hr := run_represents (represents_start A) R
  have hsame : nextSession A R = (machine A).final (initial Env.start) R := by
    rw [nextSession, initial, ← hr.wf.functions]
  rw [hsame]
  exact hr

/-! ## Two registries in step -/

/-- The script reads the pending-exception flag before it has set it itself. -/
def AsksFirst {η : Type} : List (Call η) → Prop
  | [] => False
  | .exceptionOccurred :: _ => True
  | .throw _ :: _ => False
  | .exceptionClear :: _ => False
  | _ :: cs => AsksFirst cs

/-- `r` answers what is to come like `r'`, as far as it has names. -/
structure Agree (r r' : Registry) (rest : List (Call Arg)) : Prop where
  texts : ∀ c ∈ rest, ∀ t ≠ "", c.interned? = some (.method t) →
    (Meaning.method t ∈ r.known ↔ Meaning.method t ∈ r'.known)
  pending : r.pending = r'.pending ∨ ¬ AsksFirst rest

theorem agree_after {r r' : Registry} {c : Call Arg} {rest : List (Call Arg)}
    (h : Agree r r' (c :: rest)) : Agree (r.after c) (r'.after c) rest where
  texts d hd t hne ht := by
    have hold := h.texts d (List.mem_cons_of_mem c hd) t hne ht
    simp only [Registry.after, List.mem_append, hold]
  pending := by
    rcases h.pending with hp | ha
    · exact Or.inl (by rw [Registry.after, Registry.after, hp])
    · cases c <;> first | exact Or.inl rfl | exact Or.inr ha | exact absurd trivial ha

/-- What keeps a session apart from the run before it: it looks up no method text that
the run looked up, and reads no exception flag that the run left pending. -/
structure Undisturbed (R : List (Call Handle)) (S : List (Call Arg)) : Prop where
  texts : ∀ c ∈ S, ∀ t ≠ "", c.interned? = some (.method t) →
    ∀ d ∈ R, d.interned? ≠ some (.method t)
  pending : (Registry.start.afterAll R).pending = false ∨ ¬ AsksFirst S

theorem undisturbed_iff_agree {R : List (Call Handle)} {S : List (Call Arg)} :
    Undisturbed R S ↔ Agree (Registry.start.afterAll R) .start S := by
  have hknown : ∀ t, Meaning.method t ∈ (Registry.start.afterAll R).known ↔
      ∃ d ∈ R, d.interned? = some (.method t) := by
    intro t
    rw [Registry.mem_known_afterAll]
    simp [Registry.start]
  constructor
  · refine fun h => ⟨fun c hc t hne ht => ?_, h.pending⟩
    rw [hknown]
    constructor
    · rintro ⟨d, hd, hdt⟩
      exact absurd hdt (h.texts c hc t hne ht d hd)
    · exact fun hk => absurd hk List.not_mem_nil
  · refine fun h => ⟨fun c hc t hne ht d hd hdt => ?_, h.pending⟩
    exact absurd ((h.texts c hc t hne ht).mp ((hknown t).mpr ⟨d, hd, hdt⟩)) List.not_mem_nil

/-! ## Empty names -/

/-- The call a step of a script makes. -/
def resolved (answers : List (Reply Handle)) (c : Call Arg) : Call Handle :=
  c.map (Arg.resolve id answers)

abbrev ScriptEvent := Event (Env × List (Reply Handle)) (Call Arg) (Reply Handle)

@[simp]
theorem interned?_resolved {answers : List (Reply Handle)} {c : Call Arg} :
    (resolved answers c).interned? = c.interned? :=
  Call.interned?_map _ c

theorem lookup?_resolved {answers : List (Reply Handle)} {c : Call Arg} :
    (resolved answers c).lookup? = none ↔ c.lookup? = none := by
  rw [← Option.isNone_iff_eq_none, ← Option.isNone_iff_eq_none, ← Option.not_isSome,
    ← Option.not_isSome, resolved, Call.lookup?_isSome_map]

def ScriptEvent.call (e : ScriptEvent) : Call Handle := resolved e.before.2 e.input

/-- Step by step, a search for an empty name ends alike in both processes, and an address
that the second allocated for an empty name is no method text in the first. -/
structure NamelessAlike (A A' : Allocator) (steps : List (ScriptEvent × ScriptEvent)) : Prop where
  entries : ∀ p ∈ steps, ¬ p.2.input.Named →
    SameEntry A A' p.1.before p.2.before p.1.call p.2.call
  methods : ∀ p ∈ steps, ∀ m ∈ p.1.call.readsMethod?, ∀ m' ∈ p.2.call.readsMethod?,
    m' ∈ A'.used p.2.before.1.news → ¬ (p.2.before.1.meaning m').Real →
      p.1.before.1.nameSig m = ""

instance {A A' : Allocator} {s s' : Env × List (Reply Handle)} {c c' : Call Handle} :
    Decidable (SameEntry A A' s s' c c') :=
  decidable_of_iff
    ((c'.lookup? ≠ none → (s.1.interned A c).2 = (s'.1.interned A' c').2) ∧
      (∀ p ∈ s.2.zip s'.2, p.1.answer.carried? = some (s.1.interned A c).1 ↔
        p.2.answer.carried? = some (s'.1.interned A' c').1) ∧
      (s'.1.EndsAtAddress A' c' → s.1.EndsAtAddress A c) ∧
      (¬ s'.1.EndsAtAddress A' c' → (s.1.interned A c).1 = (s'.1.interned A' c').1))
    ⟨fun ⟨h₁, h₂, h₃, h₄⟩ => ⟨h₁, h₂, h₃, h₄⟩,
      fun h => ⟨h.stored, h.answered, h.address, h.value⟩⟩

instance {A A' : Allocator} {steps : List (ScriptEvent × ScriptEvent)} :
    Decidable (NamelessAlike A A' steps) :=
  decidable_of_iff
    ((∀ p ∈ steps, ¬ p.2.input.Named →
        SameEntry A A' p.1.before p.2.before p.1.call p.2.call) ∧
      ∀ p ∈ steps, ∀ m ∈ p.1.call.readsMethod?, ∀ m' ∈ p.2.call.readsMethod?,
        m' ∈ A'.used p.2.before.1.news → ¬ (p.2.before.1.meaning m').Real →
          p.1.before.1.nameSig m = "")
    ⟨fun ⟨h₁, h₂⟩ => ⟨h₁, h₂⟩, fun h => ⟨h.entries, h.methods⟩⟩

theorem NamelessAlike.tail {A A' : Allocator} {p : ScriptEvent × ScriptEvent}
    {steps : List (ScriptEvent × ScriptEvent)} (h : NamelessAlike A A' (p :: steps)) :
    NamelessAlike A A' steps :=
  ⟨fun q hq => h.entries q (List.mem_cons_of_mem p hq),
    fun q hq => h.methods q (List.mem_cons_of_mem p hq)⟩

/-! ## A script, one step after the other -/

/-- What the process replies to a step, and what it is after that. -/
def stepReply (A : Allocator) (s : Env × List (Reply Handle)) (c : Call Arg) : Reply Handle :=
  s.1.reply A (resolved s.2 c)

def afterStep (A : Allocator) (s : Env × List (Reply Handle)) (c : Call Arg) :
    Env × List (Reply Handle) :=
  ((serve A s.1 (resolved s.2 c)).env, s.2 ++ [stepReply A s c])

section Scripts

variable {A A' : Allocator} {f : Handle → Handle} {s s' : Env × List (Reply Handle)}
  {c : Call Arg} {rest : List (Call Arg)}

theorem script_step_eq (hs : WF A s.1) (c : Call Arg) :
    (scriptMachine A).step s c = (stepReply A s c, afterStep A s c) :=
  scriptMachine_step hs s.2 c

/-- The steps left after the reply to the first. -/
def remaining (o : Reply Handle) (rest : List (Call Arg)) : List (Call Arg) :=
  if o.answer.isSegv then [] else rest

theorem script_trace_cons (hs : WF A s.1) (c : Call Arg) (rest : List (Call Arg)) :
    (scriptMachine A).trace s (c :: rest) = ⟨s, c, stepReply A s c, afterStep A s c⟩ ::
      (scriptMachine A).trace (afterStep A s c) (remaining (stepReply A s c) rest) := by
  rw [Machine.trace_cons, script_step_eq hs]
  rfl

theorem script_served_cons (hs : WF A s.1) (c : Call Arg) (rest : List (Call Arg)) :
    (scriptMachine A).served s (c :: rest) =
      c :: (scriptMachine A).served (afterStep A s c) (remaining (stepReply A s c) rest) := by
  rw [Machine.served_cons, script_step_eq hs]
  rfl

theorem script_final_cons (hs : WF A s.1) (c : Call Arg) (rest : List (Call Arg)) :
    (scriptMachine A).final s (c :: rest) =
      (scriptMachine A).final (afterStep A s c) (remaining (stepReply A s c) rest) := by
  rw [Machine.final_cons, script_step_eq hs]
  rfl

theorem remaining_map (f : Handle → Handle) (o : Reply Handle) (rest : List (Call Arg)) :
    remaining (o.map f) rest = remaining o rest := by
  rw [remaining, remaining, Reply.answer_map, Answer.isSegv_map]

theorem SelfContained.remaining (h : SelfContained (c :: rest)) (o : Reply Handle) :
    SelfContained (remaining o rest) := by
  intro d hd
  rw [FakeEnv.remaining] at hd
  split at hd
  · exact absurd hd List.not_mem_nil
  · exact h d (List.mem_cons_of_mem c hd)

theorem represents_afterStep {r : Registry} (hr : Represents A s.1 r) (c : Call Arg) :
    Represents A (afterStep A s c).1 (r.after c) := by
  have hnext := serve_represents hr (resolved s.2 c)
  rw [Registry.after, interned?_resolved, resolved, Call.pendingAfter_map] at hnext
  exact hnext

/-! ## Corresponding arguments -/

theorem resolve_rename {answers : List (Reply Handle)} (h0 : f 0 = 0) {a : Arg}
    (ha : ∀ v, a = .fixed v → v = 0) :
    a.resolve id (answers.map (Reply.map f)) = f (a.resolve id answers) := by
  cases a with
  | fixed v =>
    rw [ha v rfl]
    exact h0.symm
  | result i =>
    simp only [Arg.resolve, List.getElem?_map]
    cases hi : answers[i]? with
    | none => exact h0.symm
    | some o => cases ho : o.answer.handle? <;> simp [ho, h0]

theorem resolved_rename (h0 : f 0 = 0) (hc : SelfContained (c :: rest))
    (hanswers : s.2 = s'.2.map (Reply.map f)) : resolved s.2 c = (resolved s'.2 c).map f := by
  rw [hanswers, resolved, resolved, Call.map_map]
  refine Call.map_congr fun a ha => resolve_rename h0 fun v hv => ?_
  exact hc c List.mem_cons_self v (hv ▸ ha)

theorem resolved_own (he : Enclosed A s) (hc : SelfContained (c :: rest)) :
    ∀ h ∈ (resolved s.2 c).handles, h ∈ A.own s.1.news := by
  intro h hh
  rw [resolved, Call.handles_map] at hh
  obtain ⟨a, ha, rfl⟩ := List.mem_map.mp hh
  exact he.resolve fun v hv => hc c List.mem_cons_self v (hv ▸ ha)

theorem enclosed_afterStep (he : Enclosed A s) (hc : SelfContained (c :: rest)) :
    Enclosed A (afterStep A s c) :=
  enclosed_serve he (resolved_own he hc)

/-! ## Two processes in step -/

/-- The first process answers the rest of the script as the second one does: the
invariant of the simulation. -/
structure InStep (A A' : Allocator) (s s' : Env × List (Reply Handle)) (rest : List (Call Arg)) :
    Prop where
  renamed : ∃ f r r', Renames A A' f s.1 s'.1 ∧ s.2 = s'.2.map (Reply.map f) ∧
    Represents A s.1 r ∧ Represents A' s'.1 r' ∧ Agree r r' ((scriptMachine A').served s' rest)
  enclosed : Enclosed A' s'
  selfContained : SelfContained rest
  alike : NamelessAlike A A' (((scriptMachine A).trace s rest).zip ((scriptMachine A').trace s' rest))

/-- Two processes in step reply alike, and a new address is renamed like the others. -/
theorem InStep.reply (h1 : ∀ i, A.addr i ≠ 1) (h1' : ∀ i, A'.addr i ≠ 1) {r r' : Registry}
    (hf : Renames A A' f s.1 s'.1) (hanswers : s.2 = s'.2.map (Reply.map f))
    (hrep : Represents A s.1 r) (hrep' : Represents A' s'.1 r')
    (hagree : Agree r r' ((scriptMachine A').served s' (c :: rest))) (he : Enclosed A' s')
    (hself : SelfContained (c :: rest))
    (halike : NamelessAlike A A' (((scriptMachine A).trace s (c :: rest)).zip
      ((scriptMachine A').trace s' (c :: rest)))) :
    ∃ g, Renames A A' g (afterStep A s c).1 (afterStep A' s' c).1 ∧
      (∀ h ∈ A'.own s'.1.news, g h = f h) ∧ stepReply A s c = (stepReply A' s' c).map g := by
  have h0 : f 0 = 0 := hf.fixed 0 fun hu => Allocator.ne_null_of_used hu rfl
  have hcall := resolved_rename h0 hself hanswers
  rw [script_trace_cons hrep.wf, script_trace_cons hrep'.wf, List.zip_cons_cons] at halike
  rw [script_served_cons hrep'.wf] at hagree
  rw [stepReply, afterStep, hcall]
  have he' : Enclosed A' (s'.1, s'.2) := he
  refine hf.serve h1 h1' hrep hrep' he' (resolved_own he hself)
    (fun t hne ht => ?_) (fun hocc => ?_) (fun hnot => ?_) (fun slot o m args hm hu hreal => ?_)
  · rw [interned?_resolved] at ht
    exact hagree.texts c List.mem_cons_self t hne ht
  · refine hagree.pending.resolve_right fun hno => hno ?_
    cases c <;> cases hocc
    trivial
  · rw [Call.Named, interned?_resolved] at hnot
    have hentry := halike.entries _ List.mem_cons_self hnot
    rw [← hcall, ← hanswers]
    exact hentry
  · refine halike.methods _ List.mem_cons_self (f m) ?_ m ?_ hu hreal
    · show f m ∈ (resolved s.2 c).readsMethod?
      rw [hcall, hm]
      rfl
    · show m ∈ (resolved s'.2 c).readsMethod?
      rw [hm]
      rfl

/-- **Two processes in step answer a call alike** and are in step again. -/
theorem inStep_step (h1 : ∀ i, A.addr i ≠ 1) (h1' : ∀ i, A'.addr i ≠ 1)
    (s s' : Env × List (Reply Handle)) (c : Call Arg) (rest : List (Call Arg))
    (h : InStep A A' s s' (c :: rest)) :
    (scriptMachine A).stops ((scriptMachine A).step s c).1 =
        (scriptMachine A').stops ((scriptMachine A').step s' c).1 ∧
      InStep A A' ((scriptMachine A).step s c).2 ((scriptMachine A').step s' c).2
        (if (scriptMachine A).stops ((scriptMachine A).step s c).1 then [] else rest) := by
  obtain ⟨⟨f, r, r', hf, hanswers, hrep, hrep', hagree⟩, he, hself, halike⟩ := h
  obtain ⟨g, hg, hold, hreply⟩ :=
    InStep.reply h1 h1' hf hanswers hrep hrep' hagree he hself halike
  rw [script_trace_cons hrep.wf, script_trace_cons hrep'.wf, hreply, remaining_map] at halike
  rw [script_served_cons hrep'.wf] at hagree
  rw [script_step_eq hrep.wf, script_step_eq hrep'.wf, hreply]
  refine ⟨Answer.isSegv_map g _, ?_⟩
  show InStep A A' (afterStep A s c) (afterStep A' s' c)
    (remaining ((stepReply A' s' c).map g) rest)
  rw [remaining_map]
  refine ⟨⟨g, r.after c, r'.after c, hg, ?_, represents_afterStep hrep c,
    represents_afterStep hrep' c, agree_after hagree⟩, enclosed_afterStep he hself,
    hself.remaining _, halike.tail⟩
  rw [afterStep, afterStep, hreply, hanswers, List.map_append, List.map_cons, List.map_nil]
  refine congrArg (· ++ _) (List.map_congr_left fun a ha => Reply.map_congr fun h hh => ?_)
  exact (hold h (he.carried a ha h hh)).symm

/-- In a process that is asked for no empty name every address has a name. -/
theorem named_of_mem_trace (hs : WF A s.1) (hn : ∀ h ∈ A.used s.1.news, (s.1.meaning h).Real)
    (hc : ∀ c ∈ (scriptMachine A).served s rest, c.Named) :
    ∀ e ∈ (scriptMachine A).trace s rest, ∀ h ∈ A.used e.before.1.news,
      (e.before.1.meaning h).Real := by
  induction rest generalizing s with
  | nil => exact fun e he => absurd he List.not_mem_nil
  | cons c rest ih =>
    rw [script_served_cons hs] at hc
    rw [script_trace_cons hs]
    have hname : (resolved s.2 c).Named := by
      rw [Call.Named, interned?_resolved]
      exact hc c List.mem_cons_self
    have hafter : ∀ h ∈ A.used (afterStep A s c).1.news, ((afterStep A s c).1.meaning h).Real := by
      intro h hh
      rcases serve_allocated hs hname hh with hu | hr
      · show ((serve A s.1 (resolved s.2 c)).env.meaning h).Real
        rw [serve_meaning hs _ (ne_addr_of_used hu)]
        exact hn h hu
      · exact hr
    intro e he
    rcases List.mem_cons.mp he with rfl | he
    · exact hn
    · rw [remaining] at hc he
      split at he
      · exact absurd he List.not_mem_nil
      · next hgo =>
        rw [if_neg hgo] at hc
        exact ih (serve_wf hs _) hafter (fun d hd => hc d (List.mem_cons_of_mem c hd)) e he

/-! ## What equal answers tell -/

theorem lines_lookup {η : Type} {c : Call η} (hl : c.lookup? ≠ none) (R : Reading η) (exc : Bool)
    (found : η) (fresh : Bool) : (observe R exc found fresh c).lines = [] ↔ fresh = false := by
  cases c <;> first | exact absurd rfl hl | cases fresh <;> simp [observe]

/-- The first process answers the rest of the script as the second one does, renamed by
`f`. -/
structure SameAnswers (A A' : Allocator) (f : Handle → Handle) (s s' : Env × List (Reply Handle))
    (rest : List (Call Arg)) : Prop where
  wf : WF A s.1
  wf' : WF A' s'.1
  enclosed : Enclosed A' s'
  selfContained : SelfContained rest
  answers : s.2 = s'.2.map (Reply.map f)
  injOn : Set.InjOn f (A'.used ((scriptMachine A').final s' rest).1.news)
  mapsTo : Set.MapsTo f (A'.used ((scriptMachine A').final s' rest).1.news)
    (A.used ((scriptMachine A).final s rest).1.news)
  fixed : ∀ v, v ∉ A'.used ((scriptMachine A').final s' rest).1.news → f v = v
  outputs : ((scriptMachine A).trace s rest).map Event.output =
    ((scriptMachine A').trace s' rest).map fun e => e.output.map f

namespace SameAnswers

theorem reply (h : SameAnswers A A' f s s' (c :: rest)) :
    stepReply A s c = (stepReply A' s' c).map f := by
  have hout := h.outputs
  rw [script_trace_cons h.wf, script_trace_cons h.wf', List.map_cons, List.map_cons] at hout
  exact (List.cons.inj hout).1

theorem next (h : SameAnswers A A' f s s' (c :: rest)) :
    SameAnswers A A' f (afterStep A s c) (afterStep A' s' c)
      (remaining (stepReply A' s' c) rest) := by
  have hreply := h.reply
  obtain ⟨hs, hs', he, hself, hanswers, hinj, hmaps, hfixed, hout⟩ := h
  rw [script_trace_cons hs, script_trace_cons hs', List.map_cons, List.map_cons] at hout
  rw [script_final_cons hs'] at hinj hmaps hfixed
  rw [script_final_cons hs] at hmaps
  have hrest := (List.cons.inj hout).2
  rw [hreply, remaining_map] at hmaps hrest
  refine ⟨serve_wf hs _, serve_wf hs' _, enclosed_afterStep he hself, hself.remaining _, ?_, hinj,
    hmaps, hfixed, hrest⟩
  rw [afterStep, afterStep, hreply, hanswers, List.map_append, List.map_cons, List.map_nil]

/-- **Induction over the steps of two processes that answer alike.** -/
theorem induction {P : Env × List (Reply Handle) → Env × List (Reply Handle) →
      List (Call Arg) → Prop} (hnil : ∀ s s', P s s' [])
    (hcons : ∀ s s' c rest, SameAnswers A A' f s s' (c :: rest) →
      P (afterStep A s c) (afterStep A' s' c) (remaining (stepReply A' s' c) rest) →
        P s s' (c :: rest)) (h : SameAnswers A A' f s s' rest) : P s s' rest := by
  induction rest generalizing s s' with
  | nil => exact hnil s s'
  | cons c rest ih =>
    have hnext := h.next
    refine hcons s s' c rest h ?_
    rw [remaining] at hnext ⊢
    split at hnext
    · next hstop =>
      rw [if_pos hstop]
      exact hnil _ _
    · next hgo =>
      rw [if_neg hgo]
      exact ih hnext

theorem own_final (h : SameAnswers A A' f s s' rest) :
    A'.own s'.1.news ⊆ A'.own ((scriptMachine A').final s' rest).1.news :=
  A'.own_mono (script_grows h.wf' rest).news

theorem fixed_small (h1' : ∀ i, A'.addr i ≠ 1) (h : SameAnswers A A' f s s' rest) {v : Handle}
    (hv : v ≤ 1) : f v = v :=
  h.fixed v (not_used_of_le_one h1' hv _)

/-- Handles of the second process that are renamed alike are the same. -/
theorem inj (h1 : ∀ i, A.addr i ≠ 1) (h1' : ∀ i, A'.addr i ≠ 1)
    (h : SameAnswers A A' f s s' rest) {v w : Handle} (hv : v ∈ A'.own s'.1.news)
    (hw : w ∈ A'.own s'.1.news) (heq : f v = f w) : v = w := by
  rcases h.own_final hv with hv | hv <;> rcases h.own_final hw with hw | hw
  · rwa [h.fixed_small h1' hv, h.fixed_small h1' hw] at heq
  · rw [h.fixed_small h1' hv] at heq
    exact absurd (heq ▸ h.mapsTo hw) (not_used_of_le_one h1 hv _)
  · rw [h.fixed_small h1' hw] at heq
    exact absurd (heq ▸ h.mapsTo hv) (not_used_of_le_one h1 hw _)
  · exact h.injOn hv hw heq

theorem found (h : SameAnswers A A' f s s' (c :: rest)) (hc : c.interned? ≠ none) :
    (s.1.interned A (resolved s.2 c)).1 = f (s'.1.interned A' (resolved s'.2 c)).1 := by
  have hcar := congrArg (fun o => o.answer.carried?) h.reply
  have hi : ∀ as, (resolved as c).interned? ≠ none := fun as => by rwa [interned?_resolved]
  rw [stepReply, stepReply, serve_observe, serve_observe] at hcar
  rw [Reply.answer_map, Answer.carried?_map, carried_interned (hi _), carried_interned (hi _),
    Option.map_some] at hcar
  exact Option.some.inj hcar

/-- A method look-up logs in both processes or in neither. -/
theorem stored (h : SameAnswers A A' f s s' (c :: rest)) (hc : c.lookup? ≠ none) :
    (s.1.interned A (resolved s.2 c)).2 = (s'.1.interned A' (resolved s'.2 c)).2 := by
  have hlines := congrArg Reply.lines h.reply
  have hl : ∀ as, (resolved as c).lookup? ≠ none := fun as => mt lookup?_resolved.mp hc
  rw [Reply.lines_map, stepReply, stepReply, serve_observe, serve_observe] at hlines
  have hiff := lines_lookup (hl s.2) s.1.reading s.1.hasException
    (s.1.interned A (resolved s.2 c)).1 (s.1.interned A (resolved s.2 c)).2
  rw [hlines, lines_lookup (hl s'.2)] at hiff
  rw [Bool.eq_iff_iff]
  simpa using (not_congr hiff).symm

/-- A handle that has been taken for a class without a name is not allocated by the next
step: the other process would have to answer that step with a handle it has. -/
theorem not_allocates (h1 : ∀ i, A.addr i ≠ 1) (h1' : ∀ i, A'.addr i ≠ 1)
    (h : SameAnswers A A' f s s' (c :: rest)) {x x' : Handle}
    (hkey : s.1.gClassNameMap[x]? = some "") (hx' : x' ∈ A'.used s'.1.news)
    (hnot : ¬ (s'.1.meaning x').Real) (hf : f x' = x)
    (hb : (s.1.interned A (resolved s.2 c)).2 = true) :
    (s.1.interned A (resolved s.2 c)).1 ≠ x := by
  intro heq
  have hi : c.interned? ≠ none := interned?_resolved ▸ interned?_of_fresh hb
  have hfound : (s'.1.interned A' (resolved s'.2 c)).1 = x' := by
    refine h.next.inj h1 h1' (h.enclosed.found _) (own_serve _ _ _ (Or.inr hx')) ?_
    rw [← h.found hi, heq, hf]
  obtain ⟨μ, hμ⟩ := Option.ne_none_iff_exists'.mp hi
  by_cases hreal : μ.Real
  · have hm := interned_meaning h.wf' (c := resolved s'.2 c) (interned?_resolved.trans hμ) hreal
    rw [hfound, serve_meaning h.wf' _ (ne_addr_of_used hx')] at hm
    exact hnot (hm ▸ hreal)
  by_cases hl : c.lookup? = none
  · obtain rfl := eq_findClass (fun hn => hreal (hn μ hμ)) hl
    simp only [resolved, Call.map, Env.interned, Call.interned?, Env.locate?,
      Option.isNone_iff_eq_none] at hb
    exact search_eq_none_iff.mp hb x hkey
  · rw [h.stored hl] at hb
    rw [interned_addr hb] at hfound
    exact ne_addr_of_used hx' hfound.symm

/-- Nor is it by any later one. -/
theorem never_allocated (h1 : ∀ i, A.addr i ≠ 1) (h1' : ∀ i, A'.addr i ≠ 1)
    (h : SameAnswers A A' f s s' rest) {x x' : Handle} (hx : x ∉ A.used s.1.news)
    (hkey : s.1.gClassNameMap[x]? = some "") (hx' : x' ∈ A'.used s'.1.news)
    (hnot : ¬ (s'.1.meaning x').Real) (hf : f x' = x) :
    x ∉ A.used ((scriptMachine A).final s rest).1.news := by
  revert hx hkey hx' hnot
  refine h.induction (P := fun s s' rest => x ∉ A.used s.1.news →
    s.1.gClassNameMap[x]? = some "" → x' ∈ A'.used s'.1.news → ¬ (s'.1.meaning x').Real →
      x ∉ A.used ((scriptMachine A).final s rest).1.news) (fun _ _ hx _ _ _ => hx) ?_
  intro s s' c rest h ih hx hkey hx' hnot
  have hmiss := h.not_allocates h1 h1' hkey hx' hnot hf
  rw [script_final_cons h.wf, h.reply, remaining_map]
  refine ih (fun hu => ?_) (classEntry_serve hkey hmiss)
    (A'.used_mono (serve_grows h.wf' _).news hx') ?_
  · rcases used_serve.mp hu with hu | ⟨hb, heq⟩
    · exact hx hu
    · exact hmiss hb heq.symm
  · show ¬ ((serve A' s'.1 (resolved s'.2 c)).env.meaning x').Real
    rwa [serve_meaning h.wf' _ (ne_addr_of_used hx')]

/-- Addresses are renamed to addresses when they are allocated. -/
theorem mapsTo_next (h1 : ∀ i, A.addr i ≠ 1) (h1' : ∀ i, A'.addr i ≠ 1)
    (h : SameAnswers A A' f s s' (c :: rest))
    (hm : Set.MapsTo f (A'.used s'.1.news) (A.used s.1.news)) :
    Set.MapsTo f (A'.used (afterStep A' s' c).1.news) (A.used (afterStep A s c).1.news) := by
  intro k hk
  rcases used_serve.mp hk with hk | ⟨hb, rfl⟩
  · exact A.used_mono (serve_grows h.wf _).news (hm hk)
  have hi : c.interned? ≠ none := interned?_resolved ▸ interned?_of_fresh hb
  rw [← h.found hi]
  obtain ⟨μ, hμ⟩ := Option.ne_none_iff_exists'.mp hi
  have hμs : ∀ as, (resolved as c).interned? = some μ := fun _ => interned?_resolved.trans hμ
  by_cases hreal : μ.Real
  · refine used_of_meaning (serve_wf h.wf _) ?_
    rwa [interned_meaning h.wf (hμs s.2) hreal]
  by_cases hl : c.lookup? = none
  · cases hb' : (s.1.interned A (resolved s.2 c)).2 with
    | true => exact used_serve.mpr (Or.inr ⟨hb', rfl⟩)
    | false =>
      by_contra hx
      have hnot : ¬ (resolved s'.2 c).Named := fun hn => hreal (hn μ (hμs s'.2))
      have hkey := classEntry_found (A := A) (s := s.1) (c := resolved s.2 c)
        (fun hn => hreal (hn μ (hμs s.2))) (lookup?_resolved.mpr hl) hb'
      refine h.next.never_allocated h1 h1' hx hkey hk (meaning_nameless h.wf' hnot hb)
        (h.found hi).symm ?_
      rw [h.found hi]
      exact h.next.mapsTo (A'.used_mono (script_grows h.next.wf' _).news hk)
  · exact used_serve.mpr (Or.inr ⟨(h.stored hl).trans hb, rfl⟩)

theorem sameEntry (h1 : ∀ i, A.addr i ≠ 1) (h1' : ∀ i, A'.addr i ≠ 1)
    (h : SameAnswers A A' f s s' (c :: rest))
    (hm : Set.MapsTo f (A'.used s'.1.news) (A.used s.1.news)) (hnot : ¬ c.Named) :
    SameEntry A A' s s' (resolved s.2 c) (resolved s'.2 c) := by
  have hi : c.interned? ≠ none := fun hn => hnot fun μ hμ => by rw [hn] at hμ; cases hμ
  have hfound := h.found hi
  have hown := h.enclosed.found (resolved s'.2 c)
  refine ⟨fun hl => h.stored ?_, fun p hp => ?_, fun hu => ?_, fun hu => ?_⟩
  · exact mt lookup?_resolved.mpr hl
  · rw [h.answers] at hp
    obtain ⟨a, ha, rfl⟩ := mem_zip_map.mp hp
    rw [Reply.answer_map, Answer.carried?_map, hfound]
    cases hcar : a.answer.carried? with
    | none => simp
    | some v =>
      have hv := own_serve A' s'.1 (resolved s'.2 c) (h.enclosed.carried a ha v hcar)
      rw [Option.map_some, Option.some_inj, Option.some_inj]
      exact ⟨h.next.inj h1 h1' hv hown, congrArg f⟩
  · rw [endsAtAddress_iff, hfound]
    exact h.mapsTo_next h1 h1' hm (endsAtAddress_iff.mp hu)
  · rw [hfound]
    exact h.next.fixed_small h1' (hown.resolve_right (mt endsAtAddress_iff.mpr hu))

/-- A method handle without a name is printed without one by both. -/
theorem noText (h : SameAnswers A A' f s s' (c :: rest)) {m m' : Handle}
    (hm : m ∈ (resolved s.2 c).readsMethod?) (hm' : m' ∈ (resolved s'.2 c).readsMethod?)
    (hnot : ¬ (s'.1.meaning m').Real) : s.1.nameSig m = "" := by
  have hlines := congrArg Reply.lines h.reply
  rw [Reply.lines_map, stepReply, stepReply, serve_observe, serve_observe] at hlines
  cases c with
  | call slot o mid args =>
    cases hm
    cases hm'
    simp only [resolved, Call.map, observe, CallSlot.lines] at hlines
    have hsig : s.1.nameSig (Arg.resolve id s.2 mid) = s'.1.nameSig (Arg.resolve id s'.2 mid) := by
      split at hlines <;> simp_all [alogd, Env.reading]
    rw [hsig, nameSig_of_not_real h.wf' hnot]
  | _ => cases hm

/-- **What equal answers tell about empty names.** -/
theorem alike (h1 : ∀ i, A.addr i ≠ 1) (h1' : ∀ i, A'.addr i ≠ 1)
    (h : SameAnswers A A' f s s' rest) (hm : Set.MapsTo f (A'.used s'.1.news) (A.used s.1.news)) :
    NamelessAlike A A' (((scriptMachine A).trace s rest).zip
      ((scriptMachine A').trace s' rest)) := by
  revert hm
  refine h.induction (P := fun s s' rest => Set.MapsTo f (A'.used s'.1.news) (A.used s.1.news) →
    NamelessAlike A A' (((scriptMachine A).trace s rest).zip ((scriptMachine A').trace s' rest)))
    (fun s s' _ => ⟨fun _ hp => absurd hp List.not_mem_nil, fun _ hp => absurd hp List.not_mem_nil⟩)
    ?_
  intro s s' c rest h ih hm
  have htail := ih (h.mapsTo_next h1 h1' hm)
  rw [script_trace_cons h.wf, script_trace_cons h.wf', h.reply, remaining_map, List.zip_cons_cons]
  refine ⟨fun p hp hnot => ?_, fun p hp m hpm m' hpm' hu hreal => ?_⟩
  · rcases List.mem_cons.mp hp with rfl | hp
    · exact h.sameEntry h1 h1' hm hnot
    · exact htail.entries p hp hnot
  · rcases List.mem_cons.mp hp with rfl | hp
    · exact h.noText hpm hpm' hreal
    · exact htail.methods p hp m hpm m' hpm' hu hreal

/-- The registries know the text of a look-up, or neither does. -/
theorem known_iff {r r' : Registry} (h : SameAnswers A A' f s s' (c :: rest))
    (hrep : Represents A s.1 r) (hrep' : Represents A' s'.1 r') {t : String} (hne : t ≠ "")
    (ht : c.interned? = some (.method t)) :
    Meaning.method t ∈ r.known ↔ Meaning.method t ∈ r'.known := by
  have hl : c.lookup? ≠ none := by
    cases c <;> simp_all [Call.interned?, Call.lookup?]
  have hn : ∀ as, (resolved as c).Named := by
    intro as μ hμ
    rw [interned?_resolved, ht] at hμ
    exact Option.some.inj hμ ▸ hne
  have hfresh := h.stored hl
  rw [interned_fresh hrep (hn _), interned_fresh hrep' (hn _), Registry.fresh, Registry.fresh,
    interned?_resolved, interned?_resolved, ht] at hfresh
  simpa using hfresh

theorem pending_eq {r r' : Registry} (h1' : ∀ i, A'.addr i ≠ 1)
    (h : SameAnswers A A' f s s' (.exceptionOccurred :: rest)) (hrep : Represents A s.1 r)
    (hrep' : Represents A' s'.1 r') : r.pending = r'.pending := by
  have hans : (if s.1.hasException then 1 else 0) = f (if s'.1.hasException then 1 else 0) :=
    Answer.jthrowable.inj (congrArg Reply.answer h.reply)
  rw [h.fixed_small h1' (by split <;> decide), hrep.pending, hrep'.pending] at hans
  revert hans
  cases r.pending <;> cases r'.pending <;> simp

/-- **What equal answers tell about the registries.** -/
theorem agree {r r' : Registry} (h1' : ∀ i, A'.addr i ≠ 1) (h : SameAnswers A A' f s s' rest)
    (hrep : Represents A s.1 r) (hrep' : Represents A' s'.1 r') :
    Agree r r' ((scriptMachine A').served s' rest) := by
  revert r r'
  refine h.induction (P := fun s s' rest => ∀ {r r' : Registry}, Represents A s.1 r →
    Represents A' s'.1 r' → Agree r r' ((scriptMachine A').served s' rest))
    (fun s s' _ _ _ _ => ⟨fun _ hd => absurd hd List.not_mem_nil, Or.inr id⟩) ?_
  intro s s' c rest h ih r r' hrep hrep'
  have htail := ih (represents_afterStep hrep c) (represents_afterStep hrep' c)
  rw [script_served_cons h.wf']
  refine ⟨fun d hd t hne ht => ?_, ?_⟩
  · by_cases hc : c.interned? = some (.method t)
    · exact h.known_iff hrep hrep' hne hc
    · rcases List.mem_cons.mp hd with rfl | hd
      · exact absurd ht hc
      · simpa [Registry.after, hc] using htail.texts d hd t hne ht
  · cases c with
    | exceptionOccurred => exact Or.inl (h.pending_eq h1' hrep hrep')
    | throw o => exact Or.inr id
    | exceptionClear => exact Or.inr id
    | _ => exact htail.pending

end SameAnswers

end Scripts

/-! ## The next session -/

section Session

variable {A A' : Allocator} {R : List (Call Handle)} {S : List (Call Arg)}

/-- Scripts that ask for no empty name have nothing to agree on. -/
theorem namelessAlike_of_named (hnamed : ∀ c ∈ servedFresh A' S, c.Named) :
    NamelessAlike A A'
      ((runScript A (nextSession A R) S).zip (runScript A' (initial Env.start) S)) := by
  refine ⟨fun p hp hnot => ?_, fun p hp m hm m' hm' hu hnot => ?_⟩
  · exact absurd (hnamed _ (List.mem_map_of_mem (List.of_mem_zip hp).2)) hnot
  · refine absurd (named_of_mem_trace (wf_initial A') (fun h hh => ?_) hnamed _
      (List.of_mem_zip hp).2 m' hu) hnot
    obtain ⟨i, hi, -⟩ := hh
    exact absurd hi (Nat.not_lt_zero i)

/-- **When a session is isolated.**  After any run `R`, a session gets the log and the
answers of a fresh process exactly when it is undisturbed by the calls `R` made and its
searches for empty names end as in a fresh process.  Calls after a fault do not count on
either side. -/
theorem session_isolated_iff (h1 : ∀ i, A.addr i ≠ 1) (h1' : ∀ i, A'.addr i ≠ 1)
    (hS : SelfContained S) :
    SessionIsolated A A' R S ↔
      Undisturbed ((run A R).map Event.input) (servedFresh A' S) ∧
        NamelessAlike A A'
          ((runScript A (nextSession A R) S).zip (runScript A' (initial Env.start) S)) := by
  have hrep := nextSession_represents (A := A) (R := R)
  have hrep' := represents_start A'
  have hanswers : ∀ (B : Allocator) (e : Env),
      ((scriptMachine B).final (e, []) S).2 = (runScript B e S).map Event.output := fun B e => by
    rw [scriptMachine, Machine.scripted_answers]
    rfl
  rw [undisturbed_iff_agree]
  constructor
  · rintro ⟨-, f, hinj, hmaps, hfixed, hout⟩
    have hsame : SameAnswers A A' f (nextSession A R, []) (initial Env.start, []) S :=
      ⟨hrep.wf, hrep'.wf, enclosed_start A', hS, rfl, hinj, hmaps, hfixed, hout⟩
    refine ⟨hsame.agree h1' hrep hrep', hsame.alike h1 h1' fun h hh => ?_⟩
    obtain ⟨i, hi, -⟩ := hh
    exact absurd hi (Nat.not_lt_zero i)
  · rintro ⟨hagree, halike⟩
    have hstart : InStep A A' (nextSession A R, []) (initial Env.start, []) S :=
      ⟨⟨id, _, _, renames_start A A' _, rfl, hrep, hrep', hagree⟩, enclosed_start A', hS, halike⟩
    obtain ⟨f, -, -, hf, hreplies, -⟩ :=
      (Machine.final_simulation (inStep_step h1 h1') hstart).renamed
    rw [hanswers, hanswers, List.map_map] at hreplies
    exact ⟨(log_congr hreplies).symm, f, hf.injOn, hf.mapsTo, hf.fixed, hreplies⟩

end Session

/-- A session that finds the class of the run before it, with another method, and a class
of the empty name; its last call is not served. -/
def otherMethod : List (Call Arg) :=
  [.findClass "A", .getMethodID (.result 0) "stop" "()V", .findClass "", .getObjectClass (.result 2),
    .getMethodID (.result 0) "run" "()V"]

theorem session_isolated_other : SessionIsolated .bump (.heap (Equiv.swap 0 1))
    [.findClass "A", .getMethodID 16 "run" "()V"] otherMethod := by
  have h1 : ∀ (σ : Equiv.Perm Nat) (i : Nat), (Allocator.heap σ).addr i ≠ 1 := fun σ =>
    Allocator.heap_addr_ne σ (by decide)
  have hserved : servedFresh (.heap (Equiv.swap 0 1)) otherMethod =
      [.findClass "A", .getMethodID (.result 0) "stop" "()V", .findClass "",
        .getObjectClass (.result 2)] := rfl
  have hR : (run .bump [.findClass "A", .getMethodID 16 "run" "()V"]).map Event.input =
      [.findClass "A", .getMethodID 16 "run" "()V"] := rfl
  refine (session_isolated_iff (A := .bump) (h1 _) (h1 _) ?_).mpr ⟨?_, by decide⟩
  · intro c hc v hv
    simp only [otherMethod, List.mem_cons, List.not_mem_nil, or_false] at hc
    rcases hc with rfl | rfl | rfl | rfl | rfl <;> simp_all [Call.handles, Call.objects]
  · rw [hserved, hR]
    refine ⟨fun c hc t hne ht d hd => ?_, Or.inl rfl⟩
    simp only [List.mem_cons, List.not_mem_nil, or_false] at hc hd
    rcases hc with rfl | rfl | rfl | rfl <;> rcases hd with rfl | rfl <;>
      simp_all [Call.interned?, Call.lookup?]
    rw [← ht]
    decide

/-- A second session that looks up the constructor the first one looked up: its
look-up is not in its trace. -/
theorem not_sessionIsolated : ¬ ∀ (A A' : Allocator) (R : List (Call Handle))
    (S : List (Call Arg)), (∀ i, A.addr i ≠ 1) → (∀ i, A'.addr i ≠ 1) →
    (∀ e ∈ run A R, e.output.answer.isSegv = false) → SelfContained S →
      SessionIsolated A A' R S := by
  intro h
  have h1 : ∀ i, Allocator.bump.addr i ≠ 1 := Allocator.heap_addr_ne _ (by decide)
  obtain ⟨hlog, -⟩ := h .bump .bump [.getMethodID 0 "<init>" "()V"]
    [.getMethodID (.fixed 0) "<init>" "()V"] h1 h1 (by decide) (by
      intro c hc v hv
      rw [List.mem_singleton.mp hc] at hv
      simpa [Call.handles, Call.objects] using hv)
  revert hlog
  decide


end JniDegger.FakeEnv
