import JniDegger.SignatureFake

/-!
# The faked signature over whole histories

`getSignature` fills its cache at the first faked call and never refreshes it.
Proved here, for every history:

* `sign_in_force`: the static string is the last one accepted, or `SIGN_HOOK`;
* `cache_origin`: the cached array is made from the string in force at the first
  faked call, also when that string does not decode;
* `faked_current_iff`: which faked answers are the decoding of the current string;
* `intact_iff`: which histories keep the promises about failed decodes.
-/

namespace JniDegger.SignatureFake

open JavaText Runs

/-! ## The string in force -/

/-- The string an accepted `setSign` was given. -/
def Op.accepted? : Op → Option JString
  | .setSign (some sign) => if 0 < sign.length then some sign else none
  | _ => none

/-- The string given to the last accepted `setSign`, or `start` if there was none. -/
def lastAccepted (start : JString) (ops : List Op) : JString :=
  ((ops.filterMap Op.accepted?).getLast?).getD start

/-- The string given to the last accepted `setSign`, or `SIGN_HOOK`. -/
def signInForce (ops : List Op) : JString := lastAccepted signHook ops

theorem lastAccepted_nil (start : JString) : lastAccepted start [] = start := rfl

theorem lastAccepted_concat (start : JString) (ops : List Op) (o : Op) :
    lastAccepted start (ops ++ [o]) = (o.accepted?).getD (lastAccepted start ops) := by
  rw [lastAccepted, List.filterMap_append]
  cases ho : o.accepted? with
  | none => simp [ho, lastAccepted]
  | some sign => simp [ho]

/-- **`setSign` replaces the string by an accepted one**, and changes nothing else. -/
theorem setSign_eq (s : State) (sign : Option JString) :
    setSign s sign = { s with sSingautre := ((Op.setSign sign).accepted?).getD s.sSingautre } := by
  cases sign with
  | none => rfl
  | some sign =>
    simp only [setSign, Op.accepted?]
    split <;> rfl

theorem step_sSingautre (s : State) (o : Op) :
    (step s o).2.sSingautre = (o.accepted?).getD s.sSingautre := by
  cases o with
  | setSign sign => rw [step, setSign_eq]
  | addForceFakeStackLine line => simp [step, Op.accepted?]
  | getSignature stackText orig => simp [step, Op.accepted?]

section Run

variable {ops : List Op} {k : Nat} {e : Event State Op Result}

/-- **The static string is the one in force.** -/
theorem sign_in_force (he : (run ops)[k]? = some e) :
    e.before.sSingautre = signInForce (ops.take k) := by
  induction k generalizing e with
  | zero =>
    rw [Machine.before_of_getElem?_zero he, List.take_zero, signInForce, lastAccepted_nil,
      State.start]
  | succ k ih =>
    obtain ⟨d, hd, hbefore⟩ := Machine.before_of_getElem?_succ he
    have hstep : step d.before d.input = (d.output, d.after) :=
      Machine.step_of_mem_trace (List.mem_of_getElem? hd)
    have hin : ops[k]? = some d.input := Machine.input_of_getElem? hd
    have hafter : d.after = (step d.before d.input).2 := by rw [hstep]
    rw [hbefore, hafter, step_sSingautre, ih hd, List.take_add_one, hin, Option.toList_some,
      signInForce, signInForce, lastAccepted_concat]

end Run

/-! ## The cache -/

/-- A call of `getSignature` that decides to fake. -/
def Fakes (s : State) (o : Op) : Prop :=
  ∃ stackText orig, o = .getSignature stackText orig ∧ shouldUseFakeSignature s stackText = true

/-- The first faked call of a history. -/
def FirstFake (ops : List Op) (m : Nat) (g : Event State Op Result) : Prop :=
  Machine.First (fun g => Fakes g.before g.input) (run ops) m g

theorem step_keeps_cache {s : State} {o : Op} {a : List (Option Signature)}
    (ha : s.sSignature = some a) : (step s o).2.sSignature = some a := by
  cases o with
  | setSign sign => simp [step, ha]
  | addForceFakeStackLine line => simp [step, ha]
  | getSignature stackText orig =>
    cases hf : shouldUseFakeSignature s stackText with
    | false => simp [step, getSignature_of_not_fake orig hf, ha]
    | true => simp [step, getSignature_of_cached orig hf ha, ha]

theorem step_fills_cache {s : State} {o : Op} (ha : s.sSignature = none) (hf : Fakes s o) :
    (step s o).2.sSignature = some (cached s.sSingautre) := by
  obtain ⟨stackText, orig, rfl, hf⟩ := hf
  simp [step, getSignature_of_empty orig hf ha]

theorem step_leaves_cache {s : State} {o : Op} (ha : s.sSignature = none) (hf : ¬ Fakes s o) :
    (step s o).2.sSignature = none := by
  cases o with
  | setSign sign => simp [step, ha]
  | addForceFakeStackLine line => simp [step, ha]
  | getSignature stackText orig =>
    have hnot : shouldUseFakeSignature s stackText = false := by
      by_contra hfake
      exact hf ⟨stackText, orig, rfl, by simpa using hfake⟩
    simp [step, getSignature_of_not_fake orig hnot, ha]

/-- **Where the cached array comes from.** -/
theorem cache_origin {ops : List Op} {k : Nat} {e : Event State Op Result}
    (he : (run ops)[k]? = some e) :
    (e.before.sSignature = none ∧ ∀ m < k, ∀ g, ¬ FirstFake ops m g) ∨
      ∃ m < k, ∃ g, FirstFake ops m g ∧
        e.before.sSignature = some (cached (signInForce (ops.take m))) := by
  have honce := Machine.filled_once (M := machine) State.sSignature
    (fun s => cached s.sSingautre) Fakes (fun _ _ _ => step_keeps_cache)
    (fun _ _ => step_fills_cache) (fun _ _ => step_leaves_cache) rfl he
  rcases honce with ⟨hempty, hnone⟩ | ⟨m, hm, g, hg, hfield⟩
  · exact Or.inl ⟨hempty, fun m hm g hg => hnone m hm g hg.1 hg.2.1⟩
  · exact Or.inr ⟨m, hm, g, hg, by rw [hfield, sign_in_force hg.1]⟩

theorem output_eq {ops : List Op} {k : Nat} {e : Event State Op Result} {stackText : JString}
    {orig : Signatures} (he : (run ops)[k]? = some e)
    (hin : e.input = .getSignature stackText orig) :
    e.output = some (getSignature e.before stackText orig).1 := by
  have hstep : step e.before e.input = (e.output, e.after) :=
    Machine.step_of_mem_trace (List.mem_of_getElem? he)
  rw [hin] at hstep
  exact (congrArg Prod.fst hstep).symm

/-- **What a faked call answers**: the decoding of the string in force if it is the
first, and otherwise the array the first one left. -/
theorem faked_output {ops : List Op} {k : Nat} {e : Event State Op Result}
    (he : (run ops)[k]? = some e) (hf : Fakes e.before e.input) :
    ((∀ m < k, ∀ g, ¬ FirstFake ops m g) ∧ e.before.sSignature = none ∧
        e.output = some ((sigBytes (signInForce (ops.take k))).map fun b => some [some ⟨b⟩])) ∨
      ∃ m < k, ∃ g, FirstFake ops m g ∧
        e.output = some (.ok (some (cached (signInForce (ops.take m))))) := by
  obtain ⟨stackText, orig, hin, hfake⟩ := hf
  have hout := output_eq he hin
  rcases cache_origin he with ⟨hempty, hnone⟩ | ⟨m, hm, g, hg, hfield⟩
  · refine Or.inl ⟨hnone, hempty, ?_⟩
    rw [hout, getSignature_of_empty orig hfake hempty, sign_in_force he]
  · refine Or.inr ⟨m, hm, g, hg, ?_⟩
    rw [hout, getSignature_of_cached orig hfake hfield]

/-- A faked call that no faked call precedes is the first. -/
theorem firstFake_of_none {ops : List Op} {k : Nat} {e : Event State Op Result}
    (he : (run ops)[k]? = some e) (hf : Fakes e.before e.input)
    (hnone : ∀ m < k, ∀ g, ¬ FirstFake ops m g) : FirstFake ops k e := by
  refine ⟨he, hf, fun l hl d hd hfd => ?_⟩
  obtain ⟨m, hml, ⟨g, hg, hfg⟩, hmin⟩ := Machine.exists_first
    (P := fun m => ∃ g, (run ops)[m]? = some g ∧ Fakes g.before g.input) ⟨d, hd, hfd⟩
  exact hnone m (by omega) g ⟨hg, hfg, fun n hn f hf hff => hmin n hn ⟨f, hf, hff⟩⟩

/-! ## Is the faked signature current? -/

/-- Event `k`, if it is a `getSignature` call, returns what the string in force
decodes to when it fakes and returns, and its argument when it does not fake. -/
def CurrentAt (ops : List Op) (k : Nat) : Prop :=
  ∀ e stackText orig, (run ops)[k]? = some e → e.input = .getSignature stackText orig →
    (shouldUseFakeSignature e.before stackText = true → ∀ r, e.output = some (.ok r) →
      ∃ b, sigBytes (signInForce (ops.take k)) = .ok b ∧ r = some [some ⟨b⟩]) ∧
    (shouldUseFakeSignature e.before stackText = false → e.output = some (.ok orig))

theorem cached_eq_iff {sign : JString} {b : List Int8} :
    cached sign = [some ⟨b⟩] ↔ sigBytes sign = .ok b := by
  rw [cached]
  cases sigBytes sign <;> simp

/-- **When a faked answer is current.**  A `getSignature` call answers for the string
in force exactly when it does not fake, or is the first that does, or the string in
force at the first faked call decodes to the same bytes. -/
theorem faked_current_iff (ops : List Op) (k : Nat) :
    CurrentAt ops k ↔ ∀ e, (run ops)[k]? = some e → Fakes e.before e.input →
      ∀ m < k, ∀ g, FirstFake ops m g → ∃ b, sigBytes (signInForce (ops.take m)) = .ok b ∧
        sigBytes (signInForce (ops.take k)) = .ok b := by
  constructor
  · rintro h e he hfakes m hm g hg
    rcases faked_output he hfakes with ⟨hnone, -, -⟩ | ⟨m', hm', g', hg', hout⟩
    · exact absurd hg (hnone m hm g)
    · obtain ⟨rfl, -⟩ := hg.unique hg'
      obtain ⟨stackText, orig, hin, hfake⟩ := hfakes
      obtain ⟨b, hb, hr⟩ := (h e stackText orig he hin).1 hfake _ hout
      exact ⟨b, cached_eq_iff.mp (Option.some.inj hr), hb⟩
  · intro h e stackText orig he hin
    constructor
    · intro hfake r hr
      have hfakes : Fakes e.before e.input := ⟨stackText, orig, hin, hfake⟩
      rcases faked_output he hfakes with ⟨-, -, hout⟩ | ⟨m, hm, g, hg, hout⟩
      · rw [hout] at hr
        cases hb : sigBytes (signInForce (ops.take k)) with
        | error err => rw [hb] at hr; cases hr
        | ok b =>
          rw [hb] at hr
          cases hr
          exact ⟨b, rfl, rfl⟩
      · obtain ⟨b, hm', hk'⟩ := h e he hfakes m hm g hg
        rw [hout, cached_eq_iff.mpr hm'] at hr
        cases hr
        exact ⟨b, hk', rfl⟩
    · intro hnot
      rw [output_eq he hin, getSignature_of_not_fake orig hnot]

/-- The sign string is replaced after the first faked answer. -/
theorem not_current : ¬ ∀ ops k, CurrentAt ops k := by
  intro h
  obtain ⟨hfake, -⟩ := h [.addForceFakeStackLine (lit "*"), .setSign (some (lit "1")),
    .getSignature [] none, .setSign (some (lit "2")), .getSignature [] none] 4 _ [] none rfl rfl
  obtain ⟨b, hb, hr⟩ := hfake rfl _ rfl
  have h2 : sigBytes (lit "2") = .ok [2] := by decide
  have hforce : sigBytes (lit "2") = .ok b := hb
  rw [h2] at hforce
  cases hforce
  revert hr
  decide

/-! ## Failed decodes -/

/-- Event `i` replaces a malformed string by `sign`, and `k` is the next faked call,
with `sign` still in force. -/
structure Replaced (ops : List Op) (i k : Nat) (sign : JString) : Prop where
  malformed : ∃ err, sigBytes (signInForce (ops.take i)) = .error err
  replaced : ops[i]? = some (.setSign (some sign))
  later : i < k
  inForce : signInForce (ops.take k) = sign
  faked : ∃ e, (run ops)[k]? = some e ∧ Fakes e.before e.input
  next : ∀ l, i < l → l < k → ∀ g, (run ops)[l]? = some g → ¬ Fakes g.before g.input

/-- What a history promises about failed decodes: a call whose decode fails throws
and changes nothing; no faked answer holds a null; and the next faked call after a
malformed string was replaced decodes the new one. -/
structure Intact (ops : List Op) : Prop where
  unchanged : ∀ (k : Nat) (e : Event State Op Result) err, (run ops)[k]? = some e →
    Fakes e.before e.input → e.before.sSignature = none → getSigBytes e.before = .error err →
      e.output = some (.error err) ∧ e.after = e.before
  noNull : ∀ (k : Nat) (e : Event State Op Result) r, (run ops)[k]? = some e →
    Fakes e.before e.input → e.output = some (.ok (some r)) → none ∉ r
  replaced : ∀ i k sign b (e : Event State Op Result), Replaced ops i k sign →
    sigBytes sign = .ok b → (run ops)[k]? = some e →
      e.output = some (.ok (some [some ⟨b⟩]))

section FailedDecodes

variable {ops : List Op}

/-- The first faked call finds the static field empty. -/
theorem FirstFake.empty {m : Nat} {g : Event State Op Result} (hg : FirstFake ops m g) :
    g.before.sSignature = none := by
  rcases cache_origin hg.1 with ⟨hempty, -⟩ | ⟨m', hm', g', hg', -⟩
  · exact hempty
  · exact absurd hg'.2.1 (hg.2.2 m' hm' g' hg'.1)

/-- A failed first decode would leave its array behind. -/
theorem Intact.decodes (h : Intact ops) {m : Nat} {g : Event State Op Result}
    (hg : FirstFake ops m g) : ∃ b, sigBytes (signInForce (ops.take m)) = .ok b := by
  cases hb : sigBytes (signInForce (ops.take m)) with
  | ok b => exact ⟨b, rfl⟩
  | error err =>
    have hbytes : getSigBytes g.before = .error err := by
      rw [getSigBytes, sign_in_force hg.1, hb]
    obtain ⟨-, hsame⟩ := h.unchanged m g err hg.1 hg.2.1 hg.empty hbytes
    have hstep : step g.before g.input = (g.output, g.after) :=
      Machine.step_of_mem_trace (List.mem_of_getElem? hg.1)
    have hfill := step_fills_cache hg.empty hg.2.1
    rw [hstep, hsame, hg.empty] at hfill
    cases hfill

/-- After the first faked call every answer is its array, also the one after a
replacement. -/
theorem Intact.keeps (h : Intact ops) {m i k : Nat} {g : Event State Op Result} {sign : JString}
    {b b' : List Int8} (hg : FirstFake ops m g) (hb : sigBytes (signInForce (ops.take m)) = .ok b)
    (hmi : m < i) (hrep : Replaced ops i k sign) (hb' : sigBytes sign = .ok b') : b' = b := by
  obtain ⟨e, he, hfakes⟩ := hrep.faked
  have hclaim := h.replaced i k sign b' e hrep hb' he
  rcases faked_output he hfakes with ⟨hnone, -, -⟩ | ⟨m', -, g', hg', hout⟩
  · exact absurd hg (hnone m (by have := hrep.later; omega) g)
  · obtain ⟨rfl, -⟩ := hg.unique hg'
    rw [hout, cached_eq_iff.mpr hb] at hclaim
    cases hclaim
    rfl

/-- A faked call before the next one after a replacement came before the replacement. -/
theorem Replaced.before_of_fakes {m i k : Nat} {g : Event State Op Result} {sign : JString}
    (hrep : Replaced ops i k sign) (hg : (run ops)[m]? = some g)
    (hf : Fakes g.before g.input) (hm : m < k) : m < i := by
  rcases Nat.lt_trichotomy m i with hlt | rfl | hlt
  · exact hlt
  · obtain ⟨stackText, orig, hin, -⟩ := hf
    have hop : ops[m]? = some g.input := Machine.input_of_getElem? hg
    rw [hrep.replaced, hin] at hop
    cases hop
  · exact absurd hf (hrep.next m hlt hm g hg)

end FailedDecodes

/-- **When failed decodes do no harm.**  A history keeps the promises exactly when
the string in force at its first faked call decodes, and every well-formed string
that replaces a malformed one after that call decodes to the same bytes. -/
theorem intact_iff (ops : List Op) : Intact ops ↔ ∀ m g, FirstFake ops m g →
    ∃ b, sigBytes (signInForce (ops.take m)) = .ok b ∧
      ∀ i k sign b', m < i → Replaced ops i k sign → sigBytes sign = .ok b' → b' = b := by
  constructor
  · intro h m g hg
    obtain ⟨b, hb⟩ := h.decodes hg
    exact ⟨b, hb, fun i k sign b' hmi hrep hb' => h.keeps hg hb hmi hrep hb'⟩
  · intro h
    refine ⟨?_, ?_, ?_⟩
    · -- the only decode of the history is the first faked call's
      intro k e err he hfakes hempty hbytes
      rcases cache_origin he with ⟨-, hnone⟩ | ⟨m, -, g, -, hfield⟩
      · obtain ⟨b, hb, -⟩ := h k e (firstFake_of_none he hfakes hnone)
        rw [getSigBytes, sign_in_force he, hb] at hbytes
        cases hbytes
      · rw [hempty] at hfield
        cases hfield
    · intro k e r he hfakes hr
      rcases faked_output he hfakes with ⟨hnone, -, hout⟩ | ⟨m, -, g, hg, hout⟩
      · obtain ⟨b, hb, -⟩ := h k e (firstFake_of_none he hfakes hnone)
        rw [hout, hb] at hr
        cases hr
        simp
      · obtain ⟨b, hb, -⟩ := h m g hg
        rw [hout, cached_eq_iff.mpr hb] at hr
        cases hr
        simp
    · intro i k sign b e hrep hb he
      obtain ⟨e', he', hfakes⟩ := hrep.faked
      rw [he] at he'
      cases he'
      rcases faked_output he hfakes with ⟨-, -, hout⟩ | ⟨m, hm, g, hg, hout⟩
      · rw [hout, hrep.inForce, hb]
        rfl
      · obtain ⟨b', hb', hall⟩ := h m g hg
        have hmi : m < i := hrep.before_of_fakes hg.1 hg.2.1 hm
        rw [hout, cached_eq_iff.mpr hb', hall i k sign b hmi hrep hb]

/-- The faked call after a failed one returns an array that holds a null. -/
theorem not_intact : ¬ ∀ ops, Intact ops := by
  intro h
  have hnull := (h [.addForceFakeStackLine (lit "*"), .setSign (some (lit "x")),
    .getSignature [] none, .getSignature [] none]).noNull 3 _ [none] rfl ⟨[], none, rfl, rfl⟩ rfl
  exact hnull List.mem_cons_self

end JniDegger.SignatureFake
