import JniDegger.JavaText
import JniDegger.Runs

/-!
# The faked signature (`SignatureFake.java`)

The static state of `SignatureFake` and its operations: the sign string, the array
that `getSignature` caches, and the stack lines that force faking.

* A Java `Signature[]` is `none` for null, and otherwise a list whose elements may
  be null.
* `HashSet<String>` is a list; it is only searched, so its order does not matter.
* The text of the call stack, which the JVM supplies, is an input of `getSignature`.
-/

namespace JniDegger.SignatureFake

open JavaText Runs

structure NumberFormatException
  deriving DecidableEq, Repr

/-- `android.content.pm.Signature`: the bytes of a certificate. -/
structure Signature where
  bytes : List Int8
  deriving DecidableEq

/-- A `Signature[]` that may be null and may hold nulls. -/
abbrev Signatures := Option (List (Option Signature))

/-- `SignatureManager.SIGN_HOOK`. -/
@[irreducible]
def signHook : JString := lit <|
  "48,-126,2,-21,48,-126,2,84,-96,3,2,1,2,2,4,77,54,-9,-92,48,13,6,9,42,-122,72,-122,-9,13," ++
  "1,1,5,5,0,48,-127,-71,49,11,48,9,6,3,85,4,6,19,2,56,54,49,18,48,16,6,3,85,4,8,19,9,71," ++
  "117,97,110,103,100,111,110,103,49,17,48,15,6,3,85,4,7,19,8,83,104,101,110,122,104,101," ++
  "110,49,53,48,51,6,3,85,4,10,19,44,84,101,110,99,101,110,116,32,84,101,99,104,110,111," ++
  "108,111,103,121,40,83,104,101,110,122,104,101,110,41,32,67,111,109,112,97,110,121,32,76," ++
  "105,109,105,116,101,100,49,58,48,56,6,3,85,4,11,19,49,84,101,110,99,101,110,116,32,71," ++
  "117,97,110,103,122,104,111,117,32,82,101,115,101,97,114,99,104,32,97,110,100,32,68,101," ++
  "118,101,108,111,112,109,101,110,116,32,67,101,110,116,101,114,49,16,48,14,6,3,85,4,3,19," ++
  "7,84,101,110,99,101,110,116,48,30,23,13,49,49,48,49,49,57,49,52,51,57,51,50,90,23,13,52," ++
  "49,48,49,49,49,49,52,51,57,51,50,90,48,-127,-71,49,11,48,9,6,3,85,4,6,19,2,56,54,49,18," ++
  "48,16,6,3,85,4,8,19,9,71,117,97,110,103,100,111,110,103,49,17,48,15,6,3,85,4,7,19,8,83," ++
  "104,101,110,122,104,101,110,49,53,48,51,6,3,85,4,10,19,44,84,101,110,99,101,110,116,32," ++
  "84,101,99,104,110,111,108,111,103,121,40,83,104,101,110,122,104,101,110,41,32,67,111," ++
  "109,112,97,110,121,32,76,105,109,105,116,101,100,49,58,48,56,6,3,85,4,11,19,49,84,101," ++
  "110,99,101,110,116,32,71,117,97,110,103,122,104,111,117,32,82,101,115,101,97,114,99,104," ++
  "32,97,110,100,32,68,101,118,101,108,111,112,109,101,110,116,32,67,101,110,116,101,114," ++
  "49,16,48,14,6,3,85,4,3,19,7,84,101,110,99,101,110,116,48,-127,-97,48,13,6,9,42,-122,72," ++
  "-122,-9,13,1,1,1,5,0,3,-127,-115,0,48,-127,-119,2,-127,-127,0,-64,95,52,-78,49,-80,-125," ++
  "-5,19,35,103,11,-5,-25,-67,-85,64,-64,-64,-90,-17,-56,126,-14,7,42,31,-16,-42,12,-58," ++
  "124,-114,-37,13,8,71,-14,16,-66,-90,-53,-6,-94,65,-66,112,-56,109,-81,86,-66,8,-73,35," ++
  "-56,89,-27,36,40,-96,100,85,93,-128,-37,68,-116,-36,-84,-63,-82,-94,80,30,-70,6,-8,-70," ++
  "-47,42,79,-92,-99,-123,-54,-51,122,-66,-74,-119,69,-91,-53,94,6,22,41,-75,46,50,84,-61," ++
  "115,85,14,-28,-28,12,-73,-56,-82,111,122,-127,81,-52,-40,-33,88,45,68,111,57,-82,12,94," ++
  "-109,2,3,1,0,1,48,13,6,9,42,-122,72,-122,-9,13,1,1,5,5,0,3,-127,-127,0,-100,-115,-99," ++
  "127,47,-112,-116,66,8,27,76,118,76,55,113,9,-88,-78,-57,5,-126,66,33,37,-50,84,88,66," ++
  "-43,-11,32,-82,-90,-107,80,-74,-67,-117,-3,-108,-23,-121,-73,90,48,119,-21,4,-83,52,31," ++
  "72,26,-84,38,110,-119,-45,-122,68,86,-26,-97,-70,19,-33,1,-118,-51,-63,104,-71,-95,-99," ++
  "-3,122,-39,-39,-52,111,106,-50,87,-57,70,81,95,113,35,77,-13,-96,83,-29,59,-87,62,-50," ++
  "92,-48,-4,21,-13,-29,-119,-93,-13,101,88,-118,-97,-53,67,-98,6,-99,54,41,-51,119,50,-95," ++
  "63,-1,123,-119,20,-103"

structure State where
  sSignature : Signatures
  sSingautre : JString
  sForceFakeStackLines : List JString

def State.start : State := ⟨none, signHook, []⟩

/-! ## The operations -/

def setSign (s : State) : Option JString → State
  | some sign => if 0 < sign.length then { s with sSingautre := sign } else s
  | none => s

def addForceFakeStackLine (s : State) (stackLine : JString) : State :=
  if stackLine ∈ s.sForceFakeStackLines then s
  else { s with sForceFakeStackLines := stackLine :: s.sForceFakeStackLines }

/-- The decoding loop of `getSigBytes`: every piece between commas is a byte. -/
def sigBytes (sign : JString) : Except NumberFormatException (List Int8) :=
  match (splitComma (trim sign)).mapM byteValueOf with
  | some b => .ok b
  | none => .error ⟨⟩

/-- The source also computes a copy of the string without its last comma, and then
splits the string itself. -/
def getSigBytes (s : State) : Except NumberFormatException (List Int8) := sigBytes s.sSingautre

/-- `stackText` is what `traceStack` returns. -/
def shouldUseFakeSignature (s : State) (stackText : JString) : Bool :=
  lit "*" ∈ s.sForceFakeStackLines ||
    s.sForceFakeStackLines.any fun line => 0 ≤ indexOf stackText line

/-- The new array is assigned to the static field before its element is decoded. -/
def getSignature (s : State) (stackText : JString) (orig_signatures : Signatures) :
    Except NumberFormatException Signatures × State :=
  if shouldUseFakeSignature s stackText then
    match s.sSignature with
    | some signatures => (.ok (some signatures), s)
    | none =>
      match getSigBytes s with
      | .ok b => (.ok (some [some ⟨b⟩]), { s with sSignature := some [some ⟨b⟩] })
      | .error e => (.error e, { s with sSignature := some [none] })
  else (.ok orig_signatures, s)

@[simp]
theorem setSign_sSignature (s : State) (sign : Option JString) :
    (setSign s sign).sSignature = s.sSignature := by
  cases sign with
  | none => rfl
  | some sign =>
    rw [setSign]
    split <;> rfl

@[simp]
theorem addForceFakeStackLine_sSignature (s : State) (line : JString) :
    (addForceFakeStackLine s line).sSignature = s.sSignature := by
  rw [addForceFakeStackLine]
  split <;> rfl

@[simp]
theorem addForceFakeStackLine_sSingautre (s : State) (line : JString) :
    (addForceFakeStackLine s line).sSingautre = s.sSingautre := by
  rw [addForceFakeStackLine]
  split <;> rfl

/-- The array the first faked call leaves in the static field. -/
def cached (sign : JString) : List (Option Signature) :=
  match sigBytes sign with
  | .ok b => [some ⟨b⟩]
  | .error _ => [none]

section GetSignature

variable {s : State} {stackText : JString} (orig : Signatures)

theorem getSignature_of_not_fake (hf : shouldUseFakeSignature s stackText = false) :
    getSignature s stackText orig = (.ok orig, s) := by
  simp [getSignature, hf]

theorem getSignature_of_cached {a : List (Option Signature)}
    (hf : shouldUseFakeSignature s stackText = true) (ha : s.sSignature = some a) :
    getSignature s stackText orig = (.ok (some a), s) := by
  simp [getSignature, hf, ha]

/-- The first faked call decodes the string, and leaves its array behind whether the
decoding succeeded or not. -/
theorem getSignature_of_empty (hf : shouldUseFakeSignature s stackText = true)
    (ha : s.sSignature = none) : getSignature s stackText orig =
      ((sigBytes s.sSingautre).map fun b => some [some ⟨b⟩],
        { s with sSignature := some (cached s.sSingautre) }) := by
  rw [getSignature, if_pos hf, ha, getSigBytes, cached]
  cases sigBytes s.sSingautre <;> rfl

@[simp]
theorem getSignature_sSingautre : (getSignature s stackText orig).2.sSingautre = s.sSingautre := by
  cases hf : shouldUseFakeSignature s stackText with
  | false => rw [getSignature_of_not_fake orig hf]
  | true =>
    cases ha : s.sSignature with
    | none => rw [getSignature_of_empty orig hf ha]
    | some a => rw [getSignature_of_cached orig hf ha]

end GetSignature

/-- Two sign strings are reported alike where nothing is faked or an array is cached, and
otherwise if they decode alike. -/
theorem getSignature_fst_eq_iff {s t : State} (hcache : t.sSignature = s.sSignature)
    (hlines : t.sForceFakeStackLines = s.sForceFakeStackLines) (stackText : JString)
    (orig : Signatures) :
    (getSignature t stackText orig).1 = (getSignature s stackText orig).1 ↔
      shouldUseFakeSignature s stackText = false ∨ s.sSignature ≠ none ∨
        sigBytes t.sSingautre = sigBytes s.sSingautre := by
  have hsame : shouldUseFakeSignature t stackText = shouldUseFakeSignature s stackText := by
    rw [shouldUseFakeSignature, shouldUseFakeSignature, hlines]
  cases hf : shouldUseFakeSignature s stackText with
  | false =>
    rw [getSignature_of_not_fake orig hf, getSignature_of_not_fake orig (hsame.trans hf)]
    simp
  | true =>
    cases ha : s.sSignature with
    | some a =>
      rw [getSignature_of_cached orig hf ha,
        getSignature_of_cached orig (hsame.trans hf) (hcache.trans ha)]
      simp
    | none =>
      rw [getSignature_of_empty orig hf ha,
        getSignature_of_empty orig (hsame.trans hf) (hcache.trans ha)]
      cases sigBytes t.sSingautre <;> cases sigBytes s.sSingautre <;> simp [Except.map]

/-! ## Histories -/

/-- One call of a static method of `SignatureFake`. -/
inductive Op
  | setSign (sign : Option JString)
  | addForceFakeStackLine (stackLine : JString)
  | getSignature (stackText : JString) (orig_signatures : Signatures)

/-- What `getSignature` returns or throws; the other methods return nothing. -/
abbrev Result := Option (Except NumberFormatException Signatures)

def step (s : State) : Op → Result × State
  | .setSign sign => (none, setSign s sign)
  | .addForceFakeStackLine stackLine => (none, addForceFakeStackLine s stackLine)
  | .getSignature stackText orig =>
    (some (getSignature s stackText orig).1, (getSignature s stackText orig).2)

def machine : Machine State Op Result where
  step := step
  stops _ := false

def run (ops : List Op) : List (Event State Op Result) := machine.trace .start ops

end JniDegger.SignatureFake
