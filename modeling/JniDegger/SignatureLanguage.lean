import JniDegger.SignatureFake

/-!
# The strings the decoder accepts

`getSigBytes` trims its string, splits it at the commas and reads every piece as a
byte.  `String.split` drops the empty pieces at the end, however many there are
(`splitComma_eq`).  Proved here, for every string:

* `reads_iff`: which lists of bytes a string stands for;
* `decodesExactly_iff`: the decoder accepts the strings it should, except that it reads
  commas alone as an empty certificate;
* `not_decodesExactly`: a single comma.
-/

namespace JniDegger.SignatureFake

open JavaText

/-! ## The language -/

/-- The string, trimmed and without the commas at its end, is a non-empty list of tokens
with a comma between every two, and their values are `b`. -/
def Reads (s : JString) (b : List Int8) : Prop :=
  ∃ tokens, tokens ≠ [] ∧ (∀ p ∈ tokens, comma ∉ p) ∧ join tokens = stripCommas (trim s) ∧
    tokens.mapM byteValueOf = some b

/-- **The tokens are the pieces.** -/
theorem reads_iff {s : JString} {b : List Int8} :
    Reads s b ↔ ((stripCommas (trim s)).splitOn comma).mapM byteValueOf = some b := by
  constructor
  · rintro ⟨tokens, hne, hplain, hjoin, hvalues⟩
    rw [← hjoin, join, List.splitOn_intercalate comma hplain hne]
    exact hvalues
  · intro h
    exact ⟨_, List.splitOn_ne_nil _ _, fun p hp => not_mem_splitOn hp,
      List.intercalate_splitOn comma, h⟩

theorem Reads.ne_nil {s : JString} {b : List Int8} (h : Reads s b) : b ≠ [] := by
  obtain ⟨tokens, hne, -, -, hvalues⟩ := h
  cases tokens with
  | nil => exact absurd rfl hne
  | cons p ps =>
    rw [List.mapM_cons] at hvalues
    rintro rfl
    cases hp : byteValueOf p <;> cases hps : ps.mapM byteValueOf <;> simp [hp, hps] at hvalues

/-- What the decoder promises for the current sign string: it returns the values of the
tokens of that string, never an empty array, and throws if there are no such tokens. -/
structure DecodesExactly (st : State) : Prop where
  accepts : ∀ b, getSigBytes st = .ok b ↔ Reads st.sSingautre b
  nonempty : ∀ b, getSigBytes st = .ok b → b ≠ []
  rejects : (∀ b, ¬ Reads st.sSingautre b) → getSigBytes st = .error ⟨⟩

theorem sigBytes_eq_ok_iff {s : JString} {b : List Int8} :
    sigBytes s = .ok b ↔ (splitComma (trim s)).mapM byteValueOf = some b := by
  rw [sigBytes]
  cases (splitComma (trim s)).mapM byteValueOf <;> simp

/-- **The language of the decoder.**  Whatever the current sign string is, it is decoded
as it should be exactly when, trimmed, it is not made of commas alone. -/
theorem decodesExactly_iff (st : State) :
    DecodesExactly st ↔ ¬ OnlyCommas (trim st.sSingautre) := by
  constructor
  · intro h hcommas
    have hempty : getSigBytes st = .ok [] := by
      rw [getSigBytes, sigBytes_eq_ok_iff, splitComma_of_onlyCommas hcommas]
      rfl
    exact h.nonempty [] hempty rfl
  · intro hno
    have haccepts : ∀ b, getSigBytes st = .ok b ↔ Reads st.sSingautre b := by
      intro b
      rw [getSigBytes, sigBytes_eq_ok_iff, splitComma_eq hno, reads_iff]
    refine ⟨haccepts, fun b hb => ((haccepts b).mp hb).ne_nil, fun hnone => ?_⟩
    cases hb : getSigBytes st with
    | ok b => exact absurd ((haccepts b).mp hb) (hnone b)
    | error e => rfl

/-- A comma is read as no bytes at all. -/
theorem not_decodesExactly : ¬ ∀ st, DecodesExactly st := by
  intro h
  have hcomma : getSigBytes (setSign .start (some (lit ","))) = .ok [] := rfl
  exact (h (setSign .start (some (lit ",")))).nonempty [] hcomma rfl

end JniDegger.SignatureFake
