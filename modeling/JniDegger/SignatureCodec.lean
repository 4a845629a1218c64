import JniDegger.SignatureFake

/-!
# Writing and reading a signature

`SignatureManager.getAllAppSign` writes the bytes of a package's first signature
as text; `SignatureFake.setSign` takes such a text and `getSigBytes` reads it.
Proved here:

* `signText_eq_join`: the loop of the writer joins the bytes with commas;
* `sigBytes_join`: the reader takes joined bytes back, padded or not, with one
  comma more or not;
* `codec_roundtrip`: reading undoes writing, for every non-empty byte array.
-/

namespace JniDegger.SignatureFake

open JavaText

/-- The loop of `getAllAppSign`: every byte but the last is written with a comma.
`none`: an empty array has no last byte, and the read of it throws. -/
def signText (signatures : List Int8) : Option JString :=
  match signatures.getLast? with
  | some last =>
    some (signatures.dropLast.foldl
      (fun builder b => builder ++ (intText b.toInt ++ [comma])) [] ++ intText last.toInt)
  | none => none

/-- `SignatureManager.getAllAppSign`.  `signatures` stands for
`getPackageInfo(name, GET_SIGNATURES).signatures`, with `none` when that throws;
every exception ends in the catch block and the empty string. -/
def getAllAppSign (signatures : JString → Option Signatures) : Option JString → JString
  | none => []
  | some packageName =>
    if packageName = [] then []
    else match signatures (trim (trim packageName)) with
      | some (some (some signature :: _)) => (signText signature.bytes).getD []
      | _ => []

theorem foldl_append {α : Type} (f : α → JString) (l : List α) (start : JString) :
    l.foldl (fun builder x => builder ++ f x) start = start ++ l.flatMap f := by
  induction l generalizing start with
  | nil => simp
  | cons x xs ih =>
    rw [List.foldl_cons, ih, List.flatMap_cons, List.append_assoc]

/-- **The writer joins the bytes with commas.** -/
theorem signText_eq_join {b : List Int8} (hb : b ≠ []) :
    signText b = some (join (b.map fun x => intText x.toInt)) := by
  induction b using List.reverseRecOn with
  | nil => exact absurd rfl hb
  | append_singleton front last _ =>
    rw [signText, List.getLast?_append]
    simp only [List.getLast?_singleton, Option.some_or, List.dropLast_concat, List.map_append,
      List.map_cons, List.map_nil]
    rw [foldl_append, join_concat, List.flatMap_map, List.nil_append]

/-- Every written byte is read back. -/
theorem mapM_byteValueOf (b : List Int8) :
    (b.map fun x => intText x.toInt).mapM byteValueOf = some b := by
  induction b with
  | nil => rfl
  | cons x xs ih =>
    rw [List.map_cons, List.mapM_cons, byteValueOf_intText, ih]
    rfl

theorem mem_join {pieces : List JString} {c : UInt16} (hc : c ∈ join pieces) :
    c = comma ∨ ∃ p ∈ pieces, c ∈ p := by
  induction pieces using List.reverseRecOn with
  | nil => exact absurd hc List.not_mem_nil
  | append_singleton front last _ =>
    rw [join_concat, List.mem_append, List.mem_flatMap] at hc
    rcases hc with ⟨p, hp, hc⟩ | hc
    · rcases List.mem_append.mp hc with hc | hc
      · exact Or.inr ⟨p, List.mem_append_left _ hp, hc⟩
      · exact Or.inl (List.mem_singleton.mp hc)
    · exact Or.inr ⟨last, List.mem_append_right _ List.mem_cons_self, hc⟩

/-- **The reader takes joined bytes back**, between padding, with or without one
comma more. -/
theorem sigBytes_join {b : List Int8} (hb : b ≠ []) {front back : JString}
    (hf : ∀ c ∈ front, isSpace c = true) (hk : ∀ c ∈ back, isSpace c = true) (extra : Bool) :
    sigBytes (front ++ (join (b.map fun x => intText x.toInt) ++ if extra then [comma] else []) ++
      back) = .ok b := by
  have hne : (b.map fun x => intText x.toInt) ≠ [] := by simpa using hb
  have hpiece : ∀ p ∈ b.map fun x => intText x.toInt, ∃ x : Int8, p = intText x.toInt := by
    intro p hp
    obtain ⟨x, -, hx⟩ := List.mem_map.mp hp
    exact ⟨x, hx.symm⟩
  have hfull : ∀ p ∈ b.map fun x => intText x.toInt, p ≠ [] := by
    intro p hp
    obtain ⟨x, rfl⟩ := hpiece p hp
    exact intText_ne_nil _
  have hcomma : ∀ p ∈ b.map fun x => intText x.toInt, comma ∉ p := by
    intro p hp hc
    obtain ⟨x, rfl⟩ := hpiece p hp
    exact (mem_intText hc).1 rfl
  have hplain : ∀ c ∈ join (b.map fun x => intText x.toInt) ++ if extra then [comma] else [],
      isSpace c = false := by
    intro c hc
    rcases List.mem_append.mp hc with hc | hc
    · rcases mem_join hc with rfl | ⟨p, hp, hcp⟩
      · rfl
      · obtain ⟨x, rfl⟩ := hpiece p hp
        exact (mem_intText hcp).2
    · cases extra <;> simp at hc
      rw [hc]
      rfl
  have hsplit : splitComma (join (b.map fun x => intText x.toInt) ++
      if extra then [comma] else []) = b.map fun x => intText x.toInt := by
    cases extra
    · simpa using splitComma_join hne hfull hcomma
    · simpa using splitComma_join_comma hne hfull hcomma
  rw [sigBytes, trim_pad hf hk hplain, hsplit, mapM_byteValueOf]

theorem setSign_of_ne_nil (s : State) {sign : JString} (h : sign ≠ []) :
    setSign s (some sign) = { s with sSingautre := sign } := by
  rw [setSign, if_pos (List.length_pos_iff.mpr h)]

/-- **Signature codec.**  The text written for a package whose first signature has
the bytes `b`, padded with characters up to U+0020 and with or without one comma
directly after it, is accepted by `setSign` and read as `b`. -/
theorem codec_roundtrip (s : State) (signatures : JString → Option Signatures)
    {packageName : JString} (hname : packageName ≠ []) {b : List Int8} (hb : b ≠ [])
    {others : List (Option Signature)}
    (hpm : signatures (trim (trim packageName)) = some (some (some ⟨b⟩ :: others)))
    {front back : JString} (hf : ∀ c ∈ front, isSpace c = true)
    (hk : ∀ c ∈ back, isSpace c = true) (extra : Bool) {text : JString}
    (htext : text = front ++ (getAllAppSign signatures (some packageName) ++
      if extra then [comma] else []) ++ back) :
    (setSign s (some text)).sSingautre = text ∧ getSigBytes (setSign s (some text)) = .ok b := by
  have henc : getAllAppSign signatures (some packageName) =
      join (b.map fun x => intText x.toInt) := by
    rw [getAllAppSign, if_neg hname, hpm]
    simp only [signText_eq_join hb, Option.getD_some]
  have hread : sigBytes text = .ok b := by
    rw [htext, henc]
    exact sigBytes_join hb hf hk extra
  have hne : text ≠ [] := by
    rintro rfl
    cases hread
  rw [getSigBytes, setSign_of_ne_nil s hne]
  exact ⟨rfl, hread⟩

/-- The extreme bytes, between a blank and a line break, with one comma more. -/
theorem codec_roundtrip_extremes :
    getSigBytes (setSign .start (some (lit " -128,0,127,\n"))) = .ok [-128, 0, 127] := by
  have hf : ∀ c ∈ lit " ", isSpace c = true := fun c hc => List.mem_singleton.mp hc ▸ rfl
  have hk : ∀ c ∈ lit "\n", isSpace c = true := fun c hc => List.mem_singleton.mp hc ▸ rfl
  exact (@codec_roundtrip .start (fun _ => some (some [some ⟨[-128, 0, 127]⟩])) (lit "p")
    (by decide) [-128, 0, 127] (by decide) [] rfl _ _ hf hk true _ (by decide)).2

end JniDegger.SignatureFake
