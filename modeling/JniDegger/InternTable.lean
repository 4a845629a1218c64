import Std.Data.ExtTreeMap
import Mathlib.Data.Set.Insert

/-!
# Interning tables over an ordered map

A table maps keys to values in key order, with one value (`default`) that means
"no name".  Reading a missing key with the subscript operator plants that value;
searching a value walks the table in key order and takes the first hit.

Proved here, for every key order and value type:

* `binds_touch`, `binds_insert`: the *bindings* (entries with a real value) are
  untouched by subscript reads, and an insertion at an unbound key adds exactly
  one;
* `search_eq_some_iff`, `search_eq_none_iff_binds`: in a one-to-one table the
  search for a real value does not depend on the key order;
* `Interned`: one-to-one, with every bound key owned by the supply of keys; kept
  while the bindings stay the same, and by the insertion of a value not found at a
  key not owned.
-/

namespace JniDegger.InternTable

open Std

variable {κ ν : Type*} {cmp : κ → κ → Ordering} [TransCmp cmp] [Inhabited ν]

/-- The value `m[k]` reads. -/
def peek (m : ExtTreeMap κ ν cmp) (k : κ) : ν := m.getD k default

/-- The table `m[k]` leaves behind when it is read: a missing key is planted. -/
def touch (m : ExtTreeMap κ ν cmp) (k : κ) : ExtTreeMap κ ν cmp := m.insertIfNew k default

/-- `k` holds the real value `v`. -/
def Binds (m : ExtTreeMap κ ν cmp) (k : κ) (v : ν) : Prop := m[k]? = some v ∧ v ≠ default

/-- No real value has two keys. -/
def OneToOne (m : ExtTreeMap κ ν cmp) : Prop := ∀ k k' v, Binds m k v → Binds m k' v → k = k'

/-- Every binding of `m` is one of `m'`. -/
def Extends (m m' : ExtTreeMap κ ν cmp) : Prop := ∀ k v, Binds m k v → Binds m' k v

theorem not_binds_empty (k : κ) (v : ν) : ¬ Binds (∅ : ExtTreeMap κ ν cmp) k v := by
  simp [Binds]

theorem Binds.unique {m : ExtTreeMap κ ν cmp} {k : κ} {v w : ν} (hv : Binds m k v)
    (hw : Binds m k w) : v = w :=
  Option.some.inj (hv.1.symm.trans hw.1)

theorem Binds.peek_eq {m : ExtTreeMap κ ν cmp} {k : κ} {v : ν} (h : Binds m k v) :
    peek m k = v := by
  rw [peek, ExtTreeMap.getD_eq_getD_getElem?, h.1]
  rfl

theorem peek_eq_iff {m : ExtTreeMap κ ν cmp} {k : κ} {v : ν} (hv : v ≠ default) :
    peek m k = v ↔ Binds m k v := by
  refine ⟨fun h => ⟨?_, hv⟩, Binds.peek_eq⟩
  rw [peek, ExtTreeMap.getD_eq_getD_getElem?] at h
  cases hk : m[k]? with
  | none => rw [hk] at h; exact absurd h.symm hv
  | some w => rw [hk] at h; exact congrArg some h

theorem peek_eq_default_iff {m : ExtTreeMap κ ν cmp} {k : κ} :
    peek m k = default ↔ ∀ v, ¬ Binds m k v := by
  constructor
  · intro h v hb
    exact hb.2 (hb.peek_eq ▸ h)
  · intro h
    by_contra hne
    exact h _ ((peek_eq_iff hne).mp rfl)

theorem peek_congr {m m' : ExtTreeMap κ ν cmp} {k : κ} (h : ∀ v, Binds m' k v ↔ Binds m k v) :
    peek m' k = peek m k := by
  by_cases hk : peek m k = default
  · rw [hk]
    exact peek_eq_default_iff.mpr fun v hb => peek_eq_default_iff.mp hk v ((h v).mp hb)
  · exact (peek_eq_iff hk).mpr ((h _).mpr ((peek_eq_iff hk).mp rfl))

theorem Extends.refl (m : ExtTreeMap κ ν cmp) : Extends m m := fun _ _ h => h

theorem Extends.trans {m m' m'' : ExtTreeMap κ ν cmp} (h : Extends m m') (h' : Extends m' m'') :
    Extends m m'' :=
  fun k v hb => h' k v (h k v hb)

/-! ## What an operation does to the bindings -/

section Operations

variable [LawfulEqCmp cmp]

/-- **Subscript reads keep the bindings.** -/
theorem binds_touch {m : ExtTreeMap κ ν cmp} {k k' : κ} {v : ν} :
    Binds (touch m k) k' v ↔ Binds m k' v := by
  rw [Binds, Binds, touch, ExtTreeMap.getElem?_insertIfNew]
  split
  · next h =>
    obtain ⟨he, hk⟩ := h
    obtain rfl := LawfulEqCmp.eq_of_compare he
    have hn : m[k]? = none := ExtTreeMap.getElem?_eq_none hk
    constructor
    · rintro ⟨e, hv⟩
      exact absurd (Option.some.inj e).symm hv
    · rintro ⟨e, -⟩
      rw [hn] at e
      cases e
  · rfl

/-- A subscript read is a pure read exactly at the keys of the table. -/
theorem touch_eq_self_iff {m : ExtTreeMap κ ν cmp} {k : κ} : touch m k = m ↔ k ∈ m := by
  constructor
  · intro h
    rw [← h, touch]
    exact ExtTreeMap.mem_insertIfNew_self
  · intro hk
    refine ExtTreeMap.ext_getElem? fun k' => ?_
    rw [touch, ExtTreeMap.getElem?_insertIfNew, if_neg fun h => h.2 hk]

theorem getElem?_touch {m : ExtTreeMap κ ν cmp} {k k' : κ} {v : ν} (h : m[k']? = some v) :
    (touch m k)[k']? = some v := by
  rw [touch, ExtTreeMap.getElem?_insertIfNew, if_neg ?_, h]
  rintro ⟨he, hk⟩
  obtain rfl := LawfulEqCmp.eq_of_compare he
  rw [ExtTreeMap.getElem?_eq_none hk] at h
  cases h

theorem mem_touch {m : ExtTreeMap κ ν cmp} {k k' : κ} : k' ∈ touch m k ↔ k' = k ∨ k' ∈ m := by
  rw [touch, ExtTreeMap.mem_insertIfNew, LawfulEqCmp.compare_eq_iff_eq, eq_comm]

omit [Inhabited ν] in
theorem mem_insert {m : ExtTreeMap κ ν cmp} {k k' : κ} {v : ν} :
    k' ∈ m.insert k v ↔ k' = k ∨ k' ∈ m := by
  rw [ExtTreeMap.mem_insert, LawfulEqCmp.compare_eq_iff_eq, eq_comm]

omit [Inhabited ν] in
theorem eq_or_of_getElem?_insert {m : ExtTreeMap κ ν cmp} {k k' : κ} {v v' : ν}
    (h : (m.insert k v)[k']? = some v') : k' = k ∧ v' = v ∨ m[k']? = some v' := by
  rw [ExtTreeMap.getElem?_insert] at h
  split at h
  · next he =>
    obtain rfl := LawfulEqCmp.eq_of_compare he
    exact Or.inl ⟨rfl, (Option.some.inj h).symm⟩
  · exact Or.inr h

/-- **An insertion at an unbound key adds one binding.** -/
theorem binds_insert {m : ExtTreeMap κ ν cmp} {k k' : κ} {v v' : ν}
    (hk : ∀ w, ¬ Binds m k w) :
    Binds (m.insert k v) k' v' ↔ Binds m k' v' ∨ k' = k ∧ v' = v ∧ v ≠ default := by
  rw [Binds, ExtTreeMap.getElem?_insert]
  split
  · next h =>
    obtain rfl := LawfulEqCmp.eq_of_compare h
    constructor
    · rintro ⟨e, hv⟩
      obtain rfl := Option.some.inj e
      exact Or.inr ⟨rfl, rfl, hv⟩
    · rintro (h | ⟨-, rfl, hv⟩)
      · exact absurd h (hk v')
      · exact ⟨rfl, hv⟩
  · next h =>
    constructor
    · exact Or.inl
    · rintro (h' | ⟨rfl, -⟩)
      · exact h'
      · exact absurd ReflCmp.compare_self h

theorem extends_insert {m : ExtTreeMap κ ν cmp} {k : κ} (hk : ∀ w, ¬ Binds m k w) (v : ν) :
    Extends m (m.insert k v) :=
  fun _ _ h => (binds_insert hk).mpr (Or.inl h)

end Operations

/-! ## Searching -/

/-- The key of the first entry, in key order, that holds `v`. -/
def search {ν : Type*} [DecidableEq ν] (m : ExtTreeMap κ ν cmp) (v : ν) : Option κ :=
  (m.toList.find? (fun p => p.2 == v)).map Prod.fst

section Search

variable [LawfulEqCmp cmp] [DecidableEq ν]

omit [Inhabited ν] in
theorem getElem?_of_search {m : ExtTreeMap κ ν cmp} {v : ν} {k : κ} (h : search m v = some k) :
    m[k]? = some v := by
  obtain ⟨⟨k', w⟩, hf, rfl⟩ := Option.map_eq_some_iff.mp h
  have hw : w = v := by simpa using List.find?_some hf
  subst hw
  exact ExtTreeMap.mem_toList_iff_getElem?_eq_some.mp (List.mem_of_find?_eq_some hf)

omit [Inhabited ν] in
theorem search_eq_none_iff {m : ExtTreeMap κ ν cmp} {v : ν} :
    search m v = none ↔ ∀ k : κ, m[k]? ≠ some v := by
  simp only [search, Option.map_eq_none_iff, List.find?_eq_none, Prod.forall,
    ExtTreeMap.mem_toList_iff_getElem?_eq_some, beq_iff_eq]
  constructor
  · intro h k hk
    exact h k v hk rfl
  · rintro h k w hk rfl
    exact h k hk

theorem search_eq_none_iff_binds {m : ExtTreeMap κ ν cmp} {v : ν} (hv : v ≠ default) :
    search m v = none ↔ ∀ k : κ, ¬ Binds m k v := by
  rw [search_eq_none_iff]
  exact forall_congr' fun k => ⟨fun h hb => h hb.1, fun h e => h ⟨e, hv⟩⟩

/-- In a one-to-one table the search finds the key of a real value, whatever
the key order is. -/
theorem search_eq_some_iff {m : ExtTreeMap κ ν cmp} (hm : OneToOne m) {v : ν}
    (hv : v ≠ default) {k : κ} : search m v = some k ↔ Binds m k v := by
  constructor
  · intro h
    exact ⟨getElem?_of_search h, hv⟩
  · intro hb
    cases hs : search m v with
    | none => exact absurd hb ((search_eq_none_iff_binds hv).mp hs k)
    | some k' => rw [hm k' k v ⟨getElem?_of_search hs, hv⟩ hb]

end Search

/-! ## Interned tables -/

/-- A one-to-one table all of whose bound keys come from the supply `S`. -/
structure Interned (S : Set κ) (m : ExtTreeMap κ ν cmp) : Prop where
  one : OneToOne m
  owned : ∀ k v, Binds m k v → k ∈ S

theorem interned_empty (S : Set κ) : Interned S (∅ : ExtTreeMap κ ν cmp) where
  one _ _ _ h := absurd h (not_binds_empty _ _)
  owned _ _ h := absurd h (not_binds_empty _ _)

theorem Interned.mono {S T : Set κ} {m : ExtTreeMap κ ν cmp} (h : Interned S m) (hST : S ⊆ T) :
    Interned T m where
  one := h.one
  owned k v hb := hST (h.owned k v hb)

theorem Interned.congr {S : Set κ} {m m' : ExtTreeMap κ ν cmp} (h : Interned S m)
    (hb : ∀ k v, Binds m' k v ↔ Binds m k v) : Interned S m' where
  one k k' v hk hk' := h.one k k' v ((hb k v).mp hk) ((hb k' v).mp hk')
  owned k v hk := h.owned k v ((hb k v).mp hk)

theorem Interned.unbound {S : Set κ} {m : ExtTreeMap κ ν cmp} (h : Interned S m) {k : κ}
    (hk : k ∉ S) (v : ν) : ¬ Binds m k v :=
  fun hb => hk (h.owned k v hb)

section Interning

variable [LawfulEqCmp cmp]

/-- **Interning keeps the table interned**: a value the search missed is stored
at a key outside the supply. -/
theorem Interned.insert [DecidableEq ν] {S : Set κ} {m : ExtTreeMap κ ν cmp} (h : Interned S m)
    {k : κ} (hk : k ∉ S) {v : ν} (hs : search m v = none) :
    Interned (Insert.insert k S) (m.insert k v) where
  one k₁ k₂ w h₁ h₂ := by
    have hmiss := search_eq_none_iff.mp hs
    rcases (binds_insert (h.unbound hk)).mp h₁ with b₁ | ⟨e₁, rfl, -⟩ <;>
      rcases (binds_insert (h.unbound hk)).mp h₂ with b₂ | ⟨e₂, e, -⟩
    · exact h.one k₁ k₂ w b₁ b₂
    · exact absurd (e ▸ b₁.1) (hmiss k₁)
    · exact absurd b₂.1 (hmiss k₂)
    · exact e₁.trans e₂.symm
  owned k' w hb := by
    rcases (binds_insert (h.unbound hk)).mp hb with b | ⟨e, -, -⟩
    · exact Set.mem_insert_of_mem k (h.owned k' w b)
    · exact Set.mem_insert_iff.mpr (Or.inl e)

end Interning

end JniDegger.InternTable
