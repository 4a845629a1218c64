import Mathlib.Data.Set.Piecewise
import Mathlib.Data.Set.Lattice
import Mathlib.Order.CompletePartialOrder

/-!
# Layers over a function

A layer replaces the values of a function on a region, and has saved those it
replaced.  Layers are put on one after the other and may lie over one another.

A layer can be taken off while it is not covered: what remains is what the others
would have made without it (`layers_takeOff`), and they can still be taken off
(`Saved.takeOff`).  Taken off from under another one, it comes back in the shared
part when that one is taken off (`off_off_covered`).
-/

namespace JniDegger.Layers

structure Layer (α β : Type*) where
  region : Set α
  value : α → β
  saved : α → β

variable {α β : Type*} {base f : α → β} {p q : Layer α β} {ps qs : List (Layer α β)} {x : α}

open Classical in
/-- The function with the layer put on. -/
noncomputable def Layer.on (p : Layer α β) (f : α → β) : α → β := p.region.piecewise p.value f

open Classical in
/-- The function with the saved values put back. -/
noncomputable def Layer.off (p : Layer α β) (f : α → β) : α → β := p.region.piecewise p.saved f

theorem Layer.on_of_mem (h : x ∈ p.region) : p.on f x = p.value x := if_pos h

theorem Layer.on_of_notMem (h : x ∉ p.region) : p.on f x = f x := if_neg h

theorem Layer.off_of_mem (h : x ∈ p.region) : p.off f x = p.saved x := if_pos h

theorem Layer.off_of_notMem (h : x ∉ p.region) : p.off f x = f x := if_neg h

theorem Layer.off_congr {g : α → β} (h : f x = g x) : p.off f x = p.off g x := by
  by_cases hx : x ∈ p.region
  · rw [off_of_mem hx, off_of_mem hx]
  · rw [off_of_notMem hx, off_of_notMem hx, h]

/-- All layers on; the newest comes first. -/
noncomputable def layers (base : α → β) : List (Layer α β) → α → β
  | [] => base
  | p :: ps => p.on (layers base ps)

/-- Each layer has saved what the ones before it had made. -/
def Saved (base : α → β) : List (Layer α β) → Prop
  | [] => True
  | p :: ps => (∀ x ∈ p.region, p.saved x = layers base ps x) ∧ Saved base ps

/-- No layer of the list lies over `p`. -/
def Uncovered (p : Layer α β) (qs : List (Layer α β)) : Prop :=
  ∀ q ∈ qs, Disjoint p.region q.region

theorem Uncovered.notMem (h : Uncovered p qs) (hx : x ∈ p.region) : ∀ q ∈ qs, x ∉ q.region :=
  fun q hq => Set.disjoint_left.mp (h q hq) hx

/-! ## What is seen at one place -/

theorem layers_above (h : ∀ q ∈ qs, x ∉ q.region) : layers base (qs ++ ps) x = layers base ps x := by
  induction qs with
  | nil => rfl
  | cons q qs ih =>
    rw [List.cons_append, layers, Layer.on_of_notMem (h q (by simp))]
    exact ih fun r hr => h r (List.mem_cons_of_mem _ hr)

theorem layers_skip (h : x ∉ p.region) :
    layers base (qs ++ p :: ps) x = layers base (qs ++ ps) x := by
  induction qs with
  | nil => exact Layer.on_of_notMem h
  | cons q qs ih =>
    rw [List.cons_append, List.cons_append, layers, layers]
    by_cases hq : x ∈ q.region
    · rw [Layer.on_of_mem hq, Layer.on_of_mem hq]
    · rw [Layer.on_of_notMem hq, Layer.on_of_notMem hq]
      exact ih

theorem layers_uncovered (h : Uncovered p qs) (hx : x ∈ p.region) :
    layers base (qs ++ p :: ps) x = p.value x := by
  rw [layers_above (h.notMem hx), layers, Layer.on_of_mem hx]

theorem Saved.at (h : Saved base (qs ++ p :: ps)) :
    ∀ x ∈ p.region, p.saved x = layers base ps x := by
  induction qs with
  | nil => exact h.1
  | cons q qs ih => exact ih h.2

/-! ## Taking off -/

/-- **Taking off** a layer that is not covered. -/
theorem layers_takeOff (h : Saved base (qs ++ p :: ps)) (hun : Uncovered p qs) :
    p.off (layers base (qs ++ p :: ps)) = layers base (qs ++ ps) := by
  funext x
  by_cases hx : x ∈ p.region
  · rw [Layer.off_of_mem hx, h.at x hx, layers_above (hun.notMem hx)]
  · rw [Layer.off_of_notMem hx, layers_skip hx]

theorem layers_pop (h : Saved base (p :: ps)) : p.off (layers base (p :: ps)) = layers base ps :=
  layers_takeOff (h : Saved base ([] ++ p :: ps)) fun _ hq => absurd hq List.not_mem_nil

theorem Saved.takeOff (h : Saved base (qs ++ p :: ps)) (hun : Uncovered p qs) :
    Saved base (qs ++ ps) := by
  induction qs with
  | nil => exact h.2
  | cons q qs ih =>
    refine ⟨fun x hx => ?_, ih h.2 fun r hr => hun r (List.mem_cons_of_mem _ hr)⟩
    exact (h.1 x hx).trans (layers_skip (Set.disjoint_right.mp (hun q (by simp)) hx))

/-- **Taking off in the wrong order**: the older layer comes back where the newer one was
over it. -/
theorem off_off_covered (h : Saved base (q :: p :: ps)) :
    (x ∈ q.region → x ∈ p.region → q.off (p.off (layers base (q :: p :: ps))) x = p.value x) ∧
      ((x ∈ q.region → x ∉ p.region) →
        q.off (p.off (layers base (q :: p :: ps))) x = layers base ps x) := by
  by_cases hq : x ∈ q.region
  · rw [Layer.off_of_mem hq, h.1 x hq, layers]
    exact ⟨fun _ hp => Layer.on_of_mem hp, fun hp => Layer.on_of_notMem (hp hq)⟩
  · refine ⟨fun hmem => absurd hmem hq, fun _ => ?_⟩
    rw [Layer.off_of_notMem hq]
    by_cases hp : x ∈ p.region
    · rw [Layer.off_of_mem hp, h.2.1 x hp]
    · rw [Layer.off_of_notMem hp, layers, Layer.on_of_notMem hq, layers, Layer.on_of_notMem hp]

end JniDegger.Layers
