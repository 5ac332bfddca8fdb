import Mathlib.Control.Basic

/-!
# Invariants of stateful computations that may fail

A computation in `StateT σ Option` keeps a property of the state if the property holds behind it
whenever it held before and the computation has a result. The rules follow the ways in which such
computations are put together.

## Main definitions

* `Keeps P m`: the computation `m` keeps the property `P`

## Main results

* `Keeps.bind`, `Keeps.ite`, `Keeps.modify`: the rules
-/

universe u

variable {σ : Type u} {α β : Type u} {P : σ → Prop}

/-- The computation keeps the property. -/
def Keeps (P : σ → Prop) (m : StateT σ Option α) : Prop :=
  ∀ s a s', P s → m.run s = some (a, s') → P s'

namespace Keeps

theorem pure (a : α) : Keeps P (Pure.pure a : StateT σ Option α) := by
  intro s b s' hs h
  cases h
  exact hs

theorem bind {m : StateT σ Option α} {f : α → StateT σ Option β} (hm : Keeps P m)
    (hf : ∀ a, Keeps P (f a)) : Keeps P (m >>= f) := by
  intro s b s' hs h
  rw [StateT.run_bind, Option.bind_eq_bind, Option.bind_eq_some_iff] at h
  obtain ⟨⟨a, t⟩, ht, h⟩ := h
  exact hf a t b s' (hm s a t hs ht) h

theorem failure : Keeps P (failure : StateT σ Option α) := by
  intro s a s' _ h
  have hnone : (none : Option (α × σ)) = some (a, s') := h
  simp at hnone

theorem get : Keeps P (get : StateT σ Option σ) := by
  intro s a s' hs h
  cases h
  exact hs

theorem modify {f : σ → σ} (hf : ∀ s, P s → P (f s)) :
    Keeps P (modify f : StateT σ Option PUnit) := by
  intro s a s' hs h
  cases h
  exact hf s hs

theorem modifyGet {f : σ → α × σ} (hf : ∀ s, P s → P (f s).2) :
    Keeps P (modifyGet f : StateT σ Option α) := by
  intro s a s' hs h
  have heq : f s = (a, s') := Option.some.inj h
  have := hf s hs
  rwa [heq] at this

theorem ite {c : Prop} [Decidable c] {m k : StateT σ Option α} (hm : Keeps P m)
    (hk : Keeps P k) : Keeps P (if c then m else k) := by
  split
  · exact hm
  · exact hk

end Keeps
