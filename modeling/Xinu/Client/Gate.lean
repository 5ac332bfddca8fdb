import Xinu.Client.Crowd

/-!
# Gates

A library that guards something with a semaphore is right when a sum stays the same: the count of
the semaphore, and a weight for every thread that has called `wait` and has not yet done what the
permit was for. The sum is then what is guarded, as the shared data have it. Whoever has the
processor behind the `wait` has a permit, so there is something left for it to take.

## Main results

* `Gate.wait`, `Gate.signal`, `Gate.move`, `Gate.frame`: what the moves of a thread do to a gate
* `Gate.permits`: those behind the gate are no more than what it guards
-/

namespace Xinu

open Function

variable {L : Type} {σ σ' : Semaphores} {pc : Int → Option (Next L)} {t : Int} {i j : Nat}

theorem mem_toFinset_tids : t ∈ tids.toFinset ↔ IsTid t := List.mem_toFinset.trans mem_tids

/-- The weights of the places of a library, for one semaphore, and the places where a thread may be
waiting for it. -/
structure Toll (L : Type) where
  weight : Option (Next L) → Nat
  waits : Option (Next L) → Prop
  weight_pos : ∀ p, waits p → 0 < weight p

/-- The weights of all threads. -/
def Toll.total (toll : Toll L) (pc : Int → Option (Next L)) : Int :=
  Permits.total (fun p => (toll.weight p : Int)) pc tids.toFinset

theorem Toll.total_update (toll : Toll L) (ht : IsTid t) (p : Option (Next L)) :
    toll.total (update pc t p) = toll.total pc + toll.weight p - toll.weight (pc t) :=
  Permits.total_update (mem_toFinset_tids.mpr ht) p

theorem Toll.total_none (toll : Toll L) (h : toll.weight none = 0) :
    toll.total (fun _ => none) = 0 :=
  Permits.total_eq_zero fun _ _ => congrArg Nat.cast h

/-- **The semaphore `i` guards `n`.** -/
def Gate (σ : Semaphores) (pc : Int → Option (Next L)) (i : Nat) (toll : Toll L) (n : Int) : Prop :=
  ∃ x, σ i = some x ∧ x.Level ∧ (∀ u ∈ x.queue, toll.waits (pc u)) ∧ x.count + toll.total pc = n

/-! ## Calls about semaphores -/

namespace Gate

variable {toll : Toll L} {n : Int} {p : Option (Next L)} {v : Int}

theorem live (h : Gate σ pc i toll n) : σ i ≠ none := by
  obtain ⟨x, hx, -⟩ := h
  rw [hx]
  exact Option.some_ne_none x

theorem create (hn : 0 ≤ n) (hnobody : toll.total pc = 0) :
    Gate (update σ i (some ⟨n, []⟩)) pc i toll n :=
  ⟨_, update_self .., Semaphore.level_mk hn, by simp, by simp [hnobody]⟩

section

variable (h : Gate σ pc i toll n)
include h

/-- Nothing happens to the semaphore. -/
theorem keep (hsem : σ' i = σ i) : Gate σ' pc i toll n := by
  obtain ⟨x, hx, hrest⟩ := h
  exact ⟨x, hsem.trans hx, hrest⟩

section

variable (ht : IsTid t) (hawake : ∀ x, σ i = some x → t ∉ x.queue) (hsem : σ' i = σ i)
include ht hawake hsem

/-- A thread that does not wait moves. -/
theorem move (p : Option (Next L)) :
    Gate σ' (update pc t p) i toll (n + toll.weight p - toll.weight (pc t)) := by
  obtain ⟨x, hx, hlevel, hq, hsum⟩ := h
  refine ⟨x, hsem.trans hx, hlevel, fun u hu => ?_, ?_⟩
  · rw [update_of_ne]
    · exact hq u hu
    · rintro rfl
      exact hawake x hx hu
  · rw [toll.total_update ht, ← hsum]
    omega

/-- A thread that does not wait moves between places of the same weight. -/
theorem frame (hp : toll.weight p = toll.weight (pc t)) : Gate σ' (update pc t p) i toll n := by
  have h' := h.move ht hawake hsem p
  rwa [hp, Int.add_sub_cancel] at h'

end

/-- **A thread waits**, and has a permit or is queued. -/
theorem wait (ht : IsTid t) (hc : SemCall t σ (.wait i) v σ')
    (hp : toll.waits p) (hw : toll.weight p = toll.weight (pc t) + 1) :
    v = OK ∧ Gate σ' (update pc t p) i toll n := by
  have hlive := h.live
  obtain ⟨x, hx, hlevel, hq, hsum⟩ := h
  cases hc with
  | waitBad hbad => exact absurd hbad hlive
  | @wait _ y hy =>
    obtain rfl : y = x := Option.some.inj (hy.symm.trans hx)
    refine ⟨rfl, y.wait t, update_self .., hlevel.wait t, fun u hu => ?_, ?_⟩
    · -- whoever is queued was so before, or is the one who moved
      by_cases hut : u = t
      · rw [hut, update_self]
        exact hp
      · rw [update_of_ne hut]
        exact hq u ((Semaphore.mem_wait hu).resolve_right hut)
    · change y.count - 1 + _ = _
      rw [toll.total_update ht, hw, ← hsum]
      push_cast
      omega

theorem of_signal (ht : IsTid t) (hawake : ∀ x, σ i = some x → t ∉ x.queue)
    {x : Semaphore Int} (hx : σ i = some x) (k : Nat) (p : Option (Next L)) :
    Gate (update σ i (some (x.signal k))) (update pc t p) i toll
      (n + k + toll.weight p - toll.weight (pc t)) := by
  obtain ⟨y, hy, hlevel, hq, hsum⟩ := h
  obtain rfl : x = y := Option.some.inj (hx.symm.trans hy)
  refine ⟨x.signal k, update_self .., hlevel.signal k, fun u hu => ?_, ?_⟩
  · have hu' := Semaphore.mem_signal hu
    rw [update_of_ne]
    · exact hq u hu'
    · rintro rfl
      exact hawake x hx hu'
  · change x.count + k + _ = _
    rw [toll.total_update ht, ← hsum]
    omega

/-- **A thread gives several permits.** -/
theorem signaln (ht : IsTid t) (hawake : ∀ x, σ i = some x → t ∉ x.queue) {k : Nat} (hk : 0 < k)
    (hc : SemCall t σ (.signaln i k) v σ') (p : Option (Next L)) :
    v = OK ∧ Gate σ' (update pc t p) i toll (n + k + toll.weight p - toll.weight (pc t)) := by
  cases hc with
  | signalnBad hbad =>
    rcases hbad with hbad | hbad
    · exact absurd hbad h.live
    · omega
  | signaln hx _ =>
    refine ⟨rfl, ?_⟩
    simpa using h.of_signal ht hawake hx k p

/-- **Those behind the gate** are no more than what it guards. -/
theorem permits (hnodup : ∀ x, σ i = some x → x.queue.Nodup)
    (htids : ∀ x, σ i = some x → ∀ u ∈ x.queue, IsTid u) {l : List Int} (hl : l.Nodup)
    (hlt : ∀ t ∈ l, IsTid t ∧ 0 < toll.weight (pc t))
    (hawake : ∀ t ∈ l, ∀ x, σ i = some x → t ∉ x.queue) : (l.length : Int) ≤ n := by
  obtain ⟨x, hx, hlevel, hq, rfl⟩ := h
  refine hlevel.le_total (fun _ => Int.natCast_nonneg _) ?_ ?_ ?_
  · exact List.nodup_append'.mpr ⟨hl, hnodup x hx, fun t ht htq => hawake t ht x hx htq⟩
  · intro t ht
    rw [mem_toFinset_tids]
    exact (List.mem_append.mp ht).elim (fun h => (hlt t h).1) (htids x hx t)
  · intro t ht
    have hpos : 0 < toll.weight (pc t) :=
      (List.mem_append.mp ht).elim (fun h => (hlt t h).2) fun h => toll.weight_pos _ (hq t h)
    exact_mod_cast hpos

end

/-- Whoever has the processor behind the gate has something to take. -/
theorem pos {γ : Type} {c : Crowd γ L} (h : Gate c.sems c.pc i toll n) (P : c.Proper t)
    (hw : 0 < toll.weight (c.pc t)) : 0 < n := by
  have hone := h.permits (P.nodup i) (P.tids i) (List.nodup_singleton t)
    (by simpa using ⟨P.tid, hw⟩) (by simpa using P.awake i)
  exact hone

end Gate

end Xinu
