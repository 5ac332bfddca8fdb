import Mathlib.Data.List.Nodup
import Mathlib.Data.List.Basic

/-!
# Doubly linked lists with a head pointer

A list of nodes that has a pointer to its first node and in each node a pointer to the next and to
the previous one, with a null pointer at either end. There is no node before the first: where the
first node changes, the head pointer does.

## Main definitions

* `Listed next prev p cur l stop`: from the pointer `cur` on, behind `p`, stand the nodes `l`, and
  then the pointer `stop`
* `lastOf p l`: the last node of `l`, or `p` if there is none

## Main results

* `Listed.insert`, `Listed.remove`: a node is put in and taken out
-/

namespace HeadedList

open List

variable {ι : Type*} {next prev next' prev' : ι → Option ι} {p cur stop : Option ι} {l r : List ι}

/-- From `cur` on, behind `p`, stand the nodes `l`, and then `stop`. -/
def Listed (next prev : ι → Option ι) : Option ι → Option ι → List ι → Option ι → Prop
  | _, cur, [], stop => cur = stop
  | p, cur, i :: l, stop => cur = some i ∧ prev i = p ∧ Listed next prev (some i) (next i) l stop

/-- The last of some nodes behind `p`. -/
def lastOf : Option ι → List ι → Option ι
  | p, [] => p
  | _, i :: l => lastOf (some i) l

@[simp] theorem lastOf_append_singleton (p : Option ι) (l : List ι) (i : ι) :
    lastOf p (l ++ [i]) = some i := by
  induction l generalizing p with
  | nil => rfl
  | cons j l ih => exact ih _

/-- The last of some nodes is one of them, unless there are none. -/
theorem lastOf_cases (p : Option ι) (l : List ι) :
    (l = [] ∧ lastOf p l = p) ∨ ∃ i ∈ l, lastOf p l = some i := by
  rcases l.eq_nil_or_concat with rfl | ⟨k, i, rfl⟩
  · exact .inl ⟨rfl, rfl⟩
  · refine .inr ⟨i, by simp, ?_⟩
    rw [concat_eq_append, lastOf_append_singleton]

theorem listed_append :
    Listed next prev p cur (l ++ r) stop ↔
      ∃ m, Listed next prev p cur l m ∧ Listed next prev (lastOf p l) m r stop := by
  induction l generalizing p cur with
  | nil =>
    constructor
    · intro h
      exact ⟨cur, rfl, h⟩
    · rintro ⟨m, rfl, h⟩
      exact h
  | cons i l ih =>
    constructor
    · rintro ⟨hcur, hp, h⟩
      obtain ⟨m, hl, hr⟩ := ih.mp h
      exact ⟨m, ⟨hcur, hp, hl⟩, hr⟩
    · rintro ⟨m, ⟨hcur, hp, hl⟩, hr⟩
      exact ⟨hcur, hp, ih.mpr ⟨m, hl, hr⟩⟩

/-- A list does not depend on the links of other nodes. -/
theorem Listed.congr (h : Listed next prev p cur l stop) (hnext : ∀ i ∈ l, next' i = next i)
    (hprev : ∀ i ∈ l, prev' i = prev i) : Listed next' prev' p cur l stop := by
  induction l generalizing p cur with
  | nil => exact h
  | cons i l ih =>
    obtain ⟨hcur, hp, h⟩ := h
    refine ⟨hcur, (hprev i mem_cons_self).trans hp, ?_⟩
    rw [hnext i mem_cons_self]
    exact ih h (fun j hj => hnext j (mem_cons_of_mem _ hj))
      fun j hj => hprev j (mem_cons_of_mem _ hj)

/-- The pointer to the first node, if the list ends with a null pointer. -/
theorem Listed.cur_eq (h : Listed next prev p cur l none) : cur = l.head? := by
  cases l with
  | nil => exact h
  | cons i l => exact h.1

theorem Listed.links {i : ι} (h : Listed next prev none cur (l ++ i :: r) none) :
    next i = r.head? ∧ prev i = lastOf none l := by
  obtain ⟨m, _, _, hprev, hpost⟩ := listed_append.mp h
  exact ⟨hpost.cur_eq, hprev⟩

/-- **The links are inverse to each other.** -/
theorem Listed.inverse {i j : ι} (h : Listed next prev none cur l none) (hi : i ∈ l) (hj : j ∈ l) :
    next i = some j ↔ prev j = some i := by
  constructor
  · intro hij
    obtain ⟨a, b, rfl⟩ := append_of_mem hi
    rw [h.links.1] at hij
    obtain ⟨b, rfl⟩ := head?_eq_some_iff.mp hij
    rw [append_cons] at h
    rw [h.links.2, lastOf_append_singleton]
  · intro hji
    obtain ⟨a, b, rfl⟩ := append_of_mem hj
    rw [h.links.2] at hji
    rcases a.eq_nil_or_concat with rfl | ⟨a, k, rfl⟩
    · simp [lastOf] at hji
    · rw [concat_eq_append] at h hji
      rw [lastOf_append_singleton] at hji
      cases hji
      rw [append_assoc] at h
      exact h.links.1

variable {stop' : Option ι}

/-- The last node is made to point elsewhere. -/
theorem Listed.setStop [DecidableEq ι] (h : Listed next prev p cur l stop) (hnd : l.Nodup)
    (hnext : ∀ i ∈ l, next' i = if some i = lastOf p l then stop' else next i)
    (hprev : ∀ i ∈ l, prev' i = prev i) :
    Listed next' prev' p (if l = [] then stop' else cur) l stop' := by
  induction l generalizing p cur with
  | nil => simp [Listed]
  | cons i l ih =>
    obtain ⟨hcur, hpi, h⟩ := h
    obtain ⟨hi, hl⟩ := nodup_cons.mp hnd
    refine ⟨hcur, (hprev i mem_cons_self).trans hpi, ?_⟩
    have hlast := hnext i mem_cons_self
    have hrest := ih h hl (fun j hj => hnext j (mem_cons_of_mem _ hj))
      fun j hj => hprev j (mem_cons_of_mem _ hj)
    -- the node is the last one if and only if nothing comes behind it
    rcases lastOf_cases (some i) l with ⟨rfl, _⟩ | ⟨j, hj, hl⟩
    · rw [if_pos rfl] at hrest
      have hself : some i = lastOf p [i] := rfl
      rw [hlast, if_pos hself]
      exact hrest
    · have hne : some i ≠ lastOf p (i :: l) := by
        change some i ≠ lastOf (some i) l
        rw [hl]
        rintro he
        exact hi (Option.some.inj he ▸ hj)
      rw [if_neg (ne_nil_of_mem hj)] at hrest
      rw [hlast, if_neg hne]
      exact hrest

/-- What stands before the first node changes. -/
theorem Listed.setBefore [DecidableEq ι] {p' : Option ι} (h : Listed next prev p cur l stop)
    (hnd : l.Nodup) (hnext : ∀ i ∈ l, next' i = next i)
    (hprev : ∀ i ∈ l, prev' i = if some i = l.head? then p' else prev i) :
    Listed next' prev' p' cur l stop := by
  cases l with
  | nil => exact h
  | cons i l =>
    obtain ⟨hcur, hpi, h⟩ := h
    obtain ⟨hi, hl⟩ := nodup_cons.mp hnd
    refine ⟨hcur, ?_, ?_⟩
    · rw [hprev i mem_cons_self, head?_cons, if_pos rfl]
    · rw [hnext i mem_cons_self]
      refine h.congr (fun j hj => hnext j (mem_cons_of_mem _ hj)) fun j hj => ?_
      rw [hprev j (mem_cons_of_mem _ hj), head?_cons, if_neg]
      rintro he
      exact hi (Option.some.inj he ▸ hj)

variable [DecidableEq ι] {pre post : List ι} {x : ι}

/-- The nodes before and behind a place get other neighbours there. -/
theorem Listed.part {m m' q q' : Option ι} (hpre : Listed next prev none cur pre m)
    (hpost : Listed next prev p m' post none) (hnd : (pre ++ post).Nodup)
    (hnext : ∀ i ∈ pre ++ post, next' i = if some i = lastOf none pre then q else next i)
    (hprev : ∀ i ∈ pre ++ post, prev' i = if some i = post.head? then q' else prev i) :
    Listed next' prev' none (if pre = [] then q else cur) pre q ∧
      Listed next' prev' q' post.head? post none := by
  obtain ⟨hndpre, hndpost, hdisj⟩ := nodup_append.mp hnd
  refine ⟨?_, ?_⟩
  · refine hpre.setStop hndpre (fun i hi => hnext i (mem_append_left _ hi)) fun i hi => ?_
    rw [hprev i (mem_append_left _ hi), if_neg]
    intro he
    exact hdisj i hi i (mem_of_mem_head? he.symm) rfl
  · rw [← hpost.cur_eq]
    refine hpost.setBefore hndpost (fun i hi => ?_)
      fun i hi => hprev i (mem_append_right _ hi)
    rw [hnext i (mem_append_right _ hi), if_neg]
    intro he
    rcases lastOf_cases none pre with ⟨_, hl⟩ | ⟨j, hj, hl⟩
    · rw [hl] at he
      simp at he
    · rw [hl] at he
      exact hdisj j hj i hi (Option.some.inj he).symm

/-- **A node is put in**: its neighbours point to it, or the head pointer does. -/
theorem Listed.insert (h : Listed next prev none cur (pre ++ post) none)
    (hnd : (pre ++ post).Nodup) (hxnext : next' x = post.head?) (hxprev : prev' x = lastOf none pre)
    (hnext : ∀ i ∈ pre ++ post, next' i = if some i = lastOf none pre then some x else next i)
    (hprev : ∀ i ∈ pre ++ post, prev' i = if some i = post.head? then some x else prev i) :
    Listed next' prev' none (if pre = [] then some x else cur) (pre ++ x :: post) none := by
  obtain ⟨m, hpre, hpost⟩ := listed_append.mp h
  obtain ⟨hfront, hback⟩ := hpre.part hpost hnd hnext hprev
  rw [← hxnext] at hback
  exact listed_append.mpr ⟨some x, hfront, rfl, hxprev, hback⟩

/-- **A node is taken out**: its neighbours point past it, or the head pointer does. -/
theorem Listed.remove (h : Listed next prev none cur (pre ++ x :: post) none)
    (hnd : (pre ++ x :: post).Nodup)
    (hnext : ∀ i ∈ pre ++ post, next' i = if some i = lastOf none pre then post.head? else next i)
    (hprev : ∀ i ∈ pre ++ post, prev' i = if some i = post.head? then lastOf none pre else prev i) :
    Listed next' prev' none (if pre = [] then post.head? else cur) (pre ++ post) none := by
  obtain ⟨m, hpre, -, -, hpost⟩ := listed_append.mp h
  have hnd' := hnd.sublist ((sublist_cons_self x post).append_left pre)
  exact listed_append.mpr ⟨post.head?, hpre.part hpost hnd' hnext hprev⟩

end HeadedList
