import Mathlib.Data.List.Nodup

/-!
# Singly linked lists

A list of nodes linked forwards from a head by a function that gives the next node, in the way an
intrusive list keeps its links in a table. Whatever happens behind a node touches the link of that
node only.

## Main definitions

* `Chained next p l`: the nodes `l` are linked one after the other behind `p`

## Main results

* `Chained.behind`: the list behind a node of it
* `Chained.replace`: another list behind a node
* `Chained.insert`, `Chained.remove`: a node is put in, and a node is taken out
-/

namespace SinglyLinked

open List

variable {ι : Type*} {next next' : ι → Option ι} {l r r' : List ι} {p x y : ι}

/-- The nodes of `l` are linked by `next` behind `p`, and nothing is linked behind the last. -/
def Chained (next : ι → Option ι) : ι → List ι → Prop
  | p, [] => next p = none
  | p, x :: l => next p = some x ∧ Chained next x l

theorem Chained.next_eq (h : Chained next p l) : next p = l.head? := by
  cases l with
  | nil => exact h
  | cons x l => exact h.1

/-- The links of the head and of the nodes are all that matters. -/
theorem Chained.congr (h : Chained next p l) (heq : ∀ i ∈ p :: l, next' i = next i) :
    Chained next' p l := by
  induction l generalizing p with
  | nil => exact (heq p mem_cons_self).trans h
  | cons x l ih =>
    refine ⟨(heq p mem_cons_self).trans h.1, ih h.2 fun i hi => ?_⟩
    exact heq i (mem_cons_of_mem p hi)

/-- What a node is linked to is a node of the list. -/
theorem Chained.next_mem (h : Chained next p l) (hx : x ∈ p :: l) (hy : next x = some y) :
    y ∈ l := by
  induction l generalizing p with
  | nil => exact absurd ((mem_singleton.mp hx ▸ hy).symm.trans h) (by simp)
  | cons z l ih =>
    rcases mem_cons.mp hx with rfl | hx
    · rw [Option.some.inj (hy.symm.trans h.1)]
      exact mem_cons_self
    · exact mem_cons_of_mem z (ih h.2 hx)

/-- The nodes behind the last node of a front part. -/
theorem Chained.behind (h : Chained next p (l ++ r)) : Chained next (l.getLastD p) r := by
  induction l generalizing p with
  | nil => exact h
  | cons x l ih =>
    rw [getLastD_cons]
    exact ih h.2

theorem getLastD_mem (l : List ι) (p : ι) : l.getLastD p ∈ p :: l := by
  induction l generalizing p with
  | nil => exact mem_cons_self
  | cons x l ih =>
    rw [getLastD_cons]
    exact mem_cons_of_mem p (ih x)

/-- What is linked behind the last node of a front part can be replaced by changing its link. The
links of the nodes behind it stay, so that they can be used again. -/
theorem Chained.replace (h : Chained next p (l ++ r)) (hnd : (p :: (l ++ r)).Nodup)
    (heq : ∀ i ∈ p :: (l ++ r), i ≠ l.getLastD p → next' i = next i)
    (hr : (∀ i ∈ r, next' i = next i) → Chained next' (l.getLastD p) r') :
    Chained next' p (l ++ r') := by
  induction l generalizing p with
  | nil =>
    refine hr fun i hi => heq i (mem_cons_of_mem p hi) ?_
    rintro rfl
    exact (nodup_cons.mp hnd).1 hi
  | cons x l ih =>
    rw [getLastD_cons] at heq hr
    obtain ⟨hp, hnd⟩ := nodup_cons.mp hnd
    -- the head is not the last node, so that its link stays
    have hne : p ≠ l.getLastD x := fun hp' => hp (hp' ▸ mem_append_left r (getLastD_mem l x))
    refine ⟨(heq p mem_cons_self hne).trans h.1, ih h.2 hnd (fun i hi => ?_) hr⟩
    exact heq i (mem_cons_of_mem p hi)

/-- A new node is linked in behind a front part. -/
theorem Chained.insert (h : Chained next p (l ++ r)) (hnd : (p :: (l ++ r)).Nodup)
    (hlast : next' (l.getLastD p) = some x) (hx : next' x = r.head?)
    (heq : ∀ i ∈ p :: (l ++ r), i ≠ l.getLastD p → next' i = next i) :
    Chained next' p (l ++ x :: r) := by
  refine h.replace hnd heq fun hrest => ⟨hlast, ?_⟩
  -- the rest is linked behind the new node as it was behind the front part
  cases r with
  | nil => exact hx
  | cons y r => exact ⟨hx, h.behind.2.congr hrest⟩

/-- A node is taken out behind a front part. -/
theorem Chained.remove (h : Chained next p (l ++ x :: r)) (hnd : (p :: (l ++ x :: r)).Nodup)
    (hlast : next' (l.getLastD p) = r.head?)
    (heq : ∀ i ∈ p :: (l ++ x :: r), i ≠ l.getLastD p → next' i = next i) :
    Chained next' p (l ++ r) := by
  refine h.replace hnd heq fun hrest => ?_
  cases r with
  | nil => exact hlast
  | cons y r => exact ⟨hlast, h.behind.2.2.congr fun i hi => hrest i (mem_cons_of_mem x hi)⟩

end SinglyLinked
