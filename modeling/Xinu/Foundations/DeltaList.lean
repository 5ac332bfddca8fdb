import Mathlib.Data.Int.Order.Basic
import Xinu.Foundations.KeyedList

/-!
# Deadlines kept in a delta list

A delta list with keys that are not negative keeps a deadline for each of its elements: the sum of
the keys up to it. Inserting an element and taking one out leave the deadlines of the others alone,
and counting the first key down brings all of them one step closer.

## Main definitions

* `Keeps key l D`: the delta list `l` keeps the deadlines `D`
* `InOrder D turn l`: `l` is in the order of the deadlines `D`, and among equal ones of `turn`

## Main results

* `Keeps.insert`, `Keeps.remove`: inserting an element and taking one out
* `Keeps.pass`: any amount of time passes
* `Keeps.tick`: counting down, and letting those go that are due
* `tick_nonneg_and_le`: counting down when the first key may be zero
* `InOrder.insert`: the place of a new element
-/

namespace KeyedList

open List Function

variable {ι : Type*} [DecidableEq ι] {key key' : ι → Int} {l pre post : List ι} {x y : ι} {k : Int}
  {D D' : ι → Int} {turn turn' : ι → Nat}

/-! ## Sums of keys -/

theorem due_append_of_mem (hx : x ∈ pre) : due key (pre ++ post) x = due key pre x := by
  induction pre with
  | nil => simp at hx
  | cons y pre ih =>
    rw [cons_append, due, due]
    split_ifs with hyx
    · rfl
    · rw [ih ((mem_cons.mp hx).resolve_left (Ne.symm hyx))]

theorem due_append_of_not_mem (hx : x ∉ pre) :
    due key (pre ++ post) x = (pre.map key).sum + due key post x := by
  induction pre with
  | nil => simp
  | cons y pre ih =>
    have hyx : y ≠ x := fun h => hx (h ▸ mem_cons_self ..)
    rw [cons_append, due, if_neg hyx, ih fun h => hx (mem_cons_of_mem _ h), map_cons, sum_cons]
    omega

theorem due_addAt_head (hl : l.Nodup) (hx : x ∈ l) :
    due (addAt key l.head? k) l x = due key l x + k := by
  cases l with
  | nil => simp at hx
  | cons y l =>
    obtain ⟨hy, -⟩ := nodup_cons.mp hl
    have hrest : due (addAt key (some y) k) l x = due key l x := by
      refine due_congr (fun z hz => addAt_of_ne ?_) x
      rintro ⟨⟩
      exact hy hz
    rw [List.head?_cons, due, due, hrest, addAt_self]
    split_ifs <;> omega

section

variable (h : ∀ y ∈ l, 0 ≤ key y)
include h

theorem due_nonneg (x : ι) : 0 ≤ due key l x := by
  induction l with
  | nil => exact le_rfl
  | cons y l ih =>
    obtain ⟨hy, hl⟩ := forall_mem_cons.mp h
    rw [due]
    have := ih hl
    split_ifs <;> omega

theorem key_le_due (hx : x ∈ l) : key x ≤ due key l x := by
  induction l with
  | nil => simp at hx
  | cons y l ih =>
    obtain ⟨hy, hl⟩ := forall_mem_cons.mp h
    rw [due]
    split_ifs with hyx
    · rw [hyx]
    · have := ih hl ((mem_cons.mp hx).resolve_left (Ne.symm hyx))
      omega

/-- The elements with nothing left stand in front. -/
theorem mem_takeWhile_iff_due :
    x ∈ l.takeWhile (fun y => decide (key y ≤ 0)) ↔ x ∈ l ∧ due key l x ≤ 0 := by
  induction l with
  | nil => simp
  | cons y l ih =>
    obtain ⟨hy, hl⟩ := forall_mem_cons.mp h
    have hnonneg := due_nonneg hl x
    by_cases hky : key y ≤ 0
    · rw [takeWhile_cons_of_pos (by simpa using hky), mem_cons, ih hl, mem_cons, due]
      by_cases hyx : y = x
      · subst hyx
        simp [hky]
      · have hxy : x ≠ y := Ne.symm hyx
        simp only [hyx, hxy, if_false, false_or, and_congr_right_iff]
        omega
    · rw [takeWhile_cons_of_neg (by simpa using hky), due]
      have : ¬ (if y = x then key y else key y + due key l x) ≤ 0 := by
        split_ifs <;> omega
      simp [this]

end

/-- Elements without keys of their own may be taken from the front. -/
theorem due_dropWhile (hl : l.Nodup) (h : ∀ y ∈ l, 0 ≤ key y)
    (hx : x ∈ l.dropWhile fun y => decide (key y ≤ 0)) :
    due key (l.dropWhile fun y => decide (key y ≤ 0)) x = due key l x := by
  have hnot : x ∉ l.takeWhile fun y => decide (key y ≤ 0) := by
    have hnd : (l.takeWhile (fun y => decide (key y ≤ 0)) ++
        l.dropWhile fun y => decide (key y ≤ 0)).Nodup := by
      rwa [takeWhile_append_dropWhile]
    exact fun ht => disjoint_of_nodup_append hnd ht hx
  have hsum : ((l.takeWhile fun y => decide (key y ≤ 0)).map key).sum = 0 := by
    refine sum_eq_zero fun z hz => ?_
    obtain ⟨y, hy, rfl⟩ := mem_map.mp hz
    have h₁ : key y ≤ 0 := by simpa using mem_takeWhile_imp hy
    have h₂ := h y ((takeWhile_sublist _).subset hy)
    omega
  conv_rhs => rw [← takeWhile_append_dropWhile (p := fun y => decide (key y ≤ 0)) (l := l)]
  rw [due_append_of_not_mem hnot, hsum, zero_add]

/-! ## The place of a new element -/

omit [DecidableEq ι] in
/-- What is left of `k` at the place of an element that is due at `k`. -/
theorem deltaSplit_rest (key : ι → Int) (l : List ι) (k : Int) :
    (deltaSplit key l k).2.2 = k - ((deltaSplit key l k).1.map key).sum := by
  induction l generalizing k with
  | nil => simp [deltaSplit]
  | cons y l ih =>
    rw [deltaSplit]
    split_ifs
    · simp only [ih, map_cons, sum_cons]
      omega
    · simp

omit [DecidableEq ι] in
theorem deltaSplit_rest_nonneg (hk : 0 ≤ k) : 0 ≤ (deltaSplit key l k).2.2 := by
  induction l generalizing k with
  | nil => exact hk
  | cons y l ih =>
    rw [deltaSplit]
    split_ifs
    · exact ih (by omega)
    · exact hk

omit [DecidableEq ι] in
/-- The element behind that place is due later. -/
theorem deltaSplit_head (hy : y ∈ (deltaSplit key l k).2.1.head?) :
    (deltaSplit key l k).2.2 < key y := by
  induction l generalizing k with
  | nil => simp [deltaSplit] at hy
  | cons z l ih =>
    rw [deltaSplit] at hy ⊢
    split_ifs at hy ⊢ with hz
    · exact ih hy
    · obtain rfl : z = y := by simpa using hy
      exact not_le.mp hz

/-- The elements in front of that place are due no later, those behind it later. -/
theorem deltaSplit_due (hl : l.Nodup) (h : ∀ y ∈ l, 0 ≤ key y) :
    (∀ y ∈ (deltaSplit key l k).1, due key l y ≤ k) ∧
      ∀ y ∈ (deltaSplit key l k).2.1, k < due key l y := by
  induction l generalizing k with
  | nil => simp [deltaSplit]
  | cons z l ih =>
    obtain ⟨hz, hl'⟩ := nodup_cons.mp hl
    obtain ⟨hkz, hkl⟩ := forall_mem_cons.mp h
    have happ := deltaSplit_append key l (k - key z)
    have hne : ∀ y ∈ l, z ≠ y := by
      rintro y hy rfl
      exact hz hy
    rw [deltaSplit]
    split_ifs with hzk
    · obtain ⟨h₁, h₂⟩ := ih hl' hkl
      refine ⟨fun y hy => ?_, fun y hy => ?_⟩
      · rcases mem_cons.mp hy with rfl | hy
        · rwa [due, if_pos rfl]
        · have hyl : y ∈ l := happ ▸ mem_append_left _ hy
          rw [due, if_neg (hne y hyl)]
          have := h₁ y hy
          omega
      · have hyl : y ∈ l := happ ▸ mem_append_right _ hy
        rw [due, if_neg (hne y hyl)]
        have := h₂ y hy
        omega
    · refine ⟨by simp, fun y hy => ?_⟩
      have := due_nonneg hkl y
      rw [due]
      split_ifs <;> omega

/-- So they are the elements that are due no later, and the others. -/
theorem deltaSplit_eq_filter (hl : l.Nodup) (h : ∀ y ∈ l, 0 ≤ key y) (k : Int) :
    (deltaSplit key l k).1 = l.filter (fun y => due key l y ≤ k) ∧
      (deltaSplit key l k).2.1 = l.filter fun y => k < due key l y := by
  obtain ⟨h₁, h₂⟩ := deltaSplit_due hl h
  have hfilter : ∀ p : ι → Bool, l.filter p =
      (deltaSplit key l k).1.filter p ++ (deltaSplit key l k).2.1.filter p := fun p => by
    rw [← filter_append, deltaSplit_append]
  rw [hfilter, hfilter, filter_eq_self.mpr (by simpa using h₁),
    filter_eq_nil_iff.mpr (by simpa using h₂), filter_eq_nil_iff.mpr (by simpa using h₁),
    filter_eq_self.mpr (by simpa using h₂)]
  exact ⟨(append_nil _).symm, (nil_append _).symm⟩

omit [DecidableEq ι] in
/-- The elements with nothing left come first. -/
theorem deltaSplit_dropWhile (h : ∀ y ∈ l, 0 ≤ key y) (hk : 0 ≤ k) :
    deltaSplit key l k =
      (l.takeWhile (fun y => decide (key y ≤ 0)) ++
        (deltaSplit key (l.dropWhile fun y => decide (key y ≤ 0)) k).1,
        (deltaSplit key (l.dropWhile fun y => decide (key y ≤ 0)) k).2) := by
  induction l with
  | nil => rfl
  | cons y l ih =>
    obtain ⟨hy, hl⟩ := forall_mem_cons.mp h
    by_cases hzero : key y ≤ 0
    · rw [takeWhile_cons_of_pos (by simpa using hzero),
        dropWhile_cons_of_pos (by simpa using hzero), deltaSplit, if_pos (by omega),
        show k - key y = k by omega, ih hl]
      rfl
    · rw [takeWhile_cons_of_neg (by simpa using hzero),
        dropWhile_cons_of_neg (by simpa using hzero)]
      rfl

/-! ## Deadlines -/

/-- The delta list `l` keeps the deadlines `D`. -/
structure Keeps (key : ι → Int) (l : List ι) (D : ι → Int) : Prop where
  nodup : l.Nodup
  nonneg : ∀ y ∈ l, 0 ≤ key y
  due : ∀ y ∈ l, due key l y = D y

theorem Keeps.congr (h : Keeps key l D)
    (hkey : ∀ y ∈ l, key' y = key y) (hD : ∀ y ∈ l, D' y = D y) :
    Keeps key' l D' :=
  ⟨h.nodup, fun y hy => hkey y hy ▸ h.nonneg y hy,
    fun y hy => by rw [due_congr hkey, h.due y hy, hD y hy]⟩

/-- **Insertion** gives the new element its deadline and leaves the others alone. -/
theorem Keeps.insert (h : Keeps key l D) (hx : x ∉ l) (hk : 0 ≤ k) :
    Keeps (insertDelta key l x k).2 (insertDelta key l x k).1 (update D x k) := by
  obtain ⟨hnd, hnonneg, hdue⟩ := h
  set r := deltaSplit key l k
  have happ : r.1 ++ r.2.1 = l := deltaSplit_append key l k
  have hrest : r.2.2 = k - (r.1.map key).sum := deltaSplit_rest key l k
  have hxpre : x ∉ r.1 := fun h => hx (happ ▸ mem_append_left _ h)
  have hxpost : x ∉ r.2.1 := fun h => hx (happ ▸ mem_append_right _ h)
  have hdisj : ∀ y ∈ r.1, y ∉ r.2.1 :=
    fun y hy => disjoint_of_nodup_append (by rwa [happ]) hy
  -- the new keys: as before in front, what is left for `x`, and less of it behind
  have hpre : ∀ y ∈ r.1, (insertDelta key l x k).2 y = key y := by
    intro y hy
    refine (addAt_of_not_mem (fun _ => mem_of_mem_head?) (hdisj y hy)).trans (update_of_ne ?_ _ _)
    rintro rfl
    exact hxpre hy
  have hself : (insertDelta key l x k).2 x = r.2.2 :=
    (addAt_of_not_mem (fun _ => mem_of_mem_head?) hxpost).trans (update_self ..)
  have hpost : ∀ y ∈ r.2.1, (insertDelta key l x k).2 y = addAt key r.2.1.head? (-r.2.2) y := by
    intro y hy
    have hyx : y ≠ x := fun h => hxpost (h ▸ hy)
    change addAt (update key x r.2.2) _ _ y = _
    rw [addAt, addAt, update_of_ne hyx]
  have hsum : (r.1.map (insertDelta key l x k).2).sum = (r.1.map key).sum := by
    rw [map_congr_left hpre]
  refine ⟨nodup_insertDelta.mpr ⟨hx, hnd⟩, fun y hy => ?_, fun y hy => ?_⟩
  · change y ∈ r.1 ++ x :: r.2.1 at hy
    rcases mem_append.mp hy with hy | hy
    · rw [hpre y hy]
      exact hnonneg y (happ ▸ mem_append_left _ hy)
    rcases mem_cons.mp hy with rfl | hy
    · rw [hself]
      exact deltaSplit_rest_nonneg hk
    · rw [hpost y hy, addAt]
      split_ifs with hhead
      · have hlt : r.2.2 < key y := deltaSplit_head hhead
        omega
      · exact hnonneg y (happ ▸ mem_append_right _ hy)
  · change y ∈ r.1 ++ x :: r.2.1 at hy
    change KeyedList.due _ (r.1 ++ x :: r.2.1) y = _
    rcases mem_append.mp hy with hy | hy
    · have hyl : y ∈ l := happ ▸ mem_append_left _ hy
      have hyx : y ≠ x := fun h => hxpre (h ▸ hy)
      rw [due_append_of_mem hy, due_congr hpre, update_of_ne hyx, ← hdue y hyl]
      conv_rhs => rw [← happ, due_append_of_mem hy]
    rcases mem_cons.mp hy with rfl | hy
    · rw [due_append_of_not_mem hxpre, KeyedList.due, if_pos rfl, hself, hsum, update_self]
      omega
    · have hyl : y ∈ l := happ ▸ mem_append_right _ hy
      have hyx : y ≠ x := fun h => hxpost (h ▸ hy)
      have hypre : y ∉ r.1 := fun h => hdisj y h hy
      have hndpost : r.2.1.Nodup := (nodup_append'.mp (happ ▸ hnd)).2.1
      rw [due_append_of_not_mem hypre, KeyedList.due, if_neg (Ne.symm hyx), hself, hsum,
        due_congr hpost, due_addAt_head hndpost hy, update_of_ne hyx, ← hdue y hyl]
      conv_rhs => rw [← happ, due_append_of_not_mem hypre]
      omega

/-- **Taking an element out** leaves the others alone. -/
theorem Keeps.remove_append (h : Keeps key (pre ++ x :: post) D) :
    Keeps (addAt key post.head? (key x)) (pre ++ post) D := by
  obtain ⟨hnd, hnonneg, hdue⟩ := h
  obtain ⟨-, hndpost, hdisj⟩ := nodup_append'.mp hnd
  obtain ⟨hxpost, hndpost⟩ := nodup_cons.mp hndpost
  have hsub : ∀ y ∈ pre ++ post, y ∈ pre ++ x :: post := fun y hy =>
    perm_middle.mem_iff.mpr (mem_cons_of_mem x hy)
  have hkx := hnonneg x (perm_middle.mem_iff.mpr mem_cons_self)
  have hdisj' : ∀ y ∈ pre, y ∉ post := fun y hy h => hdisj hy (mem_cons_of_mem _ h)
  have hpre : ∀ y ∈ pre, addAt key post.head? (key x) y = key y := fun y hy =>
    addAt_of_not_mem (fun _ => mem_of_mem_head?) (hdisj' y hy)
  refine ⟨(nodup_cons.mp (nodup_middle.mp hnd)).2, fun y hy => ?_, fun y hy => ?_⟩
  · have hy' := hnonneg y (hsub y hy)
    rw [addAt]
    split_ifs <;> omega
  · rw [← hdue y (hsub y hy)]
    rcases mem_append.mp hy with hy | hy
    · rw [due_append_of_mem hy, due_append_of_mem hy, due_congr hpre]
    · have hypre : y ∉ pre := fun h => hdisj' y h hy
      have hxy : x ≠ y := fun h => hxpost (h ▸ hy)
      rw [due_append_of_not_mem hypre, due_append_of_not_mem hypre, map_congr_left hpre,
        due_addAt_head hndpost hy, KeyedList.due, if_neg hxy]
      omega

theorem Keeps.remove (h : Keeps key l D) (hx : x ∈ l) : Keeps (lend key l x) (l.erase x) D := by
  obtain ⟨pre, post, rfl⟩ := append_of_mem hx
  have hxpre : x ∉ pre := fun hin =>
    (nodup_append'.mp h.nodup).2.2 hin mem_cons_self
  rw [lend, successor_append hxpre, erase_append_right _ hxpre, erase_cons_head]
  exact h.remove_append

/-- **Time passes**: those that are due go, and the first of the others has less left. -/
theorem Keeps.pass (h : Keeps key l D) (k : Int) :
    Keeps (addAt key (deltaSplit key l k).2.1.head? (-(deltaSplit key l k).2.2))
      (deltaSplit key l k).2.1 fun y => D y - k := by
  have happ := deltaSplit_append key l k
  have hrest := deltaSplit_rest key l k
  have hsub : ∀ y ∈ (deltaSplit key l k).2.1, y ∈ l := fun y hy =>
    happ ▸ mem_append_right _ hy
  obtain ⟨-, hnd, hdisj⟩ := nodup_append'.mp (happ ▸ h.nodup)
  refine ⟨hnd, fun y hy => ?_, fun y hy => ?_⟩
  · rw [addAt]
    split_ifs with hhead
    · have := deltaSplit_head hhead
      omega
    · exact h.nonneg y (hsub y hy)
  · have hsum : KeyedList.due key (_ ++ (deltaSplit key l k).2.1) y = _ :=
      due_append_of_not_mem fun hin => hdisj hin hy
    rw [happ, h.due y (hsub y hy)] at hsum
    rw [due_addAt_head hnd hy]
    omega

/-- **Counting down** brings all deadlines one step closer, and the elements that are then due stand
in front, as long as the first key is positive. -/
theorem Keeps.tick (h : Keeps key l D) (hhead : ∀ y ∈ l.head?, 0 < key y) :
    Keeps (addAt key l.head? (-1))
        (l.dropWhile fun y => decide (addAt key l.head? (-1) y ≤ 0)) (fun y => D y - 1) ∧
      ∀ y ∈ l, y ∈ l.takeWhile (fun y => decide (addAt key l.head? (-1) y ≤ 0)) ↔ D y ≤ 1 := by
  obtain ⟨hnd, hnonneg, hdue⟩ := h
  have hnonneg' : ∀ y ∈ l, 0 ≤ addAt key l.head? (-1) y := by
    intro y hy
    rw [addAt]
    split_ifs with hy'
    · have := hhead y hy'
      omega
    · exact hnonneg y hy
  have hdue' : ∀ y ∈ l, KeyedList.due (addAt key l.head? (-1)) l y = D y - 1 := by
    intro y hy
    rw [due_addAt_head hnd hy, hdue y hy]
    rfl
  have hsub : ∀ {y}, y ∈ l.dropWhile (fun y => decide (addAt key l.head? (-1) y ≤ 0)) → y ∈ l :=
    fun hy => (dropWhile_sublist _).subset hy
  refine ⟨⟨hnd.sublist (dropWhile_sublist _), fun y hy => hnonneg' y (hsub hy), fun y hy => ?_⟩,
    fun y hy => ?_⟩
  · rw [due_dropWhile hnd hnonneg' hy, hdue' y (hsub hy)]
  · rw [mem_takeWhile_iff_due hnonneg', hdue' y hy]
    simp only [hy, true_and]
    omega

/-- A list with keys that are not negative keeps the sums of its keys. -/
theorem keeps_due (hl : l.Nodup) (h : ∀ y ∈ l, 0 ≤ key y) : Keeps key l (due key l) :=
  ⟨hl, h, fun _ _ => rfl⟩

/-- **Counting down brings no deadline closer by more than one step**, whatever the first key is:
the keys behind the elements that go are not negative, and those that go were due in one step. -/
theorem tick_nonneg_and_le (hl : l.Nodup) (h : ∀ y ∈ l, 0 ≤ key y) :
    (∀ y ∈ l.dropWhile fun y => decide (addAt key l.head? (-1) y ≤ 0),
        0 ≤ addAt key l.head? (-1) y ∧ due key l y - 1 ≤ due (addAt key l.head? (-1))
          (l.dropWhile fun y => decide (addAt key l.head? (-1) y ≤ 0)) y) ∧
      ∀ y ∈ l.takeWhile (fun y => decide (addAt key l.head? (-1) y ≤ 0)), due key l y ≤ 1 := by
  rcases l with _ | ⟨x, l⟩
  · simp
  obtain ⟨hx, hnd⟩ := nodup_cons.mp hl
  obtain ⟨hkx, hkl⟩ := forall_mem_cons.mp h
  by_cases hpos : 0 < key x
  · obtain ⟨hkeeps, hdue⟩ := (keeps_due hl h).tick (by rintro y ⟨⟩; exact hpos)
    exact ⟨fun y hy => ⟨hkeeps.nonneg y hy, (hkeeps.due y hy).ge⟩,
      fun y hy => (hdue y ((takeWhile_sublist _).subset hy)).mp hy⟩
  · -- the first element has nothing left, and takes the step with it
    have hzero : key x = 0 := by omega
    have hkey : ∀ y ∈ l, addAt key (some x) (-1) y = key y := by
      intro y hy
      refine addAt_of_ne ?_
      rintro ⟨⟩
      exact hx hy
    have hself : addAt key (some x) (-1) x ≤ 0 := by
      rw [addAt_self, hzero]
      omega
    have htake : (l.takeWhile fun y => decide (addAt key (some x) (-1) y ≤ 0)) =
        l.takeWhile fun y => decide (key y ≤ 0) :=
      takeWhile_congr fun y hy => by rw [hkey y hy]
    have hdrop : (l.dropWhile fun y => decide (addAt key (some x) (-1) y ≤ 0)) =
        l.dropWhile fun y => decide (key y ≤ 0) := by
      have h₁ := takeWhile_append_dropWhile
        (p := fun y => decide (addAt key (some x) (-1) y ≤ 0)) (l := l)
      have h₂ := takeWhile_append_dropWhile (p := fun y => decide (key y ≤ 0)) (l := l)
      rw [htake] at h₁
      exact append_cancel_left (h₁.trans h₂.symm)
    have hne : ∀ y ∈ l, x ≠ y := by
      rintro y hy rfl
      exact hx hy
    rw [List.head?_cons, dropWhile_cons_of_pos (by simpa using hself),
      takeWhile_cons_of_pos (by simpa using hself), hdrop, htake]
    refine ⟨fun y hy => ?_, fun y hy => ?_⟩
    · have hyl : y ∈ l := (dropWhile_sublist _).subset hy
      have hrest : ∀ z ∈ l.dropWhile fun y => decide (key y ≤ 0),
          addAt key (some x) (-1) z = key z := fun z hz =>
        hkey z ((dropWhile_sublist _).subset hz)
      rw [hkey y hyl, due, if_neg (hne y hyl), due_congr hrest, due_dropWhile hnd hkl hy, hzero]
      exact ⟨hkl y hyl, by omega⟩
    · rcases mem_cons.mp hy with rfl | hy
      · rw [due, if_pos rfl, hzero]
        omega
      · have hyl : y ∈ l := (takeWhile_sublist _).subset hy
        have := ((mem_takeWhile_iff_due hkl).mp hy).2
        rw [due, if_neg (hne y hyl), hzero]
        omega

/-- `l` is in the order of the deadlines, and among equal ones in the order of `turn`. -/
def InOrder (D : ι → Int) (turn : ι → Nat) (l : List ι) : Prop :=
  l.Pairwise fun a b => D a < D b ∨ D a = D b ∧ turn a < turn b

omit [DecidableEq ι] in
theorem InOrder.congr (h : InOrder D turn l) (hD : ∀ a ∈ l, D' a = D a)
    (hturn : ∀ a ∈ l, turn' a = turn a) : InOrder D' turn' l := by
  refine h.imp_of_mem fun {a b} ha hb hab => ?_
  rwa [hD a ha, hD b hb, hturn a ha, hturn b hb]

omit [DecidableEq ι] in
theorem InOrder.sublist {m : List ι} (h : InOrder D turn l) (hm : m.Sublist l) : InOrder D turn m :=
  List.Pairwise.sublist hm h

/-- **A new element goes behind those that are due no later.** -/
theorem InOrder.insert (h : InOrder D turn l) (K : Keeps key l D) (hx : x ∉ l) {n : Nat}
    (hn : ∀ a ∈ l, turn a < n) :
    InOrder (update D x k) (update turn x n) (insertDelta key l x k).1 := by
  obtain ⟨h₁, h₂⟩ := deltaSplit_due (k := k) K.nodup K.nonneg
  have happ := deltaSplit_append key l k
  change InOrder _ _ ((deltaSplit key l k).1 ++ x :: (deltaSplit key l k).2.1)
  have hpre : ∀ a ∈ (deltaSplit key l k).1, a ∈ l := fun a ha => happ ▸ mem_append_left _ ha
  have hpost : ∀ a ∈ (deltaSplit key l k).2.1, a ∈ l := fun a ha => happ ▸ mem_append_right _ ha
  have hne : ∀ a ∈ l, a ≠ x := by
    rintro a ha rfl
    exact hx ha
  have hl : InOrder (update D x k) (update turn x n) l :=
    h.congr (fun a ha => update_of_ne (hne a ha) _ _) fun a ha => update_of_ne (hne a ha) _ _
  rw [← happ] at hl
  obtain ⟨hl₁, hl₂, hl₃⟩ := pairwise_append.mp hl
  refine pairwise_append.mpr ⟨hl₁, pairwise_cons.mpr ⟨fun b hb => ?_, hl₂⟩, fun a ha b hb => ?_⟩
  · left
    rw [update_self, update_of_ne (hne b (hpost b hb)), ← K.due b (hpost b hb)]
    exact h₂ b hb
  · rcases mem_cons.mp hb with rfl | hb
    · rw [update_self, update_self, update_of_ne (hne a (hpre a ha)),
        update_of_ne (hne a (hpre a ha))]
      have hle : D a ≤ k := K.due a (hpre a ha) ▸ h₁ a ha
      have hlt := hn a (hpre a ha)
      omega
    · exact hl₃ a ha b hb

end KeyedList
