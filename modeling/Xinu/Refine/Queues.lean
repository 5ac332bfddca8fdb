import Mathlib.Data.Int.Interval
import Xinu.Kernel.System
import Xinu.Refine.Links

/-!
# The operations of the queue table on lists

`getitem` and `dequeue` take a thread off its list, `enqueue` puts one at the end, `insert` and
`insertd` put one at the place its key has in a priority list and in a delta list. The walks of the
two insertions reach that place within the table's size.

## Main results

* `Rep.getitem`, `Rep.dequeue`, `Rep.enqueue`, `Rep.insert`, `Rep.insertd`
-/

namespace Xinu

open List Function DoublyLinked KeyedList Kernel

variable {K : Int → Int} {Q : Int → List Int} {k q t : Int} {l : List Int} {qt : Int → QueEnt}
variable {s : Kernel}

/-- The kernel's state `s` represents the state `v` of the scheduler on lists. -/
structure Rep (s : Kernel) (v : Sched) : Prop where
  globals : s.toGlobals = v.toGlobals
  links : Links s.quetab v.queue v.key

/-! ## Reading the links -/

theorem Threads.length_lt (h : Threads qt q l) : l.length < NQENT.toNat := by
  have hsub : l.toFinset ⊆ Finset.Ico 0 NTHREAD := by
    intro t ht
    exact Finset.mem_Ico.mpr (h.range t (mem_toFinset.mp ht))
  have hcard := Finset.card_le_card hsub
  rw [toFinset_card_of_nodup h.nodup, Int.card_Ico] at hcard
  exact hcard.trans_lt (by decide)

namespace Links

section

variable (L : Links qt Q K) (hq : IsQueue q)
include L hq

theorem next_head : (qt q).next = (Q q).headD (q + 1) := by
  have h : Linked _ _ (q :: ([] ++ Q q) ++ [q + 1]) := L.linked q hq
  exact h.adjacent.1

theorem prev_tail : (qt (q + 1)).prev = (Q q).getLastD q := by
  have h := L.linked q hq
  rw [← append_nil (Q q)] at h
  simpa using h.adjacent.2

end

end Links

/-! ## Walks -/

namespace Kernel

variable {a tail : Int}

section

variable (hl : Linked (fun i => (s.quetab i).next) (fun i => (s.quetab i).prev) (a :: l ++ [tail]))
include hl

/-- The walk of `insert` ends at the first smaller key. -/
theorem insertScan_eq
    (hkey : ∀ u ∈ l, (s.quetab u).key = K u) (htail : (s.quetab tail).key < k) {fuel : Nat}
    (hfuel : l.length < fuel) :
    s.insertScan k fuel (s.quetab a).next =
      (l.dropWhile fun u => decide (k ≤ K u)).headD tail := by
  induction l, fuel, hfuel using fuel_induction generalizing a with
  | nil fuel =>
    have hnext : (s.quetab a).next = tail := (isChain_cons_cons.mp hl).1.1
    rw [hnext, insertScan, if_neg (not_le.mpr htail)]
    rfl
  | cons b l fuel hfuel ih =>
    obtain ⟨⟨hnext, -⟩, hrest⟩ := isChain_cons_cons.mp hl
    have hb := hkey b mem_cons_self
    simp only at hnext
    rw [hnext, insertScan, hb]
    by_cases hkb : k ≤ K b
    · rw [if_pos hkb, dropWhile_cons_of_pos (by simpa using hkb)]
      exact ih hrest (fun u hu => hkey u (mem_cons_of_mem _ hu))
    · rw [if_neg hkb, dropWhile_cons_of_neg (by simpa using hkb)]
      rfl

/-- The walk of `insertd` ends where the rest of the delay fits. -/
theorem insertdScan_eq
    (hkey : ∀ u ∈ l, (s.quetab u).key = K u) (htail : tail ∉ l) {fuel : Nat}
    (hfuel : l.length < fuel) :
    s.insertdScan tail fuel a (s.quetab a).next k =
      ((deltaSplit K l k).1.getLastD a, (deltaSplit K l k).2.1.headD tail,
        (deltaSplit K l k).2.2) := by
  induction l, fuel, hfuel using fuel_induction generalizing a k with
  | nil fuel =>
    have hnext : (s.quetab a).next = tail := (isChain_cons_cons.mp hl).1.1
    rw [hnext, insertdScan, if_neg (by simp)]
    rfl
  | cons b l fuel hfuel ih =>
    obtain ⟨⟨hnext, -⟩, hrest⟩ := isChain_cons_cons.mp hl
    have hb := hkey b mem_cons_self
    have hbt : b ≠ tail := fun h => htail (h ▸ mem_cons_self ..)
    simp only at hnext
    rw [hnext, insertdScan, hb, deltaSplit]
    by_cases hkb : K b ≤ k
    · rw [if_pos ⟨hkb, hbt⟩, if_pos hkb, ih hrest (fun u hu => hkey u (mem_cons_of_mem _ hu))
          (fun h => htail (mem_cons_of_mem _ h))]
      simp only [getLastD_cons]
    · rw [if_neg fun h => hkb h.1, if_neg hkb]
      rfl

end

/-! ## Writing the links -/

section

variable (s : Kernel)

section

variable (i j x : Int)

theorem next_setNext :
    ((s.setNext i x).quetab j).next = if j = i then x else (s.quetab j).next := by
  simp only [setNext, modQue, store]
  split_ifs <;> rfl

theorem prev_setPrev :
    ((s.setPrev i x).quetab j).prev = if j = i then x else (s.quetab j).prev := by
  simp only [setPrev, modQue, store]
  split_ifs <;> rfl

theorem key_setKey : ((s.setKey i x).quetab j).key = if j = i then x else (s.quetab j).key := by
  simp only [setKey, modQue, store]
  split_ifs <;> rfl

theorem next_setPrev : ((s.setPrev i x).quetab j).next = (s.quetab j).next := by
  by_cases h : j = i <;> simp [setPrev, modQue, store, h]

theorem next_setKey : ((s.setKey i x).quetab j).next = (s.quetab j).next := by
  by_cases h : j = i <;> simp [setKey, modQue, store, h]

theorem prev_setNext : ((s.setNext i x).quetab j).prev = (s.quetab j).prev := by
  by_cases h : j = i <;> simp [setNext, modQue, store, h]

theorem prev_setKey : ((s.setKey i x).quetab j).prev = (s.quetab j).prev := by
  by_cases h : j = i <;> simp [setKey, modQue, store, h]

theorem key_setNext : ((s.setNext i x).quetab j).key = (s.quetab j).key := by
  by_cases h : j = i <;> simp [setNext, modQue, store, h]

theorem key_setPrev : ((s.setPrev i x).quetab j).key = (s.quetab j).key := by
  by_cases h : j = i <;> simp [setPrev, modQue, store, h]

end

theorem next_getitem (t i : Int) :
    ((s.getitem t).1.quetab i).next =
      if i = t then EMPTY else if i = (s.quetab t).prev then (s.quetab t).next
      else (s.quetab i).next := by
  simp only [getitem, next_setNext, next_setPrev]

theorem prev_getitem (t i : Int) :
    ((s.getitem t).1.quetab i).prev =
      if i = t then EMPTY else if i = (s.quetab t).next then (s.quetab t).prev
      else (s.quetab i).prev := by
  simp only [getitem, prev_setPrev, prev_setNext]

theorem key_getitem (t i : Int) : ((s.getitem t).1.quetab i).key = (s.quetab i).key := by
  simp only [getitem, key_setNext, key_setPrev]

end

end Kernel

theorem Links.setKey {b x : Int} (L : Links s.quetab Q K) (hb : IsTid b) (hx : x = K b + k) :
    Links (s.setKey b x).quetab Q (addAt K (some b) k) := by
  refine L.setKeys (fun q hq => ?_) (fun u hu => ?_) (fun i => s.next_setKey ..)
    fun i => s.prev_setKey ..
  · obtain ⟨h₁, h₂⟩ := hb.ne_of_isQueue hq
    rw [key_setKey, key_setKey, if_neg h₁.symm, if_neg h₂.symm]
    exact ⟨rfl, rfl⟩
  · rw [key_setKey]
    by_cases hub : u = b
    · subst hub
      rw [if_pos rfl, hx, addAt_self]
    · rw [if_neg hub, L.key u hu]
      exact (addAt_of_ne fun h => hub (Option.some.inj h).symm).symm

/-- **`insert`** links a thread in behind those with the same or a larger key. -/
theorem Threads.insert (h : Threads s.quetab q l) (hq : IsQueue q) (hbad : ¬ s.isbadtid t)
    (hK : ∀ u ∈ l, (s.quetab u).key = K u) (htail : (s.quetab (q + 1)).key < k) :
    (s.insert t q k).2 = OK ∧ (s.insert t q k).1.toGlobals = s.toGlobals ∧
      (∀ i, ((s.insert t q k).1.quetab i).next =
        if i = (l.takeWhile fun u => decide (k ≤ K u)).getLastD q then t
        else if i = t then (l.dropWhile fun u => decide (k ≤ K u)).headD (q + 1)
        else (s.quetab i).next) ∧
      (∀ i, ((s.insert t q k).1.quetab i).prev =
        if i = (l.dropWhile fun u => decide (k ≤ K u)).headD (q + 1) then t
        else if i = t then (l.takeWhile fun u => decide (k ≤ K u)).getLastD q
        else (s.quetab i).prev) ∧
      ∀ i, ((s.insert t q k).1.quetab i).key = if i = t then k else (s.quetab i).key := by
  have hsplit := h.linked
  rw [← takeWhile_append_dropWhile (p := fun u => decide (k ≤ K u)) (l := l)] at hsplit
  rw [Kernel.insert, if_neg (not_or.mpr ⟨hq.not_isbadqid, hbad⟩),
    insertScan_eq h.linked hK htail h.length_lt, ← hsplit.adjacent.2]
  refine ⟨rfl, rfl, fun i => ?_, fun i => ?_, fun i => ?_⟩
  · simp only [next_setNext, next_setPrev, next_setKey, prev_setNext]
  · simp only [prev_setNext, prev_setPrev, prev_setKey]
  · simp only [key_setNext, key_setPrev, key_setKey]

/-- **`insertd`** links a thread in where it is due, and takes what is left of its delay off that
of the thread behind it. -/
theorem Threads.insertd (h : Threads s.quetab q l)
    (hq : IsQueue q) (hbad : ¬ s.isbadtid t) (hnot : t ∉ l)
    (hK : ∀ u ∈ l, (s.quetab u).key = K u) (k : Int) :
    (s.insertd t q k).2 = OK ∧ (s.insertd t q k).1.toGlobals = s.toGlobals ∧
      (∀ i, ((s.insertd t q k).1.quetab i).next = if i = (deltaSplit K l k).1.getLastD q then t
        else if i = t then (deltaSplit K l k).2.1.headD (q + 1) else (s.quetab i).next) ∧
      (∀ i, ((s.insertd t q k).1.quetab i).prev = if i = (deltaSplit K l k).2.1.headD (q + 1) then t
        else if i = t then (deltaSplit K l k).1.getLastD q else (s.quetab i).prev) ∧
      ∀ i, ((s.insertd t q k).1.quetab i).key = addAt (update (fun i => (s.quetab i).key) t
        (deltaSplit K l k).2.2) (deltaSplit K l k).2.1.head? (-(deltaSplit K l k).2.2) i := by
  have htail : q + 1 ∉ l := fun h' => ((h.range _ h').ne_of_isQueue hq).2 rfl
  have hsplit := deltaSplit_append K l k
  rw [Kernel.insertd, if_neg (not_or.mpr ⟨hq.not_isbadqid, hbad⟩),
    insertdScan_eq h.linked hK htail h.length_lt]
  generalize deltaSplit K l k = r at hsplit ⊢
  obtain ⟨pre, post, rest⟩ := r
  simp only at hsplit ⊢
  cases post with
  | nil =>
    rw [if_neg (by simp)]
    refine ⟨trivial, rfl, fun i => ?_, fun i => ?_, fun i => ?_⟩
    · simp only [next_setNext, next_setPrev, next_setKey]
    · simp only [prev_setNext, prev_setPrev, prev_setKey]
    · simp only [key_setNext, key_setPrev, key_setKey, head?_nil, addAt, update_apply]
      rfl
  | cons b post =>
    have hb : b ∈ l := by rw [← hsplit]; simp
    have hbt : b ≠ t := fun h' => hnot (h' ▸ hb)
    rw [headD_cons, if_pos ((h.range b hb).ne_of_isQueue hq).2]
    refine ⟨trivial, rfl, fun i => ?_, fun i => ?_, fun i => ?_⟩
    · simp only [next_setNext, next_setPrev, next_setKey]
    · simp only [prev_setNext, prev_setPrev, prev_setKey]
    · simp only [key_setNext, key_setPrev, key_setKey, head?_cons, addAt, update_apply, if_neg hbt]
      rcases eq_or_ne i b with rfl | hib
      · simp [hbt, sub_eq_add_neg]
      · simp [hib, Ne.symm hib]

/-! ## The operations -/

namespace Rep

variable {v : Sched}

section

variable (R : Rep s v)
include R

theorem modThr (t : Int) (f : ThrEnt → ThrEnt) : Rep (s.modThr t f) (v.modThr t f) := by
  obtain ⟨g, Q, K⟩ := v
  obtain ⟨rfl, L⟩ := R
  refine ⟨?_, L⟩
  rw [Kernel.modThr, store_eq_update]
  rfl

theorem setState (t : Int) (st : ThrState) : Rep (s.setState t st) (v.setState t st) := R.modThr t _

theorem congr (h : ∀ q, IsQueue q → Q q = v.queue q) : Rep s { v with queue := Q } :=
  ⟨R.globals, R.links.congr h⟩

/-- A thread that is on no queue has already left. -/
theorem leave (h : ∀ q, IsQueue q → t ∉ v.queue q) : Rep s (v.leave t) :=
  R.congr fun q hq => erase_of_not_mem (h q hq)

theorem isbadtid_iff : s.isbadtid t ↔ NTHREAD ≤ t ∨ t < 0 ∨ v.state t = .free := by
  rw [Kernel.isbadtid, Globals.state, ← R.globals]

section

variable (hq : IsQueue q)
include hq

/-- **`getitem`** takes a thread off its queue. -/
theorem getitem (ht : t ∈ v.queue q) : Rep (s.getitem t).1 (v.leave t) :=
  ⟨R.globals, R.links.unlink hq ht (s.next_getitem t) (s.prev_getitem t) (s.key_getitem t)⟩

theorem firstid : s.firstid q = (v.queue q).headD (q + 1) :=
  R.links.next_head hq

theorem isempty_iff : s.isempty q ↔ v.queue q = [] := by
  rw [Kernel.isempty, R.firstid hq]
  rcases hl : v.queue q with _ | ⟨h, l⟩
  · have := hq.le
    simp only [headD_nil, iff_true]
    omega
  · have := (R.links.range q hq h (hl ▸ mem_cons_self ..)).2
    simp only [headD_cons, reduceCtorEq, iff_false]
    omega

theorem nonempty_iff : s.nonempty q ↔ v.queue q ≠ [] := by
  rw [← not_iff_not, not_ne_iff, ← R.isempty_iff hq, Kernel.nonempty, Kernel.isempty, not_lt]

theorem firstkey {h : Int} (hl : v.queue q = h :: l) : s.firstkey q = v.key h := by
  rw [Kernel.firstkey, R.firstid hq, hl]
  exact R.links.key h (R.links.range q hq h (hl ▸ mem_cons_self ..))

theorem dequeue_nil (hl : v.queue q = []) : s.dequeue q = (s, EMPTY) := by
  rw [Kernel.dequeue, if_neg hq.not_isbadqid, if_pos ((R.isempty_iff hq).mpr hl)]

/-- **`dequeue`** takes the first thread off. -/
theorem dequeue {h : Int} (hl : v.queue q = h :: l) :
    (s.dequeue q).2 = h ∧ Rep (s.dequeue q).1 (v.leave h) := by
  have hmem : h ∈ v.queue q := hl ▸ mem_cons_self ..
  have hne : ¬ s.isempty q := by
    rw [R.isempty_iff hq, hl]
    simp
  have hfirst : s.getfirst q = s.getitem h := by
    rw [Kernel.getfirst, if_neg hq.not_isbadqid, if_neg hne]
    congr 1
    exact (R.firstid hq).trans (by rw [hl]; rfl)
  have R' := R.getitem hq hmem
  rw [Kernel.dequeue, if_neg hq.not_isbadqid, if_neg hne, hfirst]
  have hid : (s.getitem h).2 = h := rfl
  simp only [hid]
  split_ifs
  · exact ⟨rfl, R'⟩
  · -- the links are `EMPTY` already
    refine ⟨rfl, R'.globals, R'.links.setKeys (fun q' hq' => ?_) (fun u hu => ?_) (fun i => ?_)
      fun i => ?_⟩
    · simp only [key_setNext, key_setPrev, and_self]
    · simp only [key_setNext, key_setPrev]
      exact R'.links.key u hu
    · simp only [next_setNext, next_setPrev, s.next_getitem]
      split_ifs <;> rfl
    · simp only [prev_setNext, prev_setPrev, s.prev_getitem]
      split_ifs <;> rfl

end

theorem not_isbadtid (ht : IsTid t) (hfree : v.state t ≠ .free) : ¬ s.isbadtid t := by
  rw [R.isbadtid_iff]
  have := ht.1
  have := ht.2
  rintro (h | h | h)
  · omega
  · omega
  · exact hfree h

section

variable (hq : IsQueue q) (ht : IsTid t) (hfree : v.state t ≠ .free)
    (hnot : ∀ q, IsQueue q → t ∉ v.queue q)
include hq ht hfree hnot

/-- **`enqueue`** puts a thread at the end. -/
theorem enqueue : Rep (s.enqueue t q).1 (v.append t q) := by
  have hprev := R.links.prev_tail hq
  rw [Kernel.enqueue, if_neg (not_or.mpr ⟨hq.not_isbadqid, R.not_isbadtid ht hfree⟩)]
  refine ⟨R.globals, R.links.splice (fun q' _ => ?_) (fun u hu => ?_) hq ht hnot
    (append_nil (v.queue q)).symm hprev.symm (show [].headD (q + 1) = q + 1 from rfl)
    (fun i => ?_) fun i => ?_⟩
  · simp only [key_setNext, key_setPrev, and_self]
  · simp only [key_setNext, key_setPrev]
    exact R.links.key u hu
  · simp only [next_setNext, next_setPrev]
  · simp only [prev_setNext, prev_setPrev]

/-- **`insert`** puts a thread behind those with the same or a larger key. -/
theorem insert (hk : MINKEY < k) : Rep (s.insert t q k).1
      { v with
        queue := update v.queue q (insertBy v.key k t (v.queue q)), key := update v.key t k } := by
  have hT := R.links.threads hq
  obtain ⟨-, hglob, hnext, hprev, hkey⟩ := hT.insert hq (R.not_isbadtid ht hfree)
    (fun u hu => R.links.key u (hT.range u hu)) (by rw [(R.links.tail q hq).2]; exact hk)
  refine ⟨hglob.trans R.globals, R.links.splice (fun q' hq' => ?_) (fun u hu => ?_) hq ht hnot
    (takeWhile_append_dropWhile).symm rfl rfl hnext hprev⟩
  · obtain ⟨h₁, h₂⟩ := ht.ne_of_isQueue hq'
    simp only [hkey, if_neg h₁.symm, if_neg h₂.symm, and_self]
  · rw [hkey, R.links.key u hu]
    exact (update_apply ..).symm

/-- **`insertd`** puts a thread where it is due. -/
theorem insertd (k : Int) : (s.insertd t q k).2 = OK ∧ Rep (s.insertd t q k).1
      { v with
        queue := update v.queue q (insertDelta v.key (v.queue q) t k).1
        key := (insertDelta v.key (v.queue q) t k).2 } := by
  have hT := R.links.threads hq
  obtain ⟨hok, hglob, hnext, hprev, hkey⟩ := hT.insertd hq (R.not_isbadtid ht hfree) (hnot q hq)
    (fun u hu => R.links.key u (hT.range u hu)) k
  have hsplit := deltaSplit_append v.key (v.queue q) k
  have hhead : ∀ u, ¬ IsTid u → (deltaSplit v.key (v.queue q) k).2.1.head? ≠ some u :=
    fun u hu h => hu (hT.range u (by rw [← hsplit]; simp [mem_of_mem_head? h]))
  refine ⟨hok, hglob.trans R.globals, R.links.splice (fun q' hq' => ?_) (fun u hu => ?_) hq ht hnot
    hsplit.symm rfl rfl hnext hprev⟩
  · obtain ⟨h₁, h₂⟩ := ht.ne_of_isQueue hq'
    have hnt : ∀ u, NTHREAD ≤ u → ¬ IsTid u := fun u hu h => by have := h.2; omega
    rw [hkey, hkey, addAt_of_ne (hhead _ (hnt _ hq'.le)),
      addAt_of_ne (hhead _ (hnt _ (by have := hq'.le; omega))), update_of_ne h₁.symm,
      update_of_ne h₂.symm]
    exact ⟨rfl, rfl⟩
  · rw [hkey]
    simp only [insertDelta, addAt, update_apply, R.links.key u hu]

end

theorem setKey {b x : Int} (hb : IsTid b) (hx : x = v.key b + k) :
    Rep (s.setKey b x) { v with key := addAt v.key (some b) k } :=
  ⟨R.globals, R.links.setKey hb hx⟩

end

end Rep

/-! ## Insertion on any sorted queue -/

/-- `insert` puts `t` between the members `pre` and `post` of the queue `q`: the walk ends there,
at a member or at the tail, whatever number of further steps it may take. -/
structure Inserts (s : Kernel) (t q k : Int) (pre post : List Int) : Prop where
  passed : ∀ u ∈ pre, k ≤ (s.quetab u).key
  behind : ∀ u ∈ post, (s.quetab u).key < k
  stops : (s.quetab (post.headD (q + 1))).key < k
  walk : ∀ fuel, (pre ++ post).length < fuel →
    s.insertScan k fuel (s.quetab q).next = post.headD (q + 1)
  result : (s.insert t q k).2 = OK
  threads : Threads (s.insert t q k).1.quetab q (pre ++ t :: post)
  key : ∀ i, ((s.insert t q k).1.quetab i).key = if i = t then k else (s.quetab i).key
  sorted : Descending (fun u => ((s.insert t q k).1.quetab u).key) (pre ++ t :: post)

/-- **`insert` keeps a sorted queue sorted** exactly for the keys above that of the tail. -/
theorem inserts_iff (hq : IsQueue q) (hbad : ¬ s.isbadtid t) (h : Threads s.quetab q l)
    (hnot : t ∉ l) (hsorted : Descending (fun u => (s.quetab u).key) l)
    (hmin : ∀ u ∈ l, MINKEY ≤ (s.quetab u).key) (htail : (s.quetab (q + 1)).key = MINKEY) :
    (∃ pre post, l = pre ++ post ∧ Inserts s t q k pre post) ↔ MINKEY < k := by
  constructor
  · rintro ⟨pre, post, rfl, hI⟩
    have hstop := hI.stops
    rcases headD_cases post (q + 1) with hc | hc
    · exact (hmin _ (mem_append_right _ hc)).trans_lt hstop
    · rwa [hc, htail] at hstop
  · intro hk
    rw [← htail] at hk
    have hK : ∀ u ∈ l, (s.quetab u).key = (s.quetab u).key := fun u _ => rfl
    obtain ⟨hok, -, hnext, hprev, hkey⟩ := h.insert hq hbad hK hk
    have hsplit := takeWhile_append_dropWhile (p := fun u => decide (k ≤ (s.quetab u).key)) (l := l)
    have hpost := fun u => hsorted.lt_of_mem_dropWhile (y := u) (k := k)
    have ht : IsTid t := by
      rw [isbadtid, not_or, not_or] at hbad
      exact ⟨not_lt.mp hbad.2.1, not_le.mp hbad.1⟩
    refine ⟨_, _, hsplit.symm, fun u => le_of_mem_takeWhile, hpost, ?_, ?_, hok,
      (hsplit ▸ h).splice hq ht (by rwa [hsplit]) hnext hprev, hkey, ?_⟩
    · rcases headD_cases (l.dropWhile fun u => decide (k ≤ (s.quetab u).key)) (q + 1) with hc | hc
      · exact hpost _ hc
      · rwa [hc]
    · rw [hsplit]
      exact fun fuel => insertScan_eq h.linked hK hk
    · refine hsorted.insertBy ((hkey t).trans (if_pos rfl)) fun u hu => (hkey u).trans (if_neg ?_)
      exact fun he => hnot (he ▸ hu)

/-- The first queue of the system, with a thread of key 30 and one of key 10. -/
def twoQueued : Kernel :=
  let s := ((nullinit 0 0 0 fun _ => ⟨0, 0⟩).queinit.1.setState 1 .ready).setState 2 .ready
  ((s.insert 1 NTHREAD 30).1.insert 2 NTHREAD 10).1

/-- A thread of key 20 goes between the two. -/
theorem inserts_between : ∃ pre post, [1, 2] = pre ++ post ∧
    Inserts twoQueued NULLTHREAD NTHREAD 20 pre post := by
  refine (inserts_iff (q := NTHREAD) ⟨0, by decide, rfl⟩ (by decide) ⟨?_, by decide, by decide⟩
    (by decide) (pairwise_pair.mpr (by decide)) (by decide) (by decide)).mpr (by decide)
  exact isChain_cons_cons.mpr
    ⟨by decide, isChain_cons_cons.mpr ⟨by decide, isChain_pair.mpr (by decide)⟩⟩

/-- A key of `MINKEY` is not above that of the tail: the walk leaves the queue by the tail's link,
which is `EMPTY`. -/
theorem inserts_minkey : (¬ ∃ pre post, [] = pre ++ post ∧
      Inserts (nullinit 0 0 0 fun _ => ⟨0, 0⟩).queinit.1 NULLTHREAD NTHREAD MINKEY pre post) ∧
    (nullinit 0 0 0 fun _ => ⟨0, 0⟩).queinit.1.insertScan MINKEY 1 (NTHREAD + 1) = EMPTY := by
  refine ⟨?_, by decide⟩
  rintro ⟨pre, post, h, hI⟩
  obtain ⟨rfl, rfl⟩ := append_eq_nil_iff.mp h.symm
  exact absurd hI.stops (by decide)

end Xinu
