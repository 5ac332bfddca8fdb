import Xinu.Foundations.DoublyLinked
import Xinu.Kernel.Queue
import Xinu.Sched.Sound

/-!
# The queue table represents lists

`Links qt Q K` says that the queue table `qt` threads the lists `Q` between the sentinels of their
queues and holds the keys `K`. The operations of the queue table do to the lists what their names
say.

## Main results

* `Links.unlink`, `Links.splice`: a thread is taken off a queue, or put on one
-/

namespace Xinu

open List Function DoublyLinked KeyedList

variable {Q : Int → List Int} {post pre : List Int} {q t : Int} {qt qt' : Int → QueEnt}

/-- The queue table `qt` threads the list `l` between the sentinels of the queue `q`. -/
structure Threads (qt : Int → QueEnt) (q : Int) (l : List Int) : Prop where
  linked : Linked (fun i => (qt i).next) (fun i => (qt i).prev) (q :: l ++ [q + 1])
  range : ∀ t ∈ l, IsTid t
  nodup : l.Nodup

/-- The queue table `qt` represents the lists `Q` with the keys `K`. -/
structure Links (qt : Int → QueEnt) (Q : Int → List Int) (K : Int → Int) : Prop where
  linked : ∀ q, IsQueue q →
    Linked (fun i => (qt i).next) (fun i => (qt i).prev) (q :: Q q ++ [q + 1])
  range : ∀ q, IsQueue q → ∀ t ∈ Q q, IsTid t
  nodup : ∀ q, IsQueue q → (Q q).Nodup
  disjoint : ∀ q q', IsQueue q → IsQueue q' → q ≠ q' → ∀ t ∈ Q q, t ∉ Q q'
  head : ∀ q, IsQueue q → (qt q).prev = EMPTY ∧ (qt q).key = MAXKEY
  tail : ∀ q, IsQueue q → (qt (q + 1)).next = EMPTY ∧ (qt (q + 1)).key = MINKEY
  key : ∀ t, IsTid t → (qt t).key = K t

theorem IsQueue.le (h : IsQueue q) : NTHREAD ≤ q := by
  obtain ⟨i, -, rfl⟩ := h
  omega

theorem IsQueue.not_isbadqid (h : IsQueue q) : ¬ isbadqid q := by
  obtain ⟨i, hi, rfl⟩ := h
  have hn : NQENT = NTHREAD + 4 + NSEM + NSEM := rfl
  have ht : NTHREAD = 100 := rfl
  unfold isbadqid
  omega

theorem IsQueue.succ_ne {q' : Int} (h : IsQueue q) (h' : IsQueue q') : q + 1 ≠ q' := by
  obtain ⟨i, -, rfl⟩ := h
  obtain ⟨j, -, rfl⟩ := h'
  omega

theorem IsTid.ne_of_isQueue (ht : IsTid t) (hq : IsQueue q) : t ≠ q ∧ t ≠ q + 1 := by
  have := hq.le
  have := ht.2
  omega

/-- A thread that is not on a queue is not next to a place of it. -/
theorem IsTid.ne_sides (ht : IsTid t) (hq : IsQueue q) (hnot : t ∉ pre ++ post) :
    t ≠ pre.getLastD q ∧ t ≠ post.headD (q + 1) := by
  obtain ⟨htq, htq'⟩ := ht.ne_of_isQueue hq
  rw [mem_append, not_or] at hnot
  refine ⟨fun he => ?_, fun he => ?_⟩
  · rcases getLastD_cases q pre with hc | hc <;> rw [← he] at hc
    · exact htq hc
    · exact hnot.1 hc
  · rcases headD_cases post (q + 1) with hc | hc <;> rw [← he] at hc
    · exact hnot.2 hc
    · exact htq' hc

namespace Threads

variable {l : List Int} (hq : IsQueue q)
include hq

theorem nodes_nodup (h : Threads qt q l) : (q :: l ++ [q + 1]).Nodup := by
  have hne := fun t ht => (h.range t ht).ne_of_isQueue hq
  rw [cons_append, nodup_cons, nodup_append]
  refine ⟨?_, h.nodup, by simp, ?_⟩
  · simp only [mem_append, mem_singleton, not_or]
    exact ⟨fun hm => (hne q hm).1 rfl, by omega⟩
  · intro a ha b hb
    rw [mem_singleton.mp hb]
    exact (hne a ha).2

/-- **A thread is taken off its queue**: its neighbours are linked. -/
theorem unlink (h : Threads qt q (pre ++ t :: post)) (hnext : ∀ i, (qt' i).next =
      if i = t then EMPTY else if i = (qt t).prev then (qt t).next else (qt i).next)
    (hprev : ∀ i, (qt' i).prev =
      if i = t then EMPTY else if i = (qt t).next then (qt t).prev else (qt i).prev) :
    (qt t).prev = pre.getLastD q ∧ (qt t).next = post.headD (q + 1) ∧
      Threads qt' q (pre ++ post) := by
  have hnodup := h.nodes_nodup hq
  have hmid : Linked (fun i => (qt i).next) (fun i => (qt i).prev)
      (q :: ((pre ++ [t]) ++ post) ++ [q + 1]) := by simpa using h.linked
  have hpt : (qt t).prev = pre.getLastD q := h.linked.adjacent.2
  have hnt : (qt t).next = post.headD (q + 1) := by simpa using hmid.adjacent.1
  obtain ⟨htnot, hrest⟩ := nodup_cons.mp (perm_middle.nodup_iff.mp h.nodup)
  obtain ⟨hta, htb⟩ := (h.range t (by simp)).ne_sides hq htnot
  rw [← hpt] at hta
  rw [← hnt] at htb
  refine ⟨hpt, hnt, h.linked.unlink hnodup ?_ ?_ (fun i hi hit => ?_) (fun i hi hit => ?_),
    fun u hu => h.range u (perm_middle.mem_iff.mpr (mem_cons_of_mem _ hu)), hrest⟩
  · simp only [hnext, if_neg hta.symm, if_true]
  · simp only [hprev, if_neg htb.symm, if_true]
  · simp only [hnext, if_neg hit, if_neg hi]
  · simp only [hprev, if_neg hit, if_neg hi]

/-- **A thread is put on a queue**: it is linked to its neighbours. -/
theorem splice (h : Threads qt q (pre ++ post)) (ht : IsTid t) (hnot : t ∉ pre ++ post)
    (hnext : ∀ i, (qt' i).next = if i = pre.getLastD q then t else
      if i = t then post.headD (q + 1) else (qt i).next)
    (hprev : ∀ i, (qt' i).prev = if i = post.headD (q + 1) then t else
      if i = t then pre.getLastD q else (qt i).prev) : Threads qt' q (pre ++ t :: post) := by
  obtain ⟨htq, htq'⟩ := ht.ne_of_isQueue hq
  obtain ⟨hta, htb⟩ := ht.ne_sides hq hnot
  rw [mem_append, not_or] at hnot
  refine ⟨h.linked.splice (h.nodes_nodup hq) (by simp [hnot, htq, htq']) rfl rfl ?_ ?_ ?_ ?_
    (fun i hi hit => ?_) (fun i hi hit => ?_), ?_, ?_⟩
  · simp only [hnext, if_neg hta, if_true]
  · simp only [hprev, if_neg htb, if_true]
  · simp only [hnext, if_true]
  · simp only [hprev, if_true]
  · simp only [hnext, if_neg hi, if_neg hit]
  · simp only [hprev, if_neg hi, if_neg hit]
  · intro u hu
    rcases mem_cons.mp (perm_middle.mem_iff.mp hu) with rfl | hu
    · exact ht
    · exact h.range u hu
  · exact perm_middle.nodup_iff.mpr (nodup_cons.mpr ⟨by simp [hnot], h.nodup⟩)

end Threads

/-- The nodes of a queue: its sentinels and its threads. -/
def nodes (Q : Int → List Int) (q : Int) : List Int := q :: Q q ++ [q + 1]

theorem mem_nodes {x : Int} : x ∈ nodes Q q ↔ x = q ∨ x ∈ Q q ∨ x = q + 1 := by
  simp [nodes]

namespace Links

variable {Q' : Int → List Int} {K K' : Int → Int}

section

variable (L : Links qt Q K)
include L

theorem threads (hq : IsQueue q) : Threads qt q (Q q) := ⟨L.linked q hq, L.range q hq, L.nodup q hq⟩

theorem nodes_disjoint {q' x : Int} (hq : IsQueue q) (hq' : IsQueue q')
    (hne : q ≠ q') (hx : x ∈ nodes Q q) : x ∉ nodes Q q' := by
  intro hx'
  rw [mem_nodes] at hx hx'
  have h₁ := hq.succ_ne hq'
  have h₂ := hq'.succ_ne hq
  rcases hx with rfl | hx | rfl
  · rcases hx' with h | h | h
    · exact hne h
    · exact ((L.range q' hq' x h).ne_of_isQueue hq).1 rfl
    · exact h₂ h.symm
  · have hr := L.range q hq x hx
    rcases hx' with h | h | h
    · exact (hr.ne_of_isQueue hq').1 h
    · exact L.disjoint q q' hq hq' hne x hx h
    · exact (hr.ne_of_isQueue hq').2 h
  · rcases hx' with h | h | h
    · exact h₁ h
    · exact ((L.range q' hq' _ h).ne_of_isQueue hq).2 rfl
    · omega

theorem congr (h : ∀ q, IsQueue q → Q' q = Q q) : Links qt Q' K where
  linked q hq := by rw [h q hq]; exact L.linked q hq
  range q hq := by rw [h q hq]; exact L.range q hq
  nodup q hq := by rw [h q hq]; exact L.nodup q hq
  disjoint q q' hq hq' hne := by rw [h q hq, h q' hq']; exact L.disjoint q q' hq hq' hne
  head := L.head
  tail := L.tail
  key := L.key

section

variable
    (hsent : ∀ q, IsQueue q → (qt' q).key = (qt q).key ∧ (qt' (q + 1)).key = (qt (q + 1)).key)
    (hkey : ∀ t, IsTid t → (qt' t).key = K' t)
include hsent hkey

theorem setKeys (hnext : ∀ i, (qt' i).next = (qt i).next)
    (hprev : ∀ i, (qt' i).prev = (qt i).prev) :
    Links qt' Q K' where
  linked q hq := (L.linked q hq).congr (fun a _ => hnext a) (fun a _ => hprev a)
  range := L.range
  nodup := L.nodup
  disjoint := L.disjoint
  head q hq := ⟨(hprev q).trans (L.head q hq).1, (hsent q hq).1.trans (L.head q hq).2⟩
  tail q hq := ⟨(hnext _).trans (L.tail q hq).1, (hsent q hq).2.trans (L.tail q hq).2⟩
  key := hkey

/-- **A queue is linked anew** next to a place of it, where the thread `t` comes or goes. The other
queues are left alone, and so are the outer links of the sentinels. -/
theorem relink {a b : Int} {l : List Int} (hq : IsQueue q) (ht : IsTid t)
    (hnot : ∀ q', IsQueue q' → q ≠ q' → t ∉ Q q') (ha : a = q ∨ a ∈ Q q) (hb : b ∈ Q q ∨ b = q + 1)
    (hnext : ∀ i, i ≠ a → i ≠ t → (qt' i).next = (qt i).next)
    (hprev : ∀ i, i ≠ b → i ≠ t → (qt' i).prev = (qt i).prev)
    (hT : Threads qt' q l) (hmem : ∀ u ∈ l, u = t ∨ u ∈ Q q) : Links qt' (update Q q l) K' := by
  have hthreads : ∀ q', IsQueue q' → Threads qt' q' (update Q q l q') := by
    intro q' hq'
    by_cases hne : q = q'
    · subst hne
      rw [update_self]
      exact hT
    obtain ⟨htq, htq'⟩ := ht.ne_of_isQueue hq'
    have hother : ∀ i ∈ nodes Q q', i ≠ a ∧ i ≠ b ∧ i ≠ t := by
      intro i hi
      refine ⟨?_, ?_, ?_⟩ <;> rintro rfl
      · exact L.nodes_disjoint hq hq' hne (mem_nodes.mpr (ha.imp id .inl)) hi
      · exact L.nodes_disjoint hq hq' hne (mem_nodes.mpr (.inr hb)) hi
      · rcases mem_nodes.mp hi with h | h | h
        · exact htq h
        · exact hnot q' hq' hne h
        · exact htq' h
    rw [update_of_ne (Ne.symm hne)]
    exact ⟨(L.linked q' hq').congr (fun i hi => hnext i (hother i hi).1 (hother i hi).2.2)
      fun i hi => hprev i (hother i hi).2.1 (hother i hi).2.2, L.range q' hq', L.nodup q' hq'⟩
  refine ⟨fun q' hq' => (hthreads q' hq').linked, fun q' hq' => (hthreads q' hq').range,
    fun q' hq' => (hthreads q' hq').nodup, ?_, fun q' hq' => ?_, fun q' hq' => ?_, hkey⟩
  · intro c d hc hd hcd u hu hu'
    have hin : ∀ q', u ∈ update Q q l q' → u = t ∧ q' = q ∨ u ∈ Q q' := by
      intro q' h
      by_cases hqq : q' = q
      · subst hqq
        rw [update_self] at h
        exact (hmem u h).imp (fun h => ⟨h, rfl⟩) id
      · rw [update_of_ne hqq] at h
        exact .inr h
    rcases hin c hu with ⟨rfl, rfl⟩ | huc
    · rcases hin d hu' with ⟨-, rfl⟩ | hud
      · exact hcd rfl
      · exact hnot d hd hcd hud
    · rcases hin d hu' with ⟨rfl, rfl⟩ | hud
      · exact hnot c hc hcd.symm huc
      · exact L.disjoint c d hc hd hcd u huc hud
  · rw [hprev q' ?_ (ht.ne_of_isQueue hq').1.symm, (hsent q' hq').1]
    · exact L.head q' hq'
    rintro rfl
    rcases hb with h | h
    · exact ((L.range q hq _ h).ne_of_isQueue hq').1 rfl
    · exact hq.succ_ne hq' h.symm
  · rw [hnext _ ?_ (ht.ne_of_isQueue hq').2.symm, (hsent q' hq').2]
    · exact L.tail q' hq'
    rintro rfl
    rcases ha with h | h
    · exact hq'.succ_ne hq h
    · exact ((L.range q hq _ h).ne_of_isQueue hq').2 rfl

/-- **A thread is put on a queue**: it is linked to its neighbours, and nothing else but their
links and keys of threads change. -/
theorem splice (hq : IsQueue q) (ht : IsTid t)
    (hnot : ∀ q, IsQueue q → t ∉ Q q) (hsplit : Q q = pre ++ post)
    {a b : Int} (ha : pre.getLastD q = a) (hb : post.headD (q + 1) = b)
    (hnext : ∀ i, (qt' i).next = if i = a then t else if i = t then b else (qt i).next)
    (hprev : ∀ i, (qt' i).prev = if i = b then t else if i = t then a else (qt i).prev) :
    Links qt' (update Q q (pre ++ t :: post)) K' := by
  have hT := L.threads hq
  rw [hsplit] at hT
  subst ha hb
  refine L.relink hsent hkey hq ht (fun q' hq' _ => hnot q' hq') ?_ ?_
    (fun i hi hit => by rw [hnext, if_neg hi, if_neg hit])
    (fun i hi hit => by rw [hprev, if_neg hi, if_neg hit])
    (hT.splice hq ht (hsplit ▸ hnot q hq) hnext hprev) fun u hu => ?_
  · rw [hsplit]
    exact (getLastD_cases q pre).imp id (mem_append_left _)
  · rw [hsplit]
    exact (headD_cases post (q + 1)).imp (mem_append_right _) id
  · rw [perm_middle.mem_iff, mem_cons, ← hsplit] at hu
    exact hu

end

/-- **A thread is taken off its queue**: its neighbours are linked, and nothing else but its own
links changes. -/
theorem unlink (hq : IsQueue q) (ht : t ∈ Q q) (hnext : ∀ i, (qt' i).next =
      if i = t then EMPTY else if i = (qt t).prev then (qt t).next else (qt i).next)
    (hprev : ∀ i, (qt' i).prev =
      if i = t then EMPTY else if i = (qt t).next then (qt t).prev else (qt i).prev)
    (hkey : ∀ i, (qt' i).key = (qt i).key) : Links qt' (fun q => (Q q).erase t) K := by
  obtain ⟨pre, post, hsplit⟩ := append_of_mem ht
  have hT := L.threads hq
  rw [hsplit] at hT
  obtain ⟨hpt, hnt, hT'⟩ := hT.unlink hq hnext hprev
  have hnot : t ∉ pre := fun h =>
    (nodup_append.mp hT.nodup).2.2 t h t mem_cons_self rfl
  have hother := fun q' hq' hne => L.disjoint q q' hq hq' hne t ht
  refine (L.relink (fun q _ => ⟨hkey q, hkey _⟩) (fun u hu => (hkey u).trans (L.key u hu)) hq
    (L.range q hq t ht) hother (a := (qt t).prev) (b := (qt t).next) ?_ ?_
    (fun i hi hit => by rw [hnext, if_neg hit, if_neg hi])
    (fun i hi hit => by rw [hprev, if_neg hit, if_neg hi]) hT' ?_).congr fun q' hq' => ?_
  · rw [hsplit, hpt]
    exact (getLastD_cases q pre).imp id (mem_append_left _)
  · rw [hsplit, hnt]
    exact (headD_cases post _).imp (fun h => mem_append_right _ (mem_cons_of_mem _ h)) id
  · intro u hu
    rw [hsplit]
    exact .inr (perm_middle.mem_iff.mpr (mem_cons_of_mem _ hu))
  · by_cases hqq : q = q'
    · subst hqq
      rw [update_self, hsplit, erase_append_right _ hnot, erase_cons_head]
    · rw [update_of_ne (Ne.symm hqq), erase_of_not_mem (hother q' hq' hqq)]

end

end Links

end Xinu
