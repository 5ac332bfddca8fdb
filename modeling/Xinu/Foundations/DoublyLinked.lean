import Mathlib.Data.List.Nodup
import Mathlib.Data.List.Chain
import Xinu.Foundations.Machine

/-!
# Doubly linked lists

A list of nodes linked forwards by one function and backwards by another, in the way an intrusive
list keeps its links in an array. The first and the last node are sentinels. Taking a node out
and putting a node in between two others each touch the links of three nodes, and keep the rest
of the list linked.

## Main definitions

* `Linked nxt prv l`: the nodes `l` are linked in both directions
* `walk nxt stop fuel a`: the nodes from `a` up to `stop`

## Main results

* `Linked.unlink`, `Linked.splice`: taking a node out and putting one in
* `Linked.walk_eq`: a walk finds the nodes between the sentinels
-/

namespace DoublyLinked

open List

variable {ι : Type*} {nxt prv nxt' prv' : ι → ι} {l pre post : List ι} {a b x first stop : ι}

/-- The nodes of `l` are linked forwards by `nxt` and backwards by `prv`. -/
def Linked (nxt prv : ι → ι) (l : List ι) : Prop := l.IsChain fun a b => nxt a = b ∧ prv b = a

theorem Linked.congr (h : Linked nxt prv l) (hnxt : ∀ a ∈ l, nxt' a = nxt a)
    (hprv : ∀ a ∈ l, prv' a = prv a) : Linked nxt' prv' l :=
  List.IsChain.imp_of_mem_imp
    (fun a b ha hb hab => ⟨(hnxt a ha).trans hab.1, (hprv b hb).trans hab.2⟩) h

theorem linked_append_cons_cons :
    Linked nxt prv (pre ++ a :: b :: post) ↔
      Linked nxt prv (pre ++ [a]) ∧ (nxt a = b ∧ prv b = a) ∧ Linked nxt prv (b :: post) :=
  isChain_append_cons_cons

/-- Links up to `a` do not depend on where `a` leads. -/
theorem Linked.congr_init (h : Linked nxt prv (pre ++ [a])) (ha : nxt a ∉ pre ++ [a])
    (hnxt : ∀ c ∈ pre, nxt' c = nxt c) (hprv : ∀ c ∈ pre ++ [a], prv' c = prv c) :
    Linked nxt' prv' (pre ++ [a]) := by
  refine List.IsChain.imp_of_mem_imp (fun c d hc hd hcd => ?_) h
  rcases mem_append.mp hc with hc | hc
  · exact ⟨(hnxt c hc).trans hcd.1, (hprv d hd).trans hcd.2⟩
  · rw [mem_singleton.mp hc] at hcd
    exact absurd (hcd.1 ▸ hd) ha

/-- Links from `b` on do not depend on what leads to `b`. -/
theorem Linked.congr_tail (h : Linked nxt prv (b :: post)) (hb : prv b ∉ b :: post)
    (hnxt : ∀ c ∈ b :: post, nxt' c = nxt c) (hprv : ∀ c ∈ post, prv' c = prv c) :
    Linked nxt' prv' (b :: post) := by
  refine List.IsChain.imp_of_mem_imp (fun c d hc hd hcd => ?_) h
  rcases mem_cons.mp hd with rfl | hd
  · exact absurd (hcd.2 ▸ hc) hb
  · exact ⟨(hnxt c hc).trans hcd.1, (hprv d hd).trans hcd.2⟩

/-! ## Lists between two sentinels -/

/-- A place in a list between two sentinels, with the nodes on either side of it. -/
theorem exists_sides (first : ι) (pre post : List ι) (stop : ι) :
    ∃ init rest, ∀ m, first :: (pre ++ (m ++ post)) ++ [stop] =
      init ++ pre.getLastD first :: (m ++ post.headD stop :: rest) := by
  obtain ⟨init, hinit⟩ : ∃ init, first :: pre = init ++ [pre.getLastD first] := by
    rcases pre.eq_nil_or_concat with rfl | ⟨k, b, rfl⟩
    · exact ⟨[], rfl⟩
    · exact ⟨first :: k, by simp⟩
  obtain ⟨rest, hrest⟩ : ∃ rest, post ++ [stop] = post.headD stop :: rest := by
    cases post with
    | nil => exact ⟨[], rfl⟩
    | cons b post => exact ⟨post ++ [stop], rfl⟩
  refine ⟨init, rest, fun m => ?_⟩
  rw [← hrest, append_cons init, ← hinit]
  simp

theorem getLastD_cases (first : ι) (pre : List ι) :
    pre.getLastD first = first ∨ pre.getLastD first ∈ pre := by
  rcases pre.eq_nil_or_concat with rfl | ⟨k, b, rfl⟩ <;> simp

theorem headD_cases (post : List ι) (stop : ι) :
    post.headD stop ∈ post ∨ post.headD stop = stop := by
  cases post <;> simp

/-- The nodes on either side of a place in a linked list. -/
theorem Linked.adjacent (h : Linked nxt prv (first :: (pre ++ post) ++ [stop])) :
    nxt (pre.getLastD first) = post.headD stop ∧ prv (post.headD stop) = pre.getLastD first := by
  obtain ⟨init, rest, hsides⟩ := exists_sides first pre post stop
  exact (linked_append_cons_cons.mp (hsides [] ▸ h)).2.1

/-- The nodes on either side of a place stay linked if only the two next to it are touched, and the
node `x` that comes or goes. -/
theorem Linked.sides {init rest : List ι} (hleft : Linked nxt prv (init ++ [a]))
    (hright : Linked nxt prv (b :: rest)) (hnodup : (init ++ a :: b :: rest).Nodup)
    (hx : x ∉ init ++ a :: b :: rest) (ha : nxt a ∉ init ++ [a]) (hb : prv b ∉ b :: rest)
    (hnxt : ∀ c, c ≠ a → c ≠ x → nxt' c = nxt c) (hprv : ∀ c, c ≠ b → c ≠ x → prv' c = prv c) :
    Linked nxt' prv' (init ++ [a]) ∧ Linked nxt' prv' (b :: rest) := by
  obtain ⟨-, hr, hlr⟩ := nodup_append.mp hnodup
  simp only [nodup_cons, mem_cons, not_or] at hr
  simp only [mem_append, mem_cons, not_or] at hx
  obtain ⟨⟨hab, harest⟩, hbrest, -⟩ := hr
  obtain ⟨hxinit, hxa, hxb, hxrest⟩ := hx
  refine ⟨hleft.congr_init ha ?_ ?_, .congr_tail hright hb ?_ ?_⟩
  · exact fun c hc => hnxt c (fun he => hlr c hc a (by simp) he) (fun he => hxinit (he ▸ hc))
  · intro c hc
    rcases mem_append.mp hc with hc | hc
    · exact hprv c (fun he => hlr c hc b (by simp) he) (fun he => hxinit (he ▸ hc))
    · obtain rfl := mem_singleton.mp hc
      exact hprv c hab (fun he => hxa he.symm)
  · intro c hc
    rcases mem_cons.mp hc with rfl | hc
    · exact hnxt c (fun he => hab he.symm) (fun he => hxb he.symm)
    · exact hnxt c (fun he => harest (he ▸ hc)) (fun he => hxrest (he ▸ hc))
  · exact fun c hc => hprv c (fun he => hbrest (he ▸ hc)) (fun he => hxrest (he ▸ hc))

/-- **Taking a node out**: its neighbours are linked to each other, and no other node is
touched. -/
theorem Linked.unlink (h : Linked nxt prv (first :: (pre ++ x :: post) ++ [stop]))
    (hnodup : (first :: (pre ++ x :: post) ++ [stop]).Nodup) (hforth : nxt' (prv x) = nxt x)
    (hback : prv' (nxt x) = prv x) (hnxt : ∀ c, c ≠ prv x → c ≠ x → nxt' c = nxt c)
    (hprv : ∀ c, c ≠ nxt x → c ≠ x → prv' c = prv c) :
    Linked nxt' prv' (first :: (pre ++ post) ++ [stop]) := by
  obtain ⟨init, rest, hsides⟩ := exists_sides first pre post stop
  obtain ⟨hxa, hax⟩ := Linked.adjacent h
  have hmid : Linked nxt prv (first :: ((pre ++ [x]) ++ post) ++ [stop]) := by simpa using h
  obtain ⟨hbx, hxb⟩ := hmid.adjacent
  rw [headD_cons] at hxa hax
  rw [getLastD_concat] at hbx hxb
  -- name the two neighbours
  generalize pre.getLastD first = a at hsides hxa hax
  generalize post.headD stop = b at hsides hbx hxb
  rw [show first :: (pre ++ x :: post) ++ [stop] = init ++ a :: x :: b :: rest from hsides [x]]
    at h hnodup
  rw [show first :: (pre ++ post) ++ [stop] = _ from hsides []]
  obtain ⟨hleft, -, hright⟩ := linked_append_cons_cons.mp h
  obtain ⟨-, hright⟩ := isChain_cons_cons.mp hright
  subst hax hbx
  obtain ⟨hx, hnodup⟩ := nodup_cons.mp (perm_middle.nodup_iff.mp (append_cons .. ▸ hnodup))
  rw [append_assoc, singleton_append] at hx hnodup
  simp only [mem_append, mem_cons, not_or] at hx
  obtain ⟨hl, hr⟩ := hleft.sides hright hnodup (by simp [hx]) (by simp [hxa, hx])
    (by simp [hxb, hx]) hnxt hprv
  exact linked_append_cons_cons.mpr ⟨hl, ⟨hforth, hback⟩, hr⟩

/-- **Putting a node in** between two neighbours: it is linked to both, and no other node is
touched. -/
theorem Linked.splice (h : Linked nxt prv (first :: (pre ++ post) ++ [stop]))
    (hnodup : (first :: (pre ++ post) ++ [stop]).Nodup)
    (hx : x ∉ first :: (pre ++ post) ++ [stop]) (ha : pre.getLastD first = a)
    (hb : post.headD stop = b) (hxb : nxt' x = b) (hxa : prv' x = a) (hax : nxt' a = x)
    (hbx : prv' b = x) (hnxt : ∀ c, c ≠ a → c ≠ x → nxt' c = nxt c)
    (hprv : ∀ c, c ≠ b → c ≠ x → prv' c = prv c) :
    Linked nxt' prv' (first :: (pre ++ x :: post) ++ [stop]) := by
  obtain ⟨init, rest, hsides⟩ := exists_sides first pre post stop
  obtain ⟨hab, hba⟩ := h.adjacent
  rw [ha, hb] at hab hba
  simp only [ha, hb] at hsides
  rw [show first :: (pre ++ post) ++ [stop] = _ from hsides []] at h hnodup hx
  rw [show first :: (pre ++ x :: post) ++ [stop] = _ from hsides [x]]
  obtain ⟨hleft, -, hright⟩ := linked_append_cons_cons.mp h
  have hnb := nodup_append.mp (append_cons init a _ ▸ hnodup)
  obtain ⟨hl, hr⟩ := hleft.sides hright hnodup hx
    (by rw [hab]; exact fun hin => hnb.2.2 b hin b mem_cons_self rfl)
    (by rw [hba]; exact fun hin => hnb.2.2 a (by simp) a hin rfl) hnxt hprv
  exact linked_append_cons_cons.mpr ⟨hl, ⟨hax, hxa⟩, isChain_cons_cons.mpr ⟨⟨hxb, hbx⟩, hr⟩⟩

/-! ## Walks -/

section Walk

variable [DecidableEq ι]

/-- The nodes from `a` on, up to the node `stop`. -/
def walk (nxt : ι → ι) (stop : ι) : Nat → ι → List ι
  | 0, _ => []
  | fuel + 1, a => if a = stop then [] else a :: walk nxt stop fuel (nxt a)

/-- **A walk finds the nodes between the sentinels.** -/
theorem Linked.walk_eq (h : Linked nxt prv (first :: l ++ [stop])) (hstop : stop ∉ l) {fuel : Nat}
    (hfuel : l.length < fuel) : walk nxt stop fuel (nxt first) = l := by
  induction l, fuel, hfuel using fuel_induction generalizing first with
  | nil fuel =>
    have hnext : nxt first = stop := (isChain_cons_cons.mp h).1.1
    rw [walk, if_pos hnext]
  | cons b l fuel hfuel ih =>
    obtain ⟨⟨hnext, -⟩, hrest⟩ := isChain_cons_cons.mp h
    have hb : b ≠ stop := fun he => hstop (he ▸ mem_cons_self ..)
    rw [hnext, walk, if_neg hb, ih hrest (fun hm => hstop (mem_cons_of_mem _ hm))]

end Walk

end DoublyLinked
