import Mathlib.Data.List.GetD
import Xinu.Ext2.Blocks

/-!
# The contents of files

Writing to a file and reading it back. The code copies a block at a time; the first copy of a write
starts where the write does, and is as long as the write if the write is shorter than a block, even
where that is behind the end of the block.

## Main results

* `Ext2.run_writeLoop`, `Ext2.run_readLoop`: the two loops
* `ext2_read_after_write`: what is read after a write
* `read_stops_at_end`: what is read from the middle of a file on
-/

namespace Xinu

open List

namespace Ext2

variable {s s' t : Ext2} {n k q j bs start nbytes : Nat}

/-- A byte of a file. -/
def byteAt (s : Ext2) (n p : Nat) : UInt8 :=
  s.mem (s.blockNumToAddr (s.dataBlock n (p / s.getBlockSize)) + p % s.getBlockSize)

/-- The first bytes of a file. -/
def contents (s : Ext2) (n size : Nat) : List UInt8 := (List.range size).map (s.byteAt n)

/-- **Only the blocks of a file have been written.** -/
structure Overwrites (s s' : Ext2) (n k : Nat) : Prop where
  same : Same s s'
  inodes : s'.inodes = s.inodes
  used : s'.blkIsUsed = s.blkIsUsed
  mem : ∀ b, s.Owned b → (∀ i < k, b ≠ s.dataBlock n i) → ∀ o < s.getBlockSize,
    s'.mem (s.blockNumToAddr b + o) = s.mem (s.blockNumToAddr b + o)

namespace Overwrites

theorem rfl' (s : Ext2) (n k : Nat) : Overwrites s s n k :=
  ⟨Same.rfl' s, rfl, rfl, fun _ _ _ _ _ => rfl⟩

section

variable (h : Overwrites s s' n k)
include h

theorem stays : Stays s s' := ⟨h.same.toShape, by simp [h.used]⟩

theorem dataBlock (hf : s.File n k) {i : Nat} (hi : i < k) :
    s'.dataBlock n i = s.dataBlock n i := by
  have hle := hf.le
  obtain ⟨h12, h13⟩ := blocks_eq
  unfold Ext2.dataBlock
  rw [h.inodes, h.same.addr]
  by_cases hdir : i < EXT2_NDIR_BLOCKS
  · rw [if_pos hdir, if_pos hdir]
  · -- the indirect block is not one of those that are written
    obtain ⟨hind, hne⟩ := hf.indirect (by omega)
    have h4 := s.four_le_getBlockSize
    unfold wordAt
    rw [octetsAt_congr]
    intro o ho
    rw [Nat.add_assoc]
    exact h.mem _ hind (fun i hi => (hne i hi).symm) _ (by omega)

theorem file (hf : s.File n k) : s'.File n k := by
  constructor
  · unfold Valid
    rw [h.same.count]
    exact hf.valid
  · exact hf.le
  · intro i hi
    rw [h.dataBlock hf hi]
    exact h.stays.owned (hf.owned i hi)
  · intro i hi j hj
    rw [h.dataBlock hf hi, h.dataBlock hf hj]
    exact hf.inj i hi j hj
  · intro hk
    rw [h.inodes]
    obtain ⟨hind, hne⟩ := hf.indirect hk
    refine ⟨h.stays.owned hind, ?_⟩
    intro i hi
    rw [h.dataBlock hf hi]
    exact hne i hi

theorem trans (hf : s.File n k) (h' : Overwrites s' t n k) :
    Overwrites s t n k where
  same := h.same.trans h'.same
  inodes := h'.inodes.trans h.inodes
  used := h'.used.trans h.used
  mem b hb hne o ho := by
    have h1 := h'.mem b (h.stays.owned hb) (fun i hi => by rw [h.dataBlock hf hi]; exact hne i hi) o
      (by rw [h.same.size]; exact ho)
    rw [h.same.addr] at h1
    exact h1.trans (h.mem b hb hne o ho)

end

end Overwrites

/-! ## Writing -/

theorem div_of_lt {o : Nat} (h : o < bs) : (q * bs + o) / bs = q := by
  rw [Nat.add_comm, Nat.add_mul_div_right _ _ (by omega), Nat.div_eq_of_lt h, Nat.zero_add]

theorem mod_of_lt {o : Nat} (h : o < bs) : (q * bs + o) % bs = o := by
  rw [Nat.add_comm, Nat.add_mul_mod_self_right, Nat.mod_eq_of_lt h]

theorem div_lt_of_lt {p : Nat} (h : p < k * bs) : p / bs < k :=
  Nat.div_lt_of_lt_mul (by rwa [Nat.mul_comm])

theorem getD_take (l : List UInt8) {i m : Nat} (h : i < m) : (l.take m).getD i 0 = l.getD i 0 := by
  rw [getD_eq_getElem?_getD, getD_eq_getElem?_getD, getElem?_take_of_lt h]

theorem getD_drop (l : List UInt8) (i m : Nat) : (l.drop m).getD i 0 = l.getD (m + i) 0 := by
  rw [getD_eq_getElem?_getD, getD_eq_getElem?_getD, getElem?_drop]

/-- The first `m` bytes of the file are the old ones, with `l` in their place from `a` on. -/
def Patched (s s' : Ext2) (n m a : Nat) (l : List UInt8) : Prop :=
  ∀ p < m, s'.byteAt n p = if a ≤ p ∧ p < a + l.length then l.getD (p - a) 0 else s.byteAt n p

theorem Patched.append {m a : Nat} {l r : List UInt8} (h : Patched s t n m a l)
    (h' : Patched t s' n m (a + l.length) r) : Patched s s' n m a (l ++ r) := by
  intro p hp
  rw [h' p hp, h p hp, length_append]
  by_cases hr : a + l.length ≤ p ∧ p < a + l.length + r.length
  · rw [if_pos hr, if_pos ⟨by omega, by omega⟩, getD_append_right _ _ _ _ (by omega), Nat.sub_sub]
  · rw [if_neg hr]
    by_cases hl : a ≤ p ∧ p < a + l.length
    · rw [if_pos hl, if_pos ⟨by omega, by omega⟩, getD_append _ _ _ _ (by omega)]
    · rw [if_neg hl, if_neg (by omega)]

theorem File.write (hl : s.Laid) (hf : s.File n k) (off : Nat) (l : List UInt8)
    (hq : q < k) (hin : off + l.length ≤ s.getBlockSize) :
    Overwrites s (s.written (s.blockNumToAddr (s.dataBlock n q) + off) l) n k ∧
      Patched s (s.written (s.blockNumToAddr (s.dataBlock n q) + off) l) n (k * s.getBlockSize)
        (q * s.getBlockSize + off) l := by
  have hown := hf.owned q hq
  -- an address in another place of a block is not written
  have hother : ∀ b o, b < s.s_blocks_count → o < s.getBlockSize →
      (b = s.dataBlock n q → o < off ∨ off + l.length ≤ o) →
      (s.written (s.blockNumToAddr (s.dataBlock n q) + off) l).mem (s.blockNumToAddr b + o) =
        s.mem (s.blockNumToAddr b + o) := by
    intro b o hb ho hout
    refine if_neg ?_
    rintro ⟨hle, hlt⟩
    have heq : s.blockNumToAddr b + o = s.blockNumToAddr (s.dataBlock n q) +
        (s.blockNumToAddr b + o - s.blockNumToAddr (s.dataBlock n q)) := by omega
    obtain ⟨hbq, hoq⟩ := hl.apart hb hown.lt ho (by omega) heq
    omega
  have hover : Overwrites s (s.written (s.blockNumToAddr (s.dataBlock n q) + off) l) n k := by
    refine ⟨⟨⟨rfl, rfl, rfl, rfl, rfl⟩, rfl⟩, rfl, rfl, ?_⟩
    intro b hb hne o ho
    exact hother b o hb.lt ho fun heq => absurd heq (hne q hq)
  refine ⟨hover, ?_⟩
  intro p hp
  have hpk := div_lt_of_lt hp
  have hpo := Nat.mod_lt p s.getBlockSize_pos
  have hpp : p / s.getBlockSize * s.getBlockSize + p % s.getBlockSize = p :=
    Nat.div_add_mod' p s.getBlockSize
  unfold byteAt
  rw [hover.same.size, hover.same.addr, hover.dataBlock hf hpk]
  by_cases hpq : p / s.getBlockSize = q
  · rw [hpq] at hpp ⊢
    by_cases hrange : off ≤ p % s.getBlockSize ∧ p % s.getBlockSize < off + l.length
    · rw [if_pos ⟨by omega, by omega⟩]
      refine (if_pos ⟨by omega, by omega⟩).trans ?_
      congr 1
      omega
    · rw [if_neg (by omega)]
      exact hother _ _ hown.lt hpo fun _ => by omega
  · have hne : s.dataBlock n (p / s.getBlockSize) ≠ s.dataBlock n q :=
      fun heq => hpq (hf.inj _ hpk _ hq heq)
    rw [hother _ _ (hf.owned _ hpk).lt hpo fun heq => absurd heq hne, if_neg]
    rintro ⟨hle, hlt⟩
    -- both are in the same block
    apply hpq
    obtain ⟨o, rfl⟩ : ∃ o, p = q * s.getBlockSize + o := ⟨p - q * s.getBlockSize, by omega⟩
    exact div_of_lt (by omega)

/-- The block of a file behind one of its blocks is the next one in memory. -/
def Follows (s : Ext2) (n q : Nat) : Prop :=
  s.blockNumToAddr (s.dataBlock n (q + 1)) = s.blockNumToAddr (s.dataBlock n q) + s.getBlockSize
deriving Decidable

/-- Octets from a place of a block on are in the block, or in it and in the next one of the file. -/
def Reaches (s : Ext2) (n k q off m : Nat) : Prop :=
  off + m ≤ s.getBlockSize ∨ q + 1 < k ∧ off + m ≤ 2 * s.getBlockSize ∧ s.Follows n q

theorem File.inData {off m : Nat} (hf : s.File n k) (hq : q < k) (h : s.Reaches n k q off m) :
    s.inData (s.blockNumToAddr (s.dataBlock n q) + off) m = true := by
  rcases h with hin | ⟨hq', hin, hfollows⟩
  · exact (hf.owned q hq).inData hin
  · rw [inData_iff]
    intro i hi
    by_cases hlt : off + i < s.getBlockSize
    · rw [Nat.add_assoc]
      exact (hf.owned q hq).data _ hlt
    · rw [show s.blockNumToAddr (s.dataBlock n q) + off + i =
        s.blockNumToAddr (s.dataBlock n (q + 1)) + (off + i - s.getBlockSize) by
          rw [hfollows]; omega]
      exact (hf.owned _ hq').data _ (by omega)

theorem written_append (s : Ext2) (a : Nat) (l r : List UInt8) :
    s.written a (l ++ r) = (s.written a l).written (a + l.length) r := by
  unfold written
  congr 1
  funext x
  dsimp only
  rw [length_append]
  split_ifs with h h₁ h₂ <;> try omega
  · rw [getD_append_right _ _ _ _ (by omega)]
    congr 1
    omega
  · rw [getD_append _ _ _ _ (by omega)]
  · rfl

/-- **A copy that stays in the file.** -/
theorem File.copy (hl : s.Laid) (hf : s.File n k) (off : Nat) (l : List UInt8) (hq : q < k)
    (hoff : off ≤ s.getBlockSize) (h : s.Reaches n k q off l.length) :
    Overwrites s (s.written (s.blockNumToAddr (s.dataBlock n q) + off) l) n k ∧
      Patched s (s.written (s.blockNumToAddr (s.dataBlock n q) + off) l) n (k * s.getBlockSize)
        (q * s.getBlockSize + off) l := by
  by_cases hin : off + l.length ≤ s.getBlockSize
  · exact hf.write hl off l hq hin
  obtain ⟨hq', hin, hfollows⟩ := h.resolve_left hin
  -- the octets up to the end of the block, and those behind it
  obtain ⟨c, hc⟩ : ∃ c, s.getBlockSize - off = c := ⟨_, rfl⟩
  have hlen : (l.take c).length = c := length_take_of_le (by omega)
  obtain ⟨hover, hbyte⟩ := hf.write hl off (l.take c) hq (by omega)
  have hsplit := written_append s (s.blockNumToAddr (s.dataBlock n q) + off) (l.take c) (l.drop c)
  have haddr : s.blockNumToAddr (s.dataBlock n q) + off + (l.take c).length =
      s.blockNumToAddr (s.dataBlock n (q + 1)) + 0 := by
    rw [hfollows]
    omega
  rw [take_append_drop, haddr] at hsplit
  obtain ⟨hover', hbyte'⟩ := (hover.file hf).write (hover.stays.laid hl) 0 (l.drop c) hq'
    (by rw [hover.same.size, length_drop]; omega)
  rw [hover.same.addr, hover.dataBlock hf hq', ← hsplit] at hover' hbyte'
  have hnext : q * s.getBlockSize + off + (l.take c).length = (q + 1) * s.getBlockSize + 0 := by
    rw [Nat.succ_mul]
    omega
  rw [hover.same.size, ← hnext] at hbyte'
  have happend := hbyte.append hbyte'
  rw [take_append_drop] at happend
  exact ⟨hover.trans hf hover', happend⟩

/-- The code finds the place of a copy, and of the next one. -/
theorem File.run_writePlace (hf : s.File n k) {off : Nat} (hq : q < k) :
    (writePlace (s.inodes n) (min q EXT2_NDIR_BLOCKS) (q - EXT2_NDIR_BLOCKS) off).run s =
      some ((min (q + 1) EXT2_NDIR_BLOCKS - 1, q + 1 - EXT2_NDIR_BLOCKS,
        s.blockNumToAddr (s.dataBlock n q) + off), s) := by
  have hle := hf.le
  obtain ⟨h12, h13⟩ := blocks_eq
  unfold writePlace dataBlock
  rw [run_get_bind]
  by_cases hdir : q < EXT2_NDIR_BLOCKS
  · rw [if_neg (by omega), if_pos hdir, run_return]
    have h1 : min q EXT2_NDIR_BLOCKS = q := by omega
    have h2 : min (q + 1) EXT2_NDIR_BLOCKS - 1 = q := by omega
    have h3 : q + 1 - EXT2_NDIR_BLOCKS = q - EXT2_NDIR_BLOCKS := by omega
    rw [h1, h2, h3]
  · obtain rfl : q = EXT2_NDIR_BLOCKS := by omega
    obtain ⟨hind, -⟩ := hf.indirect (by omega)
    have h4 := s.four_le_getBlockSize
    rw [if_pos (Nat.min_self _), if_neg hdir, Nat.min_self, Nat.sub_self,
      run_bind_of (run_load32 (hind.inData (by omega))), run_return, if_pos (by omega)]
    congr 3

/-- The copy that is shorter than a block. -/
theorem reaches_of_first {off rem : Nat}
    (hin : q * s.getBlockSize + off + rem ≤ k * s.getBlockSize) (hoff : off < s.getBlockSize)
    (hlast : rem < s.getBlockSize) (hfirst : off + rem ≤ s.getBlockSize ∨ s.Follows n q) :
    s.Reaches n k q off rem := by
  by_cases hfits : off + rem ≤ s.getBlockSize
  · exact .inl hfits
  · refine .inr ⟨?_, by omega, hfirst.resolve_left hfits⟩
    have hsucc : (q + 1) * s.getBlockSize = q * s.getBlockSize + s.getBlockSize := Nat.succ_mul _ _
    exact Nat.lt_of_mul_lt_mul_right (a := s.getBlockSize) (by omega)

/-- **The loop of a write**: from a block `q` and a place in it, if the first copy stays in the
file. -/
theorem run_writeLoop (fuel q off rem : Nat) (buf : List UInt8) (hl : s.Laid) (hf : s.File n k)
    (hfuel : EXT2_N_BLOCKS < fuel + q) (hq : q ≤ EXT2_N_BLOCKS)
    (hin : q * s.getBlockSize + off + rem ≤ k * s.getBlockSize) (hoff : off < s.getBlockSize)
    (hfirst : rem < s.getBlockSize → off + rem ≤ s.getBlockSize ∨ s.Follows n q)
    (hbuf : rem ≤ buf.length) :
    ∃ s', (writeLoop n fuel (min q EXT2_NDIR_BLOCKS) (q - EXT2_NDIR_BLOCKS) off buf rem).run s =
        some (0, s') ∧ Overwrites s s' n k ∧
      Patched s s' n (k * s.getBlockSize) (q * s.getBlockSize + off) (buf.take rem) := by
  obtain ⟨h12, h13⟩ := blocks_eq
  -- by induction on the rounds; a later round starts at the start of its block
  induction fuel generalizing s q off rem buf with
  | zero => omega
  | succ fuel ih =>
    rw [writeLoop]
    by_cases hrem : rem = 0
    · rw [if_pos hrem]
      refine ⟨s, rfl, Overwrites.rfl' s n k, ?_⟩
      intro p _
      rw [hrem, take_zero, length_nil, if_neg (by omega)]
    have hqk : q < k := Nat.lt_of_mul_lt_mul_right (a := s.getBlockSize) (by omega)
    have hle := hf.le
    rw [if_neg hrem, if_pos (by omega), run_get_bind, run_bind_of (run_inode hf.valid),
      run_bind_of (hf.run_writePlace hqk)]
    dsimp only
    by_cases hlast : rem < s.getBlockSize
    · rw [if_pos hlast]
      have hlen : (buf.take rem).length = rem := length_take_of_le hbuf
      have hfits : s.Reaches n k q off (buf.take rem).length := by
        rw [hlen]
        exact reaches_of_first hin hoff hlast (hfirst hlast)
      obtain ⟨hover, hbyte⟩ := hf.copy hl off _ hqk hoff.le hfits
      have hput := run_put (hf.inData hqk hfits)
      exact ⟨_, run_bind_of hput, hover, hbyte⟩
    · rw [if_neg hlast]
      obtain ⟨c, hc⟩ : ∃ c, s.getBlockSize - off = c := ⟨_, rfl⟩
      have hlen : (buf.take c).length = c := length_take_of_le (by omega)
      have hfits : off + (buf.take c).length ≤ s.getBlockSize := by omega
      obtain ⟨hover, hbyte⟩ := hf.write hl off _ hqk hfits
      have hput := run_put ((hf.owned q hqk).inData hfits)
      rw [hc, run_bind_of hput]
      have hbs := hover.same.size
      have hsucc : (q + 1) * s.getBlockSize = q * s.getBlockSize + s.getBlockSize :=
        Nat.succ_mul _ _
      have hindex : min (q + 1) EXT2_NDIR_BLOCKS - 1 + 1 = min (q + 1) EXT2_NDIR_BLOCKS := by omega
      obtain ⟨s₂, hrun, hover', hbyte'⟩ := ih (q + 1) 0 (rem - c)
        (buf.drop c) (hover.stays.laid hl) (hover.file hf) (by omega) (by omega)
        (by rw [hbs]; omega) (by omega) (fun _ => .inl (by omega)) (by rw [length_drop]; omega)
      have hnext : q * s.getBlockSize + off + (buf.take c).length =
          (q + 1) * s.getBlockSize + 0 := by omega
      have htake : buf.take rem = buf.take c ++ (buf.drop c).take (rem - c) := by
        rw [← take_add, Nat.add_sub_cancel' (by omega)]
      rw [hbs, ← hnext] at hbyte'
      rw [hindex, htake]
      exact ⟨s₂, hrun, hover.trans hf hover', hbyte.append hbyte'⟩

/-! ## Reading -/

/-- Octets of a file as they stand in memory. -/
theorem octetsAt_dataBlock {off m : Nat} (hm : s.Reaches n k q off m) :
    s.octetsAt (s.blockNumToAddr (s.dataBlock n q) + off) m =
      (range m).map fun i => s.byteAt n (q * s.getBlockSize + off + i) := by
  refine map_congr_left ?_
  intro i hi
  rw [mem_range] at hi
  unfold byteAt
  by_cases hlt : off + i < s.getBlockSize
  · rw [Nat.add_assoc, Nat.add_assoc, div_of_lt hlt, mod_of_lt hlt]
  · obtain ⟨-, hle, hfollows⟩ := hm.resolve_left (by omega)
    obtain ⟨o, ho⟩ : ∃ o, off + i - s.getBlockSize = o := ⟨_, rfl⟩
    have hp : q * s.getBlockSize + off + i = (q + 1) * s.getBlockSize + o := by
      rw [Nat.succ_mul]
      omega
    rw [hp, div_of_lt (by omega), mod_of_lt (by omega), hfollows]
    congr 1
    omega

/-- How many octets a read copies that may go over so many blocks: the copy that is shorter than a
block is the last one. -/
def copied (bs K off rem : Nat) : Nat :=
  if K = 0 then 0 else if rem < bs then rem else min rem (K * bs - off)

theorem copied_succ {K off rem : Nat} (hoff : off < bs) (h : bs ≤ rem) :
    copied bs (K + 1) off rem = bs - off + copied bs K 0 (rem - (bs - off)) := by
  unfold copied
  have hsucc : (K + 1) * bs = K * bs + bs := Nat.succ_mul _ _
  rw [if_neg (Nat.succ_ne_zero K), if_neg (by omega)]
  by_cases hK : K = 0
  · subst hK
    rw [if_pos rfl]
    omega
  · have hle : bs ≤ K * bs := Nat.le_mul_of_pos_left bs (by omega)
    rw [if_neg hK]
    split <;> omega

theorem copied_pos {K off rem : Nat} (hoff : off < bs) (h : rem ≠ 0) :
    copied bs (K + 1) off rem ≠ 0 := by
  have hsucc : (K + 1) * bs = K * bs + bs := Nat.succ_mul _ _
  unfold copied
  rw [if_neg (Nat.succ_ne_zero K)]
  split <;> omega

theorem copied_eq_of_lt {K off rem : Nat} (hne : copied bs K off rem ≠ 0) (h : rem < bs) :
    copied bs K off rem = rem := by
  unfold copied at hne ⊢
  split_ifs at hne ⊢
  · exact absurd rfl hne
  · rfl

/-- **The loop of a read**, if no copy leaves the file. -/
theorem run_readLoop (hf : s.File n k) (K q off rem : Nat) (acc : List UInt8)
    (hK : EXT2_N_BLOCKS - q = K) (hoff : off < s.getBlockSize)
    (hin : copied s.getBlockSize K off rem ≠ 0 →
      q * s.getBlockSize + off + copied s.getBlockSize K off rem ≤ k * s.getBlockSize)
    (hfirst : copied s.getBlockSize K off rem ≠ 0 → rem < s.getBlockSize →
      off + rem ≤ s.getBlockSize ∨ s.Follows n q) :
    ∃ r, (readLoop (s.inodes n) K q off rem acc).run s =
      some ((acc ++ (range (copied s.getBlockSize K off rem)).map fun i =>
        s.byteAt n (q * s.getBlockSize + off + i), r), s) := by
  have hle := hf.le
  induction K generalizing q off rem acc with
  | zero =>
    refine ⟨rem, ?_⟩
    rw [readLoop, copied, if_pos rfl, range_zero, map_nil, append_nil]
    rfl
  | succ K ih =>
    rw [readLoop]
    by_cases hrem : rem = 0
    · refine ⟨0, ?_⟩
      rw [if_pos hrem, hrem, copied, if_neg (Nat.succ_ne_zero K), if_pos s.getBlockSize_pos,
        range_zero, map_nil, append_nil]
      rfl
    have hpos := copied_pos (K := K) hoff hrem
    have hin := hin hpos
    have hqk : q < k := Nat.lt_of_mul_lt_mul_right (a := s.getBlockSize) (by omega)
    rw [if_neg hrem, run_get_bind]
    rw [run_bind_of (hf.run_blockAt hqk)]
    by_cases hlast : rem < s.getBlockSize
    · rw [copied_eq_of_lt hpos hlast] at hin ⊢
      have hreach := reaches_of_first hin hoff hlast (hfirst hpos hlast)
      refine ⟨0, ?_⟩
      rw [if_pos hlast, run_bind_of (run_load (hf.inData hqk hreach)),
        octetsAt_dataBlock hreach]
      rfl
    · have hsucc : (q + 1) * s.getBlockSize = q * s.getBlockSize + s.getBlockSize :=
        Nat.succ_mul _ _
      have hreach : s.Reaches n k q off (s.getBlockSize - off) := .inl (by omega)
      rw [copied_succ hoff (by omega)] at hin ⊢
      obtain ⟨r, hr⟩ := ih (q + 1) 0 (rem - (s.getBlockSize - off))
        (acc ++ (range (s.getBlockSize - off)).map fun i =>
          s.byteAt n (q * s.getBlockSize + off + i)) (by omega) (by omega) (by omega)
          (fun _ _ => .inl (by omega))
      refine ⟨r, ?_⟩
      rw [if_neg hlast, run_bind_of (run_load (hf.inData hqk hreach)),
        octetsAt_dataBlock hreach, hr]
      -- the bytes of this block and of those behind it
      rw [range_add, map_append, map_map, append_assoc]
      congr 5
      refine map_congr_left ?_
      intro i _
      dsimp only [Function.comp_apply]
      congr 1
      omega

@[simp] theorem length_octetsAt (s : Ext2) (a m : Nat) : (s.octetsAt a m).length = m := by
  simp [octetsAt]

theorem getD_octetsAt {i m : Nat} (s : Ext2) (a : Nat) (h : i < m) :
    (s.octetsAt a m).getD i 0 = s.mem (a + i) := by
  simp [octetsAt, h]

/-- The number of a block is read from the inode or from the indirect block, and nothing changes. -/
theorem state_of_run_blockAt {e : Inode} {i b : Nat} (h : (blockAt e i).run s = some (b, t)) :
    t = s := by
  unfold blockAt at h
  rw [run_get_bind] at h
  split_ifs at h
  · exact (Prod.mk.inj (Option.some.inj h)).2.symm
  · obtain ⟨l, t', hload, hret⟩ := exists_of_run_bind h
    obtain ⟨-, rfl⟩ := eq_of_run_load hload
    exact (Prod.mk.inj (Option.some.inj hret)).2.symm

/-- Whatever the loop reads, it is so much. -/
theorem length_readLoop (e : Inode) (K q off rem : Nat) (acc : List UInt8)
    (hoff : off < s.getBlockSize) {l : List UInt8} {r : Nat}
    (h : (readLoop e K q off rem acc).run s = some ((l, r), s')) :
    l.length = acc.length + copied s.getBlockSize K off rem := by
  induction K generalizing q off rem acc with
  | zero =>
    obtain ⟨⟨rfl, -⟩, -⟩ : (acc = l ∧ rem = r) ∧ s = s' := by simpa [readLoop] using h
    rw [copied, if_pos rfl, Nat.add_zero]
  | succ K ih =>
    rw [readLoop] at h
    by_cases hrem : rem = 0
    · rw [if_pos hrem] at h
      obtain ⟨⟨rfl, -⟩, -⟩ : (acc = l ∧ 0 = r) ∧ s = s' := by simpa using h
      rw [copied, if_neg (Nat.succ_ne_zero K), hrem, if_pos s.getBlockSize_pos, Nat.add_zero]
    rw [if_neg hrem, run_get_bind] at h
    obtain ⟨b, t, hb, h⟩ := exists_of_run_bind h
    obtain rfl := state_of_run_blockAt hb
    by_cases hlast : rem < t.getBlockSize
    · rw [if_pos hlast] at h
      obtain ⟨m, t', hload, h⟩ := exists_of_run_bind h
      obtain ⟨rfl, rfl⟩ := eq_of_run_load hload
      obtain ⟨⟨rfl, -⟩, -⟩ : (acc ++ t'.octetsAt _ rem = l ∧ 0 = r) ∧ t' = s' := by simpa using h
      rw [copied, if_neg (Nat.succ_ne_zero K), if_pos hlast, length_append, length_octetsAt]
    · rw [if_neg hlast] at h
      obtain ⟨m, t', hload, h⟩ := exists_of_run_bind h
      obtain ⟨rfl, rfl⟩ := eq_of_run_load hload
      rw [ih _ _ _ _ t'.getBlockSize_pos h, length_append, length_octetsAt,
        copied_succ hoff (by omega), Nat.add_assoc]

/-! ## A file and its entry -/

/-- **A directory entry of a file**: it stands in a block in use that is not one of the file's. -/
def Named (s : Ext2) (n k file : Nat) : Prop :=
  s.wordAt file = n ∧ ∃ b o, s.Owned b ∧ o + 4 ≤ s.getBlockSize ∧ file = s.blockNumToAddr b + o ∧
    ∀ i < k, b ≠ s.dataBlock n i

theorem Named.run_load32 {file : Nat} (h : s.Named n k file) :
    (load32 file).run s = some (n, s) := by
  obtain ⟨hword, b, o, hb, ho, rfl, -⟩ := h
  rw [Ext2.run_load32 (hb.inData ho), hword]

theorem Named.grows {file : Nat} (h : s.Named n j file) (hf : s.File n j)
    (hg : Grows s s' n j k) : s'.Named n k file := by
  obtain ⟨hword, b, o, hb, ho, rfl, hne⟩ := h
  refine ⟨?_, b, o, hg.stays.owned hb, by rw [hg.same.size]; exact ho, by rw [hg.same.addr], ?_⟩
  · rw [← hword]
    unfold wordAt
    rw [octetsAt_congr]
    intro i hi
    rw [Nat.add_assoc]
    exact hg.mem b hb _ (by omega)
  · intro i hi
    by_cases hij : i < j
    · rw [hg.dataBlock hf hij]
      exact hne i hij
    · -- a block that the file has taken was free
      rintro rfl
      have hfree := hg.new i (by omega) hi
      rw [hb.used] at hfree
      simp at hfree

theorem Named.overwrites {file : Nat} (h : s.Named n k file) (hf : s.File n k)
    (ho : Overwrites s s' n k) : s'.Named n k file := by
  obtain ⟨hword, b, o, hb, hlt, rfl, hne⟩ := h
  refine ⟨?_, b, o, ho.stays.owned hb, by rw [ho.same.size]; exact hlt, by rw [ho.same.addr], ?_⟩
  · rw [← hword]
    unfold wordAt
    rw [octetsAt_congr]
    intro i hi
    rw [Nat.add_assoc]
    exact ho.mem b hb hne _ (by omega)
  · intro i hi
    rw [ho.dataBlock hf hi]
    exact hne i hi

theorem getD_contents {p size : Nat} (s : Ext2) (n : Nat) (h : p < size) :
    (s.contents n size).getD p 0 = s.byteAt n p := by
  simp [contents, h]

/-- How many bytes the code sets out to read. -/
def clamped (size start nbytes : Nat) : Nat :=
  if add32 size start < nbytes then if start > size then 0 else size - start else nbytes

/-- **When the code copies as many bytes as the file has**: if its test for the end of the file is
right, and also from behind the last block it looks at, or where the file ends with that block. -/
theorem copied_clamped_iff {size : Nat} (hpos : 0 < bs) (hsize : size ≤ EXT2_N_BLOCKS * bs) :
    copied bs (EXT2_N_BLOCKS - start / bs) (start % bs) (clamped size start nbytes) =
        min nbytes (size - start) ↔
      EXT2_N_BLOCKS * bs ≤ start ∨
        (add32 size start < nbytes → size - start ≤ nbytes) ∧
          (nbytes ≤ add32 size start → nbytes ≤ size - start) ∨
        size = EXT2_N_BLOCKS * bs ∧ size - start ≤ nbytes ∧ bs ≤ nbytes := by
  have hdiv := Nat.div_add_mod' start bs
  have hmod := Nat.mod_lt start hpos
  unfold copied
  by_cases hlast : EXT2_N_BLOCKS ≤ start / bs
  · have := Nat.mul_le_mul_right bs hlast
    rw [if_pos (by omega)]
    exact ⟨fun _ => .inl (by omega), fun _ => by omega⟩
  · have hrest : (EXT2_N_BLOCKS - start / bs) * bs - start % bs = EXT2_N_BLOCKS * bs - start := by
      rw [Nat.sub_mul]
      omega
    have hlt : start < EXT2_N_BLOCKS * bs := by
      have := Nat.mul_le_mul_right bs (show start / bs + 1 ≤ EXT2_N_BLOCKS by omega)
      rw [Nat.succ_mul] at this
      omega
    rw [if_neg (by omega), hrest]
    unfold clamped
    generalize EXT2_N_BLOCKS * bs = m at *
    generalize add32 size start = sum at *
    clear hrest hdiv hmod hlast
    constructor
    · intro h
      split_ifs at h <;> omega
    · intro h
      split_ifs <;> omega

section

variable {file : Nat} (hf : s.File n k) (hd : s.Named n k file)
include hf hd

theorem run_readDirent_eq : (readDirent file start nbytes).run s =
    (readLoop (s.inodes n) (EXT2_N_BLOCKS - start / s.getBlockSize) (start / s.getBlockSize)
      (start % s.getBlockSize) (clamped (s.inodes n).i_size start nbytes) [] >>=
        fun r => pure r.1).run s := by
  unfold readDirent
  rw [run_bind_of hd.run_load32, run_bind_of (run_inode hf.valid), run_get_bind]
  rfl

theorem length_run_readDirent {l : List UInt8}
    (h : (readDirent file start nbytes).run s = some (l, s')) :
    l.length = copied s.getBlockSize (EXT2_N_BLOCKS - start / s.getBlockSize)
      (start % s.getBlockSize) (clamped (s.inodes n).i_size start nbytes) := by
  rw [run_readDirent_eq hf hd] at h
  obtain ⟨⟨l', r⟩, t, hloop, hret⟩ := exists_of_run_bind h
  obtain ⟨rfl, -⟩ := Prod.mk.inj (Option.some.inj hret)
  rw [length_readLoop _ _ _ _ _ _ (Nat.mod_lt _ s.getBlockSize_pos) hloop, length_nil,
    Nat.zero_add]

/-- **A file is read up to its end**, if the code copies as many bytes as it has, and none of them
from another place. -/
theorem run_readDirent_from (hin : (s.inodes n).i_size ≤ k * s.getBlockSize)
    (hcopied : copied s.getBlockSize (EXT2_N_BLOCKS - start / s.getBlockSize)
      (start % s.getBlockSize) (clamped (s.inodes n).i_size start nbytes) =
        min nbytes ((s.inodes n).i_size - start))
    (hfirst : min nbytes ((s.inodes n).i_size - start) < s.getBlockSize →
      s.getBlockSize < start % s.getBlockSize + min nbytes ((s.inodes n).i_size - start) →
        s.Follows n (start / s.getBlockSize)) :
    (readDirent file start nbytes).run s =
      some (((s.contents n (s.inodes n).i_size).drop start).take nbytes, s) := by
  have hdiv := Nat.div_add_mod' start s.getBlockSize
  obtain ⟨r, hloop⟩ := run_readLoop hf (EXT2_N_BLOCKS - start / s.getBlockSize)
    (start / s.getBlockSize) (start % s.getBlockSize) (clamped (s.inodes n).i_size start nbytes) []
    rfl (Nat.mod_lt _ s.getBlockSize_pos) (by omega) (by
      intro hne hshort
      have heq := (copied_eq_of_lt hne hshort).symm.trans hcopied
      rw [heq] at hshort ⊢
      by_cases hcross : s.getBlockSize <
          start % s.getBlockSize + min nbytes ((s.inodes n).i_size - start)
      · exact .inr (hfirst hshort hcross)
      · exact .inl (Nat.le_of_not_lt hcross))
  rw [run_readDirent_eq hf hd, run_bind_of hloop, run_return, hdiv, nil_append, hcopied]
  refine congrArg (fun l => some (l, s)) (ext_getElem ?_ ?_)
  · simp [contents]
  · intro i _ _
    simp [contents]

/-- A file is read from its start to its end. -/
theorem run_readDirent (hin : (s.inodes n).i_size ≤ k * s.getBlockSize)
    (hlt : (s.inodes n).i_size < 2 ^ 32) :
    (readDirent file 0 (s.inodes n).i_size).run s =
      some (s.contents n (s.inodes n).i_size, s) := by
  have hmax := hin.trans (Nat.mul_le_mul_right _ hf.le)
  have hzero : 0 % s.getBlockSize = 0 := Nat.zero_mod _
  rw [run_readDirent_from hf hd hin
    ((copied_clamped_iff s.getBlockSize_pos hmax).mpr (.inr (.inl (by rw [add32_eq]; omega))))
    (by omega), drop_zero, take_of_length_le (by simp [contents])]

/-- A read that is shorter than a block is one copy, wherever it ends. -/
theorem run_readDirent_short {l : List UInt8} (hq : start / s.getBlockSize < k)
    (hrem : clamped (s.inodes n).i_size start nbytes ≠ 0)
    (hlast : clamped (s.inodes n).i_size start nbytes < s.getBlockSize)
    (h : (readDirent file start nbytes).run s = some (l, s')) :
    l = s.octetsAt (s.blockNumToAddr (s.dataBlock n (start / s.getBlockSize)) +
      start % s.getBlockSize) (clamped (s.inodes n).i_size start nbytes) := by
  have hle := hf.le
  obtain ⟨K, hK⟩ : ∃ K, EXT2_N_BLOCKS - start / s.getBlockSize = K + 1 :=
    Nat.exists_eq_succ_of_ne_zero (by omega)
  rw [run_readDirent_eq hf hd, hK, readLoop, if_neg hrem] at h
  simp only [bind_assoc] at h
  rw [run_get_bind, run_bind_of (hf.run_blockAt hq)] at h
  rw [if_pos hlast, bind_assoc] at h
  obtain ⟨m, t, hload, hret⟩ := exists_of_run_bind h
  obtain ⟨rfl, -⟩ := eq_of_run_load hload
  exact (Prod.mk.inj (Option.some.inj hret)).1.symm

end

/-- The bytes of a file that has grown. -/
theorem Grows.byteAt {p : Nat} (hg : Grows s s' n j k) (hf : s.File n j)
    (hp : p < j * s.getBlockSize) : s'.byteAt n p = s.byteAt n p := by
  have hlt := div_lt_of_lt hp
  unfold Ext2.byteAt
  rw [hg.same.size, hg.dataBlock hf hlt, hg.same.addr]
  exact hg.mem _ (hf.owned _ hlt) _ (Nat.mod_lt _ s.getBlockSize_pos)

/-- A block that was marked used before is as it was. -/
theorem Grows.owned_before {b : Nat} (hg : Grows s s' n j k) (hb : s'.Owned b)
    (hused : s.blkIsUsed b = true) : s.Owned b := by
  refine ⟨by rw [← hg.same.blocks]; exact hb.lt, hused, ?_⟩
  intro o ho
  have hdata := hb.data o (by rw [hg.same.size]; exact ho)
  rwa [hg.same.data, hg.same.addr] at hdata

/-- A file that takes its indirect block, and one data block at most, had all of its direct ones. -/
theorem Grows.full_of_indirect (hg : Grows s t n j k) (hf : s.File n j) (hft : t.File n k)
    (hle : k ≤ j + 1) (h12k : EXT2_NDIR_BLOCKS < k)
    (hfree : s.blkIsUsed ((t.inodes n).i_block EXT2_NDIR_BLOCKS) = false) :
    j = EXT2_NDIR_BLOCKS ∧ k = EXT2_N_BLOCKS := by
  obtain ⟨h12, h13⟩ := blocks_eq
  have hjle := hf.le
  have hkle := hft.le
  refine ⟨le_antisymm ?_ (by omega), by omega⟩
  by_contra hgt
  have hown := (hf.indirect (by omega)).1.used
  rw [← hg.own _ (by omega), hfree] at hown
  cases hown

/-- A write to a file that has been made large enough. -/
theorem run_writeFile {file c : Nat} {buffer : List UInt8} (hf : s.File n j)
    (hd : s.Named n j file) (hstart : start ≤ (s.inodes n).i_size)
    (hlt : start + nbytes < 2 ^ 32)
    (hgrow : (growTo n (s.inodes n).i_size (start + nbytes)).run s = some (c, t)) :
    (writeFileByInode file buffer start nbytes).run s =
      (writeLoop n (s.getBlockSize / 4 + EXT2_N_BLOCKS + 1)
        (min (start / s.getBlockSize) EXT2_NDIR_BLOCKS) (start / s.getBlockSize - EXT2_NDIR_BLOCKS)
        (start % s.getBlockSize) buffer nbytes >>= fun r => pure (nbytes - r)).run t := by
  have hsum : add32 nbytes start = start + nbytes := by
    rw [add32_eq, Nat.add_comm]
  have hdirect : (if EXT2_NDIR_BLOCKS ≤ start / s.getBlockSize then EXT2_NDIR_BLOCKS
      else start / s.getBlockSize) = min (start / s.getBlockSize) EXT2_NDIR_BLOCKS := by
    split <;> omega
  have hindir : (if EXT2_NDIR_BLOCKS ≤ start / s.getBlockSize
      then start / s.getBlockSize - EXT2_NDIR_BLOCKS else 0) =
        start / s.getBlockSize - EXT2_NDIR_BLOCKS := by
    split <;> omega
  unfold writeFileByInode
  rw [run_bind_of hd.run_load32, run_bind_of (run_inode hf.valid), run_get_bind]
  dsimp only
  rw [if_neg (by omega), hsum, run_bind_of hgrow, hdirect, hindir]

section

variable {file c : Nat} {buffer : List UInt8} (hf : s.File n j) (hd : s.Named n j file)
    (hstart : start ≤ (s.inodes n).i_size) (hlt : start + nbytes < 2 ^ 32)
    (hgrow : (growTo n (s.inodes n).i_size (start + nbytes)).run s = some (c, t))
    (hft : t.File n k)
include hf hd hstart hlt hgrow hft

/-- **A write**: how many bytes it says it has written, and what stands in the file. -/
theorem run_writeFileByInode (hl : s.Laid) (hg : Grows s t n j k) (hbuf : nbytes ≤ buffer.length)
    (hin : start + nbytes ≤ k * s.getBlockSize)
    (hfirst : nbytes < s.getBlockSize → start % s.getBlockSize + nbytes ≤ s.getBlockSize ∨
      t.Follows n (start / s.getBlockSize)) :
    ∃ s', (writeFileByInode file buffer start nbytes).run s = some (nbytes, s') ∧
      Overwrites t s' n k ∧ Patched t s' n (k * s.getBlockSize) start (buffer.take nbytes) := by
  obtain ⟨h12, h13⟩ := blocks_eq
  have hpos := s.getBlockSize_pos
  have hbs := hg.same.size
  have hle := hft.le
  -- the block and the place in it where the write starts
  have hdiv : start / s.getBlockSize * s.getBlockSize + start % s.getBlockSize = start :=
    Nat.div_add_mod' _ _
  have hq : start / s.getBlockSize ≤ k := Nat.div_le_of_le_mul (by rw [Nat.mul_comm]; omega)
  have hfuel : EXT2_N_BLOCKS < s.getBlockSize / 4 + EXT2_N_BLOCKS + 1 + start / s.getBlockSize :=
    Nat.lt_of_lt_of_le (by omega) (Nat.le_add_right _ _)
  obtain ⟨s', hrun, hover, hbyte⟩ :=
    run_writeLoop (s.getBlockSize / 4 + EXT2_N_BLOCKS + 1) (start / s.getBlockSize)
      (start % s.getBlockSize) nbytes buffer (hg.stays.laid hl) hft hfuel (by omega)
      (by rw [hbs]; omega) (by rw [hbs]; exact Nat.mod_lt _ hpos) (by rw [hbs]; exact hfirst) hbuf
  rw [hbs, hdiv] at hbyte
  refine ⟨s', ?_, hover, hbyte⟩
  rw [run_writeFile hf hd hstart hlt hgrow, run_bind_of hrun]
  rfl

/-- A write that is shorter than a block is one copy, wherever it ends. -/
theorem run_writeFile_short {r : Nat} (hbs : t.getBlockSize = s.getBlockSize)
    (hq : start / s.getBlockSize < k) (hnb : nbytes ≠ 0) (hlast : nbytes < s.getBlockSize)
    (hbuf : nbytes = buffer.length)
    (hrun : (writeFileByInode file buffer start nbytes).run s = some (r, s')) :
    s' = t.written (t.blockNumToAddr (t.dataBlock n (start / s.getBlockSize)) +
      start % s.getBlockSize) buffer := by
  obtain ⟨h12, h13⟩ := blocks_eq
  rw [run_writeFile hf hd hstart hlt hgrow, writeLoop, if_neg hnb, if_pos (by omega)] at hrun
  simp only [bind_assoc] at hrun
  rw [run_get_bind, run_bind_of (run_inode hft.valid), run_bind_of (hft.run_writePlace hq)] at hrun
  dsimp only at hrun
  rw [hbs, if_pos hlast, hbuf, take_length] at hrun
  rw [bind_assoc] at hrun
  obtain ⟨u, t', hput, hrun⟩ := exists_of_run_bind hrun
  rw [← eq_of_run_put hput]
  exact (congrArg Prod.snd (Option.some.inj hrun)).symm

end

/-! ## A copy that leaves the file -/

theorem exists_ne_ne (v w : UInt8) : ∃ x : UInt8, x ≠ v ∧ x ≠ w := by
  by_contra h
  push Not at h
  have h0 := h 0
  have h1 := h 1
  have h2 := h 2
  grind

/-- A copy that passes the end of its block, where another block lies behind it than the next one of
the file: the block behind it is one of the file's or is nobody's, and the next one of the file is
not written. -/
theorem File.spill (hl : s.Laid) (hf : s.File n k) (off : Nat) (l : List UInt8) (hq : q + 1 < k)
    (hlen : off + l.length ≤ 2 * s.getBlockSize) (hnot : ¬ s.Follows n q)
    (hnext : s.Owned (s.dataBlock n q + 1) → ∃ i < k, s.dataBlock n q + 1 = s.dataBlock n i) :
    Overwrites s (s.written (s.blockNumToAddr (s.dataBlock n q) + off) l) n k ∧
      (s.written (s.blockNumToAddr (s.dataBlock n q) + off) l).byteAt n
        ((q + 1) * s.getBlockSize) = s.byteAt n ((q + 1) * s.getBlockSize) := by
  have hown := hf.owned q (by omega)
  have hpos := s.getBlockSize_pos
  have hother : ∀ b o, b < s.s_blocks_count → o < s.getBlockSize → b ≠ s.dataBlock n q →
      b ≠ s.dataBlock n q + 1 →
      (s.written (s.blockNumToAddr (s.dataBlock n q) + off) l).mem (s.blockNumToAddr b + o) =
        s.mem (s.blockNumToAddr b + o) := by
    intro b o hb ho hne hne'
    refine if_neg ?_
    rw [hl.addr hb, hl.addr hown.lt]
    rcases Nat.lt_or_gt_of_ne hne with hlt | hgt
    · have := Nat.mul_le_mul_right s.getBlockSize (show b + 1 ≤ s.dataBlock n q by omega)
      rw [Nat.succ_mul] at this
      omega
    · have := Nat.mul_le_mul_right s.getBlockSize (show s.dataBlock n q + 2 ≤ b by omega)
      rw [Nat.add_mul] at this
      omega
  have hover : Overwrites s (s.written (s.blockNumToAddr (s.dataBlock n q) + off) l) n k := by
    refine ⟨⟨⟨rfl, rfl, rfl, rfl, rfl⟩, rfl⟩, rfl, rfl, ?_⟩
    intro b hb hne o ho
    refine hother b o hb.lt ho (hne q (by omega)) ?_
    rintro rfl
    obtain ⟨i, hi, heq⟩ := hnext hb
    exact hne i hi heq
  refine ⟨hover, ?_⟩
  have hnext' := hf.owned (q + 1) hq
  unfold byteAt
  rw [hover.same.size, hover.same.addr, Nat.mul_div_cancel _ hpos, hover.dataBlock hf hq]
  refine hother _ _ hnext'.lt (Nat.mod_lt _ hpos) ?_ ?_
  · intro heq
    have := hf.inj _ hq q (by omega) heq
    omega
  · intro heq
    refine hnot ?_
    unfold Follows
    rw [hl.addr hnext'.lt, hl.addr hown.lt, heq, Nat.succ_mul]
    omega

/-- The first octet of the indirect block is the low octet of its first number. -/
theorem dataBlock_mod (s : Ext2) (n : Nat) : s.dataBlock n EXT2_NDIR_BLOCKS % 256 =
    (s.mem (s.blockNumToAddr ((s.inodes n).i_block EXT2_NDIR_BLOCKS))).toNat := by
  unfold dataBlock
  rw [if_neg (lt_irrefl _), Nat.sub_self]
  generalize s.blockNumToAddr ((s.inodes n).i_block EXT2_NDIR_BLOCKS) = a
  have hlt := (s.mem a).toNat_lt
  change ((s.mem a).toNat + 256 * _) % 256 = _
  omega

theorem Patched.contents {size : Nat} {l : List UInt8} (hstart : start ≤ size)
    (h : Patched s s' n (max size (start + l.length)) start l) :
    s'.contents n (max size (start + l.length)) =
      (s.contents n size).take start ++ l ++ (s.contents n size).drop (start + l.length) := by
  have hlen : (s.contents n size).length = size := by simp [Ext2.contents]
  have htake : ((s.contents n size).take start).length = start := by
    rw [length_take, hlen]
    omega
  refine ext_getElem ?_ ?_
  · simp only [length_append, htake, length_drop, hlen]
    simp only [Ext2.contents, length_map, length_range]
    omega
  · intro p hp hp'
    have hlt : p < max size (start + l.length) := by simpa [Ext2.contents] using hp
    have hleft : (s'.contents n (max size (start + l.length)))[p] = s'.byteAt n p := by
      simp [Ext2.contents]
    rw [hleft, h p hlt]
    by_cases hbefore : p < start
    · rw [if_neg (by omega), getElem_append_left (by simp [htake]; omega),
        getElem_append_left (by omega)]
      simp [Ext2.contents]
    · by_cases hthere : p < start + l.length
      · rw [if_pos ⟨by omega, hthere⟩, getElem_append_left (by simp [htake]; omega),
          getElem_append_right (by omega)]
        simp only [htake]
        exact getD_eq_getElem _ _ (by omega)
      · rw [if_neg (by omega), getElem_append_right (by simp [htake]; omega)]
        simp only [length_append, htake, getElem_drop]
        simp only [Ext2.contents, getElem_map, getElem_range]
        congr 1
        omega

end Ext2

/-- **A write does what is expected of it**: what is read afterwards is the old contents with the
bytes of the write in their place, and no other file, no other inode and no block that was in use is
touched. -/
def Ext2.Writes (s : Ext2) (n file start nbytes : Nat) (buffer : List UInt8) : Prop :=
  ∃ old s', (Ext2.readDirent file 0 (s.inodes n).i_size).run s = some (old, s) ∧
    (Ext2.writeFileByInode file buffer start nbytes).run s = some (nbytes, s') ∧
    (s'.inodes n).i_size = max (s.inodes n).i_size (start + nbytes) ∧
    (Ext2.readDirent file 0 (s'.inodes n).i_size).run s' =
      some (old.take start ++ buffer.take nbytes ++ old.drop (start + nbytes), s') ∧
    (∀ b, s.Owned b → (∀ i < Ext2.blocksFor s.getBlockSize (s.inodes n).i_size,
      b ≠ s.dataBlock n i) → ∀ o < s.getBlockSize,
        s'.mem (s.blockNumToAddr b + o) = s.mem (s.blockNumToAddr b + o)) ∧
    (∀ m, m ≠ n → s'.inodes m = s.inodes m) ∧ s'.inodeIsUsed = s.inodeIsUsed ∧
    (∀ b, s.blkIsUsed b = true → s'.blkIsUsed b = true) ∧
    ∀ b, s'.blkIsUsed b = true → s.blkIsUsed b = false →
      (∃ i, Ext2.blocksFor s.getBlockSize (s.inodes n).i_size ≤ i ∧
        i < Ext2.blocksFor s.getBlockSize (s'.inodes n).i_size ∧ b = s'.dataBlock n i) ∨
      b = (s'.inodes n).i_block Ext2.EXT2_NDIR_BLOCKS

namespace Ext2

section

variable {file c : Nat} {buffer : List UInt8} (hl : s.Laid)
    (hj : blocksFor s.getBlockSize (s.inodes n).i_size = j)
    (hk : blocksFor s.getBlockSize (max (s.inodes n).i_size (start + nbytes)) = k)
    (hf : s.File n j) (hd : s.Named n j file) (hstart : start ≤ (s.inodes n).i_size)
    (hlt : max (s.inodes n).i_size (start + nbytes) < 2 ^ 32)
    (hgrow : (growTo n (s.inodes n).i_size (start + nbytes)).run s = some (c, t))
    (hft : t.File n k) (hg : Grows s t n j k)
    (htsize : (t.inodes n).i_size = max (s.inodes n).i_size (start + nbytes))
include hk hf hd hlt hft hg htsize

/-- A file that has grown and has then been written to is read from its own blocks. -/
theorem Overwrites.run_readDirent (hover : Overwrites t s' n k) :
    (readDirent file 0 (s'.inodes n).i_size).run s' =
      some (s'.contents n (max (s.inodes n).i_size (start + nbytes)), s') := by
  have hs'size : (s'.inodes n).i_size = max (s.inodes n).i_size (start + nbytes) := by
    rw [hover.inodes, htsize]
  have hread := Ext2.run_readDirent (hover.file hft) ((hd.grows hf hg).overwrites hft hover)
    (by rw [hs'size, hover.same.size, hg.same.size]
        exact (blocksFor_le_iff s.getBlockSize_pos).mp hk.le) (by rw [hs'size]; exact hlt)
  rw [hread, hs'size]

include hj hstart

/-- If only the file has been written and what is read is what is expected, the bytes of the write
stand in the file. -/
theorem Overwrites.byteAt_of_read {old : List UInt8} {p : Nat} (hover : Overwrites t s' n k)
    (hbuf : nbytes ≤ buffer.length)
    (hold : (readDirent file 0 (s.inodes n).i_size).run s = some (old, s))
    (hread : (readDirent file 0 (s'.inodes n).i_size).run s' =
      some (old.take start ++ buffer.take nbytes ++ old.drop (start + nbytes), s'))
    (hp : start ≤ p) (hp' : p < start + nbytes) : s'.byteAt n p = buffer.getD (p - start) 0 := by
  rw [Ext2.run_readDirent hf hd ((blocksFor_le_iff s.getBlockSize_pos).mp hj.le) (by omega)] at hold
  rw [hover.run_readDirent hk hf hd hlt hft hg htsize] at hread
  obtain ⟨rfl, -⟩ : s.contents n (s.inodes n).i_size = old ∧ True := by simpa using hold
  have hlen : ((s.contents n (s.inodes n).i_size).take start).length = start := by
    simp [contents, hstart]
  have hat := congrArg (fun l => l.getD p 0) (Prod.mk.inj (Option.some.inj hread)).1
  rw [getD_contents _ _ (by omega), getD_append _ _ _ _ (by simp [hlen]; omega),
    getD_append_right _ _ _ _ (by omega), hlen, getD_take _ (by omega)] at hat
  exact hat

include hl hgrow

/-- A write whose first copy stays in the file. -/
theorem writes_of_follows (hbuf : nbytes ≤ buffer.length)
    (hfirst : nbytes < s.getBlockSize → start % s.getBlockSize + nbytes ≤ s.getBlockSize ∨
      t.Follows n (start / s.getBlockSize)) : s.Writes n file start nbytes buffer := by
  have hsize := (blocksFor_le_iff s.getBlockSize_pos).mp hj.le
  have hsize' := (blocksFor_le_iff s.getBlockSize_pos).mp hk.le
  obtain ⟨s', hrun, hover, hbyte⟩ := run_writeFileByInode hf hd hstart (by omega) hgrow hft hl hg
    hbuf (by omega) hfirst
  have hs'size : (s'.inodes n).i_size = max (s.inodes n).i_size (start + nbytes) := by
    rw [hover.inodes, htsize]
  refine ⟨_, s', run_readDirent hf hd hsize (by omega), hrun, hs'size, ?_, ?_, ?_, ?_, ?_, ?_⟩
  · have hlen : (buffer.take nbytes).length = nbytes := length_take_of_le hbuf
    have hpatch : Patched s s' n (max (s.inodes n).i_size (start + (buffer.take nbytes).length))
        start (buffer.take nbytes) := by
      intro p hp
      rw [hbyte p (by omega)]
      split
      · rfl
      · exact hg.byteAt hf (by omega)
    have hcontents := hpatch.contents hstart
    rw [hlen] at hcontents
    rw [hover.run_readDirent hk hf hd hlt hft hg htsize, hcontents]
  · rw [hj]
    intro b hb hne o ho
    have hmem := hover.mem b (hg.stays.owned hb) ?_ o (by rw [hg.same.size]; exact ho)
    · rw [hg.same.addr] at hmem
      exact hmem.trans (hg.mem b hb o ho)
    · intro i hi
      by_cases hij : i < j
      · rw [hg.dataBlock hf hij]
        exact hne i hij
      · rintro rfl
        have hnew := hg.new i (by omega) hi
        rw [hb.used] at hnew
        simp at hnew
  · intro m hm
    rw [hover.inodes, hg.others m hm]
  · exact hover.same.inodeIsUsed.trans hg.same.inodeIsUsed
  · intro b hb
    rw [hover.used]
    exact hg.kept b hb
  · intro b hb hbfree
    rw [hover.used] at hb
    rw [hs'size, hover.inodes, hj, hk]
    rcases hg.fresh b hb hbfree with ⟨i, hle, hi, rfl⟩ | ⟨-, rfl⟩
    · exact .inl ⟨i, hle, hi, (hover.dataBlock hft hi).symm⟩
    · exact .inr rfl

/-- **A write that leaves the file is not what is expected**, whatever it is that lies behind the
block: with bytes that differ from what stands there and in the file, it shows. -/
theorem follows_of_writes (hlast : nbytes < s.getBlockSize)
    (hcross : s.getBlockSize < start % s.getBlockSize + nbytes)
    (h : ∀ buffer : List UInt8, nbytes ≤ buffer.length → s.Writes n file start nbytes buffer) :
    t.Follows n (start / s.getBlockSize) := by
  obtain ⟨h12, h13⟩ := blocks_eq
  have hpos := s.getBlockSize_pos
  have hbs := hg.same.size
  have hlt' := hg.stays.laid hl
  obtain ⟨q, hqdef⟩ : ∃ q, start / s.getBlockSize = q := ⟨_, rfl⟩
  obtain ⟨off, hoffdef⟩ : ∃ off, start % s.getBlockSize = off := ⟨_, rfl⟩
  have hdiv : q * s.getBlockSize + off = start := by
    rw [← hqdef, ← hoffdef]
    exact Nat.div_add_mod' _ _
  have hoff : off < s.getBlockSize := hoffdef ▸ Nat.mod_lt _ hpos
  have hsucc : (q + 1) * s.getBlockSize = q * s.getBlockSize + s.getBlockSize := Nat.succ_mul _ _
  have hq : q + 1 < k := by
    by_contra hle
    have := (blocksFor_le_iff hpos).mp (hk.le.trans (Nat.le_of_not_lt hle))
    omega
  rw [hqdef]
  by_contra hnot
  obtain ⟨x, hxv, hxw⟩ := exists_ne_ne (t.byteAt n ((q + 1) * s.getBlockSize))
    (t.mem (t.blockNumToAddr (t.dataBlock n q) + s.getBlockSize))
  obtain ⟨old, s', hold, hrun, hsize, hread, hothers, -, -, -, hfresh⟩ :=
    h (replicate nbytes x) (by simp)
  rw [hj] at hothers hfresh
  have hs' := run_writeFile_short hf hd hstart (by omega) hgrow hft hbs (by omega) (by omega) hlast
    (by simp) hrun
  rw [hqdef, hoffdef] at hs'
  have hbehind : s'.mem (t.blockNumToAddr (t.dataBlock n q) + s.getBlockSize) = x := by
    rw [hs']
    refine (if_pos ⟨by omega, by rw [length_replicate]; omega⟩).trans ?_
    exact getD_replicate _ (by omega)
  by_cases hnext : t.Owned (t.dataBlock n q + 1) → ∃ i < k, t.dataBlock n q + 1 = t.dataBlock n i
  · -- no other file is touched, and the next block of this one stays as it was
    obtain ⟨hover, hbyte⟩ := hft.spill hlt' off (replicate nbytes x) hq
      (by rw [length_replicate, hbs]; omega) hnot hnext
    rw [← hs', hbs] at hbyte
    rw [← hs'] at hover
    have hat := hover.byteAt_of_read hj hk hf hd hstart hlt hft hg htsize (by simp) hold hread
      (p := (q + 1) * s.getBlockSize) (by omega) (by omega)
    rw [hbyte, getD_replicate _ (by omega)] at hat
    exact hxv hat.symm
  · simp only [Classical.not_imp, not_exists, not_and] at hnext
    obtain ⟨hmown, hmne⟩ := hnext
    have haddr : t.blockNumToAddr (t.dataBlock n q + 1) =
        t.blockNumToAddr (t.dataBlock n q) + s.getBlockSize := by
      rw [hlt'.addr hmown.lt, hlt'.addr (hft.owned q (by omega)).lt, hbs, Nat.succ_mul]
      omega
    cases hused : s.blkIsUsed (t.dataBlock n q + 1) with
    | true =>
      -- it is a block of another file
      have hown : s.Owned (t.dataBlock n q + 1) := hg.owned_before hmown hused
      have hle : j ≤ k := by
        rw [← hj, ← hk]
        exact blocksFor_mono hpos (Nat.le_max_left _ _)
      have hsame := hothers _ hown ?_ 0 hpos
      · rw [← hg.mem _ hown 0 hpos, ← hg.same.addr, haddr, Nat.add_zero, hbehind] at hsame
        exact hxw hsame
      · exact fun i hi heq => hmne i (by omega) (heq.trans (hg.dataBlock hf hi).symm)
    | false =>
      -- it is the indirect block of the file, taken with its last data block
      obtain ⟨i, -, hi, heq⟩ | ⟨h12k, hm⟩ := hg.fresh _ hmown.used hused
      · exact hmne i hi heq
      have hle : k ≤ j + 1 := by
        have := (blocksFor_le_iff hpos).mp hj.le
        rw [← hk, blocksFor_le_iff hpos, Nat.succ_mul]
        omega
      obtain ⟨hj12, hk13⟩ := hg.full_of_indirect hf hft hle h12k (hm ▸ hused)
      have hinodes : s'.inodes = t.inodes := by rw [hs']; rfl
      have hsame : s'.blockNumToAddr = t.blockNumToAddr := by rw [hs']; rfl
      rcases hfresh (t.dataBlock n EXT2_NDIR_BLOCKS)
        (by rw [hs']; exact (hft.owned _ (by omega)).used) (hg.new _ hj12.le h12k) with
        ⟨i, hle, hi, heq⟩ | heq
      · rw [hsize, hk] at hi
        obtain rfl : i = EXT2_NDIR_BLOCKS := by omega
        have hmod := t.dataBlock_mod n
        rw [heq, dataBlock_mod, hinodes, hsame, ← hm, haddr, hbehind] at hmod
        exact hxw (UInt8.toNat_inj.mp hmod)
      · rw [hinodes] at heq
        exact (hft.indirect hk13).2 _ h12k heq

end

end Ext2

/-- **What is read after a write**, in a well-formed image with enough free blocks: the old contents
with the bytes of the write in their place. It holds exactly if the write ends in the block in which
it starts, is at least as long as a block, or the next block of the file, which it may have taken
for this write, is the one behind it in memory. -/
theorem ext2_read_after_write {s : Ext2} (n file start nbytes : Nat)
    (hl : s.Laid) (hf : s.File n (Ext2.blocksFor s.getBlockSize (s.inodes n).i_size))
    (hd : s.Named n (Ext2.blocksFor s.getBlockSize (s.inodes n).i_size) file)
    (hstart : start ≤ (s.inodes n).i_size)
    (hin : start + nbytes ≤ Ext2.EXT2_N_BLOCKS * s.getBlockSize)
    (hfree : Ext2.needed (Ext2.blocksFor s.getBlockSize (s.inodes n).i_size)
      (Ext2.blocksFor s.getBlockSize (max (s.inodes n).i_size (start + nbytes))) ≤ s.freeCount) :
    (∀ buffer : List UInt8, nbytes ≤ buffer.length → s.Writes n file start nbytes buffer) ↔
      start % s.getBlockSize + nbytes ≤ s.getBlockSize ∨ s.getBlockSize ≤ nbytes ∨
        ∃ c t, (Ext2.growTo n (s.inodes n).i_size (start + nbytes)).run s = some (c, t) ∧
          t.Follows n (start / s.getBlockSize) := by
  have hlt : max (s.inodes n).i_size (start + nbytes) < 2 ^ 32 :=
    hf.lt_of_needed hl (Ext2.blocksFor_mono s.getBlockSize_pos (Nat.le_max_left _ _)) hfree
  obtain ⟨c, t, hgrow, hft, hg, htsize⟩ := Ext2.run_growTo rfl rfl hl hf hin hfree
  constructor
  · intro h
    by_contra hnot
    simp only [not_or, Nat.not_le] at hnot
    obtain ⟨hcross, hlast, hnot⟩ := hnot
    exact hnot ⟨c, t, hgrow,
      Ext2.follows_of_writes hl rfl rfl hf hd hstart hlt hgrow hft hg htsize hlast hcross h⟩
  · rintro h buffer hbuf
    refine Ext2.writes_of_follows hl rfl rfl hf hd hstart hlt hgrow hft hg htsize hbuf ?_
    intro hlast
    rcases h with h | h | ⟨c', t', hgrow', h⟩
    · exact .inl h
    · omega
    · obtain ⟨-, rfl⟩ : c' = c ∧ t' = t := by simpa [hgrow] using hgrow'.symm
      exact .inr h

namespace Ext2

/-- Two files: one of two blocks, 6 and 8, and one in the block between them. -/
def twoFiles : Ext2 :=
  { smallImage with
    s_free_blocks_count := 55
    s_free_inodes_count := 5
    blkBits := fun g w b => g == 0 && w == 0 && decide (b < 9)
    inodeBits := fun g w b => g == 0 && w == 0 && decide (b < 3)
    inodes := fun n =>
      if n = 2 then
        { i_mode := EXT2_S_IFREG, i_size := 2048, i_block := fun i => if i = 0 then 6 else 8 }
      else if n = 3 then { i_mode := EXT2_S_IFREG, i_size := 1024, i_block := fun _ => 7 }
      else smallImage.inodes n
    mem := fun a => if a = 6656 then 2 else if a = 6912 then 3 else smallImage.mem a }

theorem shape_twoFiles : Shape smallImage twoFiles := ⟨rfl, rfl, rfl, rfl, rfl⟩

theorem used_twoFiles : ∀ b < 64, twoFiles.blkIsUsed b = decide (b < 9) :=
  fun _ hb => blkIsUsed_small (by decide) rfl rfl hb

theorem laid_twoFiles : twoFiles.Laid := laid_small shape_twoFiles (by decide) used_twoFiles

theorem owned_twoFiles {b : Nat} (h5 : 5 ≤ b) (h9 : b < 9) : twoFiles.Owned b :=
  owned_small shape_twoFiles (by decide) (by decide) used_twoFiles h5 h9

theorem file_twoFiles : twoFiles.File 2 2 := by
  refine ⟨by decide, by decide, ?_, ?_, ?_⟩
  · intro i hi
    have h : twoFiles.dataBlock 2 i = if i = 0 then 6 else 8 := by
      unfold dataBlock
      rw [if_pos (Nat.lt_trans hi (by decide))]
      rfl
    rw [h]
    split
    · exact owned_twoFiles (by omega) (by omega)
    · exact owned_twoFiles (by omega) (by omega)
  · decide
  · intro h
    exact absurd h (by decide)

theorem named_twoFiles : twoFiles.Named 2 2 6656 := by
  refine ⟨by decide, 5, 256, owned_twoFiles (by omega) (by omega), by decide, by decide, ?_⟩
  decide

end Ext2

/-- A hundred bytes from byte 2000 of the file on: the block that the file takes for them, block 9,
is the one behind its last one. -/
theorem ext2_read_after_write_grown : Ext2.twoFiles.Writes 2 6656 2000 100 (replicate 100 9) := by
  have hgrown : ((Ext2.growTo 2 2048 2100).run Ext2.twoFiles).map
      (fun r => decide (r.2.Follows 2 1)) = some true := by
    decide
  obtain ⟨⟨c, t⟩, hgrow, hfollows⟩ := Option.map_eq_some_iff.mp hgrown
  exact (ext2_read_after_write 2 6656 2000 100 Ext2.laid_twoFiles Ext2.file_twoFiles
    Ext2.named_twoFiles (by decide) (by decide) (by decide)).mpr
      (.inr (.inr ⟨c, t, hgrow, of_decide_eq_true hfollows⟩)) _ (by decide)

/-- **A write that crosses the end of its block changes another file**: a hundred bytes from byte
1000 of a file with blocks 6 and 8 are all written from the end of block 6 on, into block 7, and the
second block of the file stays as it was. -/
theorem write_crosses_block :
    Ext2.twoFiles.Laid ∧ Ext2.twoFiles.File 2 2 ∧ Ext2.twoFiles.Named 2 2 6656 ∧
      ∃ s', (Ext2.writeFileByInode 6656 (List.replicate 100 9) 1000 100).run Ext2.twoFiles =
          some (100, s') ∧
        s'.byteAt 2 1024 = 0 ∧ Ext2.twoFiles.byteAt 3 0 = 0 ∧ s'.byteAt 3 0 = 9 := by
  refine ⟨Ext2.laid_twoFiles, Ext2.file_twoFiles, Ext2.named_twoFiles, ?_⟩
  have hrun : ((Ext2.writeFileByInode 6656 (replicate 100 9) 1000 100).run
      Ext2.twoFiles).map (fun r => (r.1, r.2.byteAt 2 1024, r.2.byteAt 3 0)) =
        some (100, 0, 9) := by
    decide
  obtain ⟨⟨c, s'⟩, hs', heq⟩ := Option.map_eq_some_iff.mp hrun
  obtain ⟨rfl, hown, hother⟩ : c = 100 ∧ s'.byteAt 2 1024 = 0 ∧ s'.byteAt 3 0 = 9 := by
    simpa using heq
  exact ⟨s', hs', hown, by decide, hother⟩

/-! ## Reading up to the end -/

namespace Ext2

/-- A crossing is into a block of the file. -/
theorem next_lt_of_cross {off size : Nat} (hq : start / bs = q) (hoff : start % bs = off)
    (hin : size ≤ k * bs) (hcross : bs < off + min nbytes (size - start)) (hlt : off < bs) :
    q + 1 < k := by
  subst hq hoff
  have hdiv := Nat.div_add_mod' start bs
  by_contra hle
  have hmul := Nat.mul_le_mul_right bs (Nat.le_of_not_lt hle)
  rw [Nat.succ_mul] at hmul
  omega

/-- A read that leaves the file does not always read what is in it: the first byte of the next block
shows whether it does. -/
theorem follows_of_reads {file off : Nat} (hl : s.Laid) (hf : s.File n k) (hd : s.Named n k file)
    (hin : (s.inodes n).i_size ≤ k * s.getBlockSize) (hq : start / s.getBlockSize = q)
    (hoff : start % s.getBlockSize = off)
    (hcopied : copied s.getBlockSize (EXT2_N_BLOCKS - q) off
      (clamped (s.inodes n).i_size start nbytes) = min nbytes ((s.inodes n).i_size - start))
    (h : ∀ s', Overwrites s s' n k → ∃ l, (readDirent file start nbytes).run s' = some (l, s') ∧
      l.length = min nbytes ((s.inodes n).i_size - start) ∧
      l = ((s'.contents n (s.inodes n).i_size).drop start).take nbytes)
    (hlast : min nbytes ((s.inodes n).i_size - start) < s.getBlockSize)
    (hcross : s.getBlockSize < off + min nbytes ((s.inodes n).i_size - start)) :
    s.Follows n q := by
  have hlt : off < s.getBlockSize := hoff ▸ Nat.mod_lt _ s.getBlockSize_pos
  have hqk := next_lt_of_cross hq hoff hin hcross hlt
  have hstart : q * s.getBlockSize + off = start := by
    rw [← hq, ← hoff]
    exact Nat.div_add_mod' _ _
  -- the code reads what the file has, in one copy
  have hrem : clamped (s.inodes n).i_size start nbytes =
      min nbytes ((s.inodes n).i_size - start) := by
    by_cases hshort : clamped (s.inodes n).i_size start nbytes < s.getBlockSize
    · exact (copied_eq_of_lt (by omega) hshort).symm.trans hcopied
    · obtain ⟨K, hK⟩ : ∃ K, EXT2_N_BLOCKS - q = K + 1 :=
        Nat.exists_eq_succ_of_ne_zero (by have := hf.le; omega)
      rw [hK, copied_succ hlt (by omega)] at hcopied
      unfold copied at hcopied
      have hmul : K ≠ 0 → s.getBlockSize ≤ K * s.getBlockSize :=
        fun hne => Nat.le_mul_of_pos_left _ (Nat.pos_of_ne_zero hne)
      split_ifs at hcopied with hzero <;> omega
  -- so the octet behind the block is read for the first one of the next block
  have hread : ∀ s', Overwrites s s' n k →
      s'.mem (s.blockNumToAddr (s.dataBlock n q) + s.getBlockSize) =
        s'.mem (s.blockNumToAddr (s.dataBlock n (q + 1))) := by
    intro s' hover
    obtain ⟨l, hrun, -, hcontents⟩ := h s' hover
    have hshort := run_readDirent_short (hover.file hf) (hd.overwrites hf hover)
      (by rw [hover.same.size, hq]; omega) (by rw [hover.inodes]; omega)
      (by rw [hover.inodes, hover.same.size]; omega) hrun
    rw [hover.same.size, hq, hoff, hover.same.addr, hover.dataBlock hf (by omega), hover.inodes,
      hrem] at hshort
    have hat := congrArg (fun l => l.getD (s.getBlockSize - off) 0) (hshort.symm.trans hcontents)
    have hnext : start + (s.getBlockSize - off) = (q + 1) * s.getBlockSize := by
      rw [Nat.succ_mul]
      omega
    rw [getD_octetsAt _ _ (by omega), getD_take _ (by omega), getD_drop,
      getD_contents _ _ (by omega), hnext, byteAt, hover.same.size,
      Nat.mul_div_cancel _ s.getBlockSize_pos, Nat.mul_mod_left, hover.same.addr,
      hover.dataBlock hf hqk, Nat.add_zero, Nat.add_assoc,
      Nat.add_sub_cancel' (Nat.le_of_lt hlt)] at hat
    exact hat
  by_contra hnot
  obtain ⟨x, hx, -⟩ := exists_ne_ne
    (s.mem (s.blockNumToAddr (s.dataBlock n q) + s.getBlockSize)) 0
  obtain ⟨hover, -⟩ := hf.write hl 0 [x] hqk (by simp; omega)
  have hsame := hread _ hover
  rw [Nat.add_zero] at hsame
  have hkept : ∀ a, a ≠ s.blockNumToAddr (s.dataBlock n (q + 1)) →
      (s.written (s.blockNumToAddr (s.dataBlock n (q + 1))) [x]).mem a = s.mem a := by
    intro a ha
    refine if_neg ?_
    rw [length_singleton]
    omega
  rw [hkept _ (Ne.symm hnot)] at hsame
  refine hx (hsame.trans ?_).symm
  exact (if_pos (by simp)).trans (by simp)

end Ext2

/-- **A read stops at the end of the file**, whatever stands in it, exactly if the code copies as
many bytes as the file has, and the first copy does not pass the end of its block or the next block
of the file is the one behind it in memory. The test `i_size + start < nbytes` that the code makes
for the end may be wrong only from behind the last block it looks at, or where the file ends with
it. -/
theorem read_stops_at_end {s : Ext2} (n file start nbytes : Nat) (hl : s.Laid)
    (hf : s.File n (Ext2.blocksFor s.getBlockSize (s.inodes n).i_size))
    (hd : s.Named n (Ext2.blocksFor s.getBlockSize (s.inodes n).i_size) file) :
    (∀ s', Ext2.Overwrites s s' n (Ext2.blocksFor s.getBlockSize (s.inodes n).i_size) →
      ∃ l, (Ext2.readDirent file start nbytes).run s' = some (l, s') ∧
        l.length = min nbytes ((s.inodes n).i_size - start) ∧
        l = ((s'.contents n (s.inodes n).i_size).drop start).take nbytes) ↔
      (Ext2.EXT2_N_BLOCKS * s.getBlockSize ≤ start ∨
        (add32 (s.inodes n).i_size start < nbytes → (s.inodes n).i_size - start ≤ nbytes) ∧
          (nbytes ≤ add32 (s.inodes n).i_size start → nbytes ≤ (s.inodes n).i_size - start) ∨
        (s.inodes n).i_size = Ext2.EXT2_N_BLOCKS * s.getBlockSize ∧
          (s.inodes n).i_size - start ≤ nbytes ∧ s.getBlockSize ≤ nbytes) ∧
      (min nbytes ((s.inodes n).i_size - start) < s.getBlockSize →
        s.getBlockSize < start % s.getBlockSize + min nbytes ((s.inodes n).i_size - start) →
          s.Follows n (start / s.getBlockSize)) := by
  have hpos := s.getBlockSize_pos
  have hin : (s.inodes n).i_size ≤
      Ext2.blocksFor s.getBlockSize (s.inodes n).i_size * s.getBlockSize :=
    (Ext2.blocksFor_le_iff hpos).mp (le_refl _)
  rw [← Ext2.copied_clamped_iff hpos (hin.trans (Nat.mul_le_mul_right _ hf.le))]
  constructor
  · intro h
    obtain ⟨l, hrun, hlen, -⟩ := h s (Ext2.Overwrites.rfl' s n _)
    have hcopied := (Ext2.length_run_readDirent hf hd hrun).symm.trans hlen
    exact ⟨hcopied, Ext2.follows_of_reads hl hf hd hin rfl rfl hcopied h⟩
  · rintro ⟨hcopied, hfirst⟩ s' hover
    have hread : (Ext2.readDirent file start nbytes).run s' = some (_, s') :=
      Ext2.run_readDirent_from (hover.file hf) (hd.overwrites hf hover)
      (by rw [hover.inodes, hover.same.size]; exact hin)
      (by rw [hover.inodes, hover.same.size]; exact hcopied)
      (by
        rw [hover.inodes, hover.same.size]
        intro hlast hcross
        have hqk := Ext2.next_lt_of_cross rfl rfl hin hcross (Nat.mod_lt _ hpos)
        unfold Ext2.Follows
        rw [hover.same.addr, hover.same.addr, hover.same.size, hover.dataBlock hf hqk,
          hover.dataBlock hf (by omega)]
        exact hfirst hlast hcross)
    rw [hover.inodes] at hread
    exact ⟨_, hread, by simp [Ext2.contents], rfl⟩

theorem read_stops_at_end_of_two_blocks :
    ∃ l, (Ext2.readDirent 6656 2000 5000).run Ext2.twoFiles = some (l, Ext2.twoFiles) ∧
      l.length = 48 := by
  obtain ⟨l, hrun, hlen, -⟩ := (read_stops_at_end 2 6656 2000 5000 Ext2.laid_twoFiles
    Ext2.file_twoFiles Ext2.named_twoFiles).mpr (by decide) _ (Ext2.Overwrites.rfl' _ _ _)
  exact ⟨l, hrun, hlen.trans (by decide)⟩

/-- **A read passes the end of the file**: a hundred bytes are read where the file has 48 left. -/
theorem read_passes_end :
    Ext2.twoFiles.File 2 2 ∧ Ext2.twoFiles.Named 2 2 6656 ∧ (Ext2.twoFiles.inodes 2).i_size = 2048 ∧
      ((Ext2.readDirent 6656 2000 100).run Ext2.twoFiles).map (fun r => r.1.length) = some 100 :=
  ⟨Ext2.file_twoFiles, Ext2.named_twoFiles, rfl, by decide⟩

end Xinu
