import Mathlib.Tactic.Positivity
import Xinu.Ext2.Accounting

/-!
# The blocks of a file

A file has its first blocks in its inode and one more behind an indirect block. In a well-formed
image these blocks are data blocks that are marked used, and different from each other. When a file
grows it takes blocks that were free: what stands in any block that was in use stays as it is.

## Main results

* `Ext2.Laid.apart`: addresses in different blocks are different
* `Ext2.run_addBlocks`: the blocks a file takes when there are enough
* `Ext2.run_growTo`: a file is made large enough
-/

namespace Xinu.Ext2

open List Xinu.Geometry

variable {s s' t : Ext2} {α β : Type} {n m i b a o bs j k : Nat}

/-! ## Running -/

theorem run_bind_of {m : Fs α} {f : α → Fs β} {a : α} (h : m.run s = some (a, t)) :
    (m >>= f).run s = (f a).run t := by
  rw [StateT.run_bind, h]
  rfl

theorem exists_of_run_bind {m : Fs α} {f : α → Fs β} {x : β × Ext2}
    (h : (m >>= f).run s = some x) : ∃ a t, m.run s = some (a, t) ∧ (f a).run t = some x := by
  rw [StateT.run_bind] at h
  obtain ⟨⟨a, t⟩, hm, hf⟩ := Option.bind_eq_some_iff.mp h
  exact ⟨a, t, hm, hf⟩

theorem run_get_bind (f : Ext2 → Fs β) : ((get : Fs Ext2) >>= f).run s = (f s).run s := rfl

theorem run_return (a : α) : (pure a : Fs α).run s = some (a, s) := rfl

theorem run_inode (h : s.Valid n) : (inode n).run s = some (s.inodes n, s) := by
  unfold inode
  rw [run_get_bind, if_pos h]
  rfl

theorem inData_iff : s.inData a n = true ↔ ∀ i < n, s.data (a + i) = true := by
  unfold inData
  rw [all_eq_true]
  constructor
  · intro h i hi
    exact h i (mem_range.mpr hi)
  · intro h i hi
    exact h i (mem_range.mp hi)

/-- Some octets of memory. -/
def octetsAt (s : Ext2) (a n : Nat) : List UInt8 := (List.range n).map fun i => s.mem (a + i)

/-- A number in memory. -/
def wordAt (s : Ext2) (a : Nat) : Nat := word (s.octetsAt a 4)

theorem run_load (h : s.inData a n = true) : (load a n).run s = some (s.octetsAt a n, s) := by
  unfold load
  rw [run_get_bind, if_pos h]
  rfl

/-- What has been loaded are the octets of memory. -/
theorem eq_of_run_load {l : List UInt8} (h : (load a n).run s = some (l, t)) :
    l = s.octetsAt a n ∧ t = s := by
  unfold load at h
  rw [run_get_bind] at h
  split_ifs at h
  · exact ⟨(Prod.mk.inj (Option.some.inj h)).1.symm, (Prod.mk.inj (Option.some.inj h)).2.symm⟩
  · cases h

theorem run_load32 (h : s.inData a 4 = true) : (load32 a).run s = some (s.wordAt a, s) := by
  unfold load32
  rw [run_bind_of (run_load h)]
  rfl

/-- Octets are written to memory. -/
def written (s : Ext2) (addr : Nat) (octets : List UInt8) : Ext2 :=
  { s with mem := fun a =>
      if addr ≤ a ∧ a < addr + octets.length then octets.getD (a - addr) 0 else s.mem a }

theorem run_put {l : List UInt8} (h : s.inData a l.length = true) :
    (put a l).run s = some (⟨⟩, s.written a l) := by
  unfold put
  rw [run_get_bind, if_pos h]
  rfl

theorem eq_of_run_put {l : List UInt8} {u : PUnit} (h : (put a l).run s = some (u, t)) :
    t = s.written a l := by
  unfold put at h
  rw [run_get_bind] at h
  split_ifs at h
  · exact (Prod.mk.inj (Option.some.inj h)).2.symm
  · cases h

theorem octetsAt_congr (h : ∀ i < n, s'.mem (a + i) = s.mem (a + i)) :
    s'.octetsAt a n = s.octetsAt a n := by
  refine map_congr_left ?_
  intro i hi
  exact h i (mem_range.mp hi)

theorem octetsAt_written (a : Nat) (l : List UInt8) : (s.written a l).octetsAt a l.length = l := by
  unfold octetsAt
  refine ext_getElem (by simp) ?_
  intro i hi hl
  dsimp only [written]
  simp [hl]

theorem word_octetsOf (h : n < 2 ^ 32) : word (octetsOf n) = n := by
  simp only [word, octetsOf, foldr_cons, foldr_nil, UInt8.toNat_ofNat']
  omega

/-! ## Blocks -/

theorem getBlockSize_pos (s : Ext2) : 0 < s.getBlockSize := by
  unfold Geometry.getBlockSize
  positivity

theorem four_dvd_getBlockSize (s : Ext2) : 4 ∣ s.getBlockSize :=
  Dvd.dvd.mul_right (by decide) _

theorem four_le_getBlockSize (s : Ext2) : 4 ≤ s.getBlockSize :=
  Nat.le_of_dvd s.getBlockSize_pos s.four_dvd_getBlockSize

/-- **The blocks lie in memory** one behind the other, the first of them is marked used, and what is
not marked used is a block of data. -/
structure Laid (s : Ext2) : Prop where
  fits : s.base_addr + EXT2_SUPERBLOCK_LOCATION + s.s_blocks_count * s.getBlockSize ≤ 2 ^ 32
  zero : s.blkIsUsed 0 = true
  free : ∀ b < s.s_blocks_count, s.blkIsUsed b = false →
    ∀ o < s.getBlockSize, s.data (s.blockNumToAddr b + o) = true

/-- A data block that is marked used. -/
structure Owned (s : Ext2) (b : Nat) : Prop where
  lt : b < s.s_blocks_count
  used : s.blkIsUsed b = true
  data : ∀ o < s.getBlockSize, s.data (s.blockNumToAddr b + o) = true

theorem Laid.addr (hl : s.Laid) (hb : b < s.s_blocks_count) :
    s.blockNumToAddr b = s.base_addr + EXT2_SUPERBLOCK_LOCATION + b * s.getBlockSize := by
  have hpos := s.getBlockSize_pos
  have hmul : (b + 1) * s.getBlockSize ≤ s.s_blocks_count * s.getBlockSize :=
    Nat.mul_le_mul_right _ hb
  have hfits := hl.fits
  rw [Nat.succ_mul] at hmul
  exact add32_eq

/-- **Addresses in different blocks are different.** -/
theorem Laid.apart (hl : s.Laid) {c p : Nat} (hb : b < s.s_blocks_count)
    (hc : c < s.s_blocks_count) (ho : o < s.getBlockSize) (hp : p < s.getBlockSize)
    (h : s.blockNumToAddr b + o = s.blockNumToAddr c + p) : b = c ∧ o = p := by
  rw [hl.addr hb, hl.addr hc] at h
  have hsame : o + s.getBlockSize * b = p + s.getBlockSize * c := by
    rw [Nat.mul_comm _ b, Nat.mul_comm _ c]
    omega
  have hdiv := congrArg (· / s.getBlockSize) hsame
  have hmod := congrArg (· % s.getBlockSize) hsame
  simp only [Nat.add_mul_div_left _ _ s.getBlockSize_pos, Nat.div_eq_of_lt ho,
    Nat.div_eq_of_lt hp, Nat.zero_add] at hdiv
  simp only [Nat.add_mul_mod_self_left, Nat.mod_eq_of_lt ho, Nat.mod_eq_of_lt hp] at hmod
  exact ⟨hdiv, hmod⟩

theorem Laid.count_lt (hl : s.Laid) : s.s_blocks_count < 2 ^ 32 := by
  have hfits := hl.fits
  have hle : s.s_blocks_count * 4 ≤ s.s_blocks_count * s.getBlockSize :=
    Nat.mul_le_mul_left _ s.four_le_getBlockSize
  omega

theorem Owned.inData (h : s.Owned b) (hle : o + n ≤ s.getBlockSize) :
    s.inData (s.blockNumToAddr b + o) n = true := by
  rw [inData_iff]
  intro i hi
  rw [Nat.add_assoc]
  exact h.data (o + i) (by omega)

/-- The block of a file with an index. -/
def dataBlock (s : Ext2) (n i : Nat) : Nat :=
  if i < EXT2_NDIR_BLOCKS then (s.inodes n).i_block i
  else s.wordAt (s.blockNumToAddr ((s.inodes n).i_block EXT2_NDIR_BLOCKS) +
    4 * (i - EXT2_NDIR_BLOCKS))

/-- **The blocks of a file**: data blocks of its own, one for each index; with an indirect block if
there is one behind the direct ones. -/
structure File (s : Ext2) (n k : Nat) : Prop where
  valid : s.Valid n
  le : k ≤ EXT2_N_BLOCKS
  owned : ∀ i < k, s.Owned (s.dataBlock n i)
  inj : ∀ i < k, ∀ j < k, s.dataBlock n i = s.dataBlock n j → i = j
  indirect : k = EXT2_N_BLOCKS → s.Owned ((s.inodes n).i_block EXT2_NDIR_BLOCKS) ∧
    ∀ i < k, s.dataBlock n i ≠ (s.inodes n).i_block EXT2_NDIR_BLOCKS

theorem blocks_eq : EXT2_NDIR_BLOCKS = 12 ∧ EXT2_N_BLOCKS = 13 := ⟨rfl, rfl⟩

theorem File.run_blockAt (hf : s.File n k) (hi : i < k) :
    (blockAt (s.inodes n) i).run s = some (s.dataBlock n i, s) := by
  unfold blockAt dataBlock
  rw [run_get_bind]
  by_cases hdir : i < EXT2_NDIR_BLOCKS
  · rw [if_pos hdir, if_pos hdir]
    rfl
  · rw [if_neg hdir, if_neg hdir]
    have hle := hf.le
    obtain ⟨h12, h13⟩ := blocks_eq
    obtain ⟨hind, -⟩ := hf.indirect (by omega)
    have h4 := s.four_le_getBlockSize
    exact run_load32 (hind.inData (by omega))

/-! ## What stays when a file grows -/

/-- The parts of the image that no operation changes. -/
structure Shape (s s' : Ext2) : Prop where
  base : s'.base_addr = s.base_addr
  blocks : s'.s_blocks_count = s.s_blocks_count
  count : s'.s_inodes_count = s.s_inodes_count
  log : s'.s_log_block_size = s.s_log_block_size
  data : s'.data = s.data

namespace Shape

theorem rfl' (s : Ext2) : Shape s s := ⟨rfl, rfl, rfl, rfl, rfl⟩

theorem trans (h : Shape s s') (h' : Shape s' t) : Shape s t :=
  ⟨h'.base.trans h.base, h'.blocks.trans h.blocks, h'.count.trans h.count, h'.log.trans h.log,
    h'.data.trans h.data⟩

theorem size (h : Shape s s') : s'.getBlockSize = s.getBlockSize := by
  unfold Geometry.getBlockSize
  rw [h.log]

theorem addr (h : Shape s s') (b : Nat) : s'.blockNumToAddr b = s.blockNumToAddr b := by
  unfold Geometry.blockNumToAddr
  rw [h.base, h.size]

end Shape

/-- And the inode bitmap, which no operation on the contents of files changes. -/
structure Same (s s' : Ext2) : Prop extends Shape s s' where
  inodeIsUsed : s'.inodeIsUsed = s.inodeIsUsed

theorem Same.rfl' (s : Ext2) : Same s s := ⟨Shape.rfl' s, rfl⟩

theorem Same.trans (h : Same s s') (h' : Same s' t) : Same s t :=
  ⟨h.toShape.trans h'.toShape, h'.inodeIsUsed.trans h.inodeIsUsed⟩

/-- And blocks in use stay in use. -/
structure Stays (s s' : Ext2) : Prop extends Shape s s' where
  used : ∀ b, s.blkIsUsed b = true → s'.blkIsUsed b = true

namespace Stays

/-- What is free afterwards was free before. -/
theorem free_before (h : Stays s s') (hb : s'.blkIsUsed b = false) : s.blkIsUsed b = false := by
  cases hused : s.blkIsUsed b with
  | false => rfl
  | true => simp [h.used b hused] at hb

theorem laid (h : Stays s s') (hl : s.Laid) : s'.Laid := by
  constructor
  · rw [h.base, h.blocks, h.size]
    exact hl.fits
  · exact h.used 0 hl.zero
  · intro b hb hfree o ho
    rw [h.blocks] at hb
    rw [h.size] at ho
    rw [h.data, h.addr]
    exact hl.free b hb (h.free_before hfree) o ho

theorem owned (h : Stays s s') (hb : s.Owned b) : s'.Owned b := by
  constructor
  · rw [h.blocks]
    exact hb.lt
  · exact h.used b hb.used
  · rw [h.size, h.data, h.addr]
    exact hb.data

end Stays

/-- **A file has taken more blocks**, which were free, and nothing else has changed. -/
structure Grows (s s' : Ext2) (n j k : Nat) : Prop where
  same : Same s s'
  others : ∀ m, m ≠ n → s'.inodes m = s.inodes m
  own : ∀ i < j, (s'.inodes n).i_block i = (s.inodes n).i_block i
  kept : ∀ b, s.blkIsUsed b = true → s'.blkIsUsed b = true
  fresh : ∀ b, s'.blkIsUsed b = true → s.blkIsUsed b = false →
    (∃ i, j ≤ i ∧ i < k ∧ b = s'.dataBlock n i) ∨
      (EXT2_NDIR_BLOCKS < k ∧ b = (s'.inodes n).i_block EXT2_NDIR_BLOCKS)
  new : ∀ i, j ≤ i → i < k → s.blkIsUsed (s'.dataBlock n i) = false
  mem : ∀ b, s.Owned b → ∀ o < s.getBlockSize,
    s'.mem (s.blockNumToAddr b + o) = s.mem (s.blockNumToAddr b + o)

namespace Grows

variable {n l : Nat}

theorem rfl' (s : Ext2) (n j : Nat) : Grows s s n j j where
  same := Same.rfl' s
  others _ _ := rfl
  own _ _ := rfl
  kept _ h := h
  fresh b h h' := by simp [h] at h'
  new i h h' := absurd h' (by omega)
  mem _ _ _ _ := rfl

theorem stays (h : Grows s s' n j k) : Stays s s' := ⟨h.same.toShape, h.kept⟩

/-- The blocks the file had stay its blocks. -/
theorem dataBlock (h : Grows s s' n j k) (hf : s.File n j) (hi : i < j) :
    s'.dataBlock n i = s.dataBlock n i := by
  have hle := hf.le
  obtain ⟨h12, h13⟩ := blocks_eq
  unfold Ext2.dataBlock
  by_cases hdir : i < EXT2_NDIR_BLOCKS
  · rw [if_pos hdir, if_pos hdir]
    exact h.own i hi
  · rw [if_neg hdir, if_neg hdir, h.own EXT2_NDIR_BLOCKS (by omega), h.same.addr]
    obtain ⟨hind, -⟩ := hf.indirect (by omega)
    have h4 := s.four_le_getBlockSize
    unfold wordAt
    rw [octetsAt_congr]
    intro o ho
    rw [Nat.add_assoc]
    exact h.mem _ hind _ (by omega)

theorem trans (h : Grows s s' n j k) (hf' : s'.File n k) (h' : Grows s' t n k l)
    (hjk : j ≤ k) (hkl : k ≤ l) : Grows s t n j l where
  same := h.same.trans h'.same
  others m hm := (h'.others m hm).trans (h.others m hm)
  own i hi := (h'.own i (by omega)).trans (h.own i hi)
  kept b hb := h'.kept b (h.kept b hb)
  fresh b hb hfree := by
    cases hmid : s'.blkIsUsed b with
    | true =>
      -- a block taken first is still the file's
      rcases h.fresh b hmid hfree with ⟨i, hji, hik, rfl⟩ | ⟨hk, rfl⟩
      · exact .inl ⟨i, hji, by omega, (h'.dataBlock hf' hik).symm⟩
      · exact .inr ⟨by omega, (h'.own _ hk).symm⟩
    | false =>
      rcases h'.fresh b hb hmid with ⟨i, hki, hil, rfl⟩ | ⟨hl, rfl⟩
      · exact .inl ⟨i, by omega, hil, rfl⟩
      · exact .inr ⟨hl, rfl⟩
  new i hji hil := by
    by_cases hik : i < k
    · rw [h'.dataBlock hf' hik]
      exact h.new i hji hik
    · exact h.stays.free_before (h'.new i (by omega) hil)
  mem b hb o ho := by
    have h1 := h'.mem b (h.stays.owned hb) o (by rw [h.same.size]; exact ho)
    rw [h.same.addr] at h1
    exact h1.trans (h.mem b hb o ho)

end Grows

/-! ## Taking blocks -/

theorem exists_firstUnused {used : Nat → Bool}
    (h : ∃ j, i ≤ j ∧ j < i + n ∧ used j = false) : ∃ b, firstUnused used n i = some b := by
  induction n generalizing i with
  | zero =>
    omega
  | succ n ih =>
    rw [firstUnused]
    by_cases hi : used i = true
    · rw [if_pos hi]
      refine ih ?_
      obtain ⟨j, hle, hlt, hj⟩ := h
      refine ⟨j, ?_, by omega, hj⟩
      -- the first one is not the free one
      have hne : j ≠ i := fun heq => by simp [heq, hi] at hj
      omega
    · rw [if_neg hi]
      exact ⟨i, rfl⟩

theorem stays_mark (s : Ext2) (b : Nat) : Stays s (s.markBlkUsed b) := by
  refine ⟨⟨rfl, rfl, rfl, rfl, rfl⟩, ?_⟩
  intro d hd
  rw [Consistent.blkIsUsed_mark, hd, ite_self]

/-- The free blocks. -/
def freeCount (s : Ext2) : Nat := countFree s.blkIsUsed s.s_blocks_count

theorem run_blkAlloc (hl : s.Laid) (h : 0 < s.freeCount) :
    ∃ b, b ≠ 0 ∧ b < s.s_blocks_count ∧ s.blkIsUsed b = false ∧
      (modifyGet blkAlloc : Fs Nat).run s = some (b, s.markBlkUsed b) ∧
      (s.markBlkUsed b).freeCount + 1 = s.freeCount := by
  obtain ⟨j, hj, hused⟩ := countP_pos_iff.mp h
  have hfound : ∃ b, firstUnused s.blkIsUsed s.s_blocks_count 0 = some b := by
    refine exists_firstUnused ⟨j, Nat.zero_le j, ?_, by simpa using hused⟩
    have := mem_range.mp hj
    omega
  obtain ⟨b, hb⟩ := hfound
  obtain ⟨hlt, hfree⟩ := firstUnused_spec hb
  refine ⟨b, ?_, by omega, hfree, ?_, ?_⟩
  · rintro rfl
    simp [hl.zero] at hfree
  · change some s.blkAlloc = some (b, s.markBlkUsed b)
    unfold blkAlloc
    rw [hb]
  · have hlt' : b < s.s_blocks_count := by omega
    exact (count_mark hlt' hfree (Consistent.blkIsUsed_mark s b) 0).1

/-- An inode is written. -/
def withInode (s : Ext2) (n : Nat) (f : Inode → Inode) : Ext2 :=
  { s with inodes := store s.inodes n (f (s.inodes n)) }

theorem run_setInode (n : Nat) (f : Inode → Inode) :
    (setInode n f).run s = some (⟨⟩, s.withInode n f) := rfl

theorem withInode_self (n : Nat) (f : Inode → Inode) :
    (s.withInode n f).inodes n = f (s.inodes n) := if_pos rfl

theorem withInode_other (f : Inode → Inode) (h : m ≠ n) :
    (s.withInode n f).inodes m = s.inodes m := if_neg h

/-- **A block has been taken** for an index of an inode, if there is a place for it: in the inode,
or behind an indirect block that is taken with it. -/
structure Takes (s s' : Ext2) (n idx : Nat) : Prop where
  same : Same s s'
  others : ∀ m, m ≠ n → s'.inodes m = s.inodes m
  size : (s'.inodes n).i_size = (s.inodes n).i_size
  low : ∀ i < idx, i < EXT2_NDIR_BLOCKS → (s'.inodes n).i_block i = (s.inodes n).i_block i
  used : ∀ b, s.blkIsUsed b = true → s'.blkIsUsed b = true
  fresh : idx ≤ EXT2_NDIR_BLOCKS → ∀ b, s'.blkIsUsed b = true → s.blkIsUsed b = false →
    b = s'.dataBlock n idx ∨
      idx = EXT2_NDIR_BLOCKS ∧ b = (s'.inodes n).i_block EXT2_NDIR_BLOCKS
  new : idx ≤ EXT2_NDIR_BLOCKS → s.blkIsUsed (s'.dataBlock n idx) = false ∧
    s'.Owned (s'.dataBlock n idx)
  indirect : idx = EXT2_NDIR_BLOCKS →
    s.blkIsUsed ((s'.inodes n).i_block EXT2_NDIR_BLOCKS) = false ∧
      s'.Owned ((s'.inodes n).i_block EXT2_NDIR_BLOCKS) ∧
      s'.dataBlock n idx ≠ (s'.inodes n).i_block EXT2_NDIR_BLOCKS
  mem : ∀ b < s.s_blocks_count, s'.blkIsUsed b = s.blkIsUsed b → ∀ o < s.getBlockSize,
    s'.mem (s.blockNumToAddr b + o) = s.mem (s.blockNumToAddr b + o)
  clean : idx < EXT2_NDIR_BLOCKS → s'.mem = s.mem

/-- How many blocks are needed to take a file from `j` blocks to `k`. -/
def needed (j k : Nat) : Nat :=
  k - j + if j ≤ EXT2_NDIR_BLOCKS ∧ EXT2_NDIR_BLOCKS < k then 1 else 0

theorem takes_direct {idx : Nat} (hl : s.Laid) (hdir : idx < EXT2_NDIR_BLOCKS)
    (hb : b < s.s_blocks_count) (hfree : s.blkIsUsed b = false) :
    Takes s ((s.markBlkUsed b).withInode n fun e => { e with i_block := store e.i_block idx b })
      n idx := by
  generalize hs : ((s.markBlkUsed b).withInode n fun e =>
    { e with i_block := store e.i_block idx b }) = s'
  have hinode : s'.inodes n = { s.inodes n with i_block := store (s.inodes n).i_block idx b } := by
    rw [← hs]
    exact withInode_self n _
  have hused : ∀ c, s'.blkIsUsed c = if c = b then true else s.blkIsUsed c := by
    rw [← hs]
    exact Consistent.blkIsUsed_mark s b
  have hnew : s'.dataBlock n idx = b := by
    unfold dataBlock
    rw [if_pos hdir, hinode]
    exact if_pos rfl
  have hsame : Same s s' := by
    rw [← hs]
    exact ⟨⟨rfl, rfl, rfl, rfl, rfl⟩, rfl⟩
  have hmem : s'.mem = s.mem := by
    rw [← hs]
    rfl
  constructor
  · exact hsame
  · intro m hm
    rw [← hs]
    exact withInode_other _ hm
  · rw [hinode]
  · intro i hi _
    rw [hinode]
    exact if_neg (by omega)
  · intro c hc
    rw [hused, hc, ite_self]
  · intro _ c hc hcfree
    rw [hused] at hc
    refine .inl (hnew ▸ ?_)
    by_contra hcb
    rw [if_neg hcb, hcfree] at hc
    simp at hc
  · intro _
    rw [hnew]
    refine ⟨hfree, by rw [hsame.blocks]; exact hb, by rw [hused, if_pos rfl], ?_⟩
    rw [hsame.size, hsame.data, hsame.addr]
    exact hl.free b hb hfree
  · omega
  · intro c _ _ o _
    rw [hmem]
  · exact fun _ => hmem

/-- A block behind an indirect one, which is taken with it. -/
theorem takes_indirect {c : Nat} (hl : s.Laid) (hb : b < s.s_blocks_count)
    (hbfree : s.blkIsUsed b = false) (hc : c < s.s_blocks_count) (hcfree : s.blkIsUsed c = false)
    (hbc : b ≠ c) :
    Takes s ((((s.markBlkUsed b).markBlkUsed c).withInode n fun e =>
      { e with i_block := store e.i_block EXT2_NDIR_BLOCKS c }).written (s.blockNumToAddr c)
        (octetsOf b)) n EXT2_NDIR_BLOCKS := by
  generalize hs : ((((s.markBlkUsed b).markBlkUsed c).withInode n fun e =>
    { e with i_block := store e.i_block EXT2_NDIR_BLOCKS c }).written (s.blockNumToAddr c)
      (octetsOf b)) = s'
  have hinode : s'.inodes n =
      { s.inodes n with i_block := store (s.inodes n).i_block EXT2_NDIR_BLOCKS c } := by
    rw [← hs]
    exact if_pos rfl
  have hused : ∀ d, s'.blkIsUsed d = if d = c then true else if d = b then true
      else s.blkIsUsed d := by
    intro d
    rw [← hs]
    exact (Consistent.blkIsUsed_mark (s.markBlkUsed b) c d).trans
      (by rw [Consistent.blkIsUsed_mark s b d])
  have hind : (s'.inodes n).i_block EXT2_NDIR_BLOCKS = c := by
    rw [hinode]
    change store (s.inodes n).i_block EXT2_NDIR_BLOCKS c EXT2_NDIR_BLOCKS = c
    exact if_pos rfl
  have hsame : Same s s' := by
    rw [← hs]
    exact ⟨⟨rfl, rfl, rfl, rfl, rfl⟩, rfl⟩
  have hnew : s'.dataBlock n EXT2_NDIR_BLOCKS = b := by
    unfold dataBlock wordAt
    rw [if_neg (Nat.lt_irrefl _), hind, Nat.sub_self, Nat.mul_zero, Nat.add_zero, hsame.addr, ← hs]
    have hword := octetsAt_written (s := ((s.markBlkUsed b).markBlkUsed c).withInode n fun e =>
      { e with i_block := store e.i_block EXT2_NDIR_BLOCKS c }) (s.blockNumToAddr c) (octetsOf b)
    rw [show (octetsOf b).length = 4 from rfl] at hword
    rw [hword]
    have := hl.count_lt
    exact word_octetsOf (by omega)
  have howned : ∀ d, d < s.s_blocks_count → s.blkIsUsed d = false → s'.blkIsUsed d = true →
      s'.Owned d := by
    intro d hd hdfree hdused
    refine ⟨by rw [hsame.blocks]; exact hd, hdused, ?_⟩
    rw [hsame.size, hsame.data, hsame.addr]
    exact hl.free d hd hdfree
  constructor
  · exact hsame
  · intro m hm
    rw [← hs]
    exact if_neg hm
  · rw [hinode]
  · intro i hi _
    rw [hinode]
    exact if_neg (by omega)
  · intro d hd
    rw [hused, hd, ite_self, ite_self]
  · intro _ d hd hdfree
    rw [hused] at hd
    rw [hnew, hind]
    by_contra hno
    rw [not_or, not_and] at hno
    rw [if_neg (hno.2 rfl), if_neg hno.1, hdfree] at hd
    simp at hd
  · intro _
    rw [hnew]
    exact ⟨hbfree, howned b hb hbfree (by rw [hused, if_neg hbc, if_pos rfl])⟩
  · intro _
    rw [hind, hnew]
    exact ⟨hcfree, howned c hc hcfree (by rw [hused, if_pos rfl]), hbc⟩
  · -- only the indirect block is written, and its bit has changed
    intro d hd hbit o ho
    rw [← hs]
    refine if_neg ?_
    rintro ⟨hle, hlt⟩
    have hlen : (octetsOf b).length = 4 := rfl
    have h4 := s.four_le_getBlockSize
    have heq : s.blockNumToAddr d + o =
        s.blockNumToAddr c + (s.blockNumToAddr d + o - s.blockNumToAddr c) := by omega
    obtain ⟨rfl, -⟩ := hl.apart hd hc ho (by omega) heq
    rw [hused, if_pos rfl, hcfree] at hbit
    simp at hbit
  · omega

/-- **One round** of the loop takes a block, if there are enough. -/
theorem run_addBlock (idx m i c : Nat) (hl : s.Laid) (hm : m = 0 ∨ idx + i ≤ EXT2_NDIR_BLOCKS)
    (hfree : needed (idx + i) (idx + i + 1) ≤ s.freeCount) :
    ∃ s', (addBlocks n idx (m + 1) i c).run s = (addBlocks n idx m (i + 1) (c + 1)).run s' ∧
      Takes s s' n (idx + i) ∧
      s'.freeCount + needed (idx + i) (idx + i + 1) = s.freeCount := by
  have h12 : EXT2_NDIR_BLOCKS = 12 := rfl
  unfold needed at hfree ⊢
  obtain ⟨b, hb0, hb, hbfree, hbrun, hbcount⟩ := run_blkAlloc hl (by omega)
  have hmark := Consistent.blkIsUsed_mark s b
  rw [addBlocks, run_bind_of hbrun, if_neg hb0]
  rcases Nat.lt_trichotomy (idx + i) EXT2_NDIR_BLOCKS with hdir | hlast | hbeyond
  · rw [if_pos hdir, run_bind_of (run_setInode n _)]
    refine ⟨_, rfl, takes_direct hl hdir hb hbfree, ?_⟩
    rw [if_neg (by omega)]
    change (s.markBlkUsed b).freeCount + _ = _
    omega
  · -- the indirect block is taken with it
    rw [if_pos (by omega)] at hfree
    obtain ⟨d, -, hd, hdfree, hdrun, hdcount⟩ := run_blkAlloc ((stays_mark s b).laid hl) (by omega)
    have hbd : b ≠ d := by
      rintro rfl
      rw [hmark, if_pos rfl] at hdfree
      simp at hdfree
    rw [hmark, if_neg (Ne.symm hbd)] at hdfree
    have hput : ∀ t : Ext2, t.data = s.data → (put32 (s.blockNumToAddr d) b).run t =
        some (⟨⟩, t.written (s.blockNumToAddr d) (octetsOf b)) := by
      intro t ht
      refine run_put (inData_iff.mpr ?_)
      intro o ho
      have h4 := s.four_le_getBlockSize
      have hlen : (octetsOf b).length = 4 := rfl
      rw [ht]
      exact hl.free d hd hdfree o (by omega)
    rw [if_neg (by omega), if_pos hlast, run_bind_of hdrun, run_bind_of (run_setInode n _),
      run_get_bind]
    refine ⟨_, run_bind_of (hput _ rfl), ?_, ?_⟩
    · rw [hlast]
      exact takes_indirect hl hb hbfree hd hdfree hbd
    · rw [if_pos (by omega)]
      change ((s.markBlkUsed b).markBlkUsed d).freeCount + _ = _
      omega
  · -- there is no place for the block
    obtain rfl : m = 0 := by omega
    rw [if_neg (by omega), if_neg (by omega)]
    refine ⟨_, rfl, ?_, ?_⟩
    · refine ⟨⟨⟨rfl, rfl, rfl, rfl, rfl⟩, rfl⟩, fun _ _ => rfl, rfl, fun _ _ _ => rfl,
        (stays_mark s b).used, ?_, ?_, ?_, fun _ _ _ _ _ => rfl, fun _ => rfl⟩
      · omega
      · omega
      · omega
    · rw [if_neg (by omega)]
      omega

/-- **A file with one block more.** -/
theorem File.takes (hf : s.File n j) (h : Takes s s' n j) (hj : j < EXT2_N_BLOCKS) :
    s'.File n (j + 1) ∧ Grows s s' n j (j + 1) := by
  obtain ⟨h12, h13⟩ := blocks_eq
  obtain ⟨hnewfree, hnew⟩ := h.new (by omega)
  have hgrows : Grows s s' n j (j + 1) := by
    refine ⟨h.same, h.others, fun i hi => h.low i hi (by omega), h.used, ?_, ?_, ?_⟩
    · intro b hb hfree
      rcases h.fresh (by omega) b hb hfree with rfl | ⟨hlast, rfl⟩
      · exact .inl ⟨j, le_refl j, by omega, rfl⟩
      · exact .inr ⟨by omega, rfl⟩
    · intro i hji hij
      obtain rfl : i = j := by omega
      exact hnewfree
    · intro b hb
      exact h.mem b hb.lt (by rw [h.used b hb.used, hb.used])
  -- the new blocks are not among the old ones, which were in use
  have hne : ∀ i < j, ∀ b, s.blkIsUsed b = false → s'.dataBlock n i ≠ b := by
    rintro i hi b hb rfl
    rw [hgrows.dataBlock hf hi, (hf.owned i hi).used] at hb
    simp at hb
  refine ⟨⟨?_, by omega, ?_, ?_, ?_⟩, hgrows⟩
  · unfold Valid
    rw [h.same.count]
    exact hf.valid
  · intro i hi
    by_cases hij : i = j
    · rw [hij]
      exact hnew
    · rw [hgrows.dataBlock hf (by omega)]
      exact hgrows.stays.owned (hf.owned i (by omega))
  · intro i hi i' hi' heq
    by_cases hij : i = j
    · by_cases hij' : i' = j
      · omega
      · rw [hij] at heq
        exact absurd heq.symm (hne i' (by omega) _ hnewfree)
    · by_cases hij' : i' = j
      · rw [hij'] at heq
        exact absurd heq (hne i (by omega) _ hnewfree)
      · rw [hgrows.dataBlock hf (by omega), hgrows.dataBlock hf (by omega)] at heq
        exact hf.inj i (by omega) i' (by omega) heq
  · intro hlast
    obtain ⟨hfree, hown, hdiff⟩ := h.indirect (by omega)
    refine ⟨hown, ?_⟩
    intro i hi
    by_cases hij : i = j
    · rw [hij]
      exact hdiff
    · exact hne i (by omega) _ hfree

/-- **A file takes the blocks it needs**, if there are enough. -/
theorem run_addBlocks (idx m i c : Nat) (hl : s.Laid) (hf : s.File n (idx + i))
    (hle : idx + i + m ≤ EXT2_N_BLOCKS) (hfree : needed (idx + i) (idx + i + m) ≤ s.freeCount) :
    ∃ s', (addBlocks n idx m i c).run s = some (c + m, s') ∧ s'.File n (idx + i + m) ∧
      Grows s s' n (idx + i) (idx + i + m) ∧
      (s'.inodes n).i_size = (s.inodes n).i_size := by
  obtain ⟨h12, h13⟩ := blocks_eq
  -- by induction on the blocks to take; the file has more blocks after each round
  induction m generalizing s i c with
  | zero => exact ⟨s, rfl, hf, Grows.rfl' s n _, rfl⟩
  | succ m ih =>
    have hone : needed (idx + i) (idx + i + 1) ≤ s.freeCount := by
      unfold needed at hfree ⊢
      split <;> split at hfree <;> omega
    obtain ⟨s₁, hrun₁, ht₁, hcount⟩ := run_addBlock idx m i c hl (by omega) hone
    obtain ⟨hf₁, hg₁⟩ := hf.takes ht₁ (by omega)
    have hrest : needed (idx + (i + 1)) (idx + (i + 1) + m) ≤ s₁.freeCount := by
      unfold needed at hfree hcount ⊢
      split <;> split at hfree <;> split at hcount <;> omega
    obtain ⟨t, hrun, hft, hgt, hst⟩ :=
      ih (i + 1) (c + 1) (hg₁.stays.laid hl) hf₁ (by omega) hrest
    refine ⟨t, ?_, ?_, ?_, ?_⟩
    · rw [hrun₁, hrun, Nat.add_assoc c, Nat.add_comm 1 m]
    · rw [show idx + i + (m + 1) = idx + (i + 1) + m by omega]
      exact hft
    · rw [show idx + i + (m + 1) = idx + (i + 1) + m by omega]
      exact hg₁.trans hf₁ hgt (by omega) (by omega)
    · rw [hst, ht₁.size]

/-! ## Making a file larger -/

/-- How many blocks a number of bytes takes. -/
def blocksFor (bs n : Nat) : Nat := n / bs + if n % bs = 0 then 0 else 1

theorem blocksFor_le_iff (h : 0 < bs) : blocksFor bs n ≤ m ↔ n ≤ m * bs := by
  unfold blocksFor
  by_cases hmod : n % bs = 0
  · rw [if_pos hmod, Nat.add_zero]
    have hn : n / bs * bs = n := Nat.div_mul_cancel (Nat.dvd_of_mod_eq_zero hmod)
    constructor
    · intro hle
      rw [← hn]
      exact Nat.mul_le_mul_right bs hle
    · intro hle
      exact Nat.div_le_of_le_mul (by rwa [Nat.mul_comm])
  · rw [if_neg hmod, Nat.succ_le_iff, Nat.div_lt_iff_lt_mul h]
    constructor
    · exact Nat.le_of_lt
    · intro hle
      refine Nat.lt_of_le_of_ne hle ?_
      rintro rfl
      exact hmod (Nat.mul_mod_left m bs)

theorem blocksFor_add (bs k n : Nat) (h : 0 < bs) :
    blocksFor bs (k * bs + n) = k + blocksFor bs n := by
  unfold blocksFor
  rw [Nat.add_comm (k * bs), Nat.add_mul_div_right _ _ h, Nat.add_mul_mod_self_right]
  omega

theorem blocksFor_mono (h : 0 < bs) (hle : n ≤ m) : blocksFor bs n ≤ blocksFor bs m :=
  (blocksFor_le_iff h).mpr (hle.trans ((blocksFor_le_iff h).mp (le_refl _)))

/-- The blocks that `increase_inode_size` takes: those behind the blocks the file has, for the bytes
that do not fit in the last of them. -/
theorem blocksFor_increase (size nbytes : Nat) (h : 0 < bs) :
    (if size % bs = 0 then size / bs else size / bs + 1) = blocksFor bs size ∧
      blocksFor bs size + blocksFor bs (if size % bs = 0 then nbytes
        else if bs - size % bs > nbytes then 0 else nbytes - (bs - size % bs)) =
          blocksFor bs (size + nbytes) := by
  have hmod := Nat.mod_lt size h
  have hdiv : size / bs * bs + size % bs = size := Nat.div_add_mod' size bs
  by_cases hpart : size % bs = 0
  · have hk : blocksFor bs size = size / bs := by rw [blocksFor, if_pos hpart, Nat.add_zero]
    rw [if_pos hpart, if_pos hpart, hk, ← blocksFor_add _ _ _ h]
    refine ⟨rfl, ?_⟩
    congr 1
    omega
  · have hk : blocksFor bs size = size / bs + 1 := by rw [blocksFor, if_neg hpart]
    rw [if_neg hpart, if_neg hpart, hk]
    refine ⟨rfl, ?_⟩
    by_cases hdecr : bs - size % bs > nbytes
    · -- the bytes fit in the last block
      rw [if_pos hdecr]
      have hzero : blocksFor bs 0 = 0 := by simp [blocksFor]
      have hsucc : (size / bs + 1) * bs = size / bs * bs + bs := Nat.succ_mul _ _
      rw [hzero, Nat.add_zero]
      refine le_antisymm ?_ ((blocksFor_le_iff h).mpr (by omega))
      rw [Nat.succ_le_iff, ← Nat.not_le, blocksFor_le_iff h]
      omega
    · rw [if_neg hdecr, ← blocksFor_add _ _ _ h]
      have hsucc : (size / bs + 1) * bs = size / bs * bs + bs := Nat.succ_mul _ _
      congr 1
      omega

/-- The size of a file may be written as one likes. -/
theorem File.withInode (hf : s.File n k) (f : Inode → Inode)
    (hkeep : ∀ e, (f e).i_block = e.i_block) :
    (s.withInode n f).File n k ∧ Grows s (s.withInode n f) n k k := by
  have hblock : ((s.withInode n f).inodes n).i_block = (s.inodes n).i_block := by
    rw [withInode_self, hkeep]
  have hdata : (s.withInode n f).dataBlock n = s.dataBlock n := by
    funext i
    unfold dataBlock
    rw [hblock]
    rfl
  refine ⟨⟨hf.valid, hf.le, ?_, ?_, ?_⟩, ?_⟩
  · rw [hdata]
    exact fun i hi => ⟨(hf.owned i hi).lt, (hf.owned i hi).used, (hf.owned i hi).data⟩
  · rw [hdata]
    exact hf.inj
  · rw [hdata, hblock]
    intro hk
    obtain ⟨hind, hne⟩ := hf.indirect hk
    exact ⟨⟨hind.lt, hind.used, hind.data⟩, hne⟩
  · constructor
    · exact ⟨⟨rfl, rfl, rfl, rfl, rfl⟩, rfl⟩
    · intro m hm
      exact withInode_other f hm
    · intro i _
      rw [hblock]
    · exact fun b hb => hb
    · intro b hb hfree
      have hb' : s.blkIsUsed b = true := hb
      simp [hfree] at hb'
    · intro i hki hik
      omega
    · exact fun b _ o _ => rfl

/-- A file has at most the blocks that are not free. -/
theorem File.le_count (hf : s.File n k) : k + s.freeCount ≤ s.s_blocks_count := by
  have hsub : (range k).map (s.dataBlock n) ⊆
      (range s.s_blocks_count).filter s.blkIsUsed := by
    intro b hb
    obtain ⟨i, hi, rfl⟩ := mem_map.mp hb
    have hown := hf.owned i (mem_range.mp hi)
    exact mem_filter.mpr ⟨mem_range.mpr hown.lt, hown.used⟩
  have hnodup : ((range k).map (s.dataBlock n)).Nodup := by
    refine List.Nodup.map_on ?_ nodup_range
    intro i hi j hj heq
    exact hf.inj i (mem_range.mp hi) j (mem_range.mp hj) heq
  have hle := (hnodup.subperm hsub).length_le
  rw [length_map, length_range, ← countP_eq_length_filter] at hle
  have hall := length_eq_countP_add_countP s.blkIsUsed (l := range s.s_blocks_count)
  rw [length_range] at hall
  have hfree : s.freeCount =
      (range s.s_blocks_count).countP fun b => decide ¬s.blkIsUsed b = true := by
    refine countP_congr ?_
    intro b _
    simp
  omega

/-- The blocks a file needs are there, so its size is a number of 32 bits. -/
theorem File.lt_of_needed {size : Nat} (hl : s.Laid) (hf : s.File n k)
    (hk : k ≤ blocksFor s.getBlockSize size)
    (hfree : needed k (blocksFor s.getBlockSize size) ≤ s.freeCount) : size < 2 ^ 32 := by
  have hcount := hf.le_count
  unfold needed at hfree
  have hle : size ≤ s.s_blocks_count * s.getBlockSize :=
    (blocksFor_le_iff s.getBlockSize_pos).mp (by omega)
  have hfits := hl.fits
  have hloc : EXT2_SUPERBLOCK_LOCATION = 1024 := rfl
  omega

section

variable {n : Nat} (hj : blocksFor s.getBlockSize (s.inodes n).i_size = j)
include hj

/-- `increase_inode_size` takes the blocks that the new size needs, and writes the size. -/
theorem run_increase_of (nbytes : Nat)
    (hk : blocksFor s.getBlockSize ((s.inodes n).i_size + nbytes) = k) (t : Ext2) (hv : s.Valid n)
    (hrun : (addBlocks n j (k - j) 0 0).run s = some (k - j, t)) :
    ∃ c, (increaseInodeSize n nbytes).run s =
      some (c, t.withInode n fun e => { e with i_size := add32 e.i_size nbytes }) := by
  subst hj hk
  obtain ⟨hidx, hnum⟩ := blocksFor_increase (s.inodes n).i_size nbytes s.getBlockSize_pos
  unfold increaseInodeSize
  rw [run_get_bind, run_bind_of (run_inode hv)]
  dsimp only
  rw [hidx]
  generalize (if (s.inodes n).i_size % s.getBlockSize = 0 then nbytes
    else if s.getBlockSize - (s.inodes n).i_size % s.getBlockSize > nbytes then 0
    else nbytes - (s.getBlockSize - (s.inodes n).i_size % s.getBlockSize)) = rest at hnum ⊢
  rw [show rest / s.getBlockSize + (if rest % s.getBlockSize = 0 then 0 else 1) =
    blocksFor s.getBlockSize rest from rfl]
  rw [← hnum, Nat.add_sub_cancel_left] at hrun
  rw [run_bind_of hrun]
  simp only [↓reduceIte]
  exact ⟨_, run_bind_of (run_setInode n _)⟩

theorem run_increaseInodeSize (nbytes : Nat)
    (hk : blocksFor s.getBlockSize ((s.inodes n).i_size + nbytes) = k) (hl : s.Laid)
    (hf : s.File n j) (hle : k ≤ EXT2_N_BLOCKS) (hfree : needed j k ≤ s.freeCount) :
    ∃ c s', (increaseInodeSize n nbytes).run s = some (c, s') ∧ s'.File n k ∧ Grows s s' n j k ∧
      (s'.inodes n).i_size = (s.inodes n).i_size + nbytes := by
  have hmono := blocksFor_mono s.getBlockSize_pos (Nat.le_add_right (s.inodes n).i_size nbytes)
  rw [hj] at hmono
  have hlt := hf.lt_of_needed hl hmono (hk ▸ hfree)
  rw [hk] at hmono
  have hsum : j + (k - j) = k := by omega
  obtain ⟨t, hrun, hft, hgt, hst⟩ := run_addBlocks j (k - j) 0 0 hl hf
    (by rw [Nat.add_zero, hsum]; exact hle) (by rw [Nat.add_zero, hsum]; exact hfree)
  rw [Nat.zero_add] at hrun
  rw [Nat.add_zero, hsum] at hft hgt
  obtain ⟨c, hrun'⟩ := run_increase_of hj nbytes hk t hf.valid hrun
  obtain ⟨hf', hg'⟩ :=
    hft.withInode (fun e => { e with i_size := add32 e.i_size nbytes }) fun _ => rfl
  refine ⟨c, _, hrun', hf', hgt.trans hft hg' (by omega) (le_refl _), ?_⟩
  rw [withInode_self]
  rw [hst, add32_eq hlt]

/-- **A file is made large enough**: it has the blocks for its new size, if there are enough. -/
theorem run_growTo {size : Nat} (hk : blocksFor s.getBlockSize (max (s.inodes n).i_size size) = k)
    (hl : s.Laid) (hf : s.File n j) (hle : size ≤ EXT2_N_BLOCKS * s.getBlockSize)
    (hfree : needed j k ≤ s.freeCount) :
    ∃ c s', (growTo n (s.inodes n).i_size size).run s = some (c, s') ∧ s'.File n k ∧
      Grows s s' n j k ∧ (s'.inodes n).i_size = max (s.inodes n).i_size size := by
  subst hj hk
  have hpos := s.getBlockSize_pos
  unfold growTo
  by_cases hgrow : (s.inodes n).i_size < size
  · rw [max_eq_right (Nat.le_of_lt hgrow)] at hfree ⊢
    have hlt := hf.lt_of_needed hl (blocksFor_mono hpos (Nat.le_of_lt hgrow)) hfree
    rw [if_pos hgrow, sub32_eq (Nat.le_of_lt hgrow) hlt]
    have hsum : (s.inodes n).i_size + (size - (s.inodes n).i_size) = size := by omega
    have h := run_increaseInodeSize rfl (size - (s.inodes n).i_size) rfl hl hf
    rw [hsum] at h
    exact h ((blocksFor_le_iff hpos).mpr hle) hfree
  · rw [if_neg hgrow, max_eq_left (Nat.le_of_not_lt hgrow)]
    exact ⟨0, s, rfl, hf, Grows.rfl' s n _, rfl⟩

end

/-! ## Images of 64 blocks -/

theorem addr_small (hs : Shape smallImage s) (hb : b < 64) :
    s.blockNumToAddr b = 1280 + b * 1024 := by
  rw [hs.addr]
  exact add32_eq (by change 1280 + b * 1024 < 2 ^ 32; omega)

theorem blkIsUsed_small (hm : m ≤ 32)
    (hbits : s.blkBits = fun g w b => g == 0 && w == 0 && decide (b < m))
    (hper : s.s_blocks_per_group = 64) (hb : b < 64) :
    s.blkIsUsed b = decide (b < m) := by
  unfold blkIsUsed
  rw [hbits, hper, Nat.div_eq_of_lt hb, Nat.mod_eq_of_lt hb]
  by_cases h32 : b < 32
  · rw [Nat.div_eq_of_lt h32, Nat.mod_eq_of_lt h32]
    rfl
  · have hw : b / 32 = 1 := by omega
    have hout : decide (b < m) = false := decide_eq_false (by omega)
    rw [hw, hout]
    rfl

theorem data_small (hs : Shape smallImage s) (h5 : 5 ≤ b) (hb : b < 64)
    (ho : o < 1024) : s.data (s.blockNumToAddr b + o) = true := by
  rw [addr_small hs hb, hs.data]
  exact decide_eq_true ⟨by omega, by omega⟩

theorem laid_small (hs : Shape smallImage s) (h5 : 5 ≤ m)
    (hused : ∀ b < 64, s.blkIsUsed b = decide (b < m)) : s.Laid := by
  constructor
  · rw [hs.base, hs.blocks, hs.size]
    decide
  · rw [hused 0 (by decide)]
    exact decide_eq_true (by omega)
  · intro b hb hfree o ho
    rw [hs.blocks] at hb
    rw [hs.size] at ho
    rw [hused b hb, decide_eq_false_iff_not] at hfree
    exact data_small hs (by omega) hb ho

theorem owned_small (hs : Shape smallImage s) (h5 : 5 ≤ m) (hm : m ≤ 64)
    (hused : ∀ b < 64, s.blkIsUsed b = decide (b < m)) (hb5 : 5 ≤ b) (hb : b < m) : s.Owned b := by
  constructor
  · rw [hs.blocks]
    change b < 64
    omega
  · rw [hused b (by omega), decide_eq_true hb]
  · intro o ho
    rw [hs.size] at ho
    exact data_small hs hb5 (by omega) ho

end Xinu.Ext2
