import Mathlib.Data.List.Range
import Xinu.Ext2.Image
import Xinu.Memory.FreeList

/-!
# The counters of the ext2 file system

The superblock and the descriptor of each group count the free blocks and inodes, next to the two
bitmaps. Allocation keeps them in step: it marks what was free. So do all operations that only
allocate, whatever they do to inodes and data. Deallocation does not: it decrements the counters of
the group, and clears the bit of another inode.

## Main results

* `Ext2.Consistent.markBlk`, `Ext2.Consistent.markInode`: marking what is free
* `Ext2.consistent_call`: the operations that allocate keep the counters consistent
* `ext2_counters_consistent`: along every sequence of such operations
-/

namespace Xinu

open List Ext2

namespace Ext2

variable {i n : Nat} {s : Ext2} {used : Nat → Bool}

/-! ## Counting -/

/-- How many numbers below a bound are free, and how many of them in a group. -/
def countFree (used : Nat → Bool) (n : Nat) : Nat := (List.range n).countP fun i => !used i
def countFreeIn (used : Nat → Bool) (n per g : Nat) : Nat :=
  (List.range n).countP fun i => !used i && i / per == g

/-- A predicate that fails at one more place is true one time less. -/
theorem countP_drop {l : List Nat} (hl : l.Nodup) (hi : i ∈ l) {p q : Nat → Bool}
    (hp : p i = true) (hq : q i = false) (hother : ∀ j, j ≠ i → q j = p j) :
    l.countP q + 1 = l.countP p := by
  have hperm := perm_cons_erase hi
  have hsame : (l.erase i).countP q = (l.erase i).countP p := by
    refine countP_congr fun j hj => ?_
    rw [hother j (hl.mem_erase_iff.mp hj).1]
  rw [hperm.countP_eq, hperm.countP_eq, countP_cons, countP_cons, hsame, hp, hq]
  rfl

/-- A number is a bit of its own. -/
theorem bit_inj {per j : Nat} (hg : i / per = j / per) (hw : i % per / 32 = j % per / 32)
    (hb : i % 32 = j % 32) : i = j := by
  have hi := Nat.div_add_mod i per
  have hj := Nat.div_add_mod j per
  rw [hg] at hi
  omega

theorem setBit_apply (f : Nat → Nat → Nat → Bool) (per i j : Nat) (v : Bool) :
    setBit f (i / per) (i % per / 32) (i % 32) v (j / per) (j % per / 32) (j % 32) =
      if j = i then v else f (j / per) (j % per / 32) (j % 32) := by
  unfold setBit
  by_cases hji : j = i
  · subst hji
    rw [if_pos ⟨rfl, rfl, rfl⟩, if_pos rfl]
  · rw [if_neg hji, if_neg]
    rintro ⟨hg, hw, hb⟩
    exact hji (bit_inj hg hw hb)

theorem firstUnused_spec {j : Nat} (h : firstUnused used n i = some j) :
    j < i + n ∧ used j = false := by
  induction n generalizing i with
  | zero => simp [firstUnused] at h
  | succ n ih =>
    rw [firstUnused] at h
    split at h
    · obtain ⟨hlt, hu⟩ := ih h
      exact ⟨by omega, hu⟩
    · rename_i hu
      cases h
      exact ⟨by omega, by simpa using hu⟩

/-! ## The counters -/

/-- **The counters are the numbers of clear bits**, of the blocks and inodes altogether and of those
in each group. -/
structure Consistent (s : Ext2) : Prop where
  blocks : s.s_free_blocks_count = countFree s.blkIsUsed s.s_blocks_count
  inodes : s.s_free_inodes_count = countFree s.inodeIsUsed s.s_inodes_count
  groupBlocks : ∀ g, s.bg_free_blocks_count g =
    countFreeIn s.blkIsUsed s.s_blocks_count s.s_blocks_per_group g
  groupInodes : ∀ g, s.bg_free_inodes_count g =
    countFreeIn s.inodeIsUsed s.s_inodes_count s.s_inodes_per_group g

theorem count_mark {used' : Nat → Bool} (hi : i < n) (hfree : used i = false)
    (hmark : ∀ j, used' j = if j = i then true else used j) (per : Nat) :
    countFree used' n + 1 = countFree used n ∧
      ∀ g, countFreeIn used' n per g + (if i / per = g then 1 else 0) =
        countFreeIn used n per g := by
  have hmem : i ∈ List.range n := mem_range.mpr hi
  constructor
  · refine countP_drop nodup_range hmem (by simp [hfree]) (by simp [hmark]) ?_
    intro j hj
    rw [hmark, if_neg hj]
  · intro g
    by_cases hg : i / per = g
    · rw [if_pos hg]
      refine countP_drop nodup_range hmem (by simp [hfree, hg]) (by simp [hmark]) ?_
      intro j hj
      rw [hmark, if_neg hj]
    · rw [if_neg hg]
      refine countP_congr ?_
      intro j _
      by_cases hj : j = i
      · subst hj
        simp [hg]
      · rw [hmark, if_neg hj]

theorem dec16_eq (h0 : 0 < n) : dec16 n = n - 1 := if_neg (Nat.ne_of_gt h0)

theorem dec32_eq (h0 : 0 < n) : dec32 n = n - 1 := if_neg (Nat.ne_of_gt h0)

namespace Consistent

theorem blkIsUsed_mark (s : Ext2) (i j : Nat) :
    (s.markBlkUsed i).blkIsUsed j = if j = i then true else s.blkIsUsed j := by
  exact setBit_apply s.blkBits s.s_blocks_per_group i j true

theorem inodeIsUsed_mark (s : Ext2) (i j : Nat) :
    (s.markInodeUsed i).inodeIsUsed j = if j = i then true else s.inodeIsUsed j := by
  exact setBit_apply s.inodeBits s.s_inodes_per_group i j true

/-- A counter and the counters of the groups stay right when one number is marked. -/
theorem counters_mark {used' : Nat → Bool} {per free : Nat} {bg : Nat → Nat} (hi : i < n)
    (hfree : used i = false) (hmark : ∀ j, used' j = if j = i then true else used j)
    (hall : free = countFree used n) (hgroup : ∀ g, bg g = countFreeIn used n per g) :
    dec32 free = countFree used' n ∧
      ∀ g, store bg (i / per) (dec16 (bg (i / per))) g = countFreeIn used' n per g := by
  obtain ⟨hdrop, hdrops⟩ := count_mark hi hfree hmark per
  refine ⟨?_, fun g => ?_⟩
  · rw [dec32_eq (by omega)]
    omega
  · have hg := hdrops g
    have hbg := hgroup g
    unfold store
    by_cases hig : g = i / per
    · -- the counter of the group it is in is not zero
      subst hig
      rw [if_pos rfl] at hg
      rw [if_pos rfl, dec16_eq (by omega)]
      omega
    · rw [if_neg (Ne.symm hig)] at hg
      rw [if_neg hig]
      omega

/-- Marking a free block. -/
theorem markBlk (h : s.Consistent) (hi : i < s.s_blocks_count)
    (hfree : s.blkIsUsed i = false) : (s.markBlkUsed i).Consistent := by
  obtain ⟨hall, hgroup⟩ := counters_mark hi hfree (blkIsUsed_mark s i) h.blocks h.groupBlocks
  exact ⟨hall, h.inodes, hgroup, h.groupInodes⟩

/-- Marking a free inode. -/
theorem markInode (h : s.Consistent) (hi : i < s.s_inodes_count)
    (hfree : s.inodeIsUsed i = false) : (s.markInodeUsed i).Consistent := by
  obtain ⟨hall, hgroup⟩ := counters_mark hi hfree (inodeIsUsed_mark s i) h.inodes h.groupInodes
  exact ⟨h.blocks, hall, h.groupBlocks, hgroup⟩

theorem blkAlloc (h : s.Consistent) : s.blkAlloc.2.Consistent := by
  unfold Ext2.blkAlloc
  split
  · rename_i i hi
    obtain ⟨hlt, hfree⟩ := firstUnused_spec hi
    exact h.markBlk (by omega) hfree
  · exact h

theorem inodeAlloc (h : s.Consistent) : s.inodeAlloc.2.Consistent := by
  unfold Ext2.inodeAlloc
  split
  · rename_i i hi
    obtain ⟨hlt, hfree⟩ := firstUnused_spec hi
    exact h.markInode (by omega) hfree
  · exact h

end Consistent

/-! ## What the functions do to the counters -/

variable {P : Ext2 → Prop}

abbrev KeepsCounters {α : Type} (m : Fs α) : Prop := Keeps Consistent m

/-- Inodes and data may be written as one likes. -/
theorem keeps_setInode (n : Nat) (f : Inode → Inode) : KeepsCounters (setInode n f) :=
  .modify fun _ h => ⟨h.1, h.2, h.3, h.4⟩

theorem keeps_put (addr : Nat) (octets : List UInt8) : KeepsCounters (put addr octets) := by
  refine .bind .get fun s => .ite ?_ .failure
  exact .modify fun _ h => ⟨h.1, h.2, h.3, h.4⟩

theorem keeps_load (addr n : Nat) : Keeps P (load addr n) :=
  .bind .get fun _ => .ite (.pure _) .failure

theorem keeps_load32 (addr : Nat) : Keeps P (load32 addr) :=
  (keeps_load addr 4).bind fun _ => .pure _

theorem keeps_load8 (addr : Nat) : Keeps P (load8 addr) :=
  (keeps_load addr 1).bind fun _ => .pure _

theorem keeps_inode (n : Nat) : Keeps P (inode n) :=
  .bind .get fun _ => .ite (.pure _) .failure

theorem keeps_blockOf (e : Inode) (i : Nat) : Keeps P (blockOf e i) :=
  .ite (.pure _) .failure

theorem keeps_blkAlloc : KeepsCounters (modifyGet blkAlloc : Fs Nat) :=
  .modifyGet fun _ h => h.blkAlloc

theorem keeps_inodeAlloc : KeepsCounters (modifyGet inodeAlloc : Fs Nat) :=
  .modifyGet fun _ h => h.inodeAlloc

theorem keeps_addBlocks (n blk_index k i blks_alloc : Nat) :
    KeepsCounters (addBlocks n blk_index k i blks_alloc) := by
  induction k generalizing i blks_alloc with
  | zero => exact .pure _
  | succ k ih =>
    refine keeps_blkAlloc.bind fun last => .ite (.pure _) (.ite ?_ (.ite ?_ ?_))
    · exact (keeps_setInode _ _).bind fun _ => ih _ _
    · refine keeps_blkAlloc.bind fun indir => (keeps_setInode _ _).bind fun _ => ?_
      exact Keeps.get.bind fun s => (keeps_put _ _).bind fun _ => ih _ _
    · exact .pure _

theorem keeps_increaseInodeSize (n nbytes : Nat) : KeepsCounters (increaseInodeSize n nbytes) := by
  refine Keeps.get.bind fun s => (keeps_inode n).bind fun e => ?_
  refine (keeps_addBlocks _ _ _ _ _).bind fun blks => ?_
  exact (keeps_setInode _ _).bind fun _ => Keeps.pure _

theorem keeps_blockAt (e : Inode) (i : Nat) : Keeps P (blockAt e i) :=
  Keeps.get.bind fun _ => Keeps.ite (Keeps.pure _) (keeps_load32 _)

theorem keeps_writePlace (e : Inode) (index indir blk_offset : Nat) :
    Keeps P (writePlace e index indir blk_offset) := by
  refine Keeps.get.bind fun s => Keeps.ite ?_ (Keeps.pure _)
  exact (keeps_load32 _).bind fun _ => Keeps.pure _

theorem keeps_writeLoop (n fuel index indir blk_offset : Nat) (buffer : List UInt8)
    (remaining : Nat) :
    KeepsCounters (writeLoop n fuel index indir blk_offset buffer remaining) := by
  induction fuel generalizing index indir blk_offset buffer remaining with
  | zero => exact .failure
  | succ fuel ih =>
    refine .ite (.pure _) (.ite ?_ (.pure _))
    refine Keeps.get.bind fun s => (keeps_inode n).bind fun e => ?_
    refine (keeps_writePlace _ _ _ _).bind ?_
    rintro ⟨index', indir', data⟩
    refine Keeps.ite ?_ ?_
    · exact (keeps_put _ _).bind fun _ => Keeps.pure _
    · exact (keeps_put _ _).bind fun _ => ih _ _ _ _ _

theorem keeps_writeFileByInode (file : Nat) (buffer : List UInt8) (start nbytes : Nat) :
    KeepsCounters (writeFileByInode file buffer start nbytes) := by
  refine (keeps_load32 _).bind fun n => (keeps_inode n).bind fun e => Keeps.get.bind fun s => ?_
  refine Keeps.ite (Keeps.pure _) ?_
  refine .bind (.ite (keeps_increaseInodeSize _ _) (.pure _)) fun _ => ?_
  exact (keeps_writeLoop _ _ _ _ _ _ _).bind fun _ => .pure _

theorem keeps_readLoop (e : Inode) (k i block_offset remaining : Nat) (acc : List UInt8) :
    Keeps P (readLoop e k i block_offset remaining acc) := by
  induction k generalizing i block_offset remaining acc with
  | zero => exact .pure _
  | succ k ih =>
    refine Keeps.ite (Keeps.pure _) (Keeps.get.bind fun s => ?_)
    refine (keeps_blockAt _ _).bind fun b => Keeps.ite ?_ ?_
    · exact (keeps_load _ _).bind fun _ => .pure _
    · exact (keeps_load _ _).bind fun _ => ih _ _ _ _

theorem keeps_readDirent (file start nbytes : Nat) : Keeps P (readDirent file start nbytes) := by
  refine (keeps_load32 _).bind fun n => (keeps_inode n).bind fun e => Keeps.get.bind fun s => ?_
  exact (keeps_readLoop _ _ _ _ _ _).bind fun _ => Keeps.pure _

theorem keeps_hasName (filename : List UInt8) (dirent : Nat) :
    Keeps P (hasName filename dirent) := by
  refine (keeps_load8 _).bind fun len => .ite ?_ (.pure _)
  exact (keeps_load _ _).bind fun _ => .pure _

theorem keeps_lookIn (filename : List UInt8) (blk_size first fuel dirent : Nat) :
    Keeps P (lookIn filename blk_size first fuel dirent) := by
  induction fuel generalizing dirent with
  | zero => exact .failure
  | succ fuel ih =>
    refine .ite (.pure _) ((keeps_hasName _ _).bind fun same => ?_)
    refine .ite (.pure _) ?_
    exact (keeps_load32 _).bind fun next => .ite (.pure _) (ih next)

theorem keeps_lookInBlocks (e : Inode) (filename : List UInt8) (k i : Nat) :
    Keeps P (lookInBlocks e filename k i) := by
  induction k generalizing i with
  | zero => exact .pure _
  | succ k ih =>
    refine Keeps.get.bind fun s => ?_
    refine (keeps_blockAt _ _).bind fun b => ?_
    exact (keeps_lookIn _ _ _ _ _).bind fun r => Keeps.ite (ih (i + 1)) (Keeps.pure _)

theorem keeps_getDirentFromInode (n : Nat) (filename : List UInt8) :
    Keeps P (getDirentFromInode n filename) :=
  (keeps_inode n).bind fun _ => keeps_lookInBlocks _ _ _ _

theorem keeps_followPath (path : List (List UInt8)) (n dirent : Nat) :
    Keeps P (followPath path n dirent) := by
  induction path generalizing n dirent with
  | nil => exact .pure _
  | cons name path ih =>
    refine (keeps_getDirentFromInode n name).bind fun d => .ite (.pure _) ?_
    exact (keeps_load32 _).bind fun n => ih n d

theorem keeps_getDirentFromPath (path : List (List UInt8)) (filename : List UInt8) :
    Keeps P (getDirentFromPath path filename) := by
  refine (keeps_getDirentFromInode _ _).bind fun home => ?_
  refine (keeps_followPath _ _ _).bind fun dirent => .ite (.pure _) ?_
  exact (keeps_load32 _).bind fun n => keeps_getDirentFromInode _ _

theorem keeps_lastDirent (e : Inode) (fuel i first prev dirent : Nat) :
    Keeps P (lastDirent e fuel i first prev dirent) := by
  induction fuel generalizing i first prev dirent with
  | zero => exact .failure
  | succ fuel ih =>
    refine Keeps.ite (Keeps.pure _) (Keeps.ite (Keeps.pure _) (Keeps.get.bind fun s => ?_))
    refine Keeps.ite ?_ ?_
    · refine (keeps_blockOf _ _).bind fun b => (keeps_load32 _).bind fun next => ih _ _ _ _
    · exact (keeps_load32 _).bind fun next => ih _ _ _ _

theorem keeps_newPlace (e : Inode) (prev first i : Nat) : Keeps P (newPlace e prev first i) := by
  refine Keeps.get.bind fun s => Keeps.ite ?_ (Keeps.pure _)
  exact (keeps_blockOf _ _).bind fun _ => Keeps.pure _

theorem keeps_direntAlloc (n : Nat) : KeepsCounters (direntAlloc n) := by
  refine (keeps_inode n).bind fun e => (keeps_increaseInodeSize _ _).bind fun _ => ?_
  refine (keeps_inode n).bind fun e' => Keeps.ite (Keeps.pure _) (Keeps.get.bind fun s => ?_)
  refine (keeps_load32 _).bind fun used => Keeps.ite (Keeps.pure _) ?_
  refine (keeps_lastDirent _ _ _ _ _ _).bind fun r => ?_
  rcases r with _ | ⟨prev, first, i⟩
  · exact .pure _
  · refine (keeps_newPlace _ _ _ _).bind fun d => ?_
    exact (keeps_put _ _).bind fun _ => .pure _

theorem keeps_fillDirent (d n : Nat) (name : List UInt8) (filetype : Nat) :
    KeepsCounters (fillDirent d n name filetype) := by
  refine (keeps_put _ _).bind fun _ => (keeps_put _ _).bind fun _ => ?_
  exact (keeps_put _ _).bind fun _ => (keeps_put _ _).bind fun _ => keeps_put _ _

theorem keeps_create (dn i_mode : Nat) : KeepsCounters (create dn i_mode) := by
  refine keeps_inodeAlloc.bind fun new => .ite (.pure _) ?_
  exact (keeps_setInode _ _).bind fun _ => (keeps_direntAlloc _).bind fun _ => .pure _

theorem keeps_touch1 (path : List (List UInt8)) (name : List UInt8) :
    KeepsCounters (touch1 path name) := by
  refine (keeps_getDirentFromPath _ _).bind fun dir => .ite (.pure _) ?_
  refine (keeps_load32 _).bind fun dn => Keeps.get.bind fun s => Keeps.ite (Keeps.pure _) ?_
  refine (keeps_create _ _).bind ?_
  rintro ⟨new, d⟩
  exact Keeps.ite (Keeps.pure _) (keeps_fillDirent _ _ _ _)

theorem keeps_mkdir1 (path : List (List UInt8)) (name : List UInt8) :
    KeepsCounters (mkdir1 path name) := by
  refine (keeps_getDirentFromPath _ _).bind fun dir => .ite (.pure _) ?_
  refine (keeps_load32 _).bind fun dn => Keeps.get.bind fun s => Keeps.ite (Keeps.pure _) ?_
  refine (keeps_create _ _).bind ?_
  rintro ⟨new, d⟩
  refine Keeps.ite (Keeps.pure _) ((keeps_fillDirent _ _ _ _).bind fun _ => ?_)
  refine (keeps_direntAlloc _).bind fun home => Keeps.ite (Keeps.pure _) ?_
  refine (keeps_fillDirent _ _ _ _).bind fun _ => (keeps_direntAlloc _).bind fun parent => ?_
  refine .ite (.pure _) ((keeps_load32 _).bind fun dn => keeps_fillDirent _ _ _ _)

theorem keeps_copy1 (pathS : List (List UInt8)) (nameS : List UInt8) (pathD : List (List UInt8))
    (nameD : List UInt8) : KeepsCounters (copy1 pathS nameS pathD nameD) := by
  refine (keeps_getDirentFromPath _ _).bind fun direntS => .ite (.pure _) ?_
  refine (keeps_getDirentFromPath _ _).bind fun parent => .ite (.pure _) ?_
  refine (keeps_load32 _).bind fun pn => (keeps_load32 _).bind fun sn => Keeps.get.bind fun s => ?_
  refine Keeps.ite (Keeps.pure _) ((keeps_inode _).bind fun e => (keeps_create _ _).bind ?_)
  rintro ⟨new, d⟩
  refine .ite (.pure _) ((keeps_load8 _).bind fun filetype => ?_)
  refine (keeps_fillDirent _ _ _ _).bind fun _ => (keeps_inode _).bind fun e => ?_
  refine (keeps_readDirent _ _ _).bind fun buff => ?_
  exact (keeps_writeFileByInode _ _ _ _).bind fun _ => .pure _

theorem keeps_writeFileByPath (path : List (List UInt8)) (name buffer : List UInt8)
    (start nbytes : Nat) : KeepsCounters (writeFileByPath path name buffer start nbytes) :=
  (keeps_getDirentFromPath _ _).bind fun _ =>
    .ite (.pure _) (keeps_writeFileByInode _ _ _ _)

/-! ## Operations in any order -/

/-- An operation with its arguments. -/
inductive Call
  | touch1 (path : List (List UInt8)) (name : List UInt8)
  | mkdir1 (path : List (List UInt8)) (name : List UInt8)
  | rm1 (path : List (List UInt8)) (name : List UInt8)
  | rmdir1 (path : List (List UInt8)) (name : List UInt8)
  | copy1 (pathS : List (List UInt8)) (nameS : List UInt8) (pathD : List (List UInt8))
      (nameD : List UInt8)
  | mv1 (pathS : List (List UInt8)) (nameS : List UInt8) (pathD : List (List UInt8))
      (nameD : List UInt8)
  | write (path : List (List UInt8)) (name buffer : List UInt8) (start nbytes : Nat)

/-- The image behind an operation, if it has a result. -/
def call (s : Ext2) : Call → Option Ext2
  | .touch1 path name => ((Ext2.touch1 path name).run s).map Prod.snd
  | .mkdir1 path name => ((Ext2.mkdir1 path name).run s).map Prod.snd
  | .rm1 path name => ((Ext2.rm1 path name).run s).map Prod.snd
  | .rmdir1 path name => ((Ext2.rmdir1 path name).run s).map Prod.snd
  | .copy1 pathS nameS pathD nameD => ((Ext2.copy1 pathS nameS pathD nameD).run s).map Prod.snd
  | .mv1 pathS nameS pathD nameD => ((Ext2.mv1 pathS nameS pathD nameD).run s).map Prod.snd
  | .write path name buffer start nbytes =>
    ((writeFileByPath path name buffer start nbytes).run s).map Prod.snd

/-- The operation does not deallocate. -/
def Call.Allocates : Call → Prop
  | .touch1 _ _ | .mkdir1 _ _ | .copy1 _ _ _ _ | .write _ _ _ _ _ => True
  | .rm1 _ _ | .rmdir1 _ _ | .mv1 _ _ _ _ => False

instance : ∀ c : Call, Decidable c.Allocates := by
  rintro ⟨⟩ <;> unfold Call.Allocates <;> infer_instance

theorem consistent_run {α : Type} {m : Fs α} (hm : KeepsCounters m) {s' : Ext2}
    (h : s.Consistent) (hs : (m.run s).map Prod.snd = some s') : s'.Consistent := by
  obtain ⟨⟨a, t⟩, hrun, rfl⟩ := Option.map_eq_some_iff.mp hs
  exact hm s a t h hrun

/-- **The step lemma**: an operation that only allocates keeps the counters consistent. -/
theorem consistent_call {s' : Ext2} (h : s.Consistent) {c : Call} (hc : c.Allocates)
    (hs : s.call c = some s') : s'.Consistent := by
  cases c with
  | touch1 path name => exact consistent_run (keeps_touch1 path name) h hs
  | mkdir1 path name => exact consistent_run (keeps_mkdir1 path name) h hs
  | copy1 pathS nameS pathD nameD => exact consistent_run (keeps_copy1 pathS nameS pathD nameD) h hs
  | write path name buffer start nbytes =>
    exact consistent_run (keeps_writeFileByPath path name buffer start nbytes) h hs
  | rm1 path name => exact hc.elim
  | rmdir1 path name => exact hc.elim
  | mv1 pathS nameS pathD nameD => exact hc.elim

end Ext2

/-- **An operation keeps to the data**: no pointer, block number or copy of it leads out of the data
blocks, into the superblock, a descriptor, a bitmap or an inode, and its walks end. -/
def Ext2.Contained (s : Ext2) (c : Ext2.Call) : Prop := (s.call c).isSome = true
deriving Decidable

/-- The file system under any sequence of operations that keep to the data. -/
def ext2Machine : Machine Ext2 Ext2.Call where
  enabled := Ext2.Contained
  next s c := (s.call c).getD s

instance (s : Ext2) (c : Ext2.Call) : Decidable (ext2Machine.enabled s c) :=
  inferInstanceAs (Decidable (s.Contained c))

/-- The file system under those that only allocate. -/
def allocatingMachine : Machine Ext2 Ext2.Call := ext2Machine.restrict fun _ c => c.Allocates

instance (s : Ext2) (c : Ext2.Call) : Decidable (allocatingMachine.enabled s c) :=
  inferInstanceAs (Decidable ((s.call c).isSome = true ∧ c.Allocates))

namespace Ext2

/-- 64 blocks of 1024 octets and 8 inodes in one group: the bitmaps are in blocks 2 and 3, and the
inodes in block 4. -/
def bareGeometry : Geometry where
  base_addr := 256
  s_inodes_count := 8
  s_blocks_count := 64
  s_log_block_size := 0
  s_blocks_per_group := 64
  s_inodes_per_group := 16
  bg_block_bitmap := fun _ => 2
  bg_inode_bitmap := fun _ => 3

/-- Each table lies in a block of its own, or is one of the inodes. -/
theorem bareGeometry_addr {x : Table} (hx : bareGeometry.Has x) :
    x = .super ∧ bareGeometry.addr x = 1280 ∧ bareGeometry.size x = 1024 ∨
      x = .desc 0 ∧ bareGeometry.addr x = 2304 ∧ bareGeometry.size x = 32 ∨
      x = .blkBitmap 0 ∧ bareGeometry.addr x = 3328 ∧ bareGeometry.size x = 8 ∨
      x = .inodeBitmap 0 ∧ bareGeometry.addr x = 4352 ∧ bareGeometry.size x = 4 ∨
      ∃ n, x = .inode n ∧ bareGeometry.addr x = 5376 + (n - 1) * 120 ∧
        bareGeometry.size x = 120 ∧ 1 ≤ n ∧ n ≤ 8 := by
  have hgroup : ∀ g, g * 64 < 64 ∨ g * 16 ≤ 8 → g = 0 := by omega
  cases x with
  | super => exact .inl ⟨rfl, rfl, rfl⟩
  | desc g =>
    obtain rfl := hgroup g hx
    exact .inr (.inl ⟨rfl, rfl, rfl⟩)
  | blkBitmap g =>
    obtain rfl := hgroup g hx
    exact .inr (.inr (.inl ⟨rfl, rfl, rfl⟩))
  | inodeBitmap g =>
    obtain rfl := hgroup g hx
    exact .inr (.inr (.inr (.inl ⟨rfl, rfl, rfl⟩)))
  | inode n =>
    obtain ⟨hpos, hle⟩ : 1 ≤ n ∧ n ≤ 8 := hx
    refine .inr (.inr (.inr (.inr ⟨n, rfl, ?_, rfl, hpos, hle⟩)))
    change 256 + 0x400 + 1024 + 3 * (1024 * 2 ^ 0) + n / 16 * 64 + (n - 1) * 120 = _
    omega

/-- The image, with a root directory in block 5. -/
def bareImage : Ext2 where
  toGeometry := bareGeometry
  s_free_blocks_count := 0
  s_free_inodes_count := 0
  bg_free_blocks_count := fun _ => 0
  bg_free_inodes_count := fun _ => 0
  blkBits := fun g w b => g == 0 && w == 0 && decide (b < 6)
  inodeBits := fun g w b => g == 0 && w == 0 && decide (b < 1)
  inodes := fun n =>
    if n = 1 then { i_mode := EXT2_S_IFDIR, i_size := 256, i_blocks := 1, i_block := fun _ => 5 }
    else {}
  data := fun a => decide (6400 ≤ a ∧ a < 66816)
  mem := fun a =>
    if a = 6400 then 1 else if a = 6408 then 1 else if a = 6409 then 2
    else if a = 6410 then 46 else 0
  apart := by
    intro x y hx hy hne
    rcases bareGeometry_addr hx with ⟨rfl, ha, hs⟩ | ⟨rfl, ha, hs⟩ | ⟨rfl, ha, hs⟩ |
        ⟨rfl, ha, hs⟩ | ⟨n, rfl, ha, hs, hn⟩ <;>
      rcases bareGeometry_addr hy with ⟨rfl, hb, ht⟩ | ⟨rfl, hb, ht⟩ | ⟨rfl, hb, ht⟩ |
        ⟨rfl, hb, ht⟩ | ⟨m, rfl, hb, ht, hm⟩ <;>
      simp only [ne_eq, not_true_eq_false, Table.inode.injEq] at hne <;> omega
  tables := by
    intro x hx a hle hlt
    rcases bareGeometry_addr hx with ⟨-, ha, hs⟩ | ⟨-, ha, hs⟩ | ⟨-, ha, hs⟩ | ⟨-, ha, hs⟩ |
        ⟨n, -, ha, hs, hn⟩ <;>
      exact decide_eq_false (by omega)

/-- The image with its counters. -/
def smallImage : Ext2 :=
  { bareImage with
    s_free_blocks_count := countFree bareImage.blkIsUsed 64
    s_free_inodes_count := countFree bareImage.inodeIsUsed 8
    bg_free_blocks_count := countFreeIn bareImage.blkIsUsed 64 64
    bg_free_inodes_count := countFreeIn bareImage.inodeIsUsed 8 16 }

theorem consistent_smallImage : smallImage.Consistent := ⟨rfl, rfl, fun _ => rfl, fun _ => rfl⟩

end Ext2

end Xinu
