import Xinu.Foundations.Keeps
import Xinu.Kernel.State

/-!
# The ext2 file system: its code

The file system keeps its files in blocks of memory, next to the superblock, the group descriptors,
the two bitmaps and the inodes. These are tables of their own here, and the data blocks are octets
at addresses: an image is one in which each of them has its own part of memory. Directory entries
are linked by pointers, and stand in the data blocks; so do the block numbers of an indirect block.
A pointer, a block number or a copy that leads out of the data blocks, or a walk along pointers that
does not end, has no result.
-/

namespace Xinu

/-- `struct ext2_inode`. -/
structure Inode where
  i_mode : Nat := 0
  i_size : Nat := 0
  i_blocks : Nat := 0
  i_block : Nat → Nat := fun _ => 0

/-- The fields of the superblock and of the group descriptors that no function writes. -/
structure Geometry where
  base_addr : Nat
  s_inodes_count : Nat
  s_blocks_count : Nat
  s_log_block_size : Nat
  s_blocks_per_group : Nat
  s_inodes_per_group : Nat
  bg_block_bitmap : Nat → Nat
  bg_inode_bitmap : Nat → Nat

/-- What stands in memory besides data: the superblock, the descriptor and the two bitmaps of each
group, and the inodes. -/
inductive Table
  | super
  | desc (g : Nat)
  | blkBitmap (g : Nat)
  | inodeBitmap (g : Nat)
  | inode (n : Nat)

namespace Geometry

def EXT2_SUPERBLOCK_LOCATION : Nat := 0x400
def EXT2_SUPERBLOCK_SIZE : Nat := 1024

/-- `sizeof(struct ext2_group_desc)` and `sizeof(struct ext2_inode)`, which is `s_inode_size`. -/
def DESC_SIZE : Nat := 32
def INODE_SIZE : Nat := 120

def getBlockSize (s : Geometry) : Nat := 1024 * 2 ^ s.s_log_block_size

/-- `block_num_to_addr`. -/
def blockNumToAddr (s : Geometry) (n : Nat) : Nat :=
  add32 (s.base_addr + EXT2_SUPERBLOCK_LOCATION) (n * s.getBlockSize)

/-- The address that `ext2_get_inode` computes. The group counts as many octets as it has blocks. -/
def getInode (s : Geometry) (n : Nat) : Nat :=
  s.base_addr + EXT2_SUPERBLOCK_LOCATION + EXT2_SUPERBLOCK_SIZE + 3 * s.getBlockSize +
    n / s.s_inodes_per_group * s.s_blocks_per_group + (n - 1) * INODE_SIZE

/-- Where a table is, and how many octets of it are used. -/
def addr (s : Geometry) : Table → Nat
  | .super => s.base_addr + EXT2_SUPERBLOCK_LOCATION
  | .desc g => s.blockNumToAddr 1 + g * DESC_SIZE
  | .blkBitmap g => s.blockNumToAddr (s.bg_block_bitmap g)
  | .inodeBitmap g => s.blockNumToAddr (s.bg_inode_bitmap g)
  | .inode n => s.getInode n

def size (s : Geometry) : Table → Nat
  | .super => EXT2_SUPERBLOCK_SIZE
  | .desc _ => DESC_SIZE
  | .blkBitmap _ => (s.s_blocks_per_group + 31) / 32 * 4
  | .inodeBitmap _ => (s.s_inodes_per_group + 31) / 32 * 4
  | .inode _ => INODE_SIZE

/-- The groups have blocks or inodes, and inodes are counted from 1. -/
def Has (s : Geometry) : Table → Prop
  | .super => True
  | .desc g | .blkBitmap g | .inodeBitmap g =>
    g * s.s_blocks_per_group < s.s_blocks_count ∨ g * s.s_inodes_per_group ≤ s.s_inodes_count
  | .inode n => 1 ≤ n ∧ n ≤ s.s_inodes_count

end Geometry

/-- The image: the counters of the superblock and of the groups, the bits of the two bitmaps by
group, word and place, the inodes, and the memory, with the addresses of the data blocks. The tables
do not overlap, and no data block overlaps with one. -/
structure Ext2 extends Geometry where
  s_free_blocks_count : Nat
  s_free_inodes_count : Nat
  bg_free_blocks_count : Nat → Nat
  bg_free_inodes_count : Nat → Nat
  blkBits : Nat → Nat → Nat → Bool
  inodeBits : Nat → Nat → Nat → Bool
  inodes : Nat → Inode
  data : Nat → Bool
  mem : Nat → UInt8
  apart : ∀ x y, toGeometry.Has x → toGeometry.Has y → x ≠ y →
    toGeometry.addr x + toGeometry.size x ≤ toGeometry.addr y ∨
      toGeometry.addr y + toGeometry.size y ≤ toGeometry.addr x
  tables : ∀ x, toGeometry.Has x → ∀ a, toGeometry.addr x ≤ a →
    a < toGeometry.addr x + toGeometry.size x → data a = false

namespace Ext2

open Xinu.Geometry

def EXT2_NAME_LEN : Nat := 245
def EXT2_NDIR_BLOCKS : Nat := 12
def EXT2_N_BLOCKS : Nat := 1 + EXT2_NDIR_BLOCKS
def EXT2_INODE_ROOT : Nat := 1
def EXT2_S_IFREG : Nat := 0x8000
def EXT2_S_IFDIR : Nat := 0x4000
def EXT2_FT_REG_FILE : Nat := 1
def EXT2_FT_DIR : Nat := 2

/-- `sizeof(struct ext2_dir_entry_2)`. -/
def DIRENT_SIZE : Nat := 256

/-- A computation on the image. -/
abbrev Fs := StateT Ext2 Option

/-! ## Memory -/

/-- All of some addresses are those of data. -/
def inData (s : Ext2) (addr n : Nat) : Bool := (List.range n).all fun i => s.data (addr + i)

/-- Some octets at an address. -/
def load (addr n : Nat) : Fs (List UInt8) := do
  let s ← get
  if s.inData addr n then return (List.range n).map fun i => s.mem (addr + i)
  else failure

/-- `memcpy` to an address. A copy that is not all to data would overwrite a table, or what is
outside of the file system. -/
def put (addr : Nat) (octets : List UInt8) : Fs PUnit := do
  let s ← get
  if s.inData addr octets.length then
    modify fun s =>
      { s with mem := fun a =>
          if addr ≤ a ∧ a < addr + octets.length then octets.getD (a - addr) 0 else s.mem a }
  else failure

/-- A number of four octets, the lowest first. -/
def word (l : List UInt8) : Nat := l.foldr (fun x n => x.toNat + 256 * n) 0

def octetsOf (n : Nat) : List UInt8 :=
  [UInt8.ofNat n, UInt8.ofNat (n / 2 ^ 8), UInt8.ofNat (n / 2 ^ 16), UInt8.ofNat (n / 2 ^ 24)]

def load32 (addr : Nat) : Fs Nat := do
  let l ← load addr 4
  return word l

def load8 (addr : Nat) : Fs Nat := do
  let l ← load addr 1
  return word l

def put32 (addr v : Nat) : Fs PUnit := put addr (octetsOf v)
def put8 (addr v : Nat) : Fs PUnit := put addr [UInt8.ofNat v]

/-! ## Bitmaps -/

/-- Writes a bit. -/
def setBit (f : Nat → Nat → Nat → Bool) (g w b : Nat) (v : Bool) : Nat → Nat → Nat → Bool :=
  fun g' w' b' => if g' = g ∧ w' = w ∧ b' = b then v else f g' w' b'

/-- `blk_is_used` and `inode_is_used`. -/
def blkIsUsed (s : Ext2) (n : Nat) : Bool :=
  s.blkBits (n / s.s_blocks_per_group) (n % s.s_blocks_per_group / 32) (n % 32)
def inodeIsUsed (s : Ext2) (n : Nat) : Bool :=
  s.inodeBits (n / s.s_inodes_per_group) (n % s.s_inodes_per_group / 32) (n % 32)

/-- Counters of 16 and of 32 bits are decremented and incremented. -/
def dec16 (n : Nat) : Nat := if n = 0 then 2 ^ 16 - 1 else n - 1
def dec32 (n : Nat) : Nat := if n = 0 then 2 ^ 32 - 1 else n - 1
def inc32 (n : Nat) : Nat := if n = 2 ^ 32 - 1 then 0 else n + 1

def markBlkUsed (s : Ext2) (n : Nat) : Ext2 :=
  let g := n / s.s_blocks_per_group
  { s with
    blkBits := setBit s.blkBits g (n % s.s_blocks_per_group / 32) (n % 32) true
    s_free_blocks_count := dec32 s.s_free_blocks_count
    bg_free_blocks_count := store s.bg_free_blocks_count g (dec16 (s.bg_free_blocks_count g)) }

/-- The counter of the group is decremented here, too. -/
def markBlkUnused (s : Ext2) (n : Nat) : Ext2 :=
  let g := n / s.s_blocks_per_group
  { s with
    blkBits := setBit s.blkBits g (n % s.s_blocks_per_group / 32) (n % 32) false
    s_free_blocks_count := inc32 s.s_free_blocks_count
    bg_free_blocks_count := store s.bg_free_blocks_count g (dec16 (s.bg_free_blocks_count g)) }

def markInodeUsed (s : Ext2) (n : Nat) : Ext2 :=
  let g := n / s.s_inodes_per_group
  { s with
    inodeBits := setBit s.inodeBits g (n % s.s_inodes_per_group / 32) (n % 32) true
    s_free_inodes_count := dec32 s.s_free_inodes_count
    bg_free_inodes_count := store s.bg_free_inodes_count g (dec16 (s.bg_free_inodes_count g)) }

/-- And here. -/
def markInodeUnused (s : Ext2) (n : Nat) : Ext2 :=
  let g := n / s.s_inodes_per_group
  { s with
    inodeBits := setBit s.inodeBits g (n % s.s_inodes_per_group / 32) (n % 32) false
    s_free_inodes_count := inc32 s.s_free_inodes_count
    bg_free_inodes_count := store s.bg_free_inodes_count g (dec16 (s.bg_free_inodes_count g)) }

/-- The loop of `blk_alloc` and `ext2_inode_alloc`: the first number that is not used. -/
def firstUnused (used : Nat → Bool) : Nat → Nat → Option Nat
  | 0, _ => none
  | n + 1, i => if used i then firstUnused used n (i + 1) else some i

/-- `blk_alloc`: the number of the block, or 0. -/
def blkAlloc (s : Ext2) : Nat × Ext2 :=
  match firstUnused s.blkIsUsed s.s_blocks_count 0 with
  | some i => (i, s.markBlkUsed i)
  | none => (0, s)

/-- `ext2_inode_alloc`: the number of the inode, counted from 1, or 0. -/
def inodeAlloc (s : Ext2) : Nat × Ext2 :=
  match firstUnused s.inodeIsUsed s.s_inodes_count 0 with
  | some i => (i + 1, s.markInodeUsed i)
  | none => (0, s)

/-! ## Inodes -/

/-- `ext2_get_inode` returns a pointer to an inode. -/
def Valid (s : Ext2) (n : Nat) : Prop := 1 ≤ n ∧ n ≤ s.s_inodes_count
deriving Decidable

/-- The inode that stands where `ext2_get_inode` points to. -/
def inode (n : Nat) : Fs Inode := do
  let s ← get
  if s.Valid n then return s.inodes n else failure

/-- Writes into an inode. -/
def setInode (n : Nat) (f : Inode → Inode) : Fs PUnit :=
  modify fun s => { s with inodes := store s.inodes n (f (s.inodes n)) }

/-- The entry of `i_block` with an index. -/
def blockOf (e : Inode) (i : Nat) : Fs Nat :=
  if i < EXT2_N_BLOCKS then return e.i_block i else failure

/-- The loop of `ext2_inode_dealloc`. -/
def freeBlocks (e : Inode) : Nat → Nat → Fs PUnit
  | 0, _ => return
  | n + 1, i => do
    let b ← blockOf e i
    modify fun s => s.markBlkUnused b
    freeBlocks e n (i + 1)

/-- `ext2_inode_dealloc`. The bit is that of `inode_num`, which `ext2_inode_alloc` counts from 1. -/
def inodeDealloc (n : Nat) : Fs PUnit := do
  let s ← get
  if s.s_inodes_count < n then return
  else
    let e ← inode n
    freeBlocks e e.i_blocks 0
    modify fun s => s.markInodeUnused n

/-! ## Contents -/

/-- The loop of `increase_inode_size`: how many blocks have been allocated. -/
def addBlocks (n blk_index : Nat) : Nat → Nat → Nat → Fs Nat
  | 0, _, blks_alloc => return blks_alloc
  | k + 1, i, blks_alloc => do
    let last ← modifyGet blkAlloc
    if last = 0 then return blks_alloc
    else if blk_index + i < EXT2_NDIR_BLOCKS then
      setInode n fun e => { e with i_block := store e.i_block (blk_index + i) last }
      addBlocks n blk_index k (i + 1) (blks_alloc + 1)
    else if blk_index + i = EXT2_NDIR_BLOCKS then
      let indir ← modifyGet blkAlloc
      setInode n fun e => { e with i_block := store e.i_block EXT2_NDIR_BLOCKS indir }
      let s ← get
      put32 (s.blockNumToAddr indir) last
      addBlocks n blk_index k (i + 1) (blks_alloc + 1)
    -- no block behind the first indirect one is supported
    else return blks_alloc + 1

/-- `increase_inode_size`. -/
def increaseInodeSize (n nbytes : Nat) : Fs Nat := do
  let s ← get
  let e ← inode n
  let blk_size := s.getBlockSize
  let total_bytes := nbytes
  let part := e.i_size % blk_size
  let decr := blk_size - part
  let nbytes := if part = 0 then nbytes else if decr > nbytes then 0 else nbytes - decr
  let blk_index := if part = 0 then e.i_size / blk_size else e.i_size / blk_size + 1
  let num := nbytes / blk_size + if nbytes % blk_size = 0 then 0 else 1
  let blks_alloc ← addBlocks n blk_index num 0 0
  setInode n fun e =>
    { e with i_size := if blks_alloc = num then add32 e.i_size total_bytes
        else add32 e.i_size (sub32 total_bytes ((num - blks_alloc) * blk_size)) }
  return blks_alloc

/-- The number of the block with an index, direct or from the indirect block. -/
def blockAt (e : Inode) (i : Nat) : Fs Nat := do
  let s ← get
  if i < EXT2_NDIR_BLOCKS then return e.i_block i
  else load32 (s.blockNumToAddr (e.i_block EXT2_NDIR_BLOCKS) + 4 * (i - EXT2_NDIR_BLOCKS))

/-- Where `ext2_write_file_by_inode` writes in a round of its loop, with the next indices. -/
def writePlace (e : Inode) (index indir blk_offset : Nat) : Fs (Nat × Nat × Nat) := do
  let s ← get
  if index = EXT2_NDIR_BLOCKS then
    let b ← load32 (s.blockNumToAddr (e.i_block index) + 4 * indir)
    -- the index stays while there are entries in the indirect block
    return (if indir < s.getBlockSize / 4 then index - 1 else index, indir + 1,
      s.blockNumToAddr b + blk_offset)
  else return (index, indir, s.blockNumToAddr (e.i_block index) + blk_offset)

/-- The loop of `ext2_write_file_by_inode`: how many bytes remain. -/
def writeLoop (n : Nat) : Nat → Nat → Nat → Nat → List UInt8 → Nat → Fs Nat
  | 0, _, _, _, _, _ => failure
  | fuel + 1, index, indir, blk_offset, buffer, remaining =>
    -- nothing is left to copy, from wherever the pointer is read
    if remaining = 0 then return 0
    else if index < EXT2_N_BLOCKS then do
      let s ← get
      let e ← inode n
      let blk_size := s.getBlockSize
      let (index, indir, data) ← writePlace e index indir blk_offset
      if remaining < blk_size then
        put data (buffer.take remaining)
        return 0
      else
        put data (buffer.take (blk_size - blk_offset))
        writeLoop n fuel (index + 1) indir 0 (buffer.drop (blk_size - blk_offset))
          (remaining - (blk_size - blk_offset))
    else return remaining

/-- The file is made large enough. -/
def growTo (n i_size size : Nat) : Fs Nat :=
  if i_size < size then increaseInodeSize n (sub32 size i_size) else return 0

/-- `ext2_write_file_by_inode`: how many bytes are written. -/
def writeFileByInode (file : Nat) (buffer : List UInt8) (start nbytes : Nat) : Fs Nat := do
  let n ← load32 file
  let e ← inode n
  let s ← get
  let blk_size := s.getBlockSize
  if e.i_size < add32 nbytes start ∧ start > e.i_size then
    -- data not contiguous
    return 0
  else
    let _ ← growTo n e.i_size (add32 nbytes start)
    let first := start / blk_size
    let direct := if EXT2_NDIR_BLOCKS ≤ first then EXT2_NDIR_BLOCKS else first
    let indir := if EXT2_NDIR_BLOCKS ≤ first then first - EXT2_NDIR_BLOCKS else 0
    let remaining ← writeLoop n (blk_size / 4 + EXT2_N_BLOCKS + 1) direct indir (start % blk_size)
      buffer nbytes
    return nbytes - remaining

/-- The loop of `ext2_read_dirent`: what is read, and how many bytes remain. -/
def readLoop (e : Inode) : Nat → Nat → Nat → Nat → List UInt8 → Fs (List UInt8 × Nat)
  | 0, _, _, remaining, acc => return (acc, remaining)
  | k + 1, i, block_offset, remaining, acc =>
    if remaining = 0 then return (acc, 0)
    else do
      let s ← get
      let blk_size := s.getBlockSize
      let b ← blockAt e i
      let data := s.blockNumToAddr b + block_offset
      if remaining < blk_size then
        let l ← load data remaining
        return (acc ++ l, 0)
      else
        let l ← load data (blk_size - block_offset)
        readLoop e k (i + 1) 0 (remaining - (blk_size - block_offset)) (acc ++ l)

/-- `ext2_read_dirent`: the bytes that are read. -/
def readDirent (file start nbytes : Nat) : Fs (List UInt8) := do
  let n ← load32 file
  let e ← inode n
  let s ← get
  let nbytes := if add32 e.i_size start < nbytes then
      if start > e.i_size then 0 else e.i_size - start
    else nbytes
  let first := start / s.getBlockSize
  let r ← readLoop e (EXT2_N_BLOCKS - first) first (start % s.getBlockSize) nbytes []
  return r.1

/-! ## Directories -/

/-- The fields of a directory entry at an address. -/
def direntInode (d : Nat) : Fs Nat := load32 d
def direntNext (d : Nat) : Fs Nat := load32 (d + 4)
def direntNameLen (d : Nat) : Fs Nat := load8 (d + 8)
def direntFiletype (d : Nat) : Fs Nat := load8 (d + 9)

/-- No walk visits more entries than there are addresses. -/
def walkBound : Nat := 2 ^ 32

/-- Whether an entry has a name. -/
def hasName (filename : List UInt8) (dirent : Nat) : Fs Bool := do
  let len ← direntNameLen dirent
  if filename.length = len then
    let name ← load (dirent + 10) len
    return decide (filename = name)
  else return false

/-- The loop of `ext2_get_dirent_from_inode` over the entries behind a first one: the entry with the
name, and whether to go on with the next block. -/
def lookIn (filename : List UInt8) (blk_size first : Nat) : Nat → Nat → Fs (Nat × Bool)
  | 0, _ => failure
  | fuel + 1, dirent =>
    if dirent = NULL then return (NULL, false)
    else do
      let same ← hasName filename dirent
      if same then return (dirent, false)
      else
        let next ← direntNext dirent
        if next > first + DIRENT_SIZE * blk_size then return (NULL, true)
        else lookIn filename blk_size first fuel next

/-- The loop of `ext2_get_dirent_from_inode` over the blocks. -/
def lookInBlocks (e : Inode) (filename : List UInt8) : Nat → Nat → Fs Nat
  | 0, _ => return NULL
  | k + 1, i => do
    let s ← get
    let b ← blockAt e i
    let first := s.blockNumToAddr b
    let r ← lookIn filename s.getBlockSize first walkBound first
    if r.2 then lookInBlocks e filename k (i + 1) else return r.1

/-- `ext2_get_dirent_from_inode`; at most `EXT2_NAME_LEN` octets of the name count. -/
def getDirentFromInode (n : Nat) (filename : List UInt8) : Fs Nat := do
  let e ← inode n
  lookInBlocks e (filename.take EXT2_NAME_LEN) EXT2_N_BLOCKS 0

/-- The name of a directory in itself and of its parent. -/
def dot : List UInt8 := [46]
def dotdot : List UInt8 := [46, 46]

/-- The loop of `ext2_get_dirent_from_path` over the components of the path. -/
def followPath : List (List UInt8) → Nat → Nat → Fs Nat
  | [], _, dirent => return dirent
  | name :: path, n, _ => do
    let dirent ← getDirentFromInode n name
    if dirent = NULL then return NULL
    else
      let n ← direntInode dirent
      followPath path n dirent

/-- `ext2_get_dirent_from_path`; a path is a list of names, each of which is followed by `/`. -/
def getDirentFromPath (path : List (List UInt8)) (filename : List UInt8) : Fs Nat := do
  let home ← getDirentFromInode EXT2_INODE_ROOT dot
  let dirent ← followPath path EXT2_INODE_ROOT home
  if dirent = NULL ∧ path ≠ [] then return NULL
  else
    let n ← direntInode dirent
    getDirentFromInode n filename

/-- The loop of `ext2_dirent_alloc`: the last entry, the first one of its block, and the number of
that block; `none` if something went wrong. -/
def lastDirent (e : Inode) : Nat → Nat → Nat → Nat → Nat → Fs (Option (Nat × Nat × Nat))
  | 0, _, _, _, _ => failure
  | fuel + 1, i, first, prev, dirent =>
    if dirent = NULL then return some (prev, first, i)
    else if i > e.i_blocks then return none
    else do
      let s ← get
      -- a difference of pointers to entries, which is compared with a number of bytes
      if dirent < first ∨ (dirent - first) / DIRENT_SIZE > s.getBlockSize then
        let b ← blockOf e (i + 1)
        let next ← direntNext dirent
        lastDirent e fuel (i + 1) (s.blockNumToAddr b) dirent next
      else
        let next ← direntNext dirent
        lastDirent e fuel i first dirent next

/-- Where `ext2_dirent_alloc` puts an entry behind the last one: at the start of the next block, or
right behind it. The difference of pointers to entries is again compared with a number of bytes. -/
def newPlace (e : Inode) (prev first i : Nat) : Fs Nat := do
  let s ← get
  if prev < first ∨ (prev - first) / DIRENT_SIZE + DIRENT_SIZE > s.getBlockSize then
    let b ← blockOf e (i + 1)
    return s.blockNumToAddr b
  else return prev + DIRENT_SIZE

/-- `ext2_dirent_alloc` in the directory with an inode number: the new entry, or `NULL`. -/
def direntAlloc (n : Nat) : Fs Nat := do
  let e ← inode n
  let prev_size := e.i_size
  let _ ← increaseInodeSize n DIRENT_SIZE
  let e ← inode n
  if e.i_size ≠ add32 prev_size DIRENT_SIZE then return NULL
  else
    let s ← get
    let first := s.blockNumToAddr (e.i_block 0)
    let used ← direntInode first
    if used = 0 then return first
    else
      let r ← lastDirent e walkBound 0 first first first
      match r with
      | none => return NULL
      | some (prev, first, i) =>
        let dirent ← newPlace e prev first i
        put32 (prev + 4) dirent
        return dirent

/-- The loop of `ext2_dirent_dealloc`. -/
def unlinkDirent (dirent : Nat) : Nat → Nat → Nat → Fs PUnit
  | 0, _, _ => failure
  | fuel + 1, prev, curr =>
    if curr = NULL then return
    else do
      let next ← direntNext curr
      if curr = dirent then put32 (prev + 4) next
      else unlinkDirent dirent fuel curr next

/-- `ext2_dirent_dealloc`. -/
def direntDealloc (dirent n : Nat) : Fs PUnit := do
  let e ← inode n
  let s ← get
  let first := s.blockNumToAddr (e.i_block 0)
  unlinkDirent dirent walkBound first first

/-- The fields of a new entry are written. -/
def fillDirent (d n : Nat) (name : List UInt8) (filetype : Nat) : Fs PUnit := do
  put32 d n
  put (d + 10) (name.take EXT2_NAME_LEN)
  put32 (d + 4) 0
  put8 (d + 8) (name.take EXT2_NAME_LEN).length
  put8 (d + 9) filetype

/-! ## Operations -/

/-- The part that `touch1`, `mkdir1` and `copy1` share: a new inode with a mode, and a new entry in
a directory, or `NULL`. -/
def create (dn i_mode : Nat) : Fs (Nat × Nat) := do
  let new ← modifyGet inodeAlloc
  if new = 0 then return (0, NULL)
  else
    setInode new fun e => { e with i_mode := i_mode, i_size := 0 }
    let d ← direntAlloc dn
    return (new, d)

/-- `touch1`. -/
def touch1 (path : List (List UInt8)) (name : List UInt8) : Fs PUnit := do
  let dir ← getDirentFromPath path dot
  if dir = NULL then return
  else
    let dn ← direntInode dir
    let s ← get
    if s.s_inodes_count < dn then return
    else
      let (new, d) ← create dn EXT2_S_IFREG
      if d = NULL then return else fillDirent d new name EXT2_FT_REG_FILE

/-- `mkdir1`. -/
def mkdir1 (path : List (List UInt8)) (name : List UInt8) : Fs PUnit := do
  let dir ← getDirentFromPath path dot
  if dir = NULL then return
  else
    let dn ← direntInode dir
    let s ← get
    if s.s_inodes_count < dn then return
    else
      let (new, d) ← create dn EXT2_S_IFDIR
      if d = NULL then return
      else
        fillDirent d new name EXT2_FT_DIR
        let home ← direntAlloc new
        if home = NULL then return
        else
          fillDirent home new dot EXT2_FT_DIR
          let parent ← direntAlloc new
          if parent = NULL then return
          else
            let dn ← direntInode dir
            fillDirent parent dn dotdot EXT2_FT_DIR

/-- `rm1`. -/
def rm1 (path : List (List UInt8)) (name : List UInt8) : Fs PUnit := do
  let file ← getDirentFromPath path name
  if file = NULL then return
  else
    let filetype ← direntFiletype file
    if filetype = EXT2_FT_DIR then return
    else
      let dir ← getDirentFromPath path dot
      let dn ← direntInode dir
      direntDealloc file dn
      let n ← direntInode file
      inodeDealloc n

/-- The loop of `rmdir1`. -/
def deallocAll : Nat → Nat → Fs PUnit
  | 0, _ => failure
  | fuel + 1, curr =>
    if curr = NULL then return
    else do
      let n ← direntInode curr
      inodeDealloc n
      let next ← direntNext curr
      deallocAll fuel next

/-- `rmdir1`. -/
def rmdir1 (path : List (List UInt8)) (name : List UInt8) : Fs PUnit := do
  let parent ← getDirentFromPath path dot
  let dirent ← getDirentFromPath path name
  let pn ← direntInode parent
  direntDealloc dirent pn
  let n ← direntInode dirent
  let e ← inode n
  let s ← get
  let first := s.blockNumToAddr (e.i_block 0)
  deallocAll walkBound first
  let n ← direntInode first
  inodeDealloc n

/-- `copy1`. -/
def copy1 (pathS : List (List UInt8)) (nameS : List UInt8) (pathD : List (List UInt8))
    (nameD : List UInt8) : Fs PUnit := do
  let direntS ← getDirentFromPath pathS nameS
  if direntS = NULL then return
  else
    let parent ← getDirentFromPath pathD dot
    if parent = NULL then return
    else
      let pn ← direntInode parent
      let sn ← direntInode direntS
      let s ← get
      if s.s_inodes_count < pn ∨ s.s_inodes_count < sn then return
      else
        let e ← inode sn
        let (new, d) ← create pn e.i_mode
        if d = NULL then return
        else
          let filetype ← direntFiletype direntS
          fillDirent d new nameD filetype
          let e ← inode sn
          let buff ← readDirent direntS 0 e.i_size
          let _ ← writeFileByInode d buff 0 buff.length
          return

/-- `mv1`. -/
def mv1 (pathS : List (List UInt8)) (nameS : List UInt8) (pathD : List (List UInt8))
    (nameD : List UInt8) : Fs PUnit := do
  copy1 pathS nameS pathD nameD
  rm1 pathS nameS

/-- `ext2_write_file_by_path`; the last name of the path is that of the file. -/
def writeFileByPath (path : List (List UInt8)) (name buffer : List UInt8) (start nbytes : Nat) :
    Fs Nat := do
  let file ← getDirentFromPath path name
  if file = NULL then return 0 else writeFileByInode file buffer start nbytes

end Ext2

end Xinu
