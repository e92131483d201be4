import Xv6.Core.Coroutine
import Xv6.Fs.Format

/-!
# Blocks and inodes

The block allocator and the inode layer of `kernel/fs.c`. `bread` is the buffer cache: it returns
the current contents of a block, whether they are on disk already or not. A call returns, stops the
kernel with a panic, or sleeps on a lock that is held. Other processes may run where a lock is
acquired or released.
-/

namespace Xv6.Fs

open Core

/-- What an entry of the inode table has besides a copy of the inode. -/
structure Entry where
  inum : ℕ
  /-- Reference count. -/
  ref : ℕ
  /-- The sleep-lock is held. -/
  locked : Bool
  /-- The inode has been read from disk. -/
  valid : Bool

/-- In-memory copy of an inode. -/
structure Inode extends Dinode, Entry

/-- A `struct inode *`, which always points into the inode table. -/
abbrev Iref := Fin NINODE

instance : NeZero NINODE := ⟨by decide⟩

structure State where
  /-- The contents of the blocks, as the buffer cache returns them. -/
  disk : ℕ → Block
  itable : Iref → Inode
  /-- `log.lh`: the blocks of the running transaction. -/
  lh : List ℕ
  /-- `log.outstanding`: how many system calls are executing. -/
  outstanding : ℕ

/-- The calls of `panic`. -/
inductive Panic
  /-- `"too big a transaction"` -/
  | tooBigTransaction
  /-- `"balloc: out of blocks"` -/
  | outOfBlocks
  /-- `"freeing free block"` -/
  | freeingFreeBlock
  /-- `"ialloc: no inodes"` -/
  | iallocNoInodes
  /-- `"iget: no inodes"` -/
  | igetNoInodes
  /-- `"ilock"` -/
  | ilock
  /-- `"ilock: no type"` -/
  | ilockNoType
  /-- `"iunlock"` -/
  | iunlock
  /-- `"bmap: out of range"` -/
  | bmapOutOfRange
  /-- `"dirlookup not DIR"` -/
  | dirlookupNotDir
  /-- `"dirlookup read"` -/
  | dirlookupRead
  /-- `"dirlink read"` -/
  | dirlinkRead
  /-- `"dirlink"` -/
  | dirlink
  /-- `"isdirempty: readi"` -/
  | isdiremptyReadi
  /-- `"unlink: nlink < 1"` -/
  | unlinkNlink
  /-- `"unlink: writei"` -/
  | unlinkWritei
  /-- `"create dots"` -/
  | createDots
  /-- `"create: dirlink"` -/
  | createDirlink
  deriving DecidableEq, Repr

/-- The ways in which a call does not go on. -/
inductive Halt
  | panic (p : Panic)
  /-- It sleeps, on a sleep-lock that is held or on the log. -/
  | sleep
  deriving DecidableEq, Repr

/-- Where other processes may run. -/
inductive Label
  /-- The buffer of a block is locked. -/
  | bread (b : ℕ)
  | brelse (b : ℕ)
  /-- `log.lock` -/
  | log
  /-- `itable.lock` -/
  | table
  | acquiresleep (ip : Iref)
  | releasesleep (ip : Iref)
  /-- The inode `ip`, found in `dp`, is about to be unlinked. -/
  | unlink (dp ip : Iref)

/-- File-system code. -/
abbrev FsM := Coroutine State Halt Label

def panic {α : Type} (p : Panic) : FsM α := .fail (.panic p)

def sleep {α : Type} : FsM α := .fail .sleep

variable (sb : Superblock)

/-- The entries of the inode table. -/
def State.entries (s : State) : Iref → Entry := fun ip => (s.itable ip).toEntry

/-- The inode `inum` in its block. -/
def State.dinode (s : State) (inum : ℕ) : Dinode := (s.disk (sb.IBLOCK inum)).dinode (inum % IPB)

/-! ### Blocks -/

def bread (b : ℕ) : FsM Block := do
  Coroutine.pause (.bread b)
  return (← get).disk b

def brelse (b : ℕ) : FsM PUnit := Coroutine.pause (.brelse b)

def State.setData (s : State) (b : ℕ) (f : Block → Block) : State :=
  { s with disk := Function.update s.disk b (f (s.disk b)) }

/-- Change the data of the buffer of block `b`. -/
def setData (b : ℕ) (f : Block → Block) : FsM PUnit := modify fun s => s.setData b f

/-- Record the block number in the running transaction. -/
def logWrite (b : ℕ) : FsM PUnit := do
  Coroutine.pause .log
  let lh := (← get).lh
  if LOGSIZE ≤ lh.length ∨ sb.nlog - 1 ≤ lh.length then
    panic .tooBigTransaction
  else
    modify fun s => { s with lh := if b ∈ lh then lh else lh ++ [b] }

/-- Zero a block. -/
def bzero (b : ℕ) : FsM PUnit := do
  let _ ← bread b
  setData b fun _ => Block.zero
  logWrite sb b
  brelse b

/-- The first clear bit of a block of the free map, whose first bit is that of block `b`. -/
@[irreducible]
def freeBit (blk : Block) (b : ℕ) : Option ℕ :=
  (List.range BPB).find? fun bi => b + bi < sb.size && !blk.bit bi

/-- The search of `balloc` in the blocks of the free map whose first bits are those of `bs`. -/
def ballocFrom : List ℕ → FsM ℕ
  | [] => panic .outOfBlocks
  | b :: bs => do
    let blk ← bread (sb.BBLOCK b)
    match freeBit sb blk b with
    | some bi =>
      setData (sb.BBLOCK b) (·.setBit bi)
      logWrite sb (sb.BBLOCK b)
      brelse (sb.BBLOCK b)
      bzero sb (b + bi)
      return b + bi
    | none =>
      brelse (sb.BBLOCK b)
      ballocFrom bs

/-- Allocate a zeroed disk block. -/
def balloc : FsM ℕ :=
  ballocFrom sb ((List.range ((sb.size + BPB - 1) / BPB)).map (· * BPB))

/-- Free a disk block. -/
def bfree (b : ℕ) : FsM PUnit := do
  let blk ← bread (sb.BBLOCK b)
  let bi := b % BPB
  if blk.bit bi = false then
    panic .freeingFreeBlock
  else
    setData (sb.BBLOCK b) (·.clearBit bi)
    logWrite sb (sb.BBLOCK b)
    brelse (sb.BBLOCK b)

/-! ### Inodes -/

def State.setInode (s : State) (ip : Iref) (f : Inode → Inode) : State :=
  { s with itable := Function.update s.itable ip (f (s.itable ip)) }

/-- Change the fields of an entry of the inode table. -/
def setInode (ip : Iref) (f : Inode → Inode) : FsM PUnit := modify fun s => s.setInode ip f

/-- Copy a modified in-memory inode to disk. -/
def iupdate (ip : Iref) : FsM PUnit := do
  let i := (← get).itable ip
  let _ ← bread (sb.IBLOCK i.inum)
  setData (sb.IBLOCK i.inum) (·.setDinode (i.inum % IPB) i.toDinode)
  logWrite sb (sb.IBLOCK i.inum)
  brelse (sb.IBLOCK i.inum)

/-- Find the inode with number `inum` and return the in-memory copy. Does not lock the inode and
does not read it from disk. -/
def iget (inum : ℕ) : FsM Iref := do
  Coroutine.pause .table
  let table := (← get).itable
  match (List.finRange NINODE).find? fun ip => 0 < (table ip).ref && (table ip).inum == inum with
  | some ip =>
    setInode ip fun i => { i with ref := i.ref + 1 }
    return ip
  | none =>
    match (List.finRange NINODE).find? fun ip => (table ip).ref == 0 with
    | some ip =>
      -- recycle an inode entry
      setInode ip fun i => { i with inum := inum, ref := 1, valid := false }
      return ip
    | none => panic .igetNoInodes

/-- The search of `ialloc` in the inodes `inums`. -/
def iallocFrom (type : Int16) : List ℕ → FsM Iref
  | [] => panic .iallocNoInodes
  | inum :: inums => do
    let blk ← bread (sb.IBLOCK inum)
    if (blk.dinode (inum % IPB)).type = 0 then
      setData (sb.IBLOCK inum) (·.setDinode (inum % IPB) { Dinode.zero with type := type })
      -- mark it allocated on the disk
      logWrite sb (sb.IBLOCK inum)
      brelse (sb.IBLOCK inum)
      iget inum
    else
      brelse (sb.IBLOCK inum)
      iallocFrom type inums

/-- Allocate an inode. Returns an unlocked but allocated and referenced inode. -/
def ialloc (type : Int16) : FsM Iref := iallocFrom sb type (List.range' 1 (sb.ninodes - 1))

/-- Increment the reference count. -/
def idup (ip : Iref) : FsM Iref := do
  Coroutine.pause .table
  setInode ip fun i => { i with ref := i.ref + 1 }
  return ip

/-- Read the inode from disk if necessary. -/
def iread (ip : Iref) : FsM PUnit := do
  let i := (← get).itable ip
  if i.valid then
    return ⟨⟩
  else
    let blk ← bread (sb.IBLOCK i.inum)
    setInode ip fun i => { i with toDinode := blk.dinode (i.inum % IPB) }
    brelse (sb.IBLOCK i.inum)
    setInode ip fun i => { i with valid := true }
    if ((← get).itable ip).type = 0 then
      panic .ilockNoType
    else
      return ⟨⟩

/-- Acquire the sleep-lock of the inode. -/
def acquiresleep (ip : Iref) : FsM PUnit := do
  Coroutine.pause (.acquiresleep ip)
  if ((← get).itable ip).locked then
    sleep
  else
    setInode ip fun i => { i with locked := true }

/-- Release the sleep-lock of the inode. -/
def releasesleep (ip : Iref) : FsM PUnit := do
  Coroutine.pause (.releasesleep ip)
  setInode ip fun i => { i with locked := false }

/-- Lock the given inode. -/
def ilock (ip : Iref) : FsM PUnit := do
  if ((← get).itable ip).ref < 1 then
    panic .ilock
  else
    acquiresleep ip
    iread sb ip

/-- Unlock the given inode. -/
def iunlock (ip : Iref) : FsM PUnit := do
  let i := (← get).itable ip
  if i.locked = false ∨ i.ref < 1 then
    panic .iunlock
  else
    releasesleep ip

/-! ### Inode content -/

/-- `ip->addrs[k]`, for which a block is allocated if it is 0. -/
def bmapAddr (ip : Iref) (k : ℕ) : FsM ℕ := do
  let addr := ((← get).itable ip).addr k
  if addr = 0 then
    let addr ← balloc sb
    setInode ip fun i => { i with toDinode := i.setAddr k addr }
    return addr
  else
    return addr

/-- Return the disk block address of the `bn`-th block in an inode. If there is no such block,
allocate one. -/
def bmap (ip : Iref) (bn : ℕ) : FsM ℕ :=
  if bn < NDIRECT then
    bmapAddr sb ip bn
  else if bn - NDIRECT < NINDIRECT then do
    -- load indirect block, allocating if necessary
    let addr ← bmapAddr sb ip NDIRECT
    let a ← bread addr
    if a.word (bn - NDIRECT) = 0 then
      let b ← balloc sb
      setData addr (·.setWord (bn - NDIRECT) b)
      logWrite sb addr
      brelse addr
      return b
    else
      brelse addr
      return a.word (bn - NDIRECT)
  else
    panic .bmapOutOfRange

/-- Free the block of a direct entry. -/
def itruncDirect (ip : Iref) (k : ℕ) : FsM PUnit := do
  let addr := ((← get).itable ip).addr k
  if addr ≠ 0 then
    bfree sb addr
    setInode ip fun i => { i with toDinode := i.setAddr k 0 }
  else
    return ⟨⟩

/-- Free the block of an entry of an indirect block. -/
def itruncEntry (a : Block) (j : ℕ) : FsM PUnit :=
  if a.word j ≠ 0 then
    bfree sb (a.word j)
  else
    return ⟨⟩

/-- Free the indirect block and the blocks of its entries. -/
def itruncIndirect (ip : Iref) : FsM PUnit := do
  let addr := ((← get).itable ip).addr NDIRECT
  if addr ≠ 0 then
    let a ← bread addr
    forM (List.range NINDIRECT) (itruncEntry sb a)
    brelse addr
    bfree sb addr
    setInode ip fun i => { i with toDinode := i.setAddr NDIRECT 0 }
  else
    return ⟨⟩

/-- Truncate inode (discard contents). -/
def itrunc (ip : Iref) : FsM PUnit := do
  forM (List.range NDIRECT) (itruncDirect sb ip)
  itruncIndirect sb ip
  setInode ip fun i => { i with size := 0 }
  iupdate sb ip

/-- That was the last reference and the inode has no links. -/
def Inode.Last (i : Inode) : Prop := i.ref = 1 ∧ i.valid = true ∧ i.nlink = 0

instance (i : Inode) : Decidable i.Last := inferInstanceAs (Decidable (_ ∧ _ ∧ _))

/-- The branch of `iput` for an inode without links and other references: truncate and free. The
sleep-lock is acquired with the lock of the table held, which lets nobody else run. -/
def iputFree (ip : Iref) : FsM PUnit := do
  if ((← get).itable ip).locked then
    sleep
  else
    setInode ip fun i => { i with locked := true }
    itrunc sb ip
    setInode ip fun i => { i with type := 0 }
    iupdate sb ip
    setInode ip fun i => { i with valid := false }
    releasesleep ip
    Coroutine.pause .table

/-- Drop a reference to an in-memory inode. -/
def iput (ip : Iref) : FsM PUnit := do
  Coroutine.pause .table
  if ((← get).itable ip).Last then
    iputFree sb ip
    setInode ip fun i => { i with ref := i.ref - 1 }
  else
    setInode ip fun i => { i with ref := i.ref - 1 }

/-- Common idiom: unlock, then put. -/
def iunlockput (ip : Iref) : FsM PUnit := do
  iunlock ip
  iput sb ip

/-- The memory that a copy reads: the byte at each distance from the first one, `none` where no
page is mapped. -/
abbrev Source := ℕ → Option UInt8

/-- How many of the `m` bytes from distance `k` on `either_copyin` copies before it meets a page
that is not mapped. -/
def Source.copied (src : Source) (k m : ℕ) : ℕ :=
  ((List.range m).takeWhile fun t => (src (k + t)).isSome).length

/-- The bytes from distance `k` on. -/
def Source.bytes (src : Source) (k : ℕ) : ℕ → UInt8 := fun t => (src (k + t)).getD 0

/-- The rounds of `readi` that are left, `tot` of `n` bytes being read. `none` is the result `-1`;
`dst` says which bytes of the destination are mapped. -/
def readLoop (ip : Iref) (dst : ℕ → Bool) (n : ℕ) : ℕ → ℕ → ℕ → FsM (Option (List UInt8))
  | 0, _, _ => return some []
  | fuel + 1, tot, off =>
    if tot < n then do
      let b ← bmap sb ip (off / BSIZE)
      let blk ← bread b
      let m := min (n - tot) (BSIZE - off % BSIZE)
      brelse b
      if (List.range m).all fun t => dst (tot + t) then
        let rest ← readLoop ip dst n fuel (tot + m) (off + m)
        return rest.map ((List.range m).map (fun t => blk.byte (off % BSIZE + t)) ++ ·)
      else
        return none
    else
      return some []

/-- Read data from inode: the bytes delivered, or `none` for the result `-1`. -/
def readi (ip : Iref) (dst : ℕ → Bool) (off n : ℕ) : FsM (Option (List UInt8)) := do
  let size := ((← get).itable ip).size.toNat
  if size < off ∨ (off + n) % 2 ^ 32 < off then
    return some []
  else
    let n := if size < (off + n) % 2 ^ 32 then size - off else n
    readLoop sb ip dst n n 0 off

/-- Copy `c` bytes into the block of the file at `off`; returns the block, which is still locked. -/
def writeBlock (ip : Iref) (off c : ℕ) (f : ℕ → UInt8) : FsM ℕ := do
  let b ← bmap sb ip (off / BSIZE)
  let _ ← bread b
  setData b fun blk => blk.patch (off % BSIZE) c f
  return b

/-- The rounds of `writei` that are left, `tot` of `n` bytes being written; returns `tot` and `off`
at the end of the loop. -/
def writeLoop (ip : Iref) (src : Source) (n : ℕ) : ℕ → ℕ → ℕ → FsM (ℕ × ℕ)
  | 0, tot, off => return (tot, off)
  | fuel + 1, tot, off =>
    if tot < n then do
      let m := min (n - tot) (BSIZE - off % BSIZE)
      let c := src.copied tot m
      let b ← writeBlock sb ip off c (src.bytes tot)
      if c < m then
        brelse b
        return (tot, off)
      else
        logWrite sb b
        brelse b
        writeLoop ip src n fuel (tot + m) (off + m)
    else
      return (tot, off)

/-- Write data to inode. Returns the number of bytes successfully written, or `-1`. -/
def writei (ip : Iref) (src : Source) (off n : ℕ) : FsM ℤ := do
  let size := ((← get).itable ip).size.toNat
  if size < off ∨ (off + n) % 2 ^ 32 < off then
    return -1
  else if MAXFILE * BSIZE < (off + n) % 2 ^ 32 then
    return -1
  else
    let r ← writeLoop sb ip src n n 0 off
    -- write the i-node back to disk even if the size didn't change, because the loop might have
    -- added a new block
    setInode ip fun i => { i with size := if i.size.toNat < r.2 then UInt32.ofNat r.2 else i.size }
    iupdate sb ip
    return r.1

end Xv6.Fs
