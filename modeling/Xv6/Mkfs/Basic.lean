import Xv6.Fs.Name

/-!
# mkfs

The program `mkfs/mkfs.c`, which makes a file system image from a list of files. It runs on the
build machine; the image is a file of sectors of one block each. `xshort` and `xint` lay out numbers
in little-endian order, which is how blocks are read here.
-/

namespace Xv6.Mkfs

open Core Fs

/-- How the program ends with a status other than 0. -/
inductive Exit
  /-- `die`: a system call failed. -/
  | die
  /-- A failed assertion. -/
  | assert
  deriving DecidableEq, Repr

/-- The image file and the variables `freeinode` and `freeblock`. -/
structure State where
  disk : ℕ → Block
  /-- The length of the image file. -/
  sectors : ℕ
  freeinode : ℕ
  freeblock : ℕ

abbrev MkM := Coroutine State Exit Empty

def die {α : Type} : MkM α := .fail .die

/-- `assert(p)` -/
def assert (p : Prop) [Decidable p] : MkM PUnit := if p then return ⟨⟩ else .fail .assert

/-- The super block that is written. -/
abbrev sb : Superblock := Layout.mkfs.toSuperblock

def wsect (sec : ℕ) (buf : Block) : MkM PUnit :=
  modify fun s => {
    s with
    disk := Function.update s.disk sec buf
    sectors := max s.sectors (sec + 1) }

/-- A sector behind the end of the file cannot be read. -/
def rsect (sec : ℕ) : MkM Block := do
  let s ← get
  if sec < s.sectors then return s.disk sec else die

def winode (inum : ℕ) (d : Dinode) : MkM PUnit := do
  let buf ← rsect (sb.IBLOCK inum)
  wsect (sb.IBLOCK inum) (buf.setDinode (inum % IPB) d)

def rinode (inum : ℕ) : MkM Dinode := do
  let buf ← rsect (sb.IBLOCK inum)
  return buf.dinode (inum % IPB)

def ialloc (type : Int16) : MkM ℕ := do
  let inum := (← get).freeinode
  modify fun s => { s with freeinode := s.freeinode + 1 }
  winode inum { Dinode.zero with type := type, nlink := 1 }
  return inum

/-- The free map with the first `used` bits set. -/
def bitmap (used : ℕ) : Block := (List.range used).foldl Block.setBit Block.zero

def balloc (used : ℕ) : MkM PUnit := do
  assert (used < BPB)
  wsect sb.bmapstart (bitmap used)

/-- `freeblock++` -/
def takeBlock : MkM ℕ := do
  let b := (← get).freeblock
  modify fun s => { s with freeblock := s.freeblock + 1 }
  return b

/-- `if(xint(din.addrs[k]) == 0) din.addrs[k] = xint(freeblock++);` -/
def iappendAddr (din : Dinode) (k : ℕ) : MkM Dinode := do
  if din.addr k = 0 then
    return din.setAddr k (← takeBlock)
  else
    return din

/-- The entry `j` of the indirect block, which gets a block if it has none. -/
def iappendEntry (din : Dinode) (j : ℕ) : MkM ℕ := do
  let indirect ← rsect (din.addr NDIRECT)
  if indirect.word j = 0 then
    let b ← takeBlock
    wsect (din.addr NDIRECT) (indirect.setWord j b)
    return (indirect.setWord j b).word j
  else
    return indirect.word j

/-- The first half of a round of `iappend`: the block number `x` of the block `fbn` of the file. -/
def iappendBlock (din : Dinode) (fbn : ℕ) : MkM (Dinode × ℕ) := do
  if fbn < NDIRECT then
    let din ← iappendAddr din fbn
    return (din, din.addr fbn)
  else
    let din ← iappendAddr din NDIRECT
    let x ← iappendEntry din (fbn - NDIRECT)
    return (din, x)

/-- The rounds of `iappend` for the bytes `p`, from `off` on. -/
def iappendFrom : ℕ → Dinode → ℕ → List UInt8 → MkM (Dinode × ℕ)
  | 0, din, off, _ => return (din, off)
  | fuel + 1, din, off, p => do
    if 0 < p.length then
      let fbn := off / BSIZE
      assert (fbn < MAXFILE)
      let (din, x) ← iappendBlock din fbn
      let n1 := min p.length ((fbn + 1) * BSIZE - off)
      let buf ← rsect x
      wsect x (buf.patch (off - fbn * BSIZE) n1 fun t => p.getD t 0)
      iappendFrom fuel din (off + n1) (p.drop n1)
    else
      return (din, off)

def iappend (inum : ℕ) (p : List UInt8) : MkM PUnit := do
  let din ← rinode inum
  let (din, off) ← iappendFrom p.length din din.size.toNat p
  winode inum { din with size := UInt32.ofNat off }

/-- A file to put on the image: its path, and what the calls of `read` deliver, or `none` if it
cannot be opened. -/
structure Arg where
  path : CStr
  reads : Option (List (List UInt8))

/-- The bytes of `"user/"`. -/
def user : CStr := [117, 115, 101, 114, 47]

/-- The path without `"user/"` at its start. -/
def Arg.base (arg : Arg) : CStr := if user.isPrefixOf arg.path then arg.path.drop 5 else arg.path

/-- The name without a leading `'_'`. -/
def Arg.shortname (arg : Arg) : CStr := if arg.base.head? = some 95 then arg.base.tail else arg.base

/-- A directory entry for the root directory. -/
def dirent (inum : ℕ) (name : CStr) : List UInt8 :=
  Dirent.bytes ⟨inum % 2 ^ 16, strncpy DIRSIZ name⟩

/-- One round of the loop of `main` over the files. -/
def addFile (rootino : ℕ) (arg : Arg) : MkM PUnit := do
  assert (slash ∉ arg.base)
  match arg.reads with
  | none => die
  | some reads =>
    let inum ← ialloc T_FILE
    iappend rootino (dirent inum arg.shortname)
    forM reads (iappend inum)

/-- `FSMAGIC` -/
def FSMAGIC : ℕ := 0x10203040

/-- The block that holds the super block. -/
def sbBlock : Block :=
  [FSMAGIC, sb.size, sb.nblocks, sb.ninodes, sb.nlog, 2, sb.inodestart, sb.bmapstart].zipIdx.foldl
    (fun blk w => blk.setWord w.2 w.1) Block.zero

/-- The image after all its blocks have been cleared. -/
def cleared : State where
  disk := fun _ => Block.zero
  sectors := FSSIZE
  freeinode := 1
  freeblock := sb.nmeta

/-- The root directory, with entries for itself. -/
def makeRoot : MkM ℕ := do
  let rootino ← ialloc T_DIR
  assert (rootino = ROOTINO)
  iappend rootino (dirent rootino dot)
  iappend rootino (dirent rootino dotdot)
  return rootino

/-- `((off/BSIZE) + 1) * BSIZE` of the size of the root directory. -/
def fixSize (rootino : ℕ) : MkM PUnit := do
  let din ← rinode rootino
  winode rootino { din with size := UInt32.ofNat ((din.size.toNat / BSIZE + 1) * BSIZE) }

/-- `main` from the cleared image on. -/
def main (args : List Arg) : MkM PUnit := do
  wsect 1 sbBlock
  let rootino ← makeRoot
  forM args (addFile rootino)
  fixSize rootino
  balloc (← get).freeblock

/-- The image that `mkfs` writes, if it ends with status 0. -/
def mkfs (args : List Arg) : Option State :=
  match (main args).run cleared with
  | .ok (_, img) => some img
  | .error _ => none

end Xv6.Mkfs
