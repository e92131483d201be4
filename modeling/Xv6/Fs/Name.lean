import Xv6.Fs.Inode

/-!
# Directories and paths

The directory and path layers of `kernel/fs.c` and the system calls of `kernel/sysfile.c` that
change the name space. Names and paths are C strings, given by their bytes before the final zero;
the working directory of the calling process is a parameter.
-/

namespace Xv6.Fs

open Core

/-! ### Strings -/

/-- A C string, or a name that fills its array without a final zero. -/
abbrev CStr := List UInt8

/-- `strncmp` of `kernel/string.c`. -/
def strncmp : ℕ → CStr → CStr → ℤ
  | 0, _, _ => 0
  | n + 1, p, q =>
    if p.headD 0 ≠ 0 ∧ p.headD 0 = q.headD 0 then strncmp n p.tail q.tail
    else (p.headD 0).toNat - (q.headD 0).toNat

/-- The `n` bytes that `strncpy` writes. -/
def strncpy (n : ℕ) (t : CStr) : List UInt8 :=
  let s := (t.take n).takeWhile (· != 0)
  s ++ List.replicate (n - s.length) 0

def namecmp (s t : CStr) : ℤ := strncmp DIRSIZ s t

/-! ### Directories -/

structure Dirent where
  /-- A `ushort`. -/
  inum : ℕ
  name : List UInt8

namespace Dirent

/-- `sizeof(struct dirent)` -/
def size : ℕ := 16

def bytes (de : Dirent) : List UInt8 :=
  UInt8.ofNat de.inum :: UInt8.ofNat (de.inum / 256) :: de.name

def ofBytes (bs : List UInt8) : Dirent where
  inum := (bs.getD 0 0).toNat + 256 * (bs.getD 1 0).toNat
  name := bs.drop 2

end Dirent

/-- Kernel memory, all of which can be read. -/
def Source.kernel (bs : List UInt8) : Source := fun k => some (bs.getD k 0)

variable (sb : Superblock)

/-- Read the directory entry at `off` into kernel memory, with panic `p` unless it is whole. -/
def readDirent (dp : Iref) (off : ℕ) (p : Panic) : FsM Dirent := do
  match ← readi sb dp (fun _ => true) off Dirent.size with
  | some bs => if bs.length = Dirent.size then return .ofBytes bs else panic p
  | none => panic p

/-- The rounds of `dirlookup` from `off` on. -/
def dirlookupFrom (dp : Iref) (name : CStr) : ℕ → ℕ → FsM (Option (Iref × ℕ))
  | 0, _ => return none
  | fuel + 1, off => do
    if off < ((← get).itable dp).size.toNat then
      let de ← readDirent sb dp off .dirlookupRead
      if de.inum = 0 ∨ namecmp name de.name ≠ 0 then
        dirlookupFrom dp name fuel (off + Dirent.size)
      else
        let ip ← iget de.inum
        return some (ip, off)
    else
      return none

/-- Look for a directory entry in a directory. Returns the inode and the byte offset of the
entry. -/
def dirlookup (dp : Iref) (name : CStr) : FsM (Option (Iref × ℕ)) := do
  let i := (← get).itable dp
  if i.type ≠ T_DIR then
    panic .dirlookupNotDir
  else
    dirlookupFrom sb dp name (i.size.toNat / Dirent.size + 1) 0

/-- The search of `dirlink` for an empty entry, from `off` on. -/
def emptyDirent (dp : Iref) : ℕ → ℕ → FsM ℕ
  | 0, off => return off
  | fuel + 1, off => do
    if off < ((← get).itable dp).size.toNat then
      let de ← readDirent sb dp off .dirlinkRead
      if de.inum = 0 then return off else emptyDirent dp fuel (off + Dirent.size)
    else
      return off

/-- Write a new directory entry into the directory `dp`. -/
def dirlink (dp : Iref) (name : CStr) (inum : ℕ) : FsM ℤ := do
  match ← dirlookup sb dp name with
  | some (ip, _) =>
    iput sb ip
    return -1
  | none =>
    let off ← emptyDirent sb dp (((← get).itable dp).size.toNat / Dirent.size + 1) 0
    let de : Dirent := ⟨inum % 2 ^ 16, strncpy DIRSIZ name⟩
    if (← writei sb dp (.kernel de.bytes) off Dirent.size) ≠ Dirent.size then
      panic .dirlink
    else
      return 0

/-- The rounds of `isdirempty` from `off` on. -/
def isdiremptyFrom (dp : Iref) : ℕ → ℕ → FsM Bool
  | 0, _ => return true
  | fuel + 1, off => do
    if off < ((← get).itable dp).size.toNat then
      let de ← readDirent sb dp off .isdiremptyReadi
      if de.inum ≠ 0 then return false else isdiremptyFrom dp fuel (off + Dirent.size)
    else
      return true

/-- Is the directory empty except for `"."` and `".."`? -/
def isdirempty (dp : Iref) : FsM Bool := do
  isdiremptyFrom sb dp (((← get).itable dp).size.toNat / Dirent.size + 1) (2 * Dirent.size)

/-! ### Paths -/

/-- The byte `'/'`. -/
def slash : UInt8 := 47

/-- The next path element, cut to `DIRSIZ` bytes, and the path that follows it. -/
def skipelem (path : CStr) : Option (CStr × CStr) :=
  match path.dropWhile (· == slash) with
  | [] => none
  | c :: cs =>
    let elem := (c :: cs).takeWhile (· != slash)
    let rest := (c :: cs).dropWhile (· != slash)
    some (elem.take DIRSIZ, rest.dropWhile (· == slash))

/-- The end of `namex`, when the path has no more elements. -/
def namexEnd (parent : Bool) (ip : Iref) (name : CStr) : FsM (Option (Iref × CStr)) := do
  if parent then
    iput sb ip
    return none
  else
    return some (ip, name)

/-- The rounds of `namex` from the inode `ip` on, with the rest of the path and the buffer for the
name. -/
def namexFrom (parent : Bool) : ℕ → Iref → CStr → CStr → FsM (Option (Iref × CStr))
  | 0, ip, _, name => namexEnd sb parent ip name
  | fuel + 1, ip, path, name =>
    match skipelem path with
    | none => namexEnd sb parent ip name
    | some (name, path) => do
      ilock sb ip
      if ((← get).itable ip).type ≠ T_DIR then
        iunlockput sb ip
        return none
      else if parent ∧ path = [] then
        -- stop one level early
        iunlock ip
        return some (ip, name)
      else
        match ← dirlookup sb ip name with
        | none =>
          iunlockput sb ip
          return none
        | some (next, _) =>
          iunlockput sb ip
          namexFrom parent fuel next path name

/-- Look up and return the inode for a path name; for its parent, together with the final path
element, if `parent`. -/
def namex (cwd : Iref) (path : CStr) (parent : Bool) : FsM (Option (Iref × CStr)) := do
  let ip ← if path.head? = some slash then iget ROOTINO else idup cwd
  namexFrom sb parent path.length ip path []

def namei (cwd : Iref) (path : CStr) : FsM (Option Iref) := do
  return (← namex sb cwd path false).map Prod.fst

def nameiparent (cwd : Iref) (path : CStr) : FsM (Option (Iref × CStr)) := namex sb cwd path true

/-! ### System calls -/

/-- The bytes of `"."`. -/
def dot : CStr := [46]

/-- The bytes of `".."`. -/
def dotdot : CStr := [46, 46]

/-- The entries `"."` and `".."` of a new directory `ip` in `dp`. -/
def createDots (ip dp : Iref) : FsM PUnit := do
  -- No ip->nlink++ for ".": avoid cyclic ref count.
  setInode dp fun i => { i with nlink := i.nlink + 1 }
  iupdate sb dp
  if (← dirlink sb ip dot ((← get).itable ip).inum) < 0 then
    panic .createDots
  else if (← dirlink sb ip dotdot ((← get).itable dp).inum) < 0 then
    panic .createDots
  else
    return ⟨⟩

/-- The end of `create`: enter the new inode `ip` into `dp`. -/
def createLink (dp ip : Iref) (name : CStr) : FsM (Option Iref) := do
  if (← dirlink sb dp name ((← get).itable ip).inum) < 0 then
    panic .createDirlink
  else
    iunlockput sb dp
    return some ip

/-- Returns the inode locked. `ialloc` never returns 0, so the test of its result is left out. -/
def create (cwd : Iref) (path : CStr) (type major minor : Int16) : FsM (Option Iref) := do
  match ← nameiparent sb cwd path with
  | none => return none
  | some (dp, name) =>
    ilock sb dp
    match ← dirlookup sb dp name with
    | some (ip, _) =>
      iunlockput sb dp
      ilock sb ip
      let found := ((← get).itable ip).type
      if type = T_FILE ∧ (found = T_FILE ∨ found = T_DEVICE) then
        return some ip
      else
        iunlockput sb ip
        return none
    | none =>
      let ip ← ialloc sb type
      ilock sb ip
      setInode ip fun i => { i with major := major, minor := minor, nlink := 1 }
      iupdate sb ip
      if type = T_DIR then
        createDots sb ip dp
        createLink sb dp ip name
      else
        createLink sb dp ip name

/-- The label `bad` of `sys_link`. -/
def linkBad (ip : Iref) : FsM ℤ := do
  ilock sb ip
  setInode ip fun i => { i with nlink := i.nlink - 1 }
  iupdate sb ip
  iunlockput sb ip
  return -1

/-- Create the path `new` as a link to the same inode as `old`. -/
def sysLink (cwd : Iref) (old new : CStr) : FsM ℤ := do
  match ← namei sb cwd old with
  | none => return -1
  | some ip =>
    ilock sb ip
    if ((← get).itable ip).type = T_DIR then
      iunlockput sb ip
      return -1
    else
      setInode ip fun i => { i with nlink := i.nlink + 1 }
      iupdate sb ip
      iunlock ip
      match ← nameiparent sb cwd new with
      | none => linkBad sb ip
      | some (dp, name) =>
        ilock sb dp
        if (← dirlink sb dp name ((← get).itable ip).inum) < 0 then
          iunlockput sb dp
          linkBad sb ip
        else
          iunlockput sb dp
          iput sb ip
          return 0

/-- The label `bad` of `sys_unlink`. -/
def unlinkBad (dp : Iref) : FsM ℤ := do
  iunlockput sb dp
  return -1

/-- The link that a directory has lost with the `".."` of the directory `ip`. -/
def unlinkParent (dp ip : Iref) : FsM PUnit := do
  if ((← get).itable ip).type = T_DIR then
    setInode dp fun i => { i with nlink := i.nlink - 1 }
    iupdate sb dp
  else
    return ⟨⟩

/-- The end of `sys_unlink`: clear the entry of `ip` at `off` in `dp`. -/
def unlinkEntry (dp ip : Iref) (off : ℕ) : FsM ℤ := do
  if (← writei sb dp (.kernel []) off Dirent.size) ≠ Dirent.size then
    panic .unlinkWritei
  else
    unlinkParent sb dp ip
    iunlockput sb dp
    setInode ip fun i => { i with nlink := i.nlink - 1 }
    iupdate sb ip
    iunlockput sb ip
    return 0

/-- `ip->type == T_DIR && !isdirempty(ip)` -/
def isFullDir (ip : Iref) : FsM Bool := do
  if ((← get).itable ip).type = T_DIR then
    return !(← isdirempty sb ip)
  else
    return false

def sysUnlink (cwd : Iref) (path : CStr) : FsM ℤ := do
  match ← nameiparent sb cwd path with
  | none => return -1
  | some (dp, name) =>
    ilock sb dp
    -- Cannot unlink "." or "..".
    if namecmp name dot = 0 ∨ namecmp name dotdot = 0 then
      unlinkBad sb dp
    else
      match ← dirlookup sb dp name with
      | none => unlinkBad sb dp
      | some (ip, off) =>
        Coroutine.pause (.unlink dp ip)
        ilock sb ip
        if ((← get).itable ip).nlink < 1 then
          panic .unlinkNlink
        else if (← isFullDir sb ip) then
          iunlockput sb ip
          unlinkBad sb dp
        else
          unlinkEntry sb dp ip off

/-- Maximum major device number. -/
def NDEV : ℤ := 10

def O_RDONLY : ℕ := 0x000
def O_CREATE : ℕ := 0x200
def O_TRUNC : ℕ := 0x400

/-- The first half of `sys_open`: find or create the inode, and lock it. -/
def openInode (cwd : Iref) (path : CStr) (omode : ℕ) : FsM (Option Iref) := do
  if omode &&& O_CREATE ≠ 0 then
    create sb cwd path T_FILE 0 0
  else
    match ← namei sb cwd path with
    | none => return none
    | some ip =>
      ilock sb ip
      if ((← get).itable ip).type = T_DIR ∧ omode ≠ O_RDONLY then
        iunlockput sb ip
        return none
      else
        return some ip

/-- What `sys_open` does to the file system. `file` says whether there is a free entry in the file
table and a free descriptor; the file then keeps the reference to the inode. -/
def sysOpen (cwd : Iref) (path : CStr) (omode : ℕ) (file : Bool) : FsM (Option Iref) := do
  match ← openInode sb cwd path omode with
  | none => return none
  | some ip =>
    let i := (← get).itable ip
    if i.type = T_DEVICE ∧ (i.major.toInt < 0 ∨ NDEV ≤ i.major.toInt) then
      iunlockput sb ip
      return none
    else if file = false then
      iunlockput sb ip
      return none
    else if omode &&& O_TRUNC ≠ 0 ∧ i.type = T_FILE then
      itrunc sb ip
      iunlock ip
      return some ip
    else
      iunlock ip
      return some ip

/-- `sys_mkdir` and `sys_mknod`, which differ in the type and the device numbers. -/
def sysMake (cwd : Iref) (path : CStr) (type major minor : Int16) : FsM ℤ := do
  match ← create sb cwd path type major minor with
  | none => return -1
  | some ip =>
    iunlockput sb ip
    return 0

def sysMkdir (cwd : Iref) (path : CStr) : FsM ℤ := sysMake sb cwd path T_DIR 0 0

def sysMknod (cwd : Iref) (path : CStr) (major minor : Int16) : FsM ℤ :=
  sysMake sb cwd path T_DEVICE major minor

/-- Returns the new working directory. -/
def sysChdir (cwd : Iref) (path : CStr) : FsM (Option Iref) := do
  match ← namei sb cwd path with
  | none => return none
  | some ip =>
    ilock sb ip
    if ((← get).itable ip).type ≠ T_DIR then
      iunlockput sb ip
      return none
    else
      iunlock ip
      iput sb cwd
      return some ip

/-! ### Sequences of operations -/

/-- The operations, each of which runs in a transaction of its own. `writei` writes what a process
passes to `write`; `dirlink` enters an inode to which somebody holds a reference. -/
inductive Op
  | ialloc (type : Int16)
  | readi (ip : Iref) (dst : ℕ → Bool) (off n : UInt32)
  | writei (ip : Iref) (src : Source) (off n : UInt32)
  | itrunc (ip : Iref)
  | idup (ip : Iref)
  | iput (ip : Iref)
  | dirlink (dp : Iref) (name : CStr) (ip : Iref)
  | create (cwd : Iref) (path : CStr) (type major minor : Int16)
  | link (cwd : Iref) (old new : CStr)
  | unlink (cwd : Iref) (path : CStr)
  | open (cwd : Iref) (path : CStr) (omode : ℕ) (file : Bool)
  | mkdir (cwd : Iref) (path : CStr)
  | mknod (cwd : Iref) (path : CStr) (major minor : Int16)
  | chdir (cwd : Iref) (path : CStr)

/-- Run code with the inode locked. -/
def locking (ip : Iref) {α : Type} (c : FsM α) : FsM PUnit := do
  ilock sb ip
  let _ ← c
  iunlock ip

/-- Unlock the inode that `create` returned. -/
def unlockSome : Option Iref → FsM PUnit
  | none => return ⟨⟩
  | some ip => iunlock ip

/-- The effect of an operation on the file system, without the log. -/
def Op.body : Op → FsM PUnit
  | .ialloc type => do let _ ← Fs.ialloc sb type
  | .readi ip dst off n => locking sb ip (Fs.readi sb ip dst off.toNat n.toNat)
  | .writei ip src off n => locking sb ip (Fs.writei sb ip src off.toNat n.toNat)
  | .itrunc ip => locking sb ip (Fs.itrunc sb ip)
  | .idup ip => do let _ ← Fs.idup ip
  | .iput ip => Fs.iput sb ip
  | .dirlink dp name ip => do locking sb dp (Fs.dirlink sb dp name ((← get).itable ip).inum)
  | .create cwd path type major minor => do unlockSome (← Fs.create sb cwd path type major minor)
  | .link cwd old new => do let _ ← sysLink sb cwd old new
  | .unlink cwd path => do let _ ← sysUnlink sb cwd path
  | .open cwd path omode file => do let _ ← sysOpen sb cwd path omode file
  | .mkdir cwd path => do let _ ← sysMkdir sb cwd path
  | .mknod cwd path major minor => do let _ ← sysMknod sb cwd path major minor
  | .chdir cwd path => do let _ ← sysChdir sb cwd path

/-- Called at the start of each system call: waits until the log has room for one more. -/
def beginOp : FsM PUnit := do
  Coroutine.pause .log
  let s ← get
  if LOGSIZE < s.lh.length + (s.outstanding + 1) * MAXOPBLOCKS then
    sleep
  else
    modify fun s => { s with outstanding := s.outstanding + 1 }

/-- Called at the end of each system call: commits if this was the last outstanding operation. -/
def endOp : FsM PUnit := do
  Coroutine.pause .log
  modify fun s => {
    s with
    lh := if s.outstanding = 1 then [] else s.lh
    outstanding := s.outstanding - 1 }

def Op.run (op : Op) : FsM PUnit := do
  beginOp
  op.body sb
  endOp

/-- The type of the inode behind a reference. -/
def State.typeOf (s : State) (ip : Iref) : Int16 :=
  if (s.itable ip).valid then (s.itable ip).type else (s.dinode sb (s.itable ip).inum).type

/-- The reference that the caller of an operation holds: what it duplicates or drops, or its working
directory. -/
def Op.held : Op → Option Iref
  | .idup ip | .iput ip => some ip
  | .create cwd _ _ _ _ | .link cwd _ _ | .unlink cwd _ | .open cwd _ _ _ | .mkdir cwd _
  | .mknod cwd _ _ _ | .chdir cwd _ => some cwd
  | _ => none

/-- The file that a process writes to. -/
def Op.written : Op → Option Iref
  | .writei ip _ _ _ => some ip
  | _ => none

/-- What callers see to: the references they use are held, and no process writes to a directory,
since `sys_open` opens directories for reading only. -/
def Op.Allowed (s : State) (op : Op) : Prop :=
  (∀ ip ∈ op.held, 0 < (s.itable ip).ref) ∧ ∀ ip ∈ op.written, s.typeOf sb ip ≠ T_DIR

instance (s : State) (op : Op) : Decidable (op.Allowed sb s) := inferInstanceAs (Decidable (_ ∧ _))

/-- One operation: the state after it, or how it failed to return. -/
def step (s : State) (op : Op) : Option (Except Halt State) :=
  if op.Allowed sb s then some (((op.run sb).run s).map Prod.snd) else none

end Xv6.Fs
