import Xv6.Core.Machine
import Xv6.Core.Ring

/-!
# The disk driver

`kernel/virtio_disk.c` with its device. Processes call `virtio_disk_rw` as `bread` and `bwrite` do,
with the sleep lock of the buffer. What a process does with `vdisk_lock` held, up to a sleep or the
return, is one step; `virtio_disk_intr` goes round its loop one step at a time, since the device can
use that time. The device reads the heads from the avail ring, and completes the requests in any
order. The contents of the requests are left out. The last fields of the state are not in the
source: they number the requests and record which were published and completed.
-/

namespace Xv6.Virtio

open Core

def NUM : ℕ := 8

def VRING_DESC_F_NEXT : ℕ := 1

def VRING_DESC_F_WRITE : ℕ := 2

def BSIZE : ℕ := 1024

section

variable (B : Type)

/-- What a descriptor points to. -/
inductive Addr
  | null
  /-- `&disk.ops[i]` -/
  | ops (i : ℕ)
  /-- `b->data` -/
  | data (b : B)
  /-- `&disk.info[i].status` -/
  | status (i : ℕ)

structure Desc where
  addr : Addr B
  len : ℕ
  flags : ℕ
  next : ℕ

/-- A request that a process waits for: the buffer, the three descriptors, and its number. -/
structure Request where
  b : B
  idx : ℕ × ℕ × ℕ
  serial : ℕ

/-- Where a process is. -/
inductive Pc
  /-- Not in `virtio_disk_rw`. -/
  | out
  /-- Sleeping on `&disk.free[0]`. -/
  | starved (b : B) (write : Bool)
  /-- Woken up there, without the lock yet. -/
  | starvedWoken (b : B) (write : Bool)
  /-- Sleeping on `b`. -/
  | waiting (r : Request B)
  /-- Woken up there, without the lock yet. -/
  | waitingWoken (r : Request B)

variable (P : Type)

structure State where
  free : ℕ → Bool
  desc : ℕ → Desc B
  /-- `disk.info[i].b` -/
  infoB : ℕ → Option B
  /-- `disk.info[i].status` -/
  status : ℕ → UInt8
  availRing : ℕ → ℕ
  availIdx : UInt16
  usedRing : ℕ → ℕ
  /-- `disk.used->idx`, which the device increments. -/
  usedIdx : UInt16
  /-- `disk.used_idx`: we've looked this far in the used ring. -/
  used_idx : UInt16
  /-- `b->disk` -/
  disk : B → Bool
  /-- The process that holds `b->lock`. -/
  holder : B → Option P
  pc : P → Pc B
  /-- The interrupt handler holds `vdisk_lock`. -/
  intr : Bool
  /-- The device has looked this far in the avail ring. -/
  seenIdx : UInt16
  /-- The requests that the device works on. -/
  pending : List (ℕ × ℕ)
  /-- The number of the next request. -/
  serial : ℕ
  published : List (ℕ × ℕ)
  completed : List (ℕ × ℕ)
  /-- How many published requests the device has seen. -/
  seen : ℕ
  /-- How many completed requests the interrupt handler has seen. -/
  handled : ℕ

end

inductive Panic
  | freeDesc1
  | freeDesc2
  | status
  /-- A null pointer is followed. -/
  | null

variable {B P : Type}

namespace State

/-- `wakeup(&disk.free[0])` -/
def wakeupFree (s : State B P) : State B P :=
  { s with pc := fun q =>
      match s.pc q with
      | .starved b write => .starvedWoken b write
      | pc => pc }

/-- `wakeup(b)` -/
def wakeup [DecidableEq B] (s : State B P) (b : B) : State B P :=
  { s with pc := fun q =>
      match s.pc q with
      | .waiting r => if r.b = b then .waitingWoken r else .waiting r
      | pc => pc }

def setPc [DecidableEq P] (s : State B P) (p : P) (pc : Pc B) : State B P :=
  { s with pc := Function.update s.pc p pc }

/-- The descriptor `i` is taken. -/
def take (s : State B P) (i : ℕ) : State B P := { s with free := Function.update s.free i false }

/-- The descriptor `i` is cleared and given back. -/
def give (s : State B P) (i : ℕ) : State B P :=
  { s with
    desc := Function.update s.desc i ⟨.null, 0, 0, 0⟩
    free := Function.update s.free i true }.wakeupFree

def setDesc (s : State B P) (i : ℕ) (d : Desc B) : State B P :=
  { s with desc := Function.update s.desc i d }

end State

open State

def allocDesc (s : State B P) : Option ℕ × State B P :=
  match (List.range NUM).find? s.free with
  | some i => (some i, s.take i)
  | none => (none, s)

def freeDesc (s : State B P) (i : ℕ) : Except Panic (State B P) :=
  if NUM ≤ i then .error .freeDesc1
  else if s.free i then .error .freeDesc2
  else .ok (s.give i)

/-- Each round frees a descriptor, so that there is a panic in the round after `NUM` at the
latest. -/
def freeChain : ℕ → State B P → ℕ → Except Panic (State B P)
  | 0, _, _ => .error .freeDesc2
  | k + 1, s, i =>
    let flag := (s.desc i).flags
    let nxt := (s.desc i).next
    match freeDesc s i with
    | .error x => .error x
    | .ok s => if flag &&& VRING_DESC_F_NEXT ≠ 0 then freeChain k s nxt else .ok s

/-- The loop over the three descriptors, with `none` for the result -1. -/
def alloc3Desc (s : State B P) : Except Panic (Option (ℕ × ℕ × ℕ) × State B P) :=
  match allocDesc s with
  | (none, s) => .ok (none, s)
  | (some i, s) =>
    match allocDesc s with
    | (none, s) => do
      let s ← freeDesc s i
      return (none, s)
    | (some j, s) =>
      match allocDesc s with
      | (none, s) => do
        let s ← freeDesc s i
        let s ← freeDesc s j
        return (none, s)
      | (some k, s) => .ok (some (i, j, k), s)

/-- The three descriptors of a request are formatted. -/
def format (s : State B P) (b : B) (write : Bool) : ℕ × ℕ × ℕ → State B P
  | (i, j, k) =>
    let s := s.setDesc i ⟨.ops i, 16, VRING_DESC_F_NEXT, j⟩
    let s := s.setDesc j
      ⟨.data b, BSIZE, (if write then 0 else VRING_DESC_F_WRITE) ||| VRING_DESC_F_NEXT, k⟩
    let s := { s with status := Function.update s.status i 0xff }
    s.setDesc k ⟨.status i, 1, VRING_DESC_F_WRITE, 0⟩

variable [DecidableEq B] [DecidableEq P]

omit [DecidableEq P] in
/-- The buffer is recorded, and the request is published. -/
def publish (s : State B P) (b : B) (i : ℕ) : State B P :=
  { s with
    disk := Function.update s.disk b true
    infoB := Function.update s.infoB i (some b)
    availRing := Function.update s.availRing (s.availIdx.toNat % NUM) i
    availIdx := s.availIdx + 1
    published := s.published ++ [(i, s.serial)]
    serial := s.serial + 1 }

/-- `virtio_disk_rw(b, write)` from the allocation up to the first sleep. -/
def rw (s : State B P) (p : P) (b : B) (write : Bool) : Except Panic (State B P) :=
  match alloc3Desc s with
  | .error x => .error x
  | .ok (none, s) => .ok (s.setPc p (.starved b write))
  | .ok (some idx, s) =>
    .ok ((publish (format s b write idx) b idx.1).setPc p (.waiting ⟨b, idx, s.serial⟩))

/-- `virtio_disk_rw` from a wakeup on its buffer on. -/
def finish (s : State B P) (p : P) (r : Request B) : Except Panic (State B P) :=
  if s.disk r.b then .ok (s.setPc p (.waiting r))
  else
    match freeChain (NUM + 1) { s with infoB := Function.update s.infoB r.idx.1 none } r.idx.1 with
    | .error x => .error x
    | .ok s => .ok (s.setPc p .out)

omit [DecidableEq P] in
/-- One round of the loop of `virtio_disk_intr`. -/
def intrRound (s : State B P) : Except Panic (State B P) :=
  if s.used_idx ≠ s.usedIdx then
    let id := s.usedRing (s.used_idx.toNat % NUM)
    if s.status id ≠ 0 then .error .status
    else
      match s.infoB id with
      | none => .error .null
      | some b =>
        -- disk is done with buf
        .ok { { s with disk := Function.update s.disk b false }.wakeup b with
          used_idx := s.used_idx + 1
          handled := s.handled + 1 }
  else .ok { s with intr := false }

omit [DecidableEq B] [DecidableEq P] in
/-- The device reads the next head. -/
def deviceSee (s : State B P) : State B P :=
  { s with
    seenIdx := s.seenIdx + 1
    seen := s.seen + 1
    pending := s.pending ++
      [(s.availRing (s.seenIdx.toNat % NUM), ((s.published[s.seen]?).map Prod.snd).getD 0)] }

omit [DecidableEq B] [DecidableEq P] in
/-- The device writes the status to where the third descriptor of the chain points. -/
def deviceStatus (s : State B P) (i : ℕ) : State B P :=
  let d := s.desc (s.desc (s.desc i).next).next
  match d.addr with
  | .status j => { s with status := Function.update s.status j 0 }
  | _ => s

omit [DecidableEq B] [DecidableEq P] in
/-- The device completes a request. -/
def deviceComplete (s : State B P) (x : ℕ × ℕ) : State B P :=
  { deviceStatus s x.1 with
    usedRing := Function.update s.usedRing (s.usedIdx.toNat % NUM) x.1
    usedIdx := s.usedIdx + 1
    pending := s.pending.erase x
    completed := s.completed ++ [x] }

inductive Event (B P : Type)
  | acquiresleep (p : P) (b : B)
  | releasesleep (p : P) (b : B)
  /-- A process calls `virtio_disk_rw`, and gets the lock. -/
  | rw (p : P) (b : B) (write : Bool)
  /-- A process that was woken up goes on with the lock. -/
  | resume (p : P)
  /-- The device reads an entry of the avail ring. -/
  | see
  /-- The device completes one of the requests it works on. -/
  | complete (k : ℕ)
  /-- The interrupt handler starts, and gets the lock. -/
  | intr
  | intrRound

/-- `none` if the event cannot happen. -/
def step (s : State B P) : Event B P → Option (Except Panic (State B P))
  | .acquiresleep p b =>
    match s.pc p, s.holder b with
    | .out, none => some (.ok { s with holder := Function.update s.holder b (some p) })
    | _, _ => none
  | .releasesleep p b =>
    match s.pc p with
    | .out =>
      if s.holder b = some p then
        some (.ok { s with holder := Function.update s.holder b none })
      else none
    | _ => none
  | .rw p b write =>
    match s.pc p with
    | .out => if s.holder b = some p ∧ s.intr = false then some (rw s p b write) else none
    | _ => none
  | .resume p =>
    match s.pc p with
    | .starvedWoken b write => if s.intr = false then some (rw s p b write) else none
    | .waitingWoken r => if s.intr = false then some (finish s p r) else none
    | _ => none
  | .see => if s.seenIdx ≠ s.availIdx then some (.ok (deviceSee s)) else none
  | .complete k => s.pending[k]?.map fun x => .ok (deviceComplete s x)
  | .intr => if s.intr = false then some (.ok { s with intr := true }) else none
  | .intrRound => if s.intr then some (intrRound s) else none

/-- What `virtio_disk_init` leaves. -/
structure Fresh (s : State B P) : Prop where
  free : ∀ i < NUM, s.free i = true
  availIdx : s.availIdx = 0
  usedIdx : s.usedIdx = 0
  used_idx : s.used_idx = 0
  pc : ∀ p, s.pc p = .out
  seenIdx : s.seenIdx = 0
  pending : s.pending = []
  serial : s.serial = 0
  published : s.published = []
  completed : s.completed = []
  seen : s.seen = 0
  handled : s.handled = 0

/-- All runs of the driver and the device. -/
def machine (B P : Type) [DecidableEq B] [DecidableEq P] : Machine (State B P) (Event B P) :=
  .ofStep step Fresh

end Xv6.Virtio
