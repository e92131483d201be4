import Xv6.Basic
import Xv6.Core.DiskProg

/-!
# The buffer cache as the log sees it

`bread`, `bwrite`, `brelse`, `bpin` and `bunpin` of `kernel/bio.c`, over a cache that maps a
block number to its buffer. Which unused buffers a miss recycles is left open (`recycle`), except
for the test of `bget`: only a buffer with `refcnt == 0` is taken. The number of buffers and the
order of the list are not modelled here.
-/

namespace Xv6.Log

open Core

/-- Contents of the log header block, also kept in memory for the blocks logged before commit. -/
structure Logheader where
  n : ℤ
  block : ℕ → ℕ

/-- A cached block. -/
structure Buf where
  refcnt : ℕ
  data : Block

/-- The part of the kernel's memory that a crash destroys: the header in `log.lh` and the cache.
`clock` counts the misses, so that `recycle` may choose differently at each of them. -/
structure Mem where
  lh : Logheader
  bcache : ℕ → Option Buf
  clock : ℕ

/-- Memory right after the machine starts. -/
def Mem.boot : Mem where
  lh := ⟨0, fun _ => 0⟩
  bcache := fun _ => none
  clock := 0

/-- Kernel code that uses the disk through the buffer cache. -/
abbrev LogM := StateT Mem (DiskProg ℕ Block)

/-- The cache after a miss has recycled the unused buffers it chose. -/
def Mem.recycled (recycle : ℕ → ℕ → Bool) (m : Mem) (b : ℕ) : Option Buf :=
  match m.bcache b with
  | some buf => if buf.refcnt = 0 ∧ recycle m.clock b = true then none else some buf
  | none => none

/-- Return the contents of a block, with its buffer held. -/
def bread (recycle : ℕ → ℕ → Bool) (b : ℕ) : LogM Block := fun m =>
  match m.bcache b with
  | some buf =>
    pure (buf.data, { m with
      bcache := Function.update m.bcache b (some { buf with refcnt := buf.refcnt + 1 }) })
  | none =>
    .read b fun v => pure (v, { m with
      bcache := Function.update (m.recycled recycle) b (some ⟨1, v⟩), clock := m.clock + 1 })

def modifyBuf (b : ℕ) (f : Buf → Buf) : LogM PUnit := fun m =>
  pure (⟨⟩, { m with bcache := Function.update m.bcache b ((m.bcache b).map f) })

/-- `memmove(b->data, data, BSIZE)`. -/
def setData (b : ℕ) (data : Block) : LogM PUnit := modifyBuf b fun buf => { buf with data := data }

def brelse (b : ℕ) : LogM PUnit := modifyBuf b fun buf => { buf with refcnt := buf.refcnt - 1 }

def bunpin (b : ℕ) : LogM PUnit := modifyBuf b fun buf => { buf with refcnt := buf.refcnt - 1 }

/-- Write a buffer's contents to disk. The kernel panics when the buffer is not held. -/
def bwrite (b : ℕ) : LogM PUnit := fun m =>
  match m.bcache b with
  | some buf => .write b buf.data (pure (⟨⟩, m))
  | none => pure (⟨⟩, m)

/-! ### What the cache guarantees

`dirty` holds the contents of the buffers that are newer than the disk, and `need` a lower bound
for each reference count. A dirty buffer is always counted, so it is never recycled; every other
cached buffer agrees with the disk, so it does not matter whether it is. -/

/-- One block: its newer contents if any, the references known to exist, its buffer, its contents
on disk. -/
def BufInv (dirty : Option Block) (need : ℕ) (buf : Option Buf) (v : Block) : Prop :=
  (dirty ≠ none → 0 < need) ∧
    match buf with
    | some buf => need ≤ buf.refcnt ∧ buf.data = dirty.getD v
    | none => need = 0

/-- The assertion the specifications below pass along: cache, in-memory header and disk. -/
def At (dirty : ℕ → Option Block) (need : ℕ → ℕ) (lh : Logheader) (e : ℕ → Block) (m : Mem)
    (d : ℕ → Block) : Prop :=
  (∀ b, BufInv (dirty b) (need b) (m.bcache b) (d b)) ∧ m.lh = lh ∧ d = e

section

variable {recycle : ℕ → ℕ → Bool} {dirty : ℕ → Option Block} {need : ℕ → ℕ} {lh : Logheader}
  {e : ℕ → Block}

variable {b : ℕ}

/-- A block whose references are all dropped may leave the cache. -/
lemma BufInv.recycled {m : Mem} {o : Option Block} {k : ℕ} {v : Block}
    (h : BufInv o k (m.bcache b) v) : BufInv o k (m.recycled recycle b) v := by
  refine ⟨h.1, ?_⟩
  have h2 := h.2
  cases hb : m.bcache b with
  | none =>
    rw [hb] at h2
    simpa only [Mem.recycled, hb] using h2
  | some buf =>
    rw [hb] at h2
    simp only [Mem.recycled, hb]
    by_cases hr : buf.refcnt = 0 ∧ recycle m.clock b = true
    · rw [if_pos hr]
      have hle := h2.1
      exact Nat.le_zero.mp (hr.1 ▸ hle)
    · rw [if_neg hr]
      exact h2

/-- Changing one buffer keeps the assertion about all the others. -/
lemma forall_bufInv_update {dirty' : ℕ → Option Block} {need' : ℕ → ℕ} {c : ℕ → Option Buf}
    {d d' : ℕ → Block} {buf : Option Buf} (h : ∀ x, x ≠ b → BufInv (dirty x) (need x) (c x) (d x))
    (hd : ∀ x, x ≠ b → dirty' x = dirty x) (hn : ∀ x, x ≠ b → need' x = need x)
    (hdisk : ∀ x, x ≠ b → d' x = d x) (hb : BufInv (dirty' b) (need' b) buf (d' b)) :
    ∀ x, BufInv (dirty' x) (need' x) (Function.update c b buf x) (d' x) := by
  intro x
  by_cases hx : x = b
  · subst hx
    rwa [Function.update_self]
  · rw [Function.update_of_ne hx, hd x hx, hn x hx, hdisk x hx]
    exact h x hx

/-- `bread` returns the newest contents and holds the buffer once more. -/
lemma bread_spec (b : ℕ) :
    Spec (At dirty need lh e) (bread recycle b) [] fun v m d =>
      v = (dirty b).getD (e b) ∧ At dirty (Function.update need b (need b + 1)) lh e m d := by
  rintro m d ⟨hinv, hlh, rfl⟩
  have hb := hinv b
  cases hc : m.bcache b with
  | some buf =>
    rw [hc] at hb
    simp only [bread, hc, pure, DiskProg.exec, replay_nil, true_and]
    refine ⟨hb.2.2, ?_, hlh, rfl⟩
    refine forall_bufInv_update (fun x _ => hinv x) (fun _ _ => rfl)
      (fun x hx => Function.update_of_ne hx ..) (fun _ _ => rfl) ?_
    rw [Function.update_self]
    exact ⟨fun _ => Nat.succ_pos _, Nat.succ_le_succ hb.2.1, hb.2.2⟩
  | none =>
    -- a miss: nobody needs the block, so it is not dirty
    rw [hc] at hb
    have hneed : need b = 0 := hb.2
    have hclean : dirty b = none := by
      by_contra h
      have := hb.1 h
      omega
    simp only [bread, hc, pure, DiskProg.exec, replay_nil, true_and, hclean, Option.getD_none]
    refine ⟨?_, hlh, rfl⟩
    refine forall_bufInv_update (fun x _ => (hinv x).recycled) (fun _ _ => rfl)
      (fun x hx => Function.update_of_ne hx ..) (fun _ _ => rfl) ?_
    rw [Function.update_self, hclean]
    exact ⟨fun h => absurd rfl h, by simp [hneed], rfl⟩

/-- Overwriting the contents of a held buffer makes it dirty. -/
lemma setData_spec (v : Block) (hb : 0 < need b) :
    Spec (At dirty need lh e) (setData b v) [] fun _ =>
      At (Function.update dirty b (some v)) need lh e := by
  rintro m d ⟨hinv, hlh, rfl⟩
  simp only [setData, modifyBuf, pure, DiskProg.exec, replay_nil, true_and]
  refine ⟨?_, hlh, rfl⟩
  refine forall_bufInv_update (fun x _ => hinv x) (fun x hx => Function.update_of_ne hx ..)
    (fun _ _ => rfl) (fun _ _ => rfl) ?_
  rw [Function.update_self]
  have h := (hinv b).2
  cases hc : m.bcache b with
  | none =>
    rw [hc] at h
    have : need b = 0 := h
    omega
  | some buf =>
    rw [hc] at h
    exact ⟨fun _ => hb, h.1, rfl⟩

/-- Dropping one reference of a buffer that stays counted while it is dirty. -/
lemma brelse_spec (hb : dirty b ≠ none → 1 < need b) :
    Spec (At dirty need lh e) (brelse b) [] fun _ =>
      At dirty (Function.update need b (need b - 1)) lh e := by
  rintro m d ⟨hinv, hlh, rfl⟩
  simp only [brelse, modifyBuf, pure, DiskProg.exec, replay_nil, true_and]
  refine ⟨?_, hlh, rfl⟩
  refine forall_bufInv_update (fun x _ => hinv x) (fun _ _ => rfl)
    (fun x hx => Function.update_of_ne hx ..) (fun _ _ => rfl) ?_
  rw [Function.update_self]
  have h := (hinv b).2
  cases hc : m.bcache b with
  | none =>
    rw [hc] at h
    have h0 : need b = 0 := h
    exact ⟨fun hd => by have := hb hd; omega, by simp [h0]⟩
  | some buf =>
    rw [hc] at h
    refine ⟨fun hd => by have := hb hd; omega, ?_, h.2⟩
    exact Nat.sub_le_sub_right h.1 1

lemma bunpin_spec (hb : dirty b ≠ none → 1 < need b) :
    Spec (At dirty need lh e) (bunpin b) [] fun _ =>
      At dirty (Function.update need b (need b - 1)) lh e :=
  brelse_spec hb

/-- Writing a dirty buffer to disk makes it clean. -/
lemma bwrite_spec {v : Block} (hb : dirty b = some v) :
    Spec (At dirty need lh e) (bwrite b) [(b, v)] fun _ =>
      At (Function.update dirty b none) need lh (Function.update e b v) := by
  rintro m d ⟨hinv, hlh, rfl⟩
  have h := hinv b
  cases hc : m.bcache b with
  | none =>
    rw [hc] at h
    have h0 : need b = 0 := h.2
    have := h.1 (by simp [hb])
    omega
  | some buf =>
    rw [hc] at h
    have hv : buf.data = v := by simpa [hb] using h.2.2
    simp only [bwrite, hc, pure, DiskProg.exec, hv, replay_cons, replay_nil, true_and]
    refine ⟨?_, hlh, rfl⟩
    -- the cache itself is unchanged, so write it as an update that does nothing
    have hself : m.bcache = Function.update m.bcache b (some buf) := by
      rw [← hc, Function.update_eq_self]
    rw [hself]
    refine forall_bufInv_update (fun x _ => hinv x) (fun x hx => Function.update_of_ne hx ..)
      (fun _ _ => rfl) (fun x hx => Function.update_of_ne hx ..) ?_
    simp only [Function.update_self]
    exact ⟨fun h => absurd rfl h, h.2.1, hv⟩

end

end Xv6.Log
