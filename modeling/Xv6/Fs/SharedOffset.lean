import Mathlib.Algebra.BigOperators.Ring.Finset
import Mathlib.Algebra.Order.BigOperators.Group.Finset
import Xv6.Fs.Filewrite

/-!
# The offset of a shared file

The offset is in the `struct file` that the processes share, and nothing but the inode lock protects
it. Its holder finds it at the end of what has been written, and so each chunk goes behind the one
before.
-/

namespace Xv6.Fs.Filewrite

open Core Coroutine

variable {L : Layout} {ip : Iref} {inum off m : ℕ} {bytes : List UInt8} {s : State}

/-! ### The file -/

/-- The file `inum`, in use at `ip`, holds these bytes. -/
def Serves (L : Layout) (ip : Iref) (inum : ℕ) (bytes : List UInt8) (s : State) : Prop :=
  ∃ H A, Sound L H A s ∧ (ip, inum) ∈ H.refs ∧ (A inum).type = T_FILE ∧ (A inum).bytes = bytes

namespace Serves

lemma contents (h : Serves L ip inum bytes s) : s.contents L inum = bytes := by
  obtain ⟨H, A, hsound, hr, -, rfl⟩ := h
  obtain ⟨V, hrep, hok, rfl⟩ := hsound.volume
  have hn := hsound.inum_lt hr
  rw [State.contents, if_pos hn]
  simp only [Volume.contents, Volume.files, hrep.inode_volume hn, hrep.content_volume hok]

lemma inum_eq (h : Serves L ip inum bytes s) : (s.itable ip).inum = inum := by
  obtain ⟨H, A, hsound, hr, -⟩ := h
  exact hsound.inum hr

lemma setLog (h : Serves L ip inum bytes s) (lh : List ℕ) (outstanding : ℕ) :
    Serves L ip inum bytes { s with lh := lh, outstanding := outstanding } := by
  obtain ⟨H, A, hsound, h⟩ := h
  exact ⟨H, A, hsound.setLog lh outstanding, h⟩

/-- The lock is taken, if it is free. -/
lemma ilock (h : Serves L ip inum bytes s) (hfree : (s.itable ip).locked = false) :
    ∃ s', (ilock L.toSuperblock ip).run s = .ok (⟨⟩, s') ∧ Serves L ip inum bytes s' ∧
      (s'.itable ip).locked = true ∧ s'.lh = s.lh ∧ s'.outstanding = s.outstanding := by
  obtain ⟨H, A, hsound, hr, htype, hbytes⟩ := h
  have hlog : wp (fun _ => True) (Fs.ilock L.toSuperblock ip)
      (fun _ s' => s'.lh = s.lh ∧ s'.outstanding = s.outstanding) s := by
    have hpos := hsound.ref_pos hr
    simp only [Fs.ilock, acquiresleep, wp_bind, wp_get]
    rw [if_neg (by omega)]
    simp only [wp_bind, wp_pause, wp_get, hfree, Bool.false_eq_true, if_false, wp_setInode, iread]
    apply wp_ite
    · exact fun _ => ⟨rfl, rfl⟩
    · intro _
      simp only [wp_bind, wp_bread, wp_setInode, wp_brelse, wp_get]
      apply wp_ite
      · exact fun _ => trivial
      · exact fun _ => ⟨rfl, rfl⟩
  have hwp : wp (fun _ => False) (Fs.ilock L.toSuperblock ip)
      (fun _ s' => Sound L (H.lock ip) A s') s := by
    apply hsound.wp_ilock hr
    · intro hheld
      rw [(hsound.held ip).mpr hheld] at hfree
      cases hfree
    · intro hzero
      rw [htype] at hzero
      exact absurd hzero (by decide)
    · exact fun s' _ h' => h'
  obtain ⟨a, s', hrun, hsound'⟩ := hwp.exists_run
  refine ⟨s', hrun, ⟨H.lock ip, A, hsound', hr, htype, hbytes⟩, ?_, hlog.returns hrun⟩
  exact (hsound'.held ip).mpr Handles.mem_lock_self

/-- A process that finds the lock taken has to wait. -/
lemma ilock_sleep (h : Serves L ip inum bytes s) (hlocked : (s.itable ip).locked = true) :
    (Fs.ilock L.toSuperblock ip).run s = .error .sleep := by
  obtain ⟨H, A, hsound, hr, -⟩ := h
  have hpos := hsound.ref_pos hr
  have hwp : wp (· = .sleep) (Fs.ilock L.toSuperblock ip) (fun _ _ => False) s := by
    simp only [Fs.ilock, acquiresleep, wp_bind, wp_get]
    rw [if_neg (by omega)]
    simp [hlocked]
  cases hrun : (Fs.ilock L.toSuperblock ip).run s with
  | error e => rw [hwp.fails hrun]
  | ok r => exact (hwp.returns (a := r.1) hrun).elim

/-- The lock is given back. -/
lemma iunlock (h : Serves L ip inum bytes s) (hlocked : (s.itable ip).locked = true) :
    ∃ s', (iunlock ip).run s = .ok (⟨⟩, s') ∧ Serves L ip inum bytes s' ∧
      (s'.itable ip).locked = false ∧ s'.lh = s.lh ∧ s'.outstanding = s.outstanding := by
  obtain ⟨H, A, hsound, hr, htype, hbytes⟩ := h
  have hpos := hsound.ref_pos hr
  have hwp : wp (fun _ => False) (Fs.iunlock ip)
      (fun _ s' => Sound L (H.unlock ip) A s') s :=
    hsound.wp_iunlock hr ((hsound.held ip).mp hlocked) fun s' h' => h'
  have hlog : wp (fun _ => True) (Fs.iunlock ip)
      (fun _ s' => s'.lh = s.lh ∧ s'.outstanding = s.outstanding) s := by
    simp only [Fs.iunlock, wp_bind, wp_get]
    rw [if_neg (by simp [hlocked]; omega)]
    exact ⟨rfl, rfl⟩
  obtain ⟨a, s', hrun, hsound'⟩ := hwp.exists_run
  refine ⟨s', hrun, ⟨H.unlock ip, A, hsound', hr, htype, hbytes⟩, ?_, hlog.returns hrun⟩
  rw [← Bool.not_eq_true, hsound'.held]
  exact fun hheld => (Handles.mem_unlock_held.mp hheld).1 rfl

end Serves

/-! ### One chunk -/

/-- A chunk that lies in `c` blocks has slots for these and the indirect block. -/
lemma card_slots_le_of_blocks {c : ℕ} (hc : off % BSIZE + m ≤ c * BSIZE) :
    (slots off m).card ≤ c + 1 := by
  have hblocks : ((Finset.range MAXFILE).filter fun bn =>
      off / BSIZE ≤ bn ∧ bn * BSIZE < off + m) ⊆ Finset.Ico (off / BSIZE) (off / BSIZE + c) := by
    intro bn hbn
    obtain ⟨-, hle, hlt⟩ := Finset.mem_filter.mp hbn
    rw [Finset.mem_Ico]
    simp only [BSIZE] at hc hle hlt ⊢
    omega
  have hcard := (Finset.card_image_le (f := fileSlot)).trans (Finset.card_le_card hblocks)
  rw [Nat.card_Ico] at hcard
  have hunion := Finset.card_union_le (if NDIRECT * BSIZE < off + m then {Slot.indirect} else ∅)
    (((Finset.range MAXFILE).filter fun bn =>
      off / BSIZE ≤ bn ∧ bn * BSIZE < off + m).image fileSlot)
  have hone : (if NDIRECT * BSIZE < off + m then {Slot.indirect} else ∅ :
    Finset Slot).card ≤ 1 := by
    split <;> simp
  unfold slots
  omega

lemma card_slots_le (off : ℕ) (hm : m ≤ maxChunk) : (slots off m).card ≤ 5 := by
  apply card_slots_le_of_blocks
  simp only [maxChunk, MAXOPBLOCKS, BSIZE] at hm ⊢
  omega

lemma covers_of_mem {bn : ℕ} {lh : List ℕ} {outstanding : ℕ} (hle : off / BSIZE ≤ bn)
    (hlt : bn * BSIZE < off + m) (hmax : off + m ≤ MAXFILE * BSIZE) :
    Demand.Covers ⟨inum, slots off m, lh, outstanding⟩ bn := by
  have hbn : bn < MAXFILE := by
    have := lt_of_lt_of_le hlt hmax
    exact lt_of_mul_lt_mul_right this (Nat.zero_le _)
  constructor
  · refine Finset.mem_union_right _ (Finset.mem_image_of_mem _ ?_)
    exact Finset.mem_filter.mpr ⟨Finset.mem_range.mpr hbn, hle, hlt⟩
  · intro hge
    have : NDIRECT * BSIZE < off + m := lt_of_le_of_lt (Nat.mul_le_mul_right _ hge) hlt
    refine Finset.mem_union_left _ ?_
    rw [if_pos this]
    exact Finset.mem_singleton_self _

/-- A chunk is written as a whole, and the log keeps within what the call has reserved. -/
lemma Serves.writei {src : Source} (h : Serves L ip inum bytes s)
    (hlocked : (s.itable ip).locked = true) (hoff : off ≤ bytes.length)
    (hmax : off + m ≤ MAXFILE * BSIZE) (hsrc : ∀ t < m, (src t).isSome) (hm : m ≤ maxChunk)
    (hsize : L.size ≤ BPB) (hnlog : LOGSIZE ≤ L.nlog) (hroom : s.lh.length + MAXOPBLOCKS ≤ LOGSIZE)
    (henough : Enough L s inum off m) :
    ∃ s', (writei L.toSuperblock ip src off m).run s = .ok ((m : ℤ), s') ∧
      Serves L ip inum (bytes.take off ++
        (List.range m).map (src.bytes 0) ++ bytes.drop (off + m)) s' ∧
      (s'.itable ip).locked = true ∧ s'.outstanding = s.outstanding ∧
      s'.lh.length ≤ s.lh.length + 7 := by
  obtain ⟨H, A, hsound, hr, htype, hbytes⟩ := h
  obtain ⟨V, hload, rfl⟩ := hsound.loaded hr ((hsound.held ip).mp hlocked)
  have hlength : bytes.length = (V.files L inum).size := by rw [← hbytes, File.length_bytes]
  have hcard := card_slots_le off hm
  have hsup : Supply L (fun _ => False) ⟨inum, slots off m, s.lh, s.outstanding⟩ V s := by
    refine .inr ⟨hsize, hnlog, ?_, ?_, ?_⟩
    · simp only [LOGSIZE, MAXOPBLOCKS] at hroom ⊢
      omega
    · exact ⟨rfl, [], (List.append_nil _).symm, List.nodup_nil, by simp⟩
    · have hfree : V.free L =
          (Finset.range L.size).filter fun b => s.marked L.toSuperblock b = false := by
        ext b
        rw [Volume.mem_free, Finset.mem_filter, Finset.mem_range, hload.rep.used]
        refine and_congr_right fun hb => ?_
        simp [hb]
      have hmissing : V.missing L ⟨inum, slots off m, s.lh, s.outstanding⟩ =
          (s.volume L.toSuperblock).missing L ⟨inum, slots off m, s.lh, s.outstanding⟩ := by
        unfold Volume.missing
        rw [hload.rep.ref_volume hload.ok]
      rw [hfree, hmissing]
      exact henough
  have hm32 : m < 2 ^ 32 := lt_of_le_of_lt hm (by decide)
  have haccept : ¬(V.files L inum).Refuses off m := by
    rintro ((hout | hwrap) | hbig)
    · omega
    · simp only [MAXFILE, NDIRECT, NINDIRECT, BSIZE] at hmax
      omega
    · simp only [MAXFILE, NDIRECT, NINDIRECT, BSIZE] at hmax hbig
      omega
  have hwp : wp (fun _ => False) (Fs.writei L.toSuperblock ip src off m) (fun r s' => r = (m : ℤ) ∧
      Serves L ip inum (bytes.take off ++
        (List.range m).map (src.bytes 0) ++ bytes.drop (off + m)) s' ∧
      (s'.itable ip).locked = true ∧ s'.outstanding = s.outstanding ∧
      s'.lh.length ≤ s.lh.length + 7) s := by
    apply hload.wp_writei_of_supply hsup hm32 fun bn hle hlt => covers_of_mem hle hlt hmax
    · exact fun hrefuse => absurd hrefuse haccept
    · intro tot c s' V' _ hs' hload' _ hstops hfiles hlogged
      obtain ⟨htot, hc⟩ := hstops.all hsrc
      rw [Nat.zero_add] at hc
      rw [htot, hc] at hfiles
      have hlogged := hlogged.resolve_left fun hF => hF.log
      have hlen := hlogged.length_le
      have htouched := Volume.card_touched_le (L := L) (V := V')
        (d := ⟨inum, slots off m, s.lh, s.outstanding⟩)
      have hfile : V'.files L inum = (V.files L inum).write off m m (src.bytes 0) := by
        rw [hfiles, Function.update_self]
      have htype' : ((V.files L inum).write off m m (src.bytes 0)).type = T_FILE := htype
      have hsound' : Sound L H (V'.files L) s' := by
        refine hsound.of_entries hs' ⟨V', hload'.rep, hload'.ok, rfl⟩ ?_
        rw [hfiles]
        refine hsound.dirs.update fun hdir => ?_
        exact absurd (htype'.symm.trans hdir) (by decide)
      refine ⟨congrArg Nat.cast htot, ⟨H, _, hsound', hr, hfile ▸ htype', ?_⟩, ?_, hlogged.1, ?_⟩
      · rw [hfile, File.bytes_write _ _ (hlength ▸ hoff), hbytes]
      · exact (hsound'.held ip).mpr ((hsound.held ip).mp hlocked)
      · simp only at hlen htouched
        omega
  obtain ⟨r, s', hrun, rfl, hrest⟩ := hwp.exists_run
  exact ⟨s', hrun, hrest⟩

/-! ### What a process has in hand -/

variable {c : Request} {before : List UInt8} {fs : State}

namespace Request

/-- The memory of the call can be read. -/
structure Ok (c : Request) : Prop where
  n_lt : c.n < 2 ^ 31
  i_le : c.i ≤ c.n
  isSome : ∀ t < c.n, (c.src t).isSome

lemma rest_self (c : Request) : c.rest c.n = [] := by
  simp [rest]

lemma length_rest (c : Request) (i : ℕ) : (c.rest i).length = c.n - i := by
  simp [rest]

lemma length_chunk (c : Request) (m : ℕ) : (c.chunk m).length = m := by
  simp [chunk]

/-- The next chunk and what is left then. -/
lemma chunk_append_rest (c : Request) {m : ℕ} (hm : c.i + m ≤ c.n) :
    c.chunk m ++ c.rest (c.i + m) = c.rest c.i := by
  obtain ⟨k, hk⟩ : ∃ k, c.n - c.i = m + k := ⟨c.n - c.i - m, by omega⟩
  have hk' : c.n - (c.i + m) = k := by omega
  rw [chunk, rest, rest, hk, hk', List.range_add, List.map_append, List.map_map]
  congr 2
  exact (Source.bytes_add c.src c.i m).symm

lemma n1_le (c : Request) (hi : c.i ≤ c.n) : c.i + c.n1 ≤ c.n := by
  have : c.n1 ≤ c.n - c.i := min_le_left _ _
  omega

lemma n1_pos (hi : c.i < c.n) : 0 < c.n1 :=
  lt_min (Nat.sub_pos_of_lt hi) (by decide)

end Request

namespace Pc

/-- What is known where a process is. -/
def Ok : Pc → Prop
  | .idle => True
  | .loop c => c.Ok
  | .begun c | .locked c => c.Ok ∧ c.i < c.n
  | .written c r | .counted c r | .unlocked c r => c.Ok ∧ c.i < c.n ∧ r = c.n1

/-- What is left to write. -/
def rest : Pc → List UInt8
  | .idle => []
  | .loop c | .begun c | .locked c => c.rest c.i
  | .written c r | .counted c r | .unlocked c r => c.rest (c.i + r.toNat)

/-- What is written but not in the offset. -/
def uncounted : Pc → ℕ
  | .written _ r => r.toNat
  | _ => 0

/-- 1 if the process has the lock. -/
def holds : Pc → ℕ
  | .locked _ | .written _ _ | .counted _ _ => 1
  | _ => 0

/-- 1 if the process is between `begin_op` and `end_op`. -/
def ops : Pc → ℕ
  | .idle | .loop _ => 0
  | _ => 1

/-- How many blocks the process may still record. -/
def reserved : Pc → ℕ
  | .idle | .loop _ => 0
  | .begun _ | .locked _ => MAXOPBLOCKS
  | _ => 3

/-- How far the process is from its return. -/
def work : Pc → ℕ
  | .idle => 0
  | .loop c => 7 * (c.n - c.i) + 1
  | .begun c => 7 * (c.n - c.i)
  | .locked c => 7 * (c.n - c.i) - 1
  | .written c _ => 7 * (c.n - c.i) - 2
  | .counted c _ => 7 * (c.n - c.i) - 3
  | .unlocked c _ => 7 * (c.n - c.i) - 4

lemma reserved_le (pc : Pc) : pc.reserved ≤ MAXOPBLOCKS * pc.ops := by
  cases pc <;> simp [reserved, ops, MAXOPBLOCKS]

lemma uncounted_of_holds {pc : Pc} (h : pc.holds = 0) : pc.uncounted = 0 := by
  cases pc <;> first | rfl | cases h

end Pc

section Sums

variable {P : Type} [DecidableEq P] [Fintype P] {pc : P → Pc} {p : P} {x : Pc}

/-- One process goes on. -/
lemma sum_update (pc : P → Pc) (p : P) (x : Pc) (g : Pc → ℕ) :
    ∑ q, g (Function.update pc p x q) + g (pc p) = ∑ q, g (pc q) + g x := by
  have hothers : ∑ q ∈ {p}ᶜ, g (Function.update pc p x q) = ∑ q ∈ {p}ᶜ, g (pc q) := by
    refine Finset.sum_congr rfl fun q hq => ?_
    rw [Function.update_of_ne (by simpa using hq)]
  rw [Fintype.sum_eq_add_sum_compl p, Fintype.sum_eq_add_sum_compl p fun q => g (pc q), hothers,
    Function.update_self]
  ring

lemma sum_update_lt {g : Pc → ℕ} (h : g x < g (pc p)) :
    ∑ q, g (Function.update pc p x q) < ∑ q, g (pc q) := by
  have := sum_update pc p x g
  omega

omit [DecidableEq P] in
lemma le_sum (pc : P → Pc) (p : P) (g : Pc → ℕ) : g (pc p) ≤ ∑ q, g (pc q) :=
  Finset.single_le_sum (f := fun q => g (pc q)) (fun _ _ => Nat.zero_le _) (Finset.mem_univ p)

omit [Fintype P] in
lemma ok_update (h : ∀ q, (pc q).Ok) (hx : x.Ok) (q : P) : (Function.update pc p x q).Ok := by
  rcases eq_or_ne q p with rfl | hq
  · rw [Function.update_self]
    exact hx
  · rw [Function.update_of_ne hq]
    exact h q

/-- Nothing is uncounted, but perhaps by the holder of the lock. -/
lemma sum_uncounted (hholds : ∑ q, (pc q).holds ≤ (pc p).holds) :
    ∑ q, (pc q).uncounted = (pc p).uncounted := by
  refine Finset.sum_eq_single p ?_ fun hp => absurd (Finset.mem_univ p) hp
  intro q _ hq
  apply Pc.uncounted_of_holds
  have hpair := Finset.sum_le_sum_of_subset (f := fun q => (pc q).holds) (Finset.subset_univ {p, q})
  rw [Finset.sum_pair (Ne.symm hq)] at hpair
  omega

omit [DecidableEq P] in
lemma sum_reserved_le (pc : P → Pc) : ∑ q, (pc q).reserved ≤ MAXOPBLOCKS * ∑ q, (pc q).ops := by
  rw [Finset.mul_sum]
  exact Finset.sum_le_sum fun q _ => (pc q).reserved_le

end Sums

/-! ### The invariant -/

variable {P : Type} [DecidableEq P]

/-- All bytes that were written, in this order. -/
def Shared.data (s : Shared P) : List UInt8 := s.chunks.flatMap Chunk.data

/-- The bytes of `before`, with `data` written over them from `off` on. -/
def splice (before : List UInt8) (off : ℕ) (data : List UInt8) : List UInt8 :=
  before.take off ++ data ++ before.drop (off + data.length)

lemma length_take_append (data : List UInt8) (hoff : off ≤ before.length) :
    (before.take off ++ data).length = off + data.length := by
  simp [Nat.min_eq_left hoff]

lemma le_length_splice {data : List UInt8} (hoff : off ≤ before.length) :
    off + data.length ≤ (splice before off data).length := by
  rw [splice, List.length_append, length_take_append data hoff]
  exact Nat.le_add_right _ _

/-- Writing on where one has stopped. -/
lemma splice_append {data data' : List UInt8} (hoff : off ≤ before.length) :
    splice (splice before off data) (off + data.length) data' =
      splice before off (data ++ data') := by
  have hlen := length_take_append data hoff
  have htake : (splice before off data).take (off + data.length) = before.take off ++ data :=
    List.take_left' hlen
  have hdrop : (splice before off data).drop (off + data.length + data'.length) =
      before.drop (off + (data ++ data').length) := by
    rw [← List.drop_drop, splice, List.drop_left' hlen, List.drop_drop, List.length_append,
      Nat.add_assoc]
  rw [splice, htake, hdrop, splice, List.append_assoc (before.take off)]

/-- Each chunk is where the one before ends. -/
def Placed (off : ℕ) (chunks : List (Chunk P)) : Prop :=
  ∀ k (h : k < chunks.length), chunks[k].off = off + ((chunks.take k).flatMap Chunk.data).length

omit [DecidableEq P] in
lemma Placed.append {chunks : List (Chunk P)} {c : Chunk P} (h : Placed off chunks)
    (hc : c.off = off + (chunks.flatMap Chunk.data).length) : Placed off (chunks ++ [c]) := by
  intro k hk
  rw [List.length_append, List.length_singleton] at hk
  rcases Nat.lt_succ_iff_lt_or_eq.mp hk with hlt | rfl
  · rw [List.getElem_append_left hlt, List.take_append_of_le_length hlt.le]
    exact h k hlt
  · simpa using hc

/-- The bytes that a process has written. -/
def Shared.writtenBy (s : Shared P) (p : P) : List UInt8 :=
  (s.chunks.filter fun c => c.p = p).flatMap Chunk.data

/-- The bytes that a process has asked to write. -/
def Shared.askedBy (s : Shared P) (p : P) : List UInt8 :=
  (s.calls.filter fun x => x.1 = p).flatMap Prod.snd

variable [Fintype P] {s₀ t t' : Shared P} {p : P} {x : Pc}

/-- The offset is at the end of what is written, the chunks are one behind the other, and the log
has room for all that the processes may still record. -/
structure Inv (L : Layout) (s₀ t : Shared P) : Prop where
  ip : t.file.ip = s₀.file.ip
  writable : t.file.writable = true
  serves : Serves L s₀.file.ip (s₀.fs.itable s₀.file.ip).inum
    (splice (s₀.fs.contents L (s₀.fs.itable s₀.file.ip).inum) s₀.file.off t.data) t.fs
  holds : ∑ p, (t.pc p).holds = if (t.fs.itable s₀.file.ip).locked then 1 else 0
  off : t.file.off + ∑ p, (t.pc p).uncounted = s₀.file.off + t.data.length
  placed : Placed s₀.file.off t.chunks
  small : ∀ c ∈ t.chunks, c.data.length ≤ maxChunk
  order : ∀ p, t.writtenBy p ++ (t.pc p).rest = t.askedBy p
  total : t.data.length + ∑ p, (t.pc p).rest.length = t.total
  within : s₀.file.off + t.total ≤ MAXFILE * BSIZE
  pc : ∀ p, (t.pc p).Ok
  results : ∀ y ∈ t.results, y.2.2 = y.2.1
  outstanding : t.fs.outstanding = ∑ p, (t.pc p).ops
  room : t.fs.lh.length + ∑ p, (t.pc p).reserved ≤ LOGSIZE
  /-- The last call to leave the log empties it. -/
  empty : t.fs.outstanding = 0 → t.fs.lh = []

/-- The file holds these data from the first offset on. -/
def Written (L : Layout) (s₀ : Shared P) (data : List UInt8) (fs : State) : Prop :=
  Serves L s₀.file.ip (s₀.fs.itable s₀.file.ip).inum
    (splice (s₀.fs.contents L (s₀.fs.itable s₀.file.ip).inum) s₀.file.off data) fs

/-- 1 if the inode is locked. -/
def Shared.taken (t : Shared P) (ip : Iref) : ℕ := if (t.fs.itable ip).locked then 1 else 0

namespace Inv

/-- A process goes on. -/
lemma go (h : Inv L s₀ t) {y : Pc} (hp : t.pc p = y) (hpc : t'.pc = Function.update t.pc p x)
    (hip : t'.file.ip = t.file.ip) (hwritable : t'.file.writable = t.file.writable) (hx : x.Ok)
    (hwritten : Written L s₀ t'.data t'.fs)
    (hholds : x.holds + t.taken s₀.file.ip = y.holds + t'.taken s₀.file.ip)
    (hoff : t'.file.off + x.uncounted + t.data.length = t.file.off + y.uncounted + t'.data.length)
    (hplaced : Placed s₀.file.off t'.chunks) (hsmall : ∀ c ∈ t'.chunks, c.data.length ≤ maxChunk)
    (horder : t'.writtenBy p ++ x.rest = t'.askedBy p)
    (hothers : ∀ q ≠ p, t'.writtenBy q = t.writtenBy q ∧ t'.askedBy q = t.askedBy q)
    (htotal : t'.data.length + x.rest.length + t.total = t.data.length + y.rest.length + t'.total)
    (hwithin : s₀.file.off + t'.total ≤ MAXFILE * BSIZE)
    (hresults : ∀ y ∈ t'.results, y.2.2 = y.2.1)
    (hout : t'.fs.outstanding + y.ops = t.fs.outstanding + x.ops)
    (hroom : t'.fs.lh.length + x.reserved ≤ t.fs.lh.length + y.reserved ∨
      t'.fs.lh.length + MAXOPBLOCKS * t'.fs.outstanding ≤ LOGSIZE)
    (hempty : t'.fs.outstanding = 0 → t'.fs.lh = []) : Inv L s₀ t' := by
  subst hp
  have hsum := sum_update t.pc p x
  rw [← hpc] at hsum
  have hops : t'.fs.outstanding = ∑ q, (t'.pc q).ops := by
    have := h.outstanding
    have := hsum Pc.ops
    omega
  refine ⟨hip.trans h.ip, hwritable.trans h.writable, hwritten, ?_, ?_, hplaced, hsmall, ?_, ?_,
    hwithin, hpc ▸ ok_update h.pc hx, hresults, hops, ?_, hempty⟩
  · have hold : ∑ q, (t.pc q).holds = t.taken s₀.file.ip := h.holds
    have := hsum Pc.holds
    show _ = t'.taken s₀.file.ip
    omega
  · have := h.off
    have := hsum Pc.uncounted
    omega
  · intro q
    rcases eq_or_ne q p with rfl | hq
    · rw [hpc, Function.update_self]
      exact horder
    · rw [hpc, Function.update_of_ne hq, (hothers q hq).1, (hothers q hq).2]
      exact h.order q
  · have := h.total
    have := hsum fun pc => pc.rest.length
    omega
  · rcases hroom with hroom | hroom
    · have := h.room
      have := hsum Pc.reserved
      omega
    · have hle := sum_reserved_le t'.pc
      rw [← hops] at hle
      omega

/-- A process goes on, and nothing is called or written. -/
lemma quiet (h : Inv L s₀ t) {y : Pc} (hp : t.pc p = y) (hpc : t'.pc = Function.update t.pc p x)
    (hcalls : t'.calls = t.calls) (hchunks : t'.chunks = t.chunks) (hip : t'.file.ip = t.file.ip)
    (hwritable : t'.file.writable = t.file.writable) (hx : x.Ok) (hrest : x.rest = y.rest)
    (hoff : t'.file.off + x.uncounted = t.file.off + y.uncounted)
    (hwritten : Written L s₀ t.data t'.fs)
    (hholds : x.holds + t.taken s₀.file.ip = y.holds + t'.taken s₀.file.ip)
    (hresults : ∀ y ∈ t'.results, y.2.2 = y.2.1)
    (hout : t'.fs.outstanding + y.ops = t.fs.outstanding + x.ops)
    (hroom : t'.fs.lh.length + x.reserved ≤ t.fs.lh.length + y.reserved ∨
      t'.fs.lh.length + MAXOPBLOCKS * t'.fs.outstanding ≤ LOGSIZE)
    (hempty : t'.fs.outstanding = 0 → t'.fs.lh = []) : Inv L s₀ t' := by
  have hdata : t'.data = t.data := by rw [Shared.data, hchunks, Shared.data]
  have htotal : t'.total = t.total := by rw [Shared.total, hcalls, Shared.total]
  have hby : ∀ q, t'.writtenBy q = t.writtenBy q ∧ t'.askedBy q = t.askedBy q := by
    intro q
    rw [Shared.writtenBy, hchunks, Shared.askedBy, hcalls]
    exact ⟨rfl, rfl⟩
  refine h.go hp hpc hip hwritable hx (hdata ▸ hwritten) hholds (by rw [hdata, hoff])
    (hchunks ▸ h.placed) (hchunks ▸ h.small) ?_ (fun q _ => hby q) (by rw [hdata, htotal, hrest])
    (htotal ▸ h.within) hresults hout hroom hempty
  rw [(hby p).1, (hby p).2, hrest, ← hp]
  exact h.order p

/-- A process calls `filewrite`. -/
lemma call (h : Inv L s₀ t) (hp : t.pc p = .idle) {src : Source} {n : ℕ} (hn : n < 2 ^ 31)
    (hsrc : ∀ k < n, (src k).isSome) (hmax : s₀.file.off + (t.total + n) ≤ MAXFILE * BSIZE) :
    Inv L s₀ { t.setPc p (.loop ⟨src, n, 0⟩) with
      calls := t.calls ++ [(p, (List.range n).map (src.bytes 0))] } := by
  have hrest : (Pc.loop ⟨src, n, 0⟩).rest = (List.range n).map (src.bytes 0) := rfl
  have htotal : ((t.calls ++ [(p, (List.range n).map (src.bytes 0))]).map fun y => y.2.length).sum =
      t.total + n := by simp [Shared.total]
  have hasked : ∀ q, ((t.calls ++ [(p, (List.range n).map (src.bytes 0))]).filter fun y =>
      y.1 = q).flatMap Prod.snd =
        t.askedBy q ++ if p = q then (List.range n).map (src.bytes 0) else [] := by
    intro q
    rw [List.filter_append, List.flatMap_append]
    by_cases hq : p = q <;> simp [hq, Shared.askedBy]
  refine h.go hp rfl rfl rfl (⟨hn, Nat.zero_le _, hsrc⟩ : Request.Ok _) h.serves rfl rfl h.placed
    h.small ?_ ?_ ?_ (htotal.symm ▸ hmax : _ + List.sum _ ≤ _) h.results rfl (.inl le_rfl) h.empty
  · have horder := h.order p
    rw [hp, show Pc.idle.rest = [] from rfl, List.append_nil] at horder
    rw [Shared.askedBy, hasked, if_pos rfl, hrest]
    exact congrArg (· ++ _) horder
  · intro q hq
    rw [Shared.askedBy, hasked, if_neg (Ne.symm hq), List.append_nil]
    exact ⟨rfl, rfl⟩
  · show t.data.length + _ + t.total = t.data.length + 0 + List.sum _
    rw [htotal, hrest, List.length_map, List.length_range]
    omega

/-- `begin_op` lets the process in. -/
lemma begin (h : Inv L s₀ t) (hp : t.pc p = .loop c) (hi : c.i < c.n)
    (hroom : t.fs.lh.length + (t.fs.outstanding + 1) * MAXOPBLOCKS ≤ LOGSIZE) :
    Inv L s₀ (Shared.setPc { t with fs := { t.fs with outstanding := t.fs.outstanding + 1 } } p
      (.begun c)) := by
  have hpc := h.pc p
  rw [hp] at hpc
  rw [Nat.mul_comm] at hroom
  exact h.quiet hp rfl rfl rfl rfl rfl ⟨hpc, hi⟩ rfl rfl (h.serves.setLog _ _) rfl h.results rfl
    (.inr hroom) fun hzero => absurd hzero (Nat.succ_ne_zero _)

/-- `filewrite` returns `n`. -/
lemma finish (h : Inv L s₀ t) (hp : t.pc p = .loop c) (hi : ¬c.i < c.n) :
    Inv L s₀ (t.finish p c) := by
  have hpc := h.pc p
  rw [hp] at hpc
  have heq : c.i = c.n := le_antisymm hpc.i_le (Nat.not_lt.mp hi)
  refine h.quiet hp rfl rfl rfl rfl rfl trivial ?_ rfl h.serves rfl ?_ rfl (.inl le_rfl) h.empty
  · rw [show (Pc.loop c).rest = c.rest c.i from rfl, heq, Request.rest_self]
    rfl
  · intro y hy
    rcases List.mem_append.mp hy with hy | hy
    · exact h.results y hy
    · rw [List.mem_singleton.mp hy]
      exact if_pos heq

/-- The process gets the lock. -/
lemma lock (h : Inv L s₀ t) (hp : t.pc p = .begun c) (hwritten : Written L s₀ t.data fs)
    (hfree : (t.fs.itable s₀.file.ip).locked = false)
    (hlocked : (fs.itable s₀.file.ip).locked = true) (hlh : fs.lh = t.fs.lh)
    (hout : fs.outstanding = t.fs.outstanding) :
    Inv L s₀ (Shared.setPc { t with fs := fs } p (.locked c)) := by
  have hpc := h.pc p
  rw [hp] at hpc
  refine h.quiet hp rfl rfl rfl rfl rfl hpc rfl rfl hwritten ?_ h.results (congrArg (· + 1) hout)
    (.inl ?_) fun hzero => hlh.trans (h.empty (hout.symm.trans hzero))
  · simp [Shared.taken, Shared.setPc, hfree, hlocked, Pc.holds]
  · exact (congrArg (·.length + MAXOPBLOCKS) hlh).le

/-- The process that has the lock. -/
lemma locked_of_holds (h : Inv L s₀ t) (hp : (t.pc p).holds = 1) :
    (t.fs.itable s₀.file.ip).locked = true ∧ ∑ q, (t.pc q).holds ≤ (t.pc p).holds := by
  have hle := le_sum t.pc p Pc.holds
  have hholds := h.holds
  cases hlocked : (t.fs.itable s₀.file.ip).locked with
  | true =>
    rw [hlocked, if_pos rfl] at hholds
    exact ⟨rfl, by rw [hholds, hp]⟩
  | false =>
    rw [hlocked] at hholds
    simp only [hp, hholds, Bool.false_eq_true, if_false] at hle
    exact absurd hle (by decide)

/-- The holder of the lock finds the offset at the end of what is written, but for its own chunk. -/
lemma off_of_holds (h : Inv L s₀ t) (hp : (t.pc p).holds = 1) :
    t.file.off + (t.pc p).uncounted = s₀.file.off + t.data.length := by
  rw [← sum_uncounted (h.locked_of_holds hp).2]
  exact h.off

/-- A chunk is written. -/
lemma write (h : Inv L s₀ t) (hp : t.pc p = .locked c)
    (hoff : s₀.file.off ≤ (s₀.fs.contents L (s₀.fs.itable s₀.file.ip).inum).length)
    (hserves : Serves L s₀.file.ip (s₀.fs.itable s₀.file.ip).inum
      (splice (splice (s₀.fs.contents L (s₀.fs.itable s₀.file.ip).inum) s₀.file.off t.data)
        t.file.off (c.chunk c.n1)) fs)
    (hlocked : (fs.itable s₀.file.ip).locked = true) (hout : fs.outstanding = t.fs.outstanding)
    (hlh : fs.lh.length ≤ t.fs.lh.length + 7) :
    Inv L s₀ { Shared.setPc { t with fs := fs } p (.written c c.n1) with
      chunks := t.chunks ++ [⟨p, t.file.off, c.chunk c.n1⟩] } := by
  have hpc := h.pc p
  rw [hp] at hpc
  have hle : c.i + c.n1 ≤ c.n := c.n1_le hpc.1.i_le
  have hholds : (t.pc p).holds = 1 := by rw [hp]; rfl
  have hlocked' := (h.locked_of_holds hholds).1
  have hend := h.off_of_holds hholds
  rw [hp, show (Pc.locked c).uncounted = 0 from rfl, Nat.add_zero] at hend
  have hdata : (t.chunks ++ [(⟨p, t.file.off, c.chunk c.n1⟩ : Chunk P)]).flatMap Chunk.data =
      t.data ++ c.chunk c.n1 := by simp [Shared.data]
  have hby : ∀ q, ((t.chunks ++ [(⟨p, t.file.off, c.chunk c.n1⟩ : Chunk P)]).filter fun y =>
      y.p = q).flatMap Chunk.data = t.writtenBy q ++ if p = q then c.chunk c.n1 else [] := by
    intro q
    rw [List.filter_append, List.flatMap_append]
    by_cases hq : p = q <;> simp [hq, Shared.writtenBy]
  have hrest : (Pc.written c c.n1).rest = c.rest (c.i + c.n1) := rfl
  have hrest' : (Pc.locked c).rest = c.rest c.i := rfl
  refine h.go hp rfl rfl rfl ⟨hpc.1, hpc.2, rfl⟩ ?_ ?_ ?_ (h.placed.append hend) ?_ ?_ ?_ ?_
    h.within h.results (congrArg (· + 1) hout) (.inl ?_) ?_
  · rw [hend, splice_append hoff] at hserves
    rw [Shared.data, hdata]
    exact hserves
  · simp [Shared.taken, Shared.setPc, hlocked, hlocked', Pc.holds]
  · show t.file.off + c.n1 + t.data.length = t.file.off + 0 + (List.flatMap _ _).length
    rw [hdata, List.length_append, Request.length_chunk]
    omega
  · intro y hy
    rcases List.mem_append.mp hy with hy | hy
    · exact h.small y hy
    · rw [List.mem_singleton.mp hy, Request.length_chunk]
      exact min_le_right _ _
  · have horder := h.order p
    rw [hp, hrest', ← c.chunk_append_rest hle, ← List.append_assoc] at horder
    rw [Shared.writtenBy, hby, if_pos rfl, hrest]
    exact horder
  · intro q hq
    rw [Shared.writtenBy, hby, if_neg (Ne.symm hq), List.append_nil]
    exact ⟨rfl, rfl⟩
  · show (List.flatMap _ _).length + _ + t.total = t.data.length + _ + t.total
    rw [hdata, List.length_append, Request.length_chunk, hrest, hrest', Request.length_rest,
      Request.length_rest]
    omega
  · show fs.lh.length + 3 ≤ t.fs.lh.length + 10
    omega
  · intro (hzero : fs.outstanding = 0)
    have hone := le_sum t.pc p Pc.ops
    rw [← h.outstanding, ← hout, hzero, hp] at hone
    exact absurd hone (Nat.not_succ_le_zero 0)

/-- The chunk is counted in the offset. -/
lemma count {r : ℤ} (h : Inv L s₀ t) (hp : t.pc p = .written c r) :
    Inv L s₀ { t.setPc p (.counted c r) with
      file := { t.file with
        off := if 0 < r then (t.file.off + r.toNat) % 2 ^ 32 else t.file.off } } := by
  have hpc := h.pc p
  rw [hp] at hpc
  obtain ⟨hok, hi, rfl⟩ := hpc
  have hpos : 0 < (c.n1 : ℤ) := Int.natCast_pos.mpr (Request.n1_pos hi)
  have hold := h.off_of_holds (p := p) (by rw [hp]; rfl)
  rw [hp, show (Pc.written c c.n1).uncounted = c.n1 from rfl] at hold
  have hlt : t.file.off + c.n1 < 2 ^ 32 := by
    have hwithin := h.within
    have htotal := h.total
    simp only [MAXFILE, NDIRECT, NINDIRECT, BSIZE] at hwithin
    omega
  refine h.quiet hp rfl rfl rfl rfl rfl ⟨hok, hi, rfl⟩ rfl ?_ h.serves rfl h.results rfl
    (.inl le_rfl) h.empty
  rw [if_pos hpos, Int.toNat_natCast, Nat.mod_eq_of_lt hlt]
  rfl

/-- The process gives the lock back. -/
lemma unlock {r : ℤ} (h : Inv L s₀ t) (hp : t.pc p = .counted c r)
    (hwritten : Written L s₀ t.data fs) (hfree : (fs.itable s₀.file.ip).locked = false)
    (hlh : fs.lh = t.fs.lh) (hout : fs.outstanding = t.fs.outstanding) :
    Inv L s₀ (Shared.setPc { t with fs := fs } p (.unlocked c r)) := by
  have hpc := h.pc p
  rw [hp] at hpc
  obtain ⟨hlocked, -⟩ := h.locked_of_holds (p := p) (by rw [hp]; rfl)
  refine h.quiet hp rfl rfl rfl rfl rfl hpc rfl rfl hwritten ?_ h.results (congrArg (· + 1) hout)
    (.inl ?_) fun hzero => hlh.trans (h.empty (hout.symm.trans hzero))
  · simp [Shared.taken, Shared.setPc, hfree, hlocked, Pc.holds]
  · exact (congrArg (·.length + 3) hlh).le

/-- `end_op`, and the next round. -/
lemma leave {r : ℤ} (h : Inv L s₀ t) (hp : t.pc p = .unlocked c r) :
    r = c.n1 ∧ Inv L s₀ (Shared.setPc { t with
      fs := { t.fs with
        lh := if t.fs.outstanding = 1 then [] else t.fs.lh
        outstanding := t.fs.outstanding - 1 } } p (.loop { c with i := c.i + r.toNat })) := by
  have hpc := h.pc p
  rw [hp] at hpc
  obtain ⟨hok, hi, rfl⟩ := hpc
  have hle : c.i + c.n1 ≤ c.n := c.n1_le hok.i_le
  have hone : 1 ≤ t.fs.outstanding := by
    have := le_sum t.pc p Pc.ops
    rwa [hp, ← h.outstanding] at this
  refine ⟨rfl, h.quiet hp rfl rfl rfl rfl rfl ⟨hok.n_lt, hle, hok.isSome⟩ rfl rfl
    (h.serves.setLog _ _) rfl h.results (Nat.sub_add_cancel hone) ?_ ?_⟩
  · by_cases hlast : t.fs.outstanding = 1
    · -- the last call has left, and the transaction is committed
      right
      simp [Shared.setPc, hlast]
    · left
      simp [Shared.setPc, hlast, Pc.reserved]
  · intro (hzero : t.fs.outstanding - 1 = 0)
    exact if_pos (by omega)

/-- The file at the start. -/
lemma of_start (h : Start L s₀) : Inv L s₀ s₀ := by
  obtain ⟨H, hheld, A, hsound, -⟩ := h.idle
  obtain ⟨n, hr⟩ := Handles.exists_mem_of_count_pos (H := H) (by rw [← hsound.refs]; exact h.ref)
  have hinum := hsound.inum hr
  have htype : (A n).type = T_FILE := by rw [← hsound.typeOf hr]; exact h.type
  have hserves : Serves L s₀.file.ip n (A n).bytes s₀.fs := ⟨H, A, hsound, hr, htype, rfl⟩
  have hcontents := hserves.contents
  have hdata : s₀.data = [] := by rw [Shared.data, h.chunks, List.flatMap_nil]
  have htotal : s₀.total = 0 := by rw [Shared.total, h.calls]; rfl
  have hsum : ∀ g : Pc → ℕ, g .idle = 0 → ∑ q, g (s₀.pc q) = 0 := by
    intro g hg
    exact Finset.sum_eq_zero fun q _ => by rw [h.pc, hg]
  have hlocked : (s₀.fs.itable s₀.file.ip).locked = false := by
    rw [← Bool.not_eq_true, hsound.held, hheld]
    exact Finset.notMem_empty _
  refine ⟨rfl, h.writable, ?_, ?_, ?_, ?_, ?_, ?_, ?_, ?_, ?_, ?_, ?_, ?_, fun _ => h.lh⟩
  · rw [hdata, hinum, hcontents]
    simpa [splice] using hserves
  · rw [hsum _ rfl, hlocked]
    rfl
  · rw [hsum _ rfl, hdata]
    rfl
  · rw [h.chunks]
    exact fun k hk => absurd hk (Nat.not_lt_zero k)
  · rw [h.chunks]
    exact fun c hc => absurd hc List.not_mem_nil
  · intro q
    rw [Shared.writtenBy, Shared.askedBy, h.chunks, h.calls, h.pc]
    rfl
  · rw [hsum (fun pc => pc.rest.length) rfl, hdata, htotal]
    rfl
  · -- files do not exceed the maximum size
    have hoff := h.off
    rw [hinum, hcontents, File.length_bytes] at hoff
    rw [htotal]
    refine hoff.trans (hsound.size_le hr ?_)
    rw [htype]
    decide
  · intro q
    rw [h.pc]
    trivial
  · rw [h.results]
    exact fun y hy => absurd hy List.not_mem_nil
  · rw [hsum _ rfl, h.outstanding]
  · rw [hsum _ rfl, h.lh]
    exact Nat.zero_le _

end Inv

/-! ### Runs -/

/-- The process has to wait: it is in no call, or the log is full, or another process has the
lock. -/
def Waits (t : Shared P) (p : P) : Prop :=
  match t.pc p with
  | .idle => True
  | .loop c => c.i < c.n ∧ LOGSIZE < t.fs.lh.length + (t.fs.outstanding + 1) * MAXOPBLOCKS
  | .begun _ => (t.fs.itable t.file.ip).locked = true
  | _ => False

omit [DecidableEq P] in
/-- How far the processes are from their returns. -/
def Shared.work (t : Shared P) : ℕ := ∑ p, (t.pc p).work

omit [DecidableEq P] [Fintype P] in
lemma Shared.run_ok {α : Type} {m : FsM α} {k : α → Shared P → Shared P} {a : α}
    (h : m.run t.fs = .ok (a, fs)) : t.run m k = some (.ok (k a { t with fs := fs })) := by
  rw [Shared.run, h]

lemma run_beginOp : (beginOp : FsM PUnit).run s =
    if LOGSIZE < s.lh.length + (s.outstanding + 1) * MAXOPBLOCKS then .error .sleep
    else .ok (⟨⟩, { s with outstanding := s.outstanding + 1 }) := by
  show Coroutine.run (if LOGSIZE < s.lh.length + (s.outstanding + 1) * MAXOPBLOCKS then
    (sleep : FsM PUnit) else modify fun s => { s with outstanding := s.outstanding + 1 }) s = _
  split <;> rfl

namespace Inv

/-- A process waits, or takes a step; none fails. -/
lemma advance (h : Inv L s₀ t) (hstart : Start L s₀) (hallowed : Allowed L s₀ t (.step p)) :
    advance L t p = none ∧ Waits t p ∨
      ∃ t', advance L t p = some (.ok t') ∧ Inv L s₀ t' ∧ t'.work < t.work := by
  have hpc := h.pc p
  have hip := h.ip
  unfold Filewrite.advance Waits
  cases hp : t.pc p with
  | idle => exact .inl ⟨rfl, trivial⟩
  | loop c =>
    dsimp only
    by_cases hi : c.i < c.n
    · rw [if_pos hi]
      by_cases hfull : LOGSIZE < t.fs.lh.length + (t.fs.outstanding + 1) * MAXOPBLOCKS
      · refine .inl ⟨?_, hi, hfull⟩
        rw [Shared.run, run_beginOp, if_pos hfull]
      · refine .inr ⟨_, Shared.run_ok (by rw [run_beginOp, if_neg hfull]),
          h.begin hp hi (Nat.not_lt.mp hfull), ?_⟩
        refine sum_update_lt (g := Pc.work) ?_
        rw [hp]
        exact Nat.lt_succ_self _
    · rw [if_neg hi]
      refine .inr ⟨_, rfl, h.finish hp hi, sum_update_lt (g := Pc.work) ?_⟩
      rw [hp]
      exact Nat.succ_pos _
  | begun c =>
    dsimp only
    rw [hp] at hpc
    rw [hip]
    cases hlocked : (t.fs.itable s₀.file.ip).locked with
    | true =>
      refine .inl ⟨?_, rfl⟩
      rw [Shared.run, h.serves.ilock_sleep hlocked]
    | false =>
      obtain ⟨fs, hrun, hserves, hlocked', hlh, hout⟩ := h.serves.ilock hlocked
      refine .inr ⟨_, Shared.run_ok hrun, h.lock hp hserves hlocked hlocked' hlh hout, ?_⟩
      refine sum_update_lt (g := Pc.work) ?_
      have hi := hpc.2
      rw [hp]
      show 7 * (c.n - c.i) - 1 < 7 * (c.n - c.i)
      omega
  | locked c =>
    dsimp only
    rw [hp] at hpc
    obtain ⟨hok, hi⟩ := hpc
    have hle := c.n1_le hi.le
    have hholds : (t.pc p).holds = 1 := by rw [hp]; rfl
    have hlocked := (h.locked_of_holds hholds).1
    have hend := h.off_of_holds hholds
    rw [hp, show (Pc.locked c).uncounted = 0 from rfl, Nat.add_zero] at hend
    have hrest := le_sum t.pc p fun pc => pc.rest.length
    have hreserved := le_sum t.pc p Pc.reserved
    rw [hp, show (Pc.locked c).rest = c.rest c.i from rfl, Request.length_rest] at hrest
    rw [hp, show (Pc.locked c).reserved = MAXOPBLOCKS from rfl] at hreserved
    have htotal := h.total
    have hwithin := h.within
    have hroom := h.room
    have henough : Enough L t.fs (s₀.fs.itable s₀.file.ip).inum t.file.off c.n1 := by
      simp only [Allowed, hp, hip] at hallowed
      rwa [h.serves.inum_eq] at hallowed
    have hoff : t.file.off ≤ (splice (s₀.fs.contents L (s₀.fs.itable s₀.file.ip).inum) s₀.file.off
        t.data).length := hend ▸ le_length_splice hstart.off
    obtain ⟨fs, hrun, hserves, hlocked', hout, hlh⟩ :=
      h.serves.writei (m := c.n1) hlocked hoff (by omega)
      (fun k hk => hok.isSome (c.i + k) (by omega)) (min_le_right _ _) hstart.size_le hstart.nlog_le
      (by omega) henough
    have hbytes : Source.bytes (fun k => c.src (c.i + k)) 0 = c.src.bytes c.i := by
      funext k
      simp only [Source.bytes, Nat.zero_add]
    have hchunk : (List.range c.n1).map (Source.bytes (fun k => c.src (c.i + k)) 0) =
      c.chunk c.n1 := by
      rw [hbytes]
      rfl
    rw [hchunk] at hserves
    have hserves' : Serves L s₀.file.ip (s₀.fs.itable s₀.file.ip).inum
        (splice (splice (s₀.fs.contents L (s₀.fs.itable s₀.file.ip).inum) s₀.file.off t.data)
          t.file.off (c.chunk c.n1)) fs := by
      rw [splice, Request.length_chunk]
      exact hserves
    rw [hip]
    refine .inr ⟨_, Shared.run_ok hrun, h.write hp hstart.off hserves' hlocked' hout hlh, ?_⟩
    refine sum_update_lt (g := Pc.work) ?_
    rw [hp]
    show 7 * (c.n - c.i) - 2 < 7 * (c.n - c.i) - 1
    omega
  | written c r =>
    rw [hp] at hpc
    have hi := hpc.2.1
    refine .inr ⟨_, rfl, h.count hp, sum_update_lt (g := Pc.work) ?_⟩
    rw [hp]
    show 7 * (c.n - c.i) - 3 < 7 * (c.n - c.i) - 2
    omega
  | counted c r =>
    dsimp only
    rw [hp] at hpc
    have hi := hpc.2.1
    obtain ⟨hlocked, -⟩ := h.locked_of_holds (p := p) (by rw [hp]; rfl)
    obtain ⟨fs, hrun, hserves, hfree, hlh, hout⟩ := h.serves.iunlock hlocked
    rw [hip]
    refine .inr ⟨_, Shared.run_ok hrun, h.unlock hp hserves hfree hlh hout, ?_⟩
    refine sum_update_lt (g := Pc.work) ?_
    rw [hp]
    show 7 * (c.n - c.i) - 4 < 7 * (c.n - c.i) - 3
    omega
  | unlocked c r =>
    dsimp only
    rw [hp] at hpc
    have hi := hpc.2.1
    have hpos := Request.n1_pos hi
    obtain ⟨rfl, hinv⟩ := h.leave hp
    have hrun : (endOp : FsM PUnit).run t.fs = .ok (⟨⟩, { t.fs with
        lh := if t.fs.outstanding = 1 then [] else t.fs.lh
        outstanding := t.fs.outstanding - 1 }) := rfl
    refine .inr ⟨_, Shared.run_ok hrun, ?_⟩
    rw [if_neg (not_not.mpr rfl)]
    refine ⟨hinv, sum_update_lt (g := Pc.work) ?_⟩
    rw [hp]
    show 7 * (c.n - (c.i + c.n1)) + 1 < 7 * (c.n - c.i) - 4
    omega

/-- No step fails. -/
lemma step (h : Inv L s₀ t) (hstart : Start L s₀) {e : Event P} (hallowed : Allowed L s₀ t e)
    {r : Except Panic (Shared P)} (hr : step L t e = some r) : ∃ t', r = .ok t' ∧ Inv L s₀ t' := by
  cases e with
  | call p src n =>
    simp only [Filewrite.step] at hr
    split at hr
    · next hp =>
      rw [if_pos h.writable] at hr
      cases hr
      exact ⟨_, rfl, h.call hp hallowed.1 hallowed.2.1 hallowed.2.2⟩
    · cases hr
  | step p =>
    rcases h.advance hstart hallowed with ⟨hnone, -⟩ | ⟨t', hok, hinv, -⟩
    · rw [Filewrite.step, hnone] at hr
      cases hr
    · rw [Filewrite.step, hok] at hr
      cases hr
      exact ⟨t', rfl, hinv⟩

lemma of_reachable (hstart : Start L s₀) (h : (machine L s₀).ReachableBy (Allowed L s₀) t) :
    Inv L s₀ t := by
  refine h.invariant ?_ ?_
  · rintro t rfl
    exact of_start hstart
  · intro t e t' ht hallowed hnext
    obtain ⟨u, hu, hinv⟩ := ht.step hstart hallowed (Machine.ofStep_next.mp hnext)
    cases hu
    exact hinv

/-- If a process is in a call, then one of them does not have to wait. -/
lemma exists_not_waits (h : Inv L s₀ t) (hp : t.pc p ≠ .idle) : ∃ q, t.pc q ≠ .idle ∧
    ¬Waits t q := by
  have hip := h.ip
  by_contra hall
  push Not at hall
  -- nobody has the lock, so nobody waits for it, and nobody is in the log
  have hholds : ∀ q, (t.pc q).holds = 0 := by
    intro q
    have hwaits := hall q
    unfold Waits at hwaits
    cases hq : t.pc q with
    | locked c | written c r | counted c r => simp [hq] at hwaits
    | _ => rfl
  have hfree : (t.fs.itable s₀.file.ip).locked = false := by
    have hsum := h.holds
    rw [Finset.sum_eq_zero fun q _ => hholds q] at hsum
    by_contra hlocked
    rw [if_pos (by simpa using hlocked)] at hsum
    cases hsum
  have hops : ∀ q, (t.pc q).ops = 0 := by
    intro q
    have hwaits := hall q
    unfold Waits at hwaits
    cases hq : t.pc q with
    | idle | loop c => rfl
    | begun c => simp [hq, hip, hfree] at hwaits
    | _ => simp [hq] at hwaits
  have hout : t.fs.outstanding = 0 := by rw [h.outstanding, Finset.sum_eq_zero fun q _ => hops q]
  have hwaits := hall p hp
  unfold Waits at hwaits
  cases hq : t.pc p with
  | idle => exact hp hq
  | loop c =>
    rw [hq] at hwaits
    rw [hout, h.empty hout] at hwaits
    exact absurd hwaits.2 (by decide)
  | _ =>
    have hzero := hops p
    rw [hq] at hzero
    cases hzero

end Inv

/-- Writes through a shared file are not lost. No step fails, and as long as a process is in a call
one of them can go on, towards its return. The bytes from the initial offset on are the chunks, one
behind the other; those of each process are in its own order; the offset is at their end whenever
the inode is not locked; and each call returns its length. -/
theorem writes_not_lost (hstart : Start L s₀) (h : (machine L s₀).ReachableBy (Allowed L s₀) t) :
    (∀ e x, Allowed L s₀ t e → step L t e ≠ some (.error x)) ∧
      ((∃ p, t.pc p ≠ .idle) → ∃ p, t.pc p ≠ .idle ∧ (Allowed L s₀ t (.step p) →
        ∃ t', step L t (.step p) = some (.ok t') ∧ t'.work < t.work)) ∧
      t.fs.contents L (s₀.fs.itable s₀.file.ip).inum =
        splice (s₀.fs.contents L (s₀.fs.itable s₀.file.ip).inum) s₀.file.off t.data ∧
      Placed s₀.file.off t.chunks ∧ (∀ c ∈ t.chunks, c.data.length ≤ maxChunk) ∧
      (∀ p, t.writtenBy p ++ (t.pc p).rest = t.askedBy p) ∧
      ((t.fs.itable t.file.ip).locked = false → t.file.off = s₀.file.off + t.data.length) ∧
      ((∀ p, t.pc p = .idle) → t.file.off = s₀.file.off + t.total) ∧
      ∀ y ∈ t.results, y.2.2 = y.2.1 := by
  have hinv := Inv.of_reachable hstart h
  refine ⟨?_, ?_, hinv.serves.contents, hinv.placed, hinv.small, hinv.order, ?_, ?_, hinv.results⟩
  · intro e x hallowed hx
    obtain ⟨t', ht', -⟩ := hinv.step hstart hallowed hx
    cases ht'
  · rintro ⟨p, hp⟩
    obtain ⟨q, hq, hwaits⟩ := hinv.exists_not_waits hp
    refine ⟨q, hq, fun hallowed => ?_⟩
    rcases hinv.advance hstart hallowed with ⟨-, hw⟩ | ⟨t', ht', -, hlt⟩
    · exact absurd hw hwaits
    · exact ⟨t', ht', hlt⟩
  · intro hfree
    have hholds := hinv.holds
    rw [← hinv.ip, hfree] at hholds
    have hzero : ∑ p, (t.pc p).uncounted = 0 := by
      refine Finset.sum_eq_zero fun p hp => Pc.uncounted_of_holds ?_
      exact (Finset.sum_eq_zero_iff.mp hholds) p hp
    have hoff := hinv.off
    rwa [hzero] at hoff
  · intro hidle
    have hoff := hinv.off
    have htotal := hinv.total
    rw [Finset.sum_eq_zero fun p _ => by rw [hidle]; rfl] at hoff htotal
    omega

/-! ### Two writers -/

/-- A disk with one file, which is in use. -/
def oneFile : State := ((Fs.machine Layout.mkfs).exec .blank [.ialloc T_FILE]).getD .blank

/-- The file, shared by two processes. -/
def newShared : Shared (Fin 2) where
  fs := oneFile
  file := ⟨0, true, 0⟩
  pc := fun _ => .idle
  calls := []
  chunks := []
  results := []

lemma oneFile_idle : Idle Layout.mkfs oneFile := by
  have hreach : (Fs.machine Layout.mkfs).Reachable oneFile :=
    .getD_exec blank_image (by decide +kernel)
  exact (Idle.of_reachable hreach).2

lemma newShared_start : Start Layout.mkfs newShared where
  size_le := by decide
  nlog_le := by decide
  idle := oneFile_idle
  ref := by decide +kernel
  type := by decide +kernel
  writable := rfl
  off := Nat.zero_le _
  outstanding := by decide +kernel
  lh := by decide +kernel
  pc _ := rfl
  calls := rfl
  chunks := rfl
  results := rfl

/-- Process 1 writes while process 0 is between `begin_op` and `ilock`. -/
def twoWriters : Shared (Fin 2) :=
  ((machine Layout.mkfs newShared).execBy (Allowed Layout.mkfs newShared) newShared
    [.call 0 (fun _ => some 7) 2, .call 1 (fun _ => some 8) 1, .step 0, .step 1, .step 1, .step 1,
      .step 1, .step 1, .step 0, .step 0, .step 0, .step 0, .step 1, .step 1, .step 0,
      .step 0]).getD newShared

theorem writes_not_lost_twoWriters : Start Layout.mkfs newShared ∧
    (machine Layout.mkfs newShared).ReachableBy (Allowed Layout.mkfs newShared) twoWriters ∧
    twoWriters.results = [(1, 1, 1), (0, 2, 2)] ∧ twoWriters.data = [8, 7, 7] ∧
    twoWriters.file.off = 3 ∧
    twoWriters.fs.contents Layout.mkfs (oneFile.itable 0).inum =
      splice (oneFile.contents Layout.mkfs (oneFile.itable 0).inum) 0 [8, 7, 7] := by
  have hreach : (machine Layout.mkfs newShared).ReachableBy (Allowed Layout.mkfs newShared)
      twoWriters := .getD_execBy rfl (by decide +kernel)
  -- the run is evaluated once for all three
  obtain ⟨hresults, hdata, hoff⟩ : twoWriters.results = [(1, 1, 1), (0, 2, 2)] ∧
      twoWriters.data = [8, 7, 7] ∧ twoWriters.file.off = 3 := by decide +kernel
  obtain ⟨-, -, hcontents, -⟩ := writes_not_lost newShared_start hreach
  rw [hdata] at hcontents
  exact ⟨newShared_start, hreach, hresults, hdata, hoff, hcontents⟩

end Xv6.Fs.Filewrite
