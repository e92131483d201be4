import Xv6.Log.Commit

/-!
# Crash atomicity of the redo log

A disk *represents* the home contents that recovery would produce from it. Every single write of
`commit` and of `recover_from_log` keeps what the disk represents, except for the first header
write of a commit, which applies the whole transaction at once. A crash at any point, of a commit
or of a recovery, therefore loses nothing and shows nothing half done.
-/

namespace Xv6.Log

open Core

/-- A transaction: distinct home blocks outside the log with their new contents, as many as
`log_write` admits (`lh.n < LOGSIZE` and `lh.n < log.size - 1` before each new block). -/
structure Txn (L : Layout) where
  blocks : List (ℕ × Block)
  nodup : (blocks.map Prod.fst).Nodup
  home : ∀ w ∈ blocks, ¬ L.InLog w.1
  length_le_size : blocks.length ≤ L.size - 1
  length_le_logsize : blocks.length ≤ LOGSIZE
  uint : ∀ w ∈ blocks, w.1 < 2 ^ 32

variable {L : Layout}

lemma Txn.length_lt (t : Txn L) : t.blocks.length < L.size := by
  have := t.length_le_size
  have := L.size_pos
  omega

/-- The transaction without blocks. -/
def Txn.empty (L : Layout) : Txn L where
  blocks := []
  nodup := List.nodup_nil
  home := by simp
  length_le_size := Nat.zero_le _
  length_le_logsize := Nat.zero_le _
  uint := by simp

/-! ### What a disk represents -/

/-- The header on disk lists the blocks of `t`, and the log area holds their contents. -/
def Pending (L : Layout) (d : ℕ → Block) (t : Txn L) : Prop :=
  (d L.start).word 0 = t.blocks.length ∧
    ∀ (i : ℕ) (h : i < t.blocks.length),
      (d L.start).word (i + 1) = t.blocks[i].1 ∧ d (L.start + i + 1) = t.blocks[i].2

/-- Outside the log area, recovery of `d` would produce `h`. -/
def Represents (L : Layout) (d h : ℕ → Block) : Prop :=
  ∃ t : Txn L, Pending L d t ∧ ∀ b, ¬ L.InLog b → replay t.blocks d b = h b

/-- The log is empty and the home blocks are those of `h`. -/
def Settled (L : Layout) (d h : ℕ → Block) : Prop :=
  (d L.start).word 0 = 0 ∧ ∀ b, ¬ L.InLog b → d b = h b

lemma Layout.inLog_start (L : Layout) : L.InLog L.start :=
  ⟨le_rfl, by have := L.size_pos; omega⟩

variable {d h : ℕ → Block} {t : Txn L}

lemma Settled.represents (hd : Settled L d h) : Represents L d h :=
  ⟨Txn.empty L, ⟨hd.1, fun _ h => absurd h (Nat.not_lt_zero _)⟩, hd.2⟩

/-- A write outside the log area leaves the pending transaction. -/
lemma Pending.update_home (h : Pending L d t) {b : ℕ} (hb : ¬ L.InLog b) (v : Block) :
    Pending L (Function.update d b v) t := by
  have hstart : L.start ≠ b := fun hs => hb (hs ▸ L.inLog_start)
  refine ⟨by rw [Function.update_of_ne hstart]; exact h.1, fun i hi => ?_⟩
  have hlog : L.start + i + 1 ≠ b := by
    rintro rfl
    exact hb ⟨by omega, by have := t.length_lt; omega⟩
  rw [Function.update_of_ne hstart, Function.update_of_ne hlog]
  exact h.2 i hi

lemma Pending.getHeader (h : Pending L d t) (lh : Logheader) :
    Logged t.blocks (getHeader (d L.start) lh) := by
  have hn : toInt32 ((d L.start).word 0) = t.blocks.length := by
    rw [h.1, toInt32_of_lt]
    have := t.length_le_logsize
    simp only [LOGSIZE, MAXOPBLOCKS] at this
    omega
  refine ⟨hn, fun i hi => ?_⟩
  simp only [Log.getHeader, hn, Int.toNat_natCast, if_pos hi]
  exact (h.2 i hi).1

/-- Installing the pending transaction and then clearing the header: wherever these writes stop,
the disk represents the same home contents, and at the end it shows them. -/
lemma Pending.install {z : Block} (hp : Pending L d t)
    (hh : ∀ b, ¬ L.InLog b → replay t.blocks d b = h b) (hz : z.word 0 = 0) :
    (∀ k, Represents L (replay ((t.blocks ++ [(L.start, z)]).take k) d) h) ∧
      Settled L (replay (t.blocks ++ [(L.start, z)]) d) h := by
  have hend : Settled L (replay (t.blocks ++ [(L.start, z)]) d) h := by
    rw [replay_append, replay_cons, replay_nil]
    refine ⟨by rw [Function.update_self]; exact hz, fun b hb => ?_⟩
    rw [Function.update_of_ne fun hs : b = L.start => hb (hs ▸ L.inLog_start)]
    exact hh b hb
  refine ⟨fun k => ?_, hend⟩
  by_cases hk : k ≤ t.blocks.length
  · -- stopped while installing: each home write is one that replaying would make anyway
    rw [List.take_append_of_le_length hk]
    refine ⟨t, ?_⟩
    apply replay_take_invariant (P := fun d => Pending L d t ∧
      ∀ b, ¬ L.InLog b → replay t.blocks d b = h b) _ ⟨hp, hh⟩
    rintro w hw d' ⟨hp', hh'⟩
    refine ⟨hp'.update_home (t.home w hw) _, fun b hb => ?_⟩
    rw [← hh' b hb]
    apply replay_congr
    by_cases hbw : b = w.1
    · left
      rw [hbw]
      exact List.mem_map_of_mem hw
    · right
      exact Function.update_of_ne hbw ..
  · rw [List.take_of_length_le (by simp; omega)]
    exact hend.represents

/-! ### Runs with crashes -/

/-- Memory when the operations of transaction `t` have logged their blocks: the new contents are
in buffers that the log has pinned, and `log.lh` lists the blocks. -/
def Mem.stage (m : Mem) (t : Txn L) : Mem where
  lh := {
    n := t.blocks.length
    block := fun i => (t.blocks[i]?.map Prod.fst).getD (m.lh.block i) }
  bcache := fun b =>
    match contents t.blocks b with
    | some v => some ⟨((m.bcache b).map Buf.refcnt).getD 0 + 1, v⟩
    | none => m.bcache b
  clock := m.clock

/-- The kernel's memory, the disk, and (as a history) the transactions whose first `write_head`
reached the disk, in order. -/
structure System where
  mem : Mem
  disk : ℕ → Block
  committed : List (List (ℕ × Block))

/-- What happens to the system between two points where the log is idle. -/
inductive Event (L : Layout)
  /-- some process reads a block through the cache -/
  | read (b : ℕ)
  /-- a transaction is committed -/
  | transaction (t : Txn L)
  /-- a crash strikes after `k` disk writes of the commit of `t` (before it, or after it, when `k`
  is out of range), one further crash after `r` disk writes of a recovery for each `r` in `rs`,
  and then a recovery runs to completion -/
  | crash (t : Txn L) (k : ℕ) (rs : List ℕ)

section

variable (L) (recycle : ℕ → ℕ → Bool)

/-- Recovery after a crash, itself interrupted after `rs` disk writes, from an empty memory each
time. -/
def reboot : List ℕ → (ℕ → Block) → Mem × (ℕ → Block)
  | [], d => (((recoverFromLog recycle L Mem.boot).exec d).1.2,
      (recoverFromLog recycle L Mem.boot).final d)
  | r :: rs, d => reboot rs ((recoverFromLog recycle L Mem.boot).crash d r)

/-- The transactions committed so far, when `ws` are the disk writes of the commit of `t` that
reached the disk. -/
def record (committed : List (List (ℕ × Block))) (t : Txn L) (ws : List (ℕ × Block)) :
    List (List (ℕ × Block)) :=
  if ws.any fun w => w.1 == L.start then committed ++ [t.blocks] else committed

def System.step (s : System) : Event L → System
  | .read b =>
    let p : LogM PUnit := do
      let _ ← bread recycle b
      brelse b
    { s with mem := ((p s.mem).exec s.disk).1.2, disk := (p s.mem).final s.disk }
  | .transaction t =>
    let p := commit recycle L (s.mem.stage t)
    { mem := (p.exec s.disk).1.2
      disk := p.final s.disk
      committed := record L s.committed t (p.exec s.disk).2 }
  | .crash t k rs =>
    let p := commit recycle L (s.mem.stage t)
    { mem := (reboot L recycle rs (p.crash s.disk k)).1
      disk := (reboot L recycle rs (p.crash s.disk k)).2
      committed := record L s.committed t ((p.exec s.disk).2.take k) }

/-- A machine that starts on the disk `d`. -/
def System.boot (d : ℕ → Block) : System := ⟨Mem.boot, d, []⟩

/-- The system after a sequence of events. -/
def System.run (d : ℕ → Block) (es : List (Event L)) : System :=
  es.foldl (System.step L recycle) (System.boot d)

end

/-! ### The invariant of every run -/

section

variable (recycle : ℕ → ℕ → Bool)

/-- No buffer is newer than the disk and the log holds no pin. -/
def Idle (m : Mem) (d : ℕ → Block) : Prop := At (contents []) (pins []) m.lh d m d

lemma Idle.boot (d : ℕ → Block) : Idle Mem.boot d :=
  ⟨fun _ => ⟨fun h => absurd rfl h, rfl⟩, rfl, rfl⟩

lemma Mem.stage_logged (m : Mem) (t : Txn L) : Logged t.blocks (m.stage t).lh := by
  refine ⟨rfl, fun i hi => ?_⟩
  simp [Mem.stage, List.getElem?_eq_getElem hi]

variable {m : Mem}

lemma Idle.stage (h : Idle m d) (t : Txn L) :
    At (contents t.blocks) (pins t.blocks) (m.stage t).lh d (m.stage t) d := by
  refine ⟨fun b => ⟨pins_pos_of_contents, ?_⟩, rfl, rfl⟩
  cases hb : contents t.blocks b with
  | none =>
    have hp : pins t.blocks b = 0 := if_neg (contents_eq_none_iff.mp hb)
    have hp0 : pins [] b = 0 := if_neg List.not_mem_nil
    have hbuf := (h.1 b).2
    rw [hp0, show contents [] b = none from rfl] at hbuf
    rw [hp]
    simpa only [Mem.stage, hb] using hbuf
  | some v =>
    have hp : pins t.blocks b ≤ 1 := by unfold pins; split_ifs <;> omega
    simp only [Mem.stage, hb]
    exact ⟨by omega, rfl⟩

/-- The disk writes of `commit` after the operations of `t`, and the memory it leaves. -/
lemma commit_exec (h : Idle m d) (t : Txn L) :
    ((commit recycle L (m.stage t)).exec d).2
        = (if t.blocks = [] then [] else commitWrites L (d L.start) (m.stage t).lh t.blocks) ∧
      Idle ((commit recycle L (m.stage t)).exec d).1.2
        ((commit recycle L (m.stage t)).final d) := by
  by_cases hne : t.blocks = []
  · have hspec : Spec (At (contents t.blocks) (pins t.blocks) (m.stage t).lh d) (commit recycle L)
        [] fun _ => At (contents t.blocks) (pins t.blocks) (m.stage t).lh d := by
      refine get_bind fun m' hm' => ?_
      have hn : ¬ 0 < m'.lh.n := by
        rw [hm', (m.stage_logged t).1, hne]
        simp
      rw [if_neg hn]
      exact fun _ _ hm => ⟨rfl, hm⟩
    obtain ⟨hw, hq⟩ := hspec _ _ (h.stage t)
    rw [if_pos hne]
    refine ⟨hw, ?_⟩
    rw [DiskProg.final, hw]
    rw [hne] at hq
    exact ⟨hq.1, rfl, rfl⟩
  · obtain ⟨hw, hq⟩ := commit_spec (m.stage_logged t) hne t.nodup t.home t.length_lt _ _ (h.stage t)
    rw [if_neg hne]
    refine ⟨hw, ?_⟩
    rw [DiskProg.final, hw]
    exact ⟨hq.1, rfl, rfl⟩

/-- While the contents go to the log, the disk stays settled. -/
lemma Settled.logWrites (hd : Settled L d h) (t : Txn L) (k : ℕ) :
    Settled L (replay ((logWrites L t.blocks).take k) d) h := by
  apply replay_take_invariant (P := fun d => Settled L d h) _ hd
  rintro w hw d' ⟨hhead, hhome⟩
  have hlog := logWrites_fst (List.mem_map_of_mem hw)
  have hlen := t.length_lt
  refine ⟨by rwa [Function.update_of_ne (by omega)], fun b hb => ?_⟩
  rw [Function.update_of_ne fun hbw : b = w.1 => hb (hbw ▸ ⟨by omega, by omega⟩)]
  exact hhome b hb

/-- The first header write makes the transaction pending. -/
lemma Settled.header_write (hd : Settled L d h) {lh : Logheader}
    (hlh : Logged t.blocks lh) (hb : Block) :
    Pending L (Function.update (replay (Log.logWrites L t.blocks) d) L.start (putHeader hb lh)) t ∧
      ∀ b, ¬ L.InLog b → replay t.blocks (Function.update (replay (Log.logWrites L t.blocks) d)
        L.start (putHeader hb lh)) b = replay t.blocks h b := by
  have hfull := hd.logWrites t (Log.logWrites L t.blocks).length
  rw [List.take_length] at hfull
  refine ⟨⟨?_, fun i hi => ⟨?_, ?_⟩⟩, fun b hb => ?_⟩
  · rw [Function.update_self]
    exact putHeader_word_zero _ _ hlh.1 t.length_le_logsize
  · rw [Function.update_self, putHeader_word_succ _ _ hlh.1 t.length_le_logsize hi, hlh.2 i hi]
    exact Nat.mod_eq_of_lt (t.uint _ (List.getElem_mem hi))
  · rw [Function.update_of_ne (by omega)]
    exact replay_logWrites hi
  · apply replay_congr
    right
    rw [Function.update_of_ne fun hbs : b = L.start => hb (hbs ▸ L.inLog_start)]
    exact hfull.2 b hb

lemma putHeader_clear_word (blk : Block) (lh : Logheader) : (putHeader blk lh.clear).word 0 = 0 :=
  putHeader_word_zero (n := 0) _ _ rfl (Nat.zero_le _)

/-- When the header write is not among the first `k` writes of a commit, the disk represents what
it did before; when it is, the disk represents that with the transaction applied. -/
lemma Settled.commit_crash (hd : Settled L d h) (hm : Idle m d)
    (t : Txn L) (k : ℕ) :
    Represents L ((commit recycle L (m.stage t)).crash d k)
      (if (((commit recycle L (m.stage t)).exec d).2.take k).any fun w => w.1 == L.start
        then replay t.blocks h else h) := by
  rw [DiskProg.crash, (commit_exec recycle hm t).1]
  by_cases hne : t.blocks = []
  · rw [if_pos hne]
    simpa using hd.represents
  rw [if_neg hne, commitWrites]
  have hlen : (Log.logWrites L t.blocks).length = t.blocks.length := by simp [Log.logWrites]
  by_cases hk : k ≤ t.blocks.length
  · -- the header write has not been made
    rw [List.take_append_of_le_length (by omega)]
    have hany : ((Log.logWrites L t.blocks).take k).any (fun w => w.1 == L.start) = false := by
      rw [List.any_eq_false]
      intro w hw
      have := logWrites_fst (List.mem_map_of_mem (List.mem_of_mem_take hw))
      simp only [beq_iff_eq]
      omega
    rw [hany]
    exact (hd.logWrites t k).represents
  · -- the header write has been made: from here on the transaction is pending
    obtain ⟨j, rfl⟩ : ∃ j, k = (Log.logWrites L t.blocks).length + (j + 1) :=
      ⟨k - t.blocks.length - 1, by omega⟩
    rw [List.take_append, List.take_of_length_le (by omega), Nat.add_sub_cancel_left,
      List.take_succ_cons, List.any_append, List.any_cons, beq_self_eq_true, Bool.true_or,
      Bool.or_true, if_pos rfl, replay_append, replay_cons]
    obtain ⟨hp, hh⟩ := hd.header_write (m.stage_logged t) (d L.start)
    exact (hp.install hh (putHeader_clear_word _ _)).1 j

/-- A commit that is not interrupted settles its transaction. -/
lemma Settled.commit (hd : Settled L d h) (hm : Idle m d) (t : Txn L) :
    Settled L ((commit recycle L (m.stage t)).final d)
      (if ((commit recycle L (m.stage t)).exec d).2.any fun w => w.1 == L.start
        then replay t.blocks h else h) := by
  rw [DiskProg.final, (commit_exec recycle hm t).1]
  by_cases hne : t.blocks = []
  · rw [if_pos hne]
    simpa using hd
  rw [if_neg hne, commitWrites, List.any_append, List.any_cons, beq_self_eq_true, Bool.true_or,
    Bool.or_true, if_pos rfl, replay_append, replay_cons]
  obtain ⟨hp, hh⟩ := hd.header_write (m.stage_logged t) (d L.start)
  exact (hp.install hh (putHeader_clear_word _ _)).2

/-- The disk writes of a recovery with `t` pending, and the memory it leaves. -/
lemma recover_exec (hp : Pending L d t) :
    ((recoverFromLog recycle L Mem.boot).exec d).2 = t.blocks ++ [(L.start, putHeader (d L.start)
        (getHeader (d L.start) Mem.boot.lh).clear)] ∧
      Idle ((recoverFromLog recycle L Mem.boot).exec d).1.2
        ((recoverFromLog recycle L Mem.boot).final d) := by
  obtain ⟨hw, hq⟩ := recoverFromLog_spec (hp.getHeader Mem.boot.lh) t.nodup t.home t.length_lt
    (fun i hi => (hp.2 i hi).2) Mem.boot d (Idle.boot d)
  refine ⟨hw, ?_⟩
  rw [DiskProg.final, hw]
  exact ⟨hq.1, rfl, rfl⟩

/-- A completed recovery shows what the disk represented, whatever interrupted earlier ones. -/
lemma Represents.reboot (hd : Represents L d h) (rs : List ℕ) :
    Settled L (reboot L recycle rs d).2 h ∧
      Idle (reboot L recycle rs d).1 (reboot L recycle rs d).2 := by
  induction rs generalizing d with
  | nil =>
    obtain ⟨t, hp, hh⟩ := hd
    obtain ⟨hw, hidle⟩ := recover_exec recycle hp
    refine ⟨?_, hidle⟩
    rw [Log.reboot, DiskProg.final, hw]
    exact (hp.install hh (putHeader_clear_word _ _)).2
  | cons r rs ih =>
    rw [Log.reboot]
    apply ih
    obtain ⟨t, hp, hh⟩ := hd
    rw [DiskProg.crash, (recover_exec recycle hp).1]
    exact (hp.install hh (putHeader_clear_word _ _)).1 r

/-- The system is idle and shows the committed transactions, in order. -/
def System.Inv (L : Layout) (d₀ : ℕ → Block) (s : System) : Prop :=
  Idle s.mem s.disk ∧ Settled L s.disk (replay s.committed.flatten d₀)

lemma replay_record (committed : List (List (ℕ × Block))) (t : Txn L) (ws : List (ℕ × Block))
    (d₀ : ℕ → Block) :
    replay (record L committed t ws).flatten d₀ = if ws.any fun w => w.1 == L.start
      then replay t.blocks (replay committed.flatten d₀) else replay committed.flatten d₀ := by
  unfold record
  split_ifs
  · rw [List.flatten_append, replay_append, List.flatten_singleton]
  · rfl

lemma System.Inv.step {d₀ : ℕ → Block} {s : System} (hs : s.Inv L d₀) (ev : Event L) :
    (s.step L recycle ev).Inv L d₀ := by
  obtain ⟨hidle, hset⟩ := hs
  cases ev with
  | read b =>
    have hspec : Spec (At (contents []) (pins []) s.mem.lh s.disk)
        (do let _ ← bread recycle b; brelse b) [] fun _ =>
          At (contents []) (pins []) s.mem.lh s.disk :=
      bread_bind (brelse_last (fun h => absurd rfl h) (by simp))
    obtain ⟨hw, hq⟩ := hspec _ _ hidle
    simp only [System.step, System.Inv, DiskProg.final, hw, replay_nil]
    exact ⟨⟨hq.1, rfl, rfl⟩, hset⟩
  | transaction t =>
    refine ⟨(commit_exec recycle hidle t).2, ?_⟩
    simp only [System.step, replay_record]
    exact hset.commit recycle hidle t
  | crash t k rs =>
    obtain ⟨hset', hidle'⟩ := (hset.commit_crash recycle hidle t k).reboot recycle rs
    refine ⟨hidle', ?_⟩
    simp only [System.step, replay_record]
    exact hset'

lemma System.Inv.run {d₀ : ℕ → Block} (h₀ : (d₀ L.start).word 0 = 0) (es : List (Event L)) :
    (System.run L recycle d₀ es).Inv L d₀ := by
  suffices ∀ s : System, s.Inv L d₀ → (es.foldl (System.step L recycle) s).Inv L d₀ by
    exact this _ ⟨Idle.boot d₀, h₀, fun _ _ => rfl⟩
  induction es with
  | nil => exact fun s hs => hs
  | cons ev es ih => exact fun s hs => ih _ (hs.step recycle ev)

/-- **Crash atomicity.** Start on a disk whose log is empty and let any sequence of transactions,
crashes inside or between their commits, and crashes inside the recoveries happen. Whenever the
log is idle again, the home blocks are exactly those obtained by applying, in order, the
transactions whose first `write_head` reached the disk. -/
theorem crash_atomicity (L : Layout) (recycle : ℕ → ℕ → Bool) (d₀ : ℕ → Block)
    (h₀ : (d₀ L.start).word 0 = 0) (es : List (Event L)) (b : ℕ) (hb : ¬ L.InLog b) :
    (System.run L recycle d₀ es).disk b
      = replay (System.run L recycle d₀ es).committed.flatten d₀ b :=
  (System.Inv.run recycle h₀ es).2.2 b hb

/-- The log of the disk that `mkfs` makes: `sb.logstart = 2` and `sb.nlog = LOGSIZE`. -/
def mkfsLayout : Layout := ⟨2, LOGSIZE, by decide⟩

/-- A transaction that fills two blocks behind the log with ones. -/
def sampleTxn : Txn mkfsLayout where
  blocks := [(40, fun _ => 1), (41, fun _ => 1)]
  nodup := by decide
  home := by decide
  length_le_size := by decide
  length_le_logsize := by decide
  uint := by decide

/-- One commit interrupted before its header write, one after it, with two interrupted
recoveries. -/
theorem crash_atomicity_sample :
    (System.run mkfsLayout (fun _ _ => true) (fun _ => Block.zero)
        [.crash sampleTxn 2 [], .crash sampleTxn 3 [1, 2]]).disk 41
      = replay (System.run mkfsLayout (fun _ _ => true) (fun _ => Block.zero)
        [.crash sampleTxn 2 [], .crash sampleTxn 3 [1, 2]]).committed.flatten
          (fun _ => Block.zero) 41 :=
  crash_atomicity mkfsLayout _ _ (by decide) _ 41 (by decide)

end

end Xv6.Log
