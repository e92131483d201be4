import Xv6.Proc.Table

/-!
# The memory limit

`growproc` keeps `p->sz` within `p->max_mem`, and `fork` starts the child with the size of its
parent and the limit of a new process, which are all the same. But `exec` does not look at the
limit, and `setpriority` does not recompute it.
-/

namespace Xv6

open Core

/-- The limit of every process: `allocproc` has just set `priority` to `60` when it reads it. -/
def MAXMEM : UInt64 := 128 * 1024

lemma memLimit_default : Proc.memLimit 60 = MAXMEM := by decide

/-! ### Sizes -/

lemma uvmalloc_cases (mem : Bool) (oldsz newsz : UInt64) :
    uvmalloc mem oldsz newsz = oldsz ∨ uvmalloc mem oldsz newsz = 0 ∨
      uvmalloc mem oldsz newsz = newsz := by
  unfold uvmalloc
  split_ifs <;> simp

lemma toUInt64_toUInt32_le (n : UInt64) : n.toUInt32.toUInt64 ≤ n := by
  rw [UInt64.le_iff_toNat_le, UInt32.toNat_toUInt64, UInt64.toNat_toUInt32]
  exact Nat.mod_le ..

variable {mem : Bool} {p : Proc} {sz : UInt64}

lemma toUInt64_uvmalloc_le {oldsz newsz limit : UInt64} (hold : oldsz ≤ limit)
    (hnew : newsz ≤ limit) : (uvmalloc mem oldsz newsz).toUInt32.toUInt64 ≤ limit := by
  refine UInt64.le_trans (toUInt64_toUInt32_le _) ?_
  rcases uvmalloc_cases mem oldsz newsz with h | h | h
  · rw [h]
    exact hold
  · rw [h]
    exact UInt64.zero_le
  · rw [h]
    exact hnew

/-- `growproc` respects the limit, whatever `n` is and however the sums wrap. -/
lemma growproc_le {n : Int32} (h : growproc p n mem = some sz) (hp : p.sz ≤ p.maxMem) :
    sz ≤ p.maxMem := by
  have hsz : p.sz.toUInt32.toUInt64 ≤ p.maxMem := UInt64.le_trans (toUInt64_toUInt32_le _) hp
  unfold growproc at h
  dsimp only at h
  split_ifs at h with hpos hlimit hzero hneg
  · cases h
    exact toUInt64_uvmalloc_le hsz (UInt64.not_lt.mp hlimit)
  · cases h
    refine UInt64.le_trans (toUInt64_toUInt32_le _) ?_
    unfold uvmdealloc
    split_ifs with hge
    · exact hsz
    · exact UInt64.le_trans (UInt64.le_of_lt (UInt64.not_le.mp hge)) hsz
  · cases h
    exact hsz

lemma growproc_zero (p : Proc) (mem : Bool) :
    growproc p 0 mem = some p.sz.toUInt32.toUInt64 := rfl

/-- `growproc` adds what it was asked for, if the sum does not wrap. -/
lemma growproc_eq_add {n : Int32} (h : growproc p n mem = some sz) (hn : 0 < n)
    (hsum : p.sz.toNat + n.toInt.toNat < 2 ^ 32) :
    sz.toNat = p.sz.toNat + n.toInt.toNat ∧ sz ≤ p.maxMem := by
  have hsz : p.sz.toUInt32.toNat = p.sz.toNat := by
    rw [UInt64.toNat_toUInt32]
    exact Nat.mod_eq_of_lt (by omega)
  have hnat : n.toUInt32.toNat = n.toInt.toNat := Int32.toNat_toUInt32_of_le (Int32.le_of_lt hn)
  have hnew : (p.sz.toUInt32 + n.toUInt32).toNat = p.sz.toNat + n.toInt.toNat := by
    rw [UInt32.toNat_add, hsz, hnat]
    exact Nat.mod_eq_of_lt hsum
  unfold growproc at h
  dsimp only at h
  rw [if_pos hn] at h
  split_ifs at h with hlimit hzero
  cases h
  -- the new size is not below the old one
  have hge : ¬(p.sz.toUInt32 + n.toUInt32).toUInt64 < p.sz.toUInt32.toUInt64 := by
    rw [UInt64.lt_iff_toNat_lt, UInt32.toNat_toUInt64, UInt32.toNat_toUInt64]
    omega
  unfold uvmalloc at hzero ⊢
  rw [if_neg hge] at hzero ⊢
  split_ifs at hzero ⊢ with hnomem
  · exact absurd rfl hzero
  · rw [UInt32.toUInt32_toUInt64]
    exact ⟨by rw [UInt32.toNat_toUInt64, hnew], UInt64.not_lt.mp hlimit⟩

/-- Every segment that the program loads ends below `limit`, with room for two more pages. -/
def Program.Fits (f : Program) (limit : UInt64) : Prop :=
  ∀ ph ∈ f.ph, ph.load = true → (ph.vaddr + ph.memsz).toNat + 2 * PGSIZE ≤ limit.toNat

instance (f : Program) (limit : UInt64) : Decidable (f.Fits limit) :=
  inferInstanceAs (Decidable (∀ ph ∈ f.ph, _ → _))

lemma loadSegments_le {phs : List Proghdr} {sz' : UInt64} {limit : ℕ}
    (h : loadSegments phs sz = some sz') (hsz : sz.toNat ≤ limit)
    (hphs : ∀ ph ∈ phs, ph.load = true → (ph.vaddr + ph.memsz).toNat ≤ limit) :
    sz'.toNat ≤ limit := by
  induction phs generalizing sz with
  | nil =>
    simp only [loadSegments, Option.some.injEq] at h
    rw [← h]
    exact hsz
  | cons ph phs ih =>
    have hrest : ∀ ph ∈ phs, ph.load = true → (ph.vaddr + ph.memsz).toNat ≤ limit :=
      fun ph' hmem => hphs ph' (List.mem_cons_of_mem _ hmem)
    simp only [loadSegments] at h
    split_ifs at h with hload
    · exact ih h hsz hrest
    · refine ih h ?_ hrest
      have hend := hphs ph List.mem_cons_self (by simpa using hload)
      rcases uvmalloc_cases ph.mem sz (ph.vaddr + ph.memsz) with h | h | h
      · rw [h]
        exact hsz
      · rw [h]
        exact Nat.zero_le _
      · rw [h]
        exact hend

/-- `exec` of a program that fits. -/
lemma exec_le {f : Program} (h : exec f = some sz) (hfits : f.Fits MAXMEM) : sz ≤ MAXMEM := by
  cases hload : loadSegments f.ph 0 with
  | none => simp [exec, hload] at h
  | some sz₀ =>
    have hsz₀ : sz₀.toNat ≤ 122880 := by
      refine loadSegments_le hload (Nat.zero_le _) fun ph hph hl => ?_
      have := hfits ph hph hl
      simp only [PGSIZE, MAXMEM] at this
      have hlimit : (128 * 1024 : UInt64).toNat = 131072 := rfl
      omega
    -- the rounded size and the two pages of the stack
    have hround : (pgroundup sz₀).toNat ≤ 122880 := by
      have h4095 : (4095 : UInt64).toNat = 4095 := rfl
      have h4096 : (4096 : UInt64).toNat = 4096 := rfl
      simp only [pgroundup, UInt64.toNat_mul, UInt64.toNat_div, UInt64.toNat_add, h4095, h4096]
      omega
    simp only [exec, hload] at h
    split_ifs at h with _ _ hzero
    cases h
    have hmax : MAXMEM.toNat = 131072 := rfl
    have h8192 : (2 * 4096 : UInt64).toNat = 8192 := rfl
    rw [UInt64.le_iff_toNat_le, hmax]
    rcases uvmalloc_cases f.stackMem (pgroundup sz₀) (pgroundup sz₀ + 2 * 4096) with h | h | h
    · rw [h]
      omega
    · exact absurd h hzero
    · rw [h, UInt64.toNat_add, h8192]
      omega

namespace Table

variable {s s' : Table} {e : ProcCall}

/-! ### The size stays within the limit -/

/-- Programs that `exec` succeeds in loading leave room within the limit of the caller. -/
def ExecFits (s : Table) : ProcCall → Prop
  | .exec p f => (Xv6.exec f).isSome → f.Fits (s.proc p).maxMem
  | _ => True

/-- Free slots have no memory, the others stay within the limit of a new process. -/
structure Limited (p : Proc) : Prop where
  unused : p.state = .unused → p.sz = 0
  limit : p.state ≠ .unused → p.maxMem = MAXMEM
  sz_le : p.state ≠ .unused → p.sz ≤ p.maxMem

variable {p' : Proc}

lemma Limited.moved (h : Limited p) (hm : p.Moved p') : Limited p' := by
  refine ⟨fun hp => ?_, fun hp => ?_, fun hp => ?_⟩
  · rw [hm.sz]
    exact h.unused (hm.unused_iff.mp hp)
  · rw [hm.maxMem]
    exact h.limit fun hu => hp (hm.unused_iff.mpr hu)
  · rw [hm.sz, hm.maxMem]
    exact h.sz_le fun hu => hp (hm.unused_iff.mpr hu)

/-- A running process gets a new size within its limit. -/
lemma Limited.resize (h : Limited p) (hp : p.state = .running)
    (hsz : sz ≤ p.maxMem) : Limited { p with sz := sz } where
  unused hu := absurd (hp.symm.trans hu) (by simp)
  limit := h.limit
  sz_le _ := hsz

lemma SlotStep.limited (hstep : SlotStep s e p p') (hs : ∀ i, Limited (s.proc i))
    (hfits : s.ExecFits e) (h : Limited p) : Limited p' := by
  cases hstep with
  | allocproc pid hp =>
    refine ⟨fun hu => absurd hu (by simp [Proc.allocproc]), fun _ => memLimit_default, fun _ => ?_⟩
    simp only [Proc.allocproc, h.unused hp]
    exact UInt64.zero_le
  | freeproc => exact ⟨fun _ => rfl, fun hp => absurd rfl hp, fun hp => absurd rfl hp⟩
  | forked q hq hp =>
    have hlive : (s.proc q).state ≠ .unused := by simp [hq]
    refine ⟨fun hu => absurd hu (by simp [Proc.forked]), fun _ =>
      h.limit (by simp [hp]), fun _ => ?_⟩
    -- the child inherits a size within the same limit
    have hle := (hs q).sz_le hlive
    rw [(hs q).limit hlive] at hle
    rw [show (p.forked q (s.proc q).sz).maxMem = MAXMEM from h.limit (by simp [hp])]
    exact hle
  | exec q f sz he hq hp hf =>
    subst he
    have hlive : p.state ≠ .unused := by simp [hp]
    have hfit : f.Fits (s.proc q).maxMem := hfits (by simp [hf])
    rw [← hq, h.limit hlive] at hfit
    refine h.resize hp ?_
    rw [h.limit hlive]
    exact exec_le hf hfit
  | growproc n mem sz hg hp => exact h.resize hp (growproc_le hg (h.sz_le (by simp [hp])))
  | setpriority => exact ⟨h.unused, h.limit, h.sz_le⟩
  | yield hp => exact h.moved (.yield hp)
  | sleep chan hp => exact h.moved (.sleep hp chan)
  | wakeup chan => exact h.moved (.wakeup p chan)
  | reparent q => exact h.moved (.reparent p q s.initproc)
  | exit status hp => exact h.moved (.exit hp status s.ticks)
  | kill q i pid _ _ _ => exact h.moved (.kill p)
  | dispatch hp =>
    have hlive : p.state ≠ .unused := by simp [hp]
    exact ⟨fun hu => absurd hu (by simp [Proc.dispatch]), fun _ => h.limit hlive,
      fun _ => h.sz_le hlive⟩
  | updateTime =>
    unfold Proc.updateTime
    split
    · exact ⟨h.unused, h.limit, h.sz_le⟩
    · exact ⟨h.unused, h.limit, h.sz_le⟩
    · exact h

lemma Limited.boot (ticks : UInt32) (i : Fin NPROC) : Limited ((boot ticks).proc i) := by
  unfold Table.boot
  dsimp only
  split_ifs
  · refine ⟨fun hu => absurd hu (by simp), fun _ => memLimit_default, fun _ => ?_⟩
    show (4096 : UInt64) ≤ Proc.memLimit 60
    decide
  · exact ⟨fun _ => rfl, fun hp => absurd rfl hp, fun hp => absurd rfl hp⟩

/-- As long as the programs fit, every live process stays within its limit. -/
theorem sz_le_maxMem (hs : machine.ReachableBy ExecFits s) (i : Fin NPROC)
    (hi : (s.proc i).state ≠ .unused) : (s.proc i).sz ≤ (s.proc i).maxMem := by
  have hall : ∀ i, Limited (s.proc i) := by
    refine hs.invariant (I := fun s => ∀ i, Limited (s.proc i)) ?_ ?_
    · rintro s ⟨ticks, rfl⟩
      exact Limited.boot ticks
    · intro s e s' hs hfits hstep
      exact forall_slots_of_step hs hstep fun p p' hp => hp.limited hs hfits
  exact (hall i).sz_le hi

/-- One page of code and data. -/
def smallProgram : Program := ⟨true, [⟨true, 0, 4096, 4096, true, true⟩], true, true, true⟩

theorem sz_le_maxMem_smallProgram :
    ∃ s, machine.ReachableBy ExecFits s ∧ (s.proc 0).sz = 12288 ∧
      (s.proc 0).sz ≤ (s.proc 0).maxMem := by
  have hfits : smallProgram.Fits MAXMEM := by decide +kernel
  have hs : machine.ReachableBy ExecFits (((boot 0).setProc 0 _).exec 0 smallProgram) :=
    .next (e := .exec 0 smallProgram) (.next (e := .dispatch 0) (.init ⟨0, rfl⟩) trivial rfl)
      (fun _ => hfits) rfl
  exact ⟨_, hs, by decide +kernel, sz_le_maxMem hs 0 (by decide +kernel)⟩

/-- A program whose data segment is larger than the limit. -/
def bigProgram : Program := ⟨true, [⟨true, 0, 200000, 4096, true, true⟩], true, true, true⟩

/-- `init` after an `exec` of it. -/
def bigExec : Table :=
  (machine.exec (boot 0) [.dispatch 0, .exec 0 bigProgram]).get (by decide +kernel)

theorem bigExec_exceeds_limit :
    machine.Reachable bigExec ∧ (bigExec.proc 0).state ≠ .unused ∧
      ¬ (bigExec.proc 0).sz ≤ (bigExec.proc 0).maxMem :=
  ⟨.of_exec ⟨0, rfl⟩ (Option.some_get _).symm, by decide +kernel, by decide +kernel⟩

/-! ### The limit follows the priority -/

/-- A process in use has the limit and the class of priorities of a new one. -/
def Priced (p : Proc) : Prop := p.state ≠ .unused → p.maxMem = MAXMEM ∧ ¬ p.priority < 60

lemma Priced.maxMem_eq (h : Priced p) (hp : p.state ≠ .unused) :
    p.maxMem = Proc.memLimit p.priority := by
  obtain ⟨hmax, hprio⟩ := h hp
  have h40 : ¬ p.priority < 40 := by grind
  rw [hmax, Proc.memLimit, if_neg h40, if_neg hprio]
  rfl

/-- Calls of `setpriority` that find a live process give it a priority of the last class: at least
`60`, or negative and thus a huge `uint64`. -/
def KeepsClass (s : Table) : ProcCall → Prop
  | .setpriority _ v pid =>
    ∀ i, s.first (·.pid = pid) = some i → (s.proc i).state ≠ .unused → v < 0 ∨ 60 ≤ v
  | _ => True

/-- The values that end up below `60`. -/
lemma int32_of_toUInt64_lt {v : Int32} (h : v.toInt64.toUInt64 < 60) : 0 ≤ v ∧ v < 60 := by
  have hnat : v.toInt64.toBitVec.toNat < 60 := by
    rw [Int64.toNat_toBitVec]
    exact UInt64.lt_iff_toNat_lt.mp h
  have hint : v.toInt64.toBitVec.toInt = v.toInt := v.toInt_toInt64
  rw [BitVec.toInt_eq_toNat_cond] at hint
  rw [Int32.le_iff_toInt_le, Int32.lt_iff_toInt_lt]
  have h0 : (0 : Int32).toInt = 0 := rfl
  have h60 : (60 : Int32).toInt = 60 := rfl
  split_ifs at hint <;> omega

lemma Priced.moved (h : Priced p) (hm : p.Moved p') : Priced p' := by
  intro hp
  rw [hm.maxMem, hm.priority]
  exact h fun hu => hp (hm.unused_iff.mpr hu)

lemma SlotStep.priced (hstep : SlotStep s e p p') (hclass : s.KeepsClass e) (h : Priced p) :
    Priced p' := by
  cases hstep with
  | allocproc pid _ => exact fun _ => ⟨memLimit_default, UInt64.lt_irrefl 60⟩
  | freeproc => exact fun hp => absurd rfl hp
  | forked q _ hp => exact fun _ => h (by simp [hp])
  | exec q f sz _ _ _ _ => exact h
  | growproc n mem sz _ _ => exact h
  | setpriority q i v pid he hi hp =>
    subst he hp
    intro hlive
    refine ⟨(h hlive).1, fun hlt => ?_⟩
    obtain ⟨h0, h60⟩ := int32_of_toUInt64_lt hlt
    rcases hclass i hi hlive with hneg | hge
    · exact absurd hneg (Int32.not_lt.mpr h0)
    · exact absurd h60 (Int32.not_lt.mpr hge)
  | yield hp => exact h.moved (.yield hp)
  | sleep chan hp => exact h.moved (.sleep hp chan)
  | wakeup chan => exact h.moved (.wakeup p chan)
  | reparent q => exact h.moved (.reparent p q s.initproc)
  | exit status hp => exact h.moved (.exit hp status s.ticks)
  | kill q i pid _ _ _ => exact h.moved (.kill p)
  | dispatch hp => exact fun _ => h (by simp [hp])
  | updateTime =>
    unfold Proc.updateTime
    split
    · exact h
    · exact h
    · exact h

/-- As long as no live process is given a priority of another class, the limit is the one that the
table of `allocproc` has for the priority. -/
theorem maxMem_eq_memLimit (hs : machine.ReachableBy KeepsClass s) (i : Fin NPROC)
    (hi : (s.proc i).state ≠ .unused) :
    (s.proc i).maxMem = Proc.memLimit (s.proc i).priority := by
  have hall : ∀ i, Priced (s.proc i) := by
    refine hs.invariant (I := fun s => ∀ i, Priced (s.proc i)) ?_ ?_
    · rintro s ⟨ticks, rfl⟩ i
      unfold boot
      dsimp only
      split_ifs
      · exact fun _ => ⟨memLimit_default, UInt64.lt_irrefl 60⟩
      · exact fun hp => absurd rfl hp
    · intro s e s' hs hclass hstep
      exact forall_slots_of_step hs hstep fun p p' hp => hp.priced hclass
  exact (hall i).maxMem_eq hi

/-- `init` gives itself another priority of the last class. -/
theorem maxMem_eq_memLimit_renice :
    ∃ s, machine.ReachableBy KeepsClass s ∧ (s.proc 0).priority = 80 ∧
      (s.proc 0).maxMem = Proc.memLimit (s.proc 0).priority := by
  have hs : machine.ReachableBy KeepsClass (((boot 0).setProc 0 _).setpriority 0 80 1) :=
    .next (e := .setpriority 0 80 1) (.next (e := .dispatch 0) (.init ⟨0, rfl⟩) trivial rfl)
      (fun _ _ _ => .inr (by decide)) rfl
  exact ⟨_, hs, by decide +kernel, maxMem_eq_memLimit hs 0 (by decide +kernel)⟩

/-- `init` makes itself the most urgent process. -/
def urgentInit : Table :=
  (machine.exec (boot 0) [.dispatch 0, .setpriority 0 10 1]).get (by decide +kernel)

/-- It has the priority for 512 KiB and the limit of 128 KiB. -/
theorem urgentInit_old_limit :
    machine.Reachable urgentInit ∧ (urgentInit.proc 0).state ≠ .unused ∧
      (urgentInit.proc 0).priority = 10 ∧
      ¬ (urgentInit.proc 0).maxMem = Proc.memLimit (urgentInit.proc 0).priority :=
  ⟨.of_exec ⟨0, rfl⟩ (Option.some_get _).symm, by decide +kernel, by decide +kernel,
    by decide +kernel⟩

end Table

end Xv6
