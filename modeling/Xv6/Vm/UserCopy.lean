import Xv6.Vm.Lookup

/-!
# Copying between the kernel and the user

`copyout` and `copyin` on the page table of an address space. They succeed exactly if the user may
access the whole range; `copyout` changes the bytes of the range and nothing else in physical
memory, and `copyin` changes nothing.
-/

namespace Xv6.Vm

open Core Coroutine Assn
open scoped Pointwise

variable {sym : Symbols} {s s' : State} {R : Assn ℕ Page} {F : Panic → Prop} {pagetable va : ℕ}
  {bs : List UInt8}

/-! ### Reading -/

/-- The bytes of a page that can be accessed. -/
lemma bytes_walked {n : ℕ} (hn : va % PGSIZE + n ≤ PGSIZE) :
    s.bytes (PTE2PA (s.entry pagetable va) + va % PGSIZE) n
      = (List.range n).map fun j => s.byteAt pagetable (va + j) := by
  have hlt : va % PGSIZE < PGSIZE := Nat.mod_lt va PGSIZE_pos
  rw [State.bytes]
  apply List.map_congr_left
  intro j hj
  rw [List.mem_range] at hj
  rw [State.byteAt_add (by omega), PTE2PA_eq, addr_div hlt, addr_mod hlt]

/-- The rounds of `copyin`: all bytes, or none if one of them cannot be accessed. -/
lemma wp_copyinFrom {Q : Option (List UInt8) → State → Prop} {fuel len : ℕ} (hfuel : len ≤ fuel)
    (hok : (∀ k < len, s.Accessible pagetable (va + k)) →
      Q (some ((List.range len).map fun k => s.byteAt pagetable (va + k))) s)
    (hfail : (∃ k < len, ¬s.Accessible pagetable (va + k)) → Q none s) :
    wp F (copyinFrom pagetable fuel va len) Q s := by
  have hdone : len = 0 → Q (some []) s := by
    rintro rfl
    exact hok fun k hk => absurd hk (Nat.not_lt_zero k)
  induction fuel generalizing va len Q with
  | zero => exact hdone (by omega)
  | succ fuel ih =>
    have hlt : va % PGSIZE < PGSIZE := Nat.mod_lt va PGSIZE_pos
    rw [copyinFrom]
    apply wp_ite hdone
    intro hlen
    dsimp only
    rw [wp_bind, sub_PGROUNDDOWN]
    apply wp_walkaddr_any
    · intro hno
      rw [State.accessible_congr (PGROUNDDOWN_div va)] at hno
      exact hfail ⟨0, by omega, hno⟩
    intro hyes
    rw [State.accessible_congr (PGROUNDDOWN_div va)] at hyes
    rw [State.entry_congr (PGROUNDDOWN_div va), if_neg hyes.2.2.2, wp_bind, wp_get]
    set n := min len (PGSIZE - va % PGSIZE) with hn
    rw [bytes_walked (by omega), wp_bind]
    have hpage : ∀ k < n, s.Accessible pagetable (va + k) := by
      intro k hk
      exact (State.accessible_add (by omega)).mpr hyes
    -- the rest, if there is any, starts at the next byte
    have hnext : len - n ≠ 0 → PGROUNDDOWN va + PGSIZE = va + n := by
      intro hmore
      rw [PGROUNDDOWN]
      simp only [PGSIZE] at *
      omega
    have hend : len - n = 0 →
        Q (some ((List.range n).map (fun k => s.byteAt pagetable (va + k)) ++ [])) s := by
      intro hzero
      have heq : n = len := by omega
      rw [heq] at hpage ⊢
      rw [List.append_nil]
      exact hok hpage
    apply ih (by omega)
    · intro hrest
      by_cases hzero : len - n = 0
      · rw [hzero]
        exact hend hzero
      rw [hnext hzero] at hrest ⊢
      have hall : n + (len - n) = len := by omega
      have hpost := hok ?_
      · rw [← hall, List.range_add, List.map_append, List.map_map] at hpost
        simpa [Function.comp_def, Nat.add_assoc] using hpost
      · intro k hk
        rcases Nat.lt_or_ge k n with hkn | hnk
        · exact hpage k hkn
        · obtain ⟨i, rfl⟩ := Nat.exists_eq_add_of_le hnk
          rw [← Nat.add_assoc]
          exact hrest i (by omega)
    · rintro ⟨k, hk, hno⟩
      rw [hnext (by omega), Nat.add_assoc] at hno
      exact hfail ⟨n + k, by omega, hno⟩
    · exact hend

/-- `copyin` returns the bytes of the range. -/
lemma copyin_run {len : ℕ} (h : ∀ k < len, s.Accessible pagetable (va + k)) :
    (copyin pagetable va len).run s
      = .ok (some ((List.range len).map fun k => s.byteAt pagetable (va + k)), s) := by
  have hwp : wp (fun _ => False) (copyin pagetable va len) (fun r s' =>
      r = some ((List.range len).map fun k => s.byteAt pagetable (va + k)) ∧ s' = s) s := by
    apply wp_copyinFrom le_rfl
    · exact fun _ => ⟨rfl, rfl⟩
    · rintro ⟨k, hk, hno⟩
      exact absurd (h k hk) hno
  obtain ⟨r, s', hrun, rfl, rfl⟩ := hwp.exists_run
  exact hrun

lemma copyin_run_none {len k : ℕ} (hk : k < len) (h : ¬s.Accessible pagetable (va + k)) :
    (copyin pagetable va len).run s = .ok (none, s) := by
  have hwp : wp (fun _ => False) (copyin pagetable va len) (fun r s' => r = none ∧ s' = s) s := by
    apply wp_copyinFrom le_rfl
    · exact fun hall => absurd (hall k hk) h
    · exact fun _ => ⟨rfl, rfl⟩
  obtain ⟨r, s', hrun, rfl, rfl⟩ := hwp.exists_run
  exact hrun

/-! ### Writing -/

/-- User memory with some bytes written at a virtual address. -/
def writeUser (m : ℕ → Option UInt8) (va : ℕ) (bs : List UInt8) : ℕ → Option UInt8 := fun a =>
  if va ≤ a ∧ a < va + bs.length then bs[a - va]? else m a

/-- The bytes `bs` are written to user memory at `va`. No other byte of physical memory has changed,
and neither has the free list. -/
structure Wrote (pagetable va : ℕ) (bs : List UInt8) (s s' : State) : Prop where
  user : s'.user pagetable = writeUser (s.user pagetable) va bs
  frame : ∀ q o, (∀ k < bs.length, s.place pagetable (va + k) ≠ (q, o)) →
    (s'.page q).byte o = (s.page q).byte o
  freelist : s'.freelist = s.freelist
  deny : s'.deny = s.deny

section Space

variable {A : Space sym} (h : Owned sym s (A.pages + R))
  (h' : Owned sym s' ((A.withMem (writeMem A.mem va bs)).pages + R))
  (hpages : ∀ k < bs.length, UserPage A.entry (npages A.size) ((va + k) / PGSIZE))

include h h' hpages

/-- The user sees the bytes written. -/
lemma user_writeMem :
    s'.user (A.root * PGSIZE) = writeUser (s.user (A.root * PGSIZE)) va bs := by
  funext a
  have huser' : s'.user ((A.withMem (writeMem A.mem va bs)).root * PGSIZE) a = _ :=
    Space.user_eq h'
  have hmod : a % PGSIZE < PGSIZE := Nat.mod_lt a PGSIZE_pos
  have hbyte : (writeMem A.mem va bs (a / PGSIZE)).byte (a % PGSIZE)
      = if va ≤ a ∧ a < va + bs.length then bs.getD (a - va) 0
        else (A.mem (a / PGSIZE)).byte (a % PGSIZE) := by
    simp only [Page.byte, dif_pos hmod, writeMem, Nat.div_add_mod' a PGSIZE]
  rw [writeUser]
  refine huser'.trans ?_
  show (if UserPage A.entry (npages A.size) (a / PGSIZE) then
    some ((writeMem A.mem va bs (a / PGSIZE)).byte (a % PGSIZE)) else none) = _
  rw [hbyte, Space.user_eq h]
  by_cases ha : va ≤ a ∧ a < va + bs.length
  · obtain ⟨k, rfl⟩ := Nat.exists_eq_add_of_le ha.1
    have hk : k < bs.length := by omega
    rw [if_pos ha, if_pos ha, if_pos (hpages k hk), Nat.add_sub_cancel_left,
      List.getElem?_eq_getElem hk, List.getD_eq_getElem _ _ hk]
  · rw [if_neg ha, if_neg ha]

/-- A byte of a user page that is not in the range keeps its value. -/
lemma frame_writeMem (hconf : State.Confined (touched A.entry va bs.length) s s') {q o : ℕ}
    (hq : ∀ k < bs.length, s.place (A.root * PGSIZE) (va + k) ≠ (q, o)) :
    (s'.page q).byte o = (s.page q).byte o := by
  by_cases hmem : q ∈ touched A.entry va bs.length
  swap
  · rw [hconf.page q hmem]
  obtain ⟨k, hk, rfl⟩ := hmem
  rcases Nat.lt_or_ge o PGSIZE with ho | ho
  swap
  · rw [Page.byte, Page.byte, dif_neg (by omega), dif_neg (by omega)]
  -- the virtual address of the byte
  set a := (va + k) / PGSIZE * PGSIZE + o with ha
  have hdiv : a / PGSIZE = (va + k) / PGSIZE := addr_div ho
  have hpage : UserPage A.entry (npages A.size) (a / PGSIZE) := by
    rw [hdiv]
    exact hpages k hk
  have hva := A.lt_MAXVA_of_lt_npages hpage.1
  have hplace : s.place (A.root * PGSIZE) a = (A.entry ((va + k) / PGSIZE) / 1024, o) := by
    rw [Space.place_eq h hva, hdiv, ha, addr_mod ho]
  have hplace' : s'.place (A.root * PGSIZE) a = (A.entry ((va + k) / PGSIZE) / 1024, o) := by
    have heq := Space.place_eq h' hva
    rw [hdiv, ha, addr_mod ho] at heq
    exact heq
  have hout : ¬(va ≤ a ∧ a < va + bs.length) := by
    rintro ⟨hle, hlt⟩
    obtain ⟨i, hi⟩ := Nat.exists_eq_add_of_le hle
    rw [hi] at hplace hlt
    exact hq i (by omega) hplace
  have hacc : s.Accessible (A.root * PGSIZE) a := (Space.accessible_iff_userPage h).mpr hpage
  have hacc' : s'.Accessible (A.root * PGSIZE) a := (Space.accessible_iff_userPage h').mpr hpage
  have huser := congrFun (user_writeMem h h' hpages) a
  rw [writeUser, if_neg hout, State.user_eq_some hacc, State.user_eq_some hacc'] at huser
  have hbyte := Option.some.inj huser
  rwa [State.byteAt, State.byteAt, hplace, hplace'] at hbyte

lemma wrote_writeMem (hconf : State.Confined (touched A.entry va bs.length) s s') :
    Wrote (A.root * PGSIZE) va bs s s' :=
  ⟨user_writeMem h h' hpages, fun _ _ => frame_writeMem h h' hpages hconf, hconf.freelist,
    hconf.deny⟩

end Space

/-- `copyout` writes the bytes before the first one that cannot be accessed. -/
lemma Space.wp_copyout_wrote {A : Space sym} {Q : Bool → State → Prop} {src : List UInt8}
    (h : Owned sym s (A.pages + R))
    (hfail : ∀ s' k M, k < src.length → (∀ j < k, s.Accessible (A.root * PGSIZE) (va + j)) →
      ¬s.Accessible (A.root * PGSIZE) (va + k) → Wrote (A.root * PGSIZE) va (src.take k) s s' →
      Owned sym s' ((A.withMem M).pages + R) → Q false s')
    (hok : ∀ s' M, (∀ k < src.length, s.Accessible (A.root * PGSIZE) (va + k)) →
      Wrote (A.root * PGSIZE) va src s s' → Owned sym s' ((A.withMem M).pages + R) → Q true s') :
    wp F (copyout (A.root * PGSIZE) va src) Q s := by
  have hacc : ∀ a, s.Accessible (A.root * PGSIZE) a ↔
      UserPage A.entry (npages A.size) (a / PGSIZE) := fun a => Space.accessible_iff_userPage h
  have hspace : ∀ M s', Owned sym s' (tree 2 A.root A.entry
      + (umem A.entry M (npages A.size) + (own A.trapframe + R))) →
      Owned sym s' ((A.withMem M).pages + R) := by
    intro M s' h'
    rw [Space.pages_add]
    exact h'
  have htree := h
  rw [A.pages_add] at htree
  apply wp_copyoutFrom A.map le_rfl htree
  · intro s' k hk hall hno hconf h'
    have hlen : (src.take k).length = k := by
      rw [List.length_take]
      omega
    refine hfail s' k _ hk (fun j hj => (hacc _).mpr (hall j hj)) (mt (hacc _).mp hno) ?_
      (hspace _ s' h')
    apply wrote_writeMem h (hspace _ s' h')
    · rwa [hlen]
    · rwa [hlen]
  · intro s' hall hconf h'
    exact hok s' _ (fun k hk => (hacc _).mpr (hall k hk))
      (wrote_writeMem h (hspace _ s' h') hall hconf) (hspace _ s' h')

/-- On the page table of an address space, for every address and all bytes: the user may access a
page if it is mapped, valid and user-accessible below `MAXVA`; `copyout` succeeds exactly if the
user may access every byte of the range, it then writes the bytes and changes nothing else, and
`copyin` reads them back; otherwise the bytes before the first one that cannot be accessed are
written, and nothing else is changed. `copyin` succeeds under the same condition and returns the
bytes there. -/
theorem copyout_copyin_exact (A : Space sym) (h : Owned sym s (A.pages + R)) (va : ℕ)
    (src : List UInt8) :
    (∀ a, s.Accessible (A.root * PGSIZE) a ↔ a < MAXVA ∧
      s.entry (A.root * PGSIZE) a &&& PTE_V ≠ 0 ∧ s.entry (A.root * PGSIZE) a &&& PTE_U ≠ 0) ∧
    (∃ r s', (copyout (A.root * PGSIZE) va src).run s = .ok (r, s') ∧
      (r = true ↔ ∀ k < src.length, s.Accessible (A.root * PGSIZE) (va + k)) ∧
      (r = true → Wrote (A.root * PGSIZE) va src s s' ∧
        (copyin (A.root * PGSIZE) va src.length).run s' = .ok (some src, s')) ∧
      (r = false → ∃ k < src.length, ¬s.Accessible (A.root * PGSIZE) (va + k) ∧
        (∀ j < k, s.Accessible (A.root * PGSIZE) (va + j)) ∧
        Wrote (A.root * PGSIZE) va (src.take k) s s')) ∧
    ∀ len, ∃ r, (copyin (A.root * PGSIZE) va len).run s = .ok (r, s) ∧
      (r.isSome ↔ ∀ k < len, s.Accessible (A.root * PGSIZE) (va + k)) ∧
      ∀ bs, r = some bs →
        bs.map some = (List.range len).map fun k => s.user (A.root * PGSIZE) (va + k) := by
  refine ⟨fun a => Space.accessible_iff h, ?_, ?_⟩
  · apply Coroutine.wp.exists_run
    apply Space.wp_copyout_wrote h
    · intro s' k M hk hall hno hwrote _
      exact ⟨iff_of_false (by decide) fun hacc => hno (hacc k hk), by simp,
        fun _ => ⟨k, hk, hno, hall, hwrote⟩⟩
    · intro s' M hall hwrote h'
      refine ⟨iff_of_true rfl hall, fun _ => ⟨hwrote, ?_⟩, by simp⟩
      have huser : ∀ k (hk : k < src.length),
          s'.user (A.root * PGSIZE) (va + k) = some src[k] := by
        intro k hk
        rw [hwrote.user, writeUser, if_pos (by omega), Nat.add_sub_cancel_left,
          List.getElem?_eq_getElem hk]
      have hacc' : ∀ k < src.length, s'.Accessible (A.root * PGSIZE) (va + k) :=
        fun k hk => .of_user (huser k hk)
      rw [copyin_run hacc']
      congr 3
      apply List.ext_getElem
      · simp
      · intro k hk hk'
        have heq := huser k hk'
        rw [State.user_eq_some (hacc' k hk')] at heq
        simpa using Option.some.inj heq
  · intro len
    by_cases hall : ∀ k < len, s.Accessible (A.root * PGSIZE) (va + k)
    · refine ⟨_, copyin_run hall, iff_of_true rfl hall, ?_⟩
      rintro _ ⟨⟩
      rw [List.map_map]
      apply List.map_congr_left
      intro k hk
      exact (State.user_eq_some (hall k (List.mem_range.mp hk))).symm
    · obtain ⟨k, hk, hno⟩ : ∃ k < len, ¬s.Accessible (A.root * PGSIZE) (va + k) := by
        simpa using hall
      exact ⟨none, copyin_run_none hk hno, iff_of_false (by simp) hall, by rintro _ ⟨⟩⟩

/-- Three bytes are copied to a process of one page, and read back. -/
theorem copyout_copyin_small : ∃ (s : State) (A : Space small), Owned small s (A.pages + 0) ∧
    A.size = 4096 ∧ ∃ s', (copyout (A.root * PGSIZE) 4093 [1, 2, 3]).run s = .ok (true, s') ∧
      Wrote (A.root * PGSIZE) 4093 [1, 2, 3] s s' ∧
      (copyin (A.root * PGSIZE) 4093 3).run s' = .ok (some [1, 2, 3], s') := by
  have hboot := run_eq_after (c := firstProcess small 4096) (s := blank [])
    (a := (557055 * PGSIZE, 557054 * PGSIZE)) (by decide +kernel)
  obtain ⟨A, hr, hsize, h⟩ := (wp_firstProcess (by decide)).returns hboot
  have hr' : ((copyout (557054 * PGSIZE) 4093 [1, 2, 3]).run
      (after (firstProcess small 4096) (blank []))).toOption.map Prod.fst = some true := by
    decide +kernel
  obtain ⟨-, ⟨r, s', hrun, -, hok, -⟩, -⟩ := copyout_copyin_exact A h 4093 [1, 2, 3]
  have hrun' := hrun
  rw [← (Prod.mk.inj hr).2] at hrun'
  rw [hrun'] at hr'
  obtain rfl : r = true := by simpa [Except.toOption] using hr'
  exact ⟨_, A, h, hsize, s', hrun, hok rfl⟩

end Xv6.Vm
