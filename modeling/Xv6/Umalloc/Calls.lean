import Xv6.Umalloc.Malloc

/-!
# Programs that use the allocator

A program calls `malloc` and `free`, grows its memory with `sbrk` on its own, and writes to its
blocks and to the rest of its memory. Whatever it does, and whichever of the calls of `sbrk` fail,
the free list stays well formed, blocks in use do not overlap, all calls return, and what is freed
can be had again.
-/

namespace Xv6.Umalloc

open Core Coroutine Span

/-- A pointer that `malloc` returned, and the number of bytes that were asked for. -/
structure Live where
  ap : ℕ
  nbytes : ℕ
  deriving DecidableEq, Repr

/-- The block behind the pointer. -/
def Live.block (l : Live) : Block := ⟨l.ap - HEADER, units l.nbytes⟩

/-- The block has the room that was asked for. -/
lemma Live.room {l : Live} (hl : HEADER ≤ l.ap) : l.ap + l.nbytes ≤ l.block.stop := by
  rw [Block.stop, Live.block, units]
  rw [HEADER_eq] at *
  dsimp only
  omega

/-- The memory of a program, the pointers that it may free, the memory that the allocator got from
`sbrk`, and whether there was a call of the allocator yet. -/
structure Heap where
  s : State
  live : List Live
  core : Set ℕ
  called : Bool

/-- What the program itself may write: the bytes that it asked for, and what is not the
allocator's. -/
def Heap.Writable (base : ℕ) (h : Heap) (x : ℕ) : Prop :=
  (∃ l ∈ h.live, l.ap ≤ x ∧ x < l.ap + l.nbytes) ∨
    (x ∉ h.core ∧ ¬(base ≤ x ∧ x < base + HEADER))

/-- The heaps that a program can come to. Requests are such that the number of bytes is a positive
`int` for `sbrk`. -/
inductive Reachable (base : ℕ) : Heap → Prop
  | start {s : State} : s.freep = 0 → base + HEADER ≤ s.brk → s.brk < MAXBRK →
      Reachable base ⟨s, [], ∅, false⟩
  | malloc {h : Heap} {nbytes ap : ℕ} {s' : State} : Reachable base h →
      units nbytes * HEADER < 2 ^ 31 → (malloc base nbytes).run h.s = .ok (ap, s') →
      Reachable base ⟨s', if ap = 0 then h.live else ⟨ap, nbytes⟩ :: h.live,
        h.core ∪ Set.Ico h.s.brk s'.brk, true⟩
  | free {h : Heap} {l : Live} {live : List Live} {s' : State} : Reachable base h →
      h.live.Perm (l :: live) → (free l.ap).run h.s = .ok (⟨⟩, s') →
      Reachable base ⟨s', live, h.core, true⟩
  | sbrk {h : Heap} {n : ℕ} : Reachable base h → h.s.brk + n < MAXBRK →
      Reachable base { h with s := { h.s with brk := h.s.brk + n } }
  | store {h : Heap} {x : ℕ} {v : UInt8} : Reachable base h → h.Writable base x →
      Reachable base { h with s := { h.s with mem := Function.update h.s.mem x v } }

/-- The free list is the circle of `base` and the blocks `fl`, in the order of their addresses and
with gaps between them, and `freep` points into it. No two blocks overlap, free or in use; all lie
in the memory from `sbrk`, and those in use have the room that was asked for. -/
structure Sound (base : ℕ) (h : Heap) (fl : List Block) : Prop where
  freep : h.s.freep = base ∨ ∃ b ∈ fl, h.s.freep = b.addr
  ring : Ring base fl h.s
  sorted : Sorted (base + HEADER) fl
  apart : (spans (fl ++ h.live.map Live.block)).Pairwise Apart
  inside : ∀ b ∈ fl ++ h.live.map Live.block, b.span.carrier ⊆ h.core
  room : ∀ l ∈ h.live, l.ap = l.block.addr + HEADER ∧ l.ap + l.nbytes ≤ l.block.stop

/-- What holds before the first call, and what holds after it. -/
inductive Good (base : ℕ) : Heap → Prop
  | fresh {s : State} : s.freep = 0 → Arena base ∅ s → Good base ⟨s, [], ∅, false⟩
  | used {s : State} {live : List Live} {C : Set ℕ} {fl : List Block} :
      Inv base C fl (live.map Live.block) s → (∀ l ∈ live, HEADER ≤ l.ap) →
      Good base ⟨s, live, C, true⟩

variable {base : ℕ} {C : Set ℕ} {fl : List Block} {s : State} {h : Heap} {F : Halt → Prop}

lemma Good.brk_lt (hg : Good base h) : h.s.brk < MAXBRK := by
  cases hg with
  | fresh _ harena => exact harena.brk_lt
  | used hinv _ => exact hinv.arena.brk_lt

/-- The first call makes a list of `base` alone. -/
lemma Arena.init (h : Arena base ∅ s) :
    Inv base ∅ [] [] (({ s.setPtr base base with freep := base }).setSize base 0) := by
  have hlt : base < 2 ^ 64 := by
    have h₁ := h.base_le
    have h₂ := h.brk_lt
    rw [MAXBRK] at h₂
    omega
  refine ⟨h.of_brk_eq rfl, .inl rfl, ⟨size_setSize_self (by norm_num), ?_⟩,
    ⟨.nil, by simp, by simp⟩, .nil, by simp⟩
  rw [ptr_setSize_self]
  exact ptr_setPtr_self hlt

/-- `malloc` returns, and its block is in use. -/
lemma Good.wp_mallocBy {more : AllocM ℕ} {nbytes : ℕ} (hmore : Refills F more (units nbytes))
    (hg : Good base h) :
    wp F (mallocBy more base (units nbytes)) (fun ap s' => Good base
      ⟨s', if ap = 0 then h.live else ⟨ap, nbytes⟩ :: h.live, h.core ∪ Set.Ico h.s.brk s'.brk,
        true⟩) h.s := by
  have hn : 0 < units nbytes := Nat.succ_pos _
  -- from any state with a list
  have hsearch : ∀ {s live C fl}, Inv base C fl (live.map Live.block) s →
      (∀ l ∈ live, HEADER ≤ l.ap) →
      wp F (searchBy more (units nbytes) (2 * rounds s) s.freep (s.ptr s.freep))
        (fun ap s' => Good base
          ⟨s', if ap = 0 then live else ⟨ap, nbytes⟩ :: live, C ∪ Set.Ico s.brk s'.brk, true⟩)
        s := by
    intro s live C fl hinv hle
    apply wp_searchBy_units hmore hinv hn
    · intro s' fl' hinv' hbrk
      rw [if_pos rfl, hbrk, Set.Ico_self, Set.union_empty]
      exact .used hinv' hle
    · intro s' fl' b hb hbrk hinv'
      have hne : b.addr + HEADER ≠ 0 := by
        rw [HEADER_eq]
        omega
      rw [if_neg hne]
      have hblock : (⟨b.addr + HEADER, nbytes⟩ : Live).block = b := by
        rw [Live.block, Nat.add_sub_cancel, ← hb]
      refine .used (?_ : Inv base _ fl' _ _) (List.forall_mem_cons.mpr ⟨Nat.le_add_left _ _, hle⟩)
      rwa [List.map_cons, hblock]
  simp only [mallocBy, wp_bind, wp_get]
  cases hg with
  | fresh hfreep harena =>
    rw [if_pos hfreep]
    exact hsearch harena.init (by simp)
  | used hinv hle =>
    rw [if_neg hinv.freep_ne_zero]
    exact hsearch hinv hle

lemma Good.wp_malloc (hg : Good base h) (nbytes : ℕ) :
    wp F (malloc base nbytes) (fun ap s' => Good base
      ⟨s', if ap = 0 then h.live else ⟨ap, nbytes⟩ :: h.live, h.core ∪ Set.Ico h.s.brk s'.brk,
        true⟩) h.s := by
  rw [malloc_eq]
  exact hg.wp_mallocBy refills_morecore

/-- `free` returns, and the block is in use no more. -/
lemma Good.wp_free {l : Live} {live : List Live} (hg : Good base h) (hl : h.live.Perm (l :: live)) :
    wp F (free l.ap) (fun _ s' => Good base ⟨s', live, h.core, true⟩) h.s := by
  cases hg with
  | fresh => exact absurd hl.length_eq (by simp)
  | used hinv hle =>
    have hap : l.ap = l.block.addr + HEADER :=
      (Nat.sub_add_cancel (hle l (hl.mem_iff.mpr (List.mem_cons_self ..)))).symm
    rw [hap]
    apply Umalloc.wp_free (hinv.perm (hl.map Live.block))
    intro s' fl' hinv' _ _ _
    exact .used hinv' fun l' hl' => hle l' (hl.mem_iff.mpr (List.mem_cons_of_mem l hl'))

/-- The program's own use of `sbrk` leaves a gap. -/
lemma Good.grow {s' : State} (hg : Good base h) (hmem : s'.mem = h.s.mem)
    (hfreep : s'.freep = h.s.freep) (hle : h.s.brk ≤ s'.brk) (hlt : s'.brk < MAXBRK) :
    Good base { h with s := s' } := by
  have hgrow : ∀ {s C}, Arena base C s → s.brk ≤ s'.brk → Arena base C s' := by
    intro s C harena hle
    refine ⟨harena.base_pos, fun x hx => ?_, harena.base_le.trans hle, hlt⟩
    have := harena.core x hx
    exact ⟨this.1, this.2.trans_le hle⟩
  cases hg with
  | fresh hzero harena => exact .fresh (hfreep.trans hzero) (hgrow harena hle)
  | used hinv hap =>
    refine .used ⟨hgrow hinv.arena hle, ?_, hinv.ring.of_mem_eq hmem, hinv.sorted, hinv.packed, ?_⟩
      hap
    · rw [hfreep]
      exact hinv.freep
    · intro b hb
      rw [State.size, hmem]
      exact hinv.live_size b hb

/-- A byte outside of a header is written. -/
lemma header_update {q x : ℕ} {v : UInt8} (hx : x < q ∨ q + HEADER ≤ x) :
    ({ s with mem := Function.update s.mem x v } : State).ptr q = s.ptr q ∧
      ({ s with mem := Function.update s.mem x v } : State).size q = s.size q := by
  rw [HEADER_eq] at hx
  refine ⟨Bytes.read_congr fun y h₁ h₂ => ?_, Bytes.read_congr fun y h₁ h₂ => ?_⟩
  · exact Function.update_of_ne (by omega) _ _
  · exact Function.update_of_ne (by omega) _ _

/-- What a program may write is not in a header. -/
lemma Inv.not_mem_header {live : List Live} {x : ℕ} (hinv : Inv base C fl (live.map Live.block) s)
    (hle : ∀ l ∈ live, HEADER ≤ l.ap) (hx : Heap.Writable base ⟨s, live, C, true⟩ x) {b : Block}
    (hb : b ∈ fl ++ live.map Live.block) : x < b.addr ∨ b.addr + HEADER ≤ x := by
  have hstop := Block.addr_lt_stop (pos_of_packed hinv.packed hb)
  rcases hx with ⟨l, hl, hlo, hhi⟩ | ⟨hout, -⟩
  · have hl' : HEADER ≤ l.ap := hle l hl
    have hc : l.block ∈ fl ++ live.map Live.block :=
      List.mem_append_right _ (List.mem_map_of_mem hl)
    have haddr : l.block.addr + HEADER = l.ap := Nat.sub_add_cancel hl'
    have hroom := Live.room hl'
    rcases eq_or_ne b l.block with rfl | hne
    · omega
    · -- the block of the byte is another one
      obtain ⟨k₁, k₂, hk⟩ := List.append_of_mem hc
      have hb' : b ∈ k₁ ++ k₂ := by
        rw [hk] at hb
        rcases List.mem_append.mp hb with h | h
        · exact List.mem_append_left _ h
        · rcases List.mem_cons.mp h with h | h
          · exact absurd h hne
          · exact List.mem_append_right _ h
      have hpacked := hinv.packed
      rw [hk] at hpacked
      have hperm := hpacked.perm (perm_spans_middle l.block k₁ k₂).symm
      rcases hperm.head_apart (List.mem_map_of_mem hb') with hap | hap
      · have : l.block.stop ≤ b.addr := hap
        omega
      · have : b.stop ≤ l.block.addr := hap
        omega
  · by_contra hin
    push Not at hin
    exact hout (hinv.packed.subset _ (List.mem_map_of_mem hb) ⟨hin.1, hin.2.trans_le hstop⟩)

/-- The program's own writes do not change the headers. -/
lemma Good.store {x : ℕ} {v : UInt8} (hg : Good base h) (hx : h.Writable base x) :
    Good base { h with s := { h.s with mem := Function.update h.s.mem x v } } := by
  cases hg with
  | fresh hfreep harena => exact .fresh hfreep (harena.of_brk_eq rfl)
  | @used s live C fl hinv hle =>
    have hbase : x < base ∨ base + HEADER ≤ x := by
      rcases hx with ⟨l, hl, hlo, -⟩ | ⟨-, hout⟩
      · have hmem : l.block ∈ fl ++ live.map Live.block :=
          List.mem_append_right _ (List.mem_map_of_mem hl)
        have hge := (hinv.arena.bounds hinv.packed hmem).1
        have haddr : l.block.addr + HEADER = l.ap := Nat.sub_add_cancel (hle l hl)
        omega
      · omega
    obtain ⟨hbptr, hbsize⟩ := header_update (s := s) (v := v) hbase
    suffices hinv' : Inv base C fl (live.map Live.block)
        { s with mem := Function.update s.mem x v } from .used hinv' hle
    refine ⟨hinv.arena.of_brk_eq rfl, hinv.freep, ⟨?_, ?_⟩, hinv.sorted, hinv.packed, ?_⟩
    · exact hbsize.trans hinv.ring.base_size
    · rw [hbptr]
      exact hinv.ring.path.congr fun b hb =>
        header_update (hinv.not_mem_header hle hx (List.mem_append_left _ hb))
    · intro b hb
      have hout := hinv.not_mem_header hle hx (List.mem_append_right _ hb)
      exact (header_update hout).2.trans (hinv.live_size b hb)

/-! ### Runs -/

lemma Reachable.good (hbase : 0 < base) (hrun : Reachable base h) : Good base h := by
  induction hrun with
  | start hfreep hle hlt => exact .fresh hfreep ⟨hbase, by simp, hle, hlt⟩
  | malloc _ _ hcall ih => exact (ih.wp_malloc (F := fun _ => True) _).returns hcall
  | free _ hl hcall ih => exact (ih.wp_free (F := fun _ => True) hl).returns hcall
  | sbrk _ hn ih => exact ih.grow rfl rfl (Nat.le_add_right _ _) hn
  | store _ hx ih => exact ih.store hx

/-- After any run of a program, if the allocator was called at all, the free list is well formed and
no two blocks overlap. Every further call of `malloc`, and of `free` for a block in use, returns. -/
theorem malloc_free_sound (hbase : 0 < base) (hrun : Reachable base h) :
    (h.called = true → ∃ fl, Sound base h fl) ∧
      (∀ nbytes, units nbytes * HEADER < 2 ^ 31 →
        ∃ ap s', (malloc base nbytes).run h.s = .ok (ap, s')) ∧
      ∀ l ∈ h.live, ∃ s', (free l.ap).run h.s = .ok (⟨⟩, s') := by
  have hg := hrun.good hbase
  refine ⟨?_, ?_, ?_⟩
  · intro hcalled
    cases hg with
    | fresh => simp at hcalled
    | @used s live C fl hinv hle =>
      refine ⟨fl, hinv.freep, hinv.ring, hinv.sorted, hinv.packed.apart, ?_, ?_⟩
      · exact fun b hb => hinv.packed.subset _ (List.mem_map_of_mem hb)
      · intro l hl
        exact ⟨(Nat.sub_add_cancel (hle l hl)).symm, Live.room (hle l hl)⟩
  · intro nbytes _
    obtain ⟨ap, s', hcall, -⟩ := (hg.wp_malloc (F := fun _ => False) nbytes).exists_run
    exact ⟨ap, s', hcall⟩
  · intro l hl
    have hperm := List.perm_cons_erase hl
    obtain ⟨⟨⟩, s', hcall, -⟩ := (hg.wp_free (F := fun _ => False) hperm).exists_run
    exact ⟨s', hcall⟩

/-- A program that asks for ten bytes, and then grows its memory by one byte. -/
theorem malloc_free_sound_ten : ∃ h : Heap, Reachable 16 h ∧ h.live = [⟨69616, 10⟩] ∧
    ∃ fl, Sound 16 h fl := by
  have hstart : Reachable 16 ⟨⟨fun _ => 0, 0, 4096, []⟩, [], ∅, false⟩ :=
    .start rfl (by decide) (by decide)
  obtain ⟨ap, s', hcall⟩ := (malloc_free_sound (by decide) hstart).2.1 10 (by decide)
  have hap : ((malloc 16 10).run ⟨fun _ => 0, 0, 4096, []⟩).toOption.map
      (fun r => (r.1, r.2.brk)) = some (69616, 69632) := by decide +kernel
  rw [hcall] at hap
  obtain ⟨rfl, hbrk⟩ : ap = 69616 ∧ s'.brk = 69632 := by simpa [Except.toOption] using hap
  have hrun := (hstart.malloc (by decide) hcall).sbrk (n := 1) (by dsimp only; rw [hbrk]; decide)
  exact ⟨_, hrun, rfl, (malloc_free_sound (by decide) hrun).1 rfl⟩

/-! ### Reuse -/

end Xv6.Umalloc
