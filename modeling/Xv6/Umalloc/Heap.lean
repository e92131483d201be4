import Xv6.Core.Spans
import Xv6.Umalloc.Ring

/-!
# Blocks on the free list and in use

The invariant of the allocator: the free blocks are a sorted circle, and together with the blocks in
use they lie apart from each other in the memory that `morecore` got. `free` and `malloc` keep it,
and their loops come to an end.
-/

namespace Xv6.Umalloc

open Core Coroutine Span

/-- The bytes of a block. -/
def Block.span (b : Block) : Span ℕ := ⟨b.addr, b.stop⟩

/-- The spans of a list of blocks. -/
abbrev spans (l : List Block) : List (Span ℕ) := l.map Block.span

lemma perm_spans_middle (b : Block) (l₁ l₂ : List Block) :
    (b.span :: spans (l₁ ++ l₂)).Perm (spans (l₁ ++ b :: l₂)) := List.perm_middle.symm.map _

/-- The memory `C` that the allocator got lies above `base`, below the end of user memory. -/
structure Arena (base : ℕ) (C : Set ℕ) (s : State) : Prop where
  base_pos : 0 < base
  core : ∀ x ∈ C, base + HEADER ≤ x ∧ x < s.brk
  base_le : base + HEADER ≤ s.brk
  brk_lt : s.brk < MAXBRK

/-- The blocks `fl` are free and the blocks `live` are in use; all of them lie in the memory `C`. -/
structure Inv (base : ℕ) (C : Set ℕ) (fl live : List Block) (s : State) : Prop where
  arena : Arena base C s
  freep : s.freep = base ∨ ∃ b ∈ fl, s.freep = b.addr
  ring : Ring base fl s
  sorted : Sorted (base + HEADER) fl
  packed : Packed C (spans (fl ++ live))
  live_size : ∀ b ∈ live, s.size b.addr = b.size

/-! ### Blocks in memory -/

section Arena

variable {base : ℕ} {C : Set ℕ} {s : State} {l : List Block} {b c : Block}

lemma pos_of_packed (h : Packed C (spans l)) (hb : b ∈ l) : 0 < b.size := by
  have hlt : b.addr < b.stop := h.lt _ (List.mem_map_of_mem hb)
  rw [Block.stop, HEADER_eq] at hlt
  omega

/-- Headers of different blocks do not overlap. -/
lemma far_of_packed (h : Packed C (spans (b :: l))) (hc : c ∈ l) : Far b.addr c.addr := by
  have hb := Block.addr_lt_stop (pos_of_packed h (List.mem_cons_self ..))
  have hc' := Block.addr_lt_stop (pos_of_packed h (List.mem_cons_of_mem b hc))
  exact (h.head_apart (List.mem_map_of_mem hc)).imp hb.trans hc'.trans

namespace Arena

lemma bounds (h : Arena base C s) (hl : Packed C (spans l)) (hb : b ∈ l) :
    base + HEADER ≤ b.addr ∧ b.stop ≤ s.brk := hl.bounds h.core (List.mem_map_of_mem hb)

/-- Sizes are far from what fits in a `uint`. -/
lemma size_lt (h : Arena base C s) (hl : Packed C (spans l)) (hb : b ∈ l) : b.size < 2 ^ 27 := by
  have hle := (h.bounds hl hb).2
  have hbrk := h.brk_lt
  rw [Block.stop, HEADER_eq] at hle
  rw [MAXBRK] at hbrk
  omega

lemma addr_lt (h : Arena base C s) (hl : Packed C (spans l)) (hb : b ∈ l) :
    b.addr < 2 ^ 64 := by
  have hle := (h.bounds hl hb).2
  have hlt := Block.addr_lt_stop (pos_of_packed hl hb)
  have hbrk := h.brk_lt
  rw [MAXBRK] at hbrk
  omega

lemma base_far (h : Arena base C s) (hl : Packed C (spans l)) (hb : b ∈ l) : Far base b.addr :=
  .inl (h.bounds hl hb).1

/-- The last header of a part of the list is apart from all blocks that are not in it. -/
lemma last_far {l₁ : List Block} (h : Arena base C s) (hl : Packed C (spans (l₁ ++ l)))
    (hc : c ∈ l) : Far (last base l₁) c.addr := by
  apply last_of_forall (P := (Far · c.addr))
  · exact h.base_far hl (List.mem_append_right _ hc)
  · intro a ha
    obtain ⟨k₁, k₂, rfl⟩ := List.append_of_mem ha
    have hperm : Packed C (spans (a :: ((k₁ ++ k₂) ++ l))) := by
      refine hl.perm (List.Perm.map _ ?_)
      rw [List.append_assoc, List.append_assoc]
      exact List.perm_middle
    exact far_of_packed hperm (List.mem_append_right _ hc)

lemma of_brk_eq {s' : State} (h : Arena base C s) (hs : s'.brk = s.brk) : Arena base C s' := by
  refine ⟨h.base_pos, ?_, ?_, ?_⟩
  · rw [hs]
    exact h.core
  · rw [hs]
    exact h.base_le
  · rw [hs]
    exact h.brk_lt

end Arena

namespace Inv

variable {fl live live' : List Block}

lemma length_le (h : Inv base C fl live s) : 16 * fl.length + 17 ≤ s.brk := by
  have hhi : ∀ b ∈ fl, b.stop ≤ s.brk := fun b hb =>
    (h.arena.bounds h.packed (List.mem_append_left _ hb)).2
  have hle := h.sorted.length_le hhi h.arena.base_le
  have hpos := h.arena.base_pos
  rw [HEADER_eq] at hle
  omega

/-- The list may be entered at any of its headers. -/
lemma of_freep {p : ℕ} (harena : Arena base C s) (hp : p = base ∨ ∃ b ∈ fl, p = b.addr)
    (hring : Ring base fl s) (hsorted : Sorted (base + HEADER) fl)
    (hpacked : Packed C (spans (fl ++ live))) (hlive : ∀ b ∈ live, s.size b.addr = b.size) :
    Inv base C fl live { s with freep := p } :=
  ⟨harena.of_brk_eq rfl, hp, hring.of_mem_eq rfl, hsorted, hpacked, hlive⟩

/-- The order of the blocks in use does not matter. -/
lemma perm (h : Inv base C fl live s) (hl : live.Perm live') : Inv base C fl live' s :=
  { h with
    packed := h.packed.perm ((hl.append_left fl).map _)
    live_size := fun b hb => h.live_size b (hl.mem_iff.mpr hb) }

end Inv

end Arena

/-! ### A block among the free ones -/

section Insert

variable {b b' : Block} {l l' l₁ l₁' l₂ l₂' rest : List Block} {lo : ℕ} {P : Set ℕ}

lemma Upper.size_le (h : Upper b l b' l') : b.size ≤ b'.size := by
  cases h with
  | link => exact le_rfl
  | join => exact Nat.le_add_right _ _

lemma Upper.length_le (h : Upper b l b' l') : l'.length ≤ l.length := by
  cases h with
  | link => exact le_rfl
  | join => exact Nat.le_succ _

lemma Lower.length_le (h : Lower b l l') : l'.length ≤ l.length + 1 := by
  cases h with
  | link => simp
  | join => simp

lemma Upper.subset (h : Upper b l b' l') : ∀ c ∈ l', c ∈ l := by
  cases h with
  | link => exact fun c hc => hc
  | join => exact fun c hc => List.mem_cons_of_mem _ hc

lemma Upper.sorted (h : Upper b l b' l') (hl : Sorted lo l) (hlo : lo ≤ b.addr) (hb : 0 < b.size)
    (hle : ∀ c ∈ l, b.stop ≤ c.addr) : Sorted lo (b' :: l') := by
  cases h with
  | link hne =>
    refine hl.cons hlo hb ?_
    cases l with
    | nil => simp
    | cons r l =>
      have hr := hle r (List.mem_cons_self ..)
      have hne' := hne r rfl
      refine List.forall_mem_cons.mpr ⟨by omega, fun c hc => ?_⟩
      have := Block.addr_lt_stop (hl.pos r (List.mem_cons_self ..))
      have := hl.head_stop_lt hc
      omega
  | @join r l hstop =>
    refine hl.tail.cons hlo (by dsimp only; omega) ?_
    intro c hc
    have := hl.head_stop_lt hc
    rw [Block.stop] at hstop this ⊢
    dsimp only
    rw [Nat.add_mul]
    omega

lemma Upper.packed (h : Upper b l b' l') (hP : Packed P (spans (b :: (l ++ rest)))) :
    Packed P (spans (b' :: (l' ++ rest))) := by
  cases h with
  | link => exact hP
  | @join r l hstop =>
    have hr : r.span = ⟨b.stop, r.stop⟩ := by
      rw [hstop]
      rfl
    have hjoin : Packed P (⟨b.addr, b.stop⟩ :: r.span :: spans (l' ++ rest)) := hP
    rw [hr] at hjoin
    have hend : r.stop = (⟨b.addr, b.size + r.size⟩ : Block).stop := by
      rw [Block.stop] at hstop
      rw [Block.stop, Block.stop, Nat.add_mul, ← hstop, Nat.add_assoc]
    have := hjoin.join
    rwa [hend] at this

lemma Lower.last_mem (base : ℕ) (h : Lower b l l') :
    last base l = base ∨ ∃ c ∈ l', last base l = c.addr := by
  cases h with
  | link =>
    rcases last_eq_or_mem base l with heq | ⟨c, hc, heq⟩
    · exact .inl heq
    · exact .inr ⟨c, List.mem_append_left _ hc, heq⟩
  | @join q l _ =>
    refine .inr ⟨_, List.mem_append_right _ (List.mem_singleton_self _), ?_⟩
    rw [last_append]
    rfl

lemma Lower.exists_size_le (h : Lower b l l') : ∃ c ∈ l', b.size ≤ c.size := by
  cases h with
  | link => exact ⟨b, by simp, le_rfl⟩
  | join => exact ⟨_, List.mem_append_right _ (List.mem_singleton_self _), Nat.le_add_left _ _⟩

lemma Lower.sorted (h : Lower b l₁ l₁') (h₁ : Sorted lo l₁) (h₂ : Sorted lo (b :: l₂))
    (hle : ∀ a ∈ l₁, a.stop ≤ b.addr) (h₁₂ : ∀ a ∈ l₁, ∀ c ∈ l₂, a.stop < c.addr) :
    Sorted lo (l₁' ++ l₂) := by
  have hpos := h₂.pos b (List.mem_cons_self ..)
  cases h with
  | link hne =>
    rw [List.append_assoc]
    refine .of_append h₁ h₂ fun a ha => List.forall_mem_cons.mpr ⟨?_, h₁₂ a ha⟩
    have hstop := hle a ha
    rcases List.eq_nil_or_concat l₁ with rfl | ⟨l, q, rfl⟩
    · simp at ha
    rw [List.concat_eq_append] at *
    -- the last block has a gap, the others lie below it
    have hq : q.stop < b.addr := by
      have := hne q (by simp)
      have := hle q (by simp)
      omega
    rcases List.mem_append.mp ha with ha | ha
    · have := h₁.append.2.2 a ha q (List.mem_singleton_self q)
      have := Block.addr_lt_stop (h₁.pos q (by simp))
      omega
    · rwa [List.mem_singleton.mp ha]
  | @join q l hstop =>
    obtain ⟨hl, hq, hlq⟩ := h₁.append
    have hlt : ∀ c ∈ l₂, (⟨q.addr, q.size + b.size⟩ : Block).stop < c.addr := by
      intro c hc
      have := h₂.head_stop_lt hc
      rw [Block.stop] at this hstop ⊢
      dsimp only
      rw [Nat.add_mul]
      omega
    rw [List.append_assoc]
    refine .of_append hl (h₂.tail.cons (hq.le q (by simp)) (by dsimp only; omega) hlt) ?_
    intro a ha
    refine List.forall_mem_cons.mpr ⟨hlq a ha q (by simp), h₁₂ a (List.mem_append_left _ ha)⟩

lemma Lower.packed (h : Lower b l₁ l₁') (hP : Packed P (spans (b :: (l₁ ++ rest)))) :
    Packed P (spans (l₁' ++ rest)) := by
  cases h with
  | link =>
    refine hP.perm (List.Perm.map _ ?_)
    rw [List.append_assoc]
    exact List.perm_middle.symm
  | @join q l hstop =>
    have hperm : Packed P (spans (q :: b :: (l ++ rest))) := by
      refine hP.perm (List.Perm.map _ ?_)
      rw [List.append_assoc]
      exact ((List.perm_middle (a := q)).cons b).trans (.swap q b _)
    have hb : b.span = ⟨q.stop, b.stop⟩ := by
      rw [hstop]
      rfl
    have hjoin : Packed P (⟨q.addr, q.stop⟩ :: b.span :: spans (l ++ rest)) := hperm
    rw [hb] at hjoin
    have hend : b.stop = (⟨q.addr, q.size + b.size⟩ : Block).stop := by
      rw [Block.stop] at hstop
      rw [Block.stop, Block.stop, Nat.add_mul, ← hstop, Nat.add_assoc]
    have hq := hjoin.join
    rw [hend] at hq
    rw [List.append_assoc]
    exact hq.perm (perm_spans_middle ⟨q.addr, q.size + b.size⟩ l rest)

end Insert

/-! ### free -/

lemma joinUpper_brk (p bp : ℕ) (s : State) : (joinUpper p bp s).brk = s.brk := by
  rw [joinUpper]
  split_ifs
  · rfl
  · rfl

lemma joinLower_brk (p bp : ℕ) (s : State) : (joinLower p bp s).brk = s.brk := by
  rw [joinLower]
  split_ifs
  · rfl
  · rfl

/-- The block `b` belongs between the free blocks `l₁` and `l₂` and points to the latter, but the
former do not point to it yet. -/
structure Half (base : ℕ) (C : Set ℕ) (l₁ : List Block) (b : Block) (l₂ live : List Block)
    (s : State) : Prop where
  arena : Arena base C s
  base_size : s.size base = 0
  below : ∃ z, Path s (s.ptr base) l₁ z
  size : s.size b.addr = b.size
  above : Path s (s.ptr b.addr) l₂ base
  sorted₁ : Sorted (base + HEADER) l₁
  sorted₂ : Sorted (base + HEADER) (b :: l₂)
  le : ∀ a ∈ l₁, a.stop ≤ b.addr
  lt : ∀ a ∈ l₁, ∀ c ∈ l₂, a.stop < c.addr
  packed : Packed C (spans (b :: (l₁ ++ (l₂ ++ live))))
  live_size : ∀ c ∈ live, s.size c.addr = c.size

section Free

variable {base : ℕ} {C : Set ℕ} {fl l₁ l₂ live : List Block} {s : State} {b : Block}
  {F : Halt → Prop}

/-- The block is joined to its upper neighbour. -/
lemma Inv.joinUpper (h : Inv base C (l₁ ++ l₂) (b :: live) s) (hlow : ∀ a ∈ l₁, a.addr < b.addr)
    (hup : ∀ c ∈ l₂, b.addr < c.addr) :
    ∃ b' l₂', Half base C l₁ b' l₂' live (joinUpper (last base l₁) b.addr s) ∧
      b'.addr = b.addr ∧ b.size ≤ b'.size ∧ l₂'.length ≤ l₂.length := by
  have hpacked : Packed C (spans (b :: ((l₁ ++ l₂) ++ live))) :=
    h.packed.perm (List.perm_middle.map _)
  have hpacked' : Packed C (spans (b :: (l₂ ++ (l₁ ++ live)))) := by
    refine hpacked.perm (List.Perm.map _ (List.Perm.cons b ?_))
    rw [← List.append_assoc]
    exact List.perm_append_comm.append_right live
  have hbpos := pos_of_packed hpacked (List.mem_cons_self ..)
  have hbase := (h.arena.bounds hpacked (List.mem_cons_self ..)).1
  have hfar : ∀ c ∈ (l₁ ++ l₂) ++ live, Far c.addr b.addr := fun c hc =>
    (far_of_packed hpacked hc).symm
  obtain ⟨hs₁, hs₂, hs₁₂⟩ := h.sorted.append
  have hmem₁ : ∀ c ∈ l₁, c ∈ (l₁ ++ l₂) ++ live := fun c hc => by simp [hc]
  have hmem₂ : ∀ c ∈ l₂, c ∈ (l₁ ++ l₂) ++ live := fun c hc => by simp [hc]
  have habove : ∀ c ∈ l₂, b.stop ≤ c.addr := by
    intro c hc
    have hlt := hup c hc
    have hstop := Block.addr_lt_stop (hs₂.pos c hc)
    rcases hpacked.head_apart (List.mem_map_of_mem (hmem₂ c hc)) with hle | hle
    · exact hle
    · have hle' : c.stop ≤ b.addr := hle
      omega
  have hbelow : ∀ a ∈ l₁, a.stop ≤ b.addr := by
    intro a ha
    have hlt := hlow a ha
    have hstop := Block.addr_lt_stop hbpos
    rcases hpacked.head_apart (List.mem_map_of_mem (hmem₁ a ha)) with hle | hle
    · have hle' : b.stop ≤ a.addr := hle
      omega
    · exact hle
  have hpfar : Far (last base l₁) b.addr :=
    last_of_forall (P := (Far · b.addr)) (.inl hbase) fun c hc => hfar c (hmem₁ c hc)
  obtain ⟨z, hpath₁, hpath₂⟩ := Path.append.mp h.ring.path
  rw [← hpath₁.ptr_last] at hpath₂
  have hsizes : ∀ c ∈ l₂, b.size + c.size < 2 ^ 32 := by
    intro c hc
    have h₁ := h.arena.size_lt hpacked (List.mem_cons_self ..)
    have h₂ := h.arena.size_lt hpacked (List.mem_cons_of_mem b (hmem₂ c hc))
    omega
  obtain ⟨b', l₂', hupper, hsize, habove'⟩ := joinUpper_spec hpath₂
    (h.live_size b (List.mem_cons_self ..)) (fun c hc => hfar c (hmem₂ c hc)) hpfar
    (by rw [HEADER_eq] at hbase; omega) hsizes
  have haddr := hupper.addr_eq
  have hframe : ∀ q, Far q b.addr → (Umalloc.joinUpper (last base l₁) b.addr s).ptr q = s.ptr q ∧
      (Umalloc.joinUpper (last base l₁) b.addr s).size q = s.size q := fun q hq =>
    joinUpper_of_far hq
  obtain ⟨hbptr, hbsize⟩ := hframe base (.inl hbase)
  refine ⟨b', l₂', ⟨h.arena.of_brk_eq (joinUpper_brk _ _ _), hbsize.trans h.ring.base_size, ⟨z, ?_⟩,
    ?_, ?_, hs₁, hupper.sorted hs₂ hbase hbpos habove, ?_, ?_, ?_, ?_⟩, haddr, hupper.size_le,
    hupper.length_le⟩
  · rw [hbptr]
    exact hpath₁.congr fun c hc => hframe _ (hfar c (hmem₁ c hc))
  · rw [haddr]
    exact hsize
  · rw [haddr]
    exact habove'
  · rw [haddr]
    exact hbelow
  · exact fun a ha c hc => hs₁₂ a ha c (hupper.subset c hc)
  · refine (hupper.packed hpacked').perm (List.Perm.map _ (List.Perm.cons b' ?_))
    rw [← List.append_assoc, ← List.append_assoc]
    exact List.perm_append_comm.append_right live
  · intro c hc
    rw [(hframe _ (hfar c (List.mem_append_right _ hc))).2]
    exact h.live_size c (List.mem_cons_of_mem b hc)

/-- The block is linked to the list, or joined to its lower neighbour. -/
lemma Half.joinLower (h : Half base C l₁ b l₂ live s) :
    ∃ fl, Inv base C fl live { joinLower (last base l₁) b.addr s with freep := last base l₁ } ∧
      (∃ c ∈ fl, b.size ≤ c.size) ∧ fl.length ≤ l₁.length + l₂.length + 1 := by
  have hmem₁ : ∀ c ∈ l₁, c ∈ l₁ ++ (l₂ ++ live) := fun c hc => by simp [hc]
  have hmem₂ : ∀ c ∈ l₂, c ∈ l₁ ++ (l₂ ++ live) := fun c hc => by simp [hc]
  have hbase := h.arena.bounds h.packed (List.mem_cons_self ..)
  have hbmem : b ∈ b :: (l₁ ++ (l₂ ++ live)) := List.mem_cons_self ..
  have hpfar : Far (last base l₁) b.addr :=
    last_of_forall (P := (Far · b.addr)) (.inl hbase.1) fun c hc =>
      (far_of_packed h.packed (hmem₁ c hc)).symm
  have hfar : ∀ c ∈ l₂ ++ live, Far (last base l₁) c.addr := fun c hc =>
    h.arena.last_far h.packed.tail hc
  have hsizes : ∀ c ∈ l₁, c.size + b.size < 2 ^ 32 := by
    intro c hc
    have h₁ := h.arena.size_lt h.packed hbmem
    have h₂ := h.arena.size_lt h.packed (List.mem_cons_of_mem b (hmem₁ c hc))
    omega
  obtain ⟨z, hpath₁⟩ := h.below
  obtain ⟨l₁', hlower, hring⟩ := joinLower_spec h.base_size hpath₁ h.size h.above h.sorted₁
    (by have := hbase.1; rw [HEADER_eq] at this; omega) (h.arena.addr_lt h.packed hbmem) hpfar
    (fun c hc => hfar c (List.mem_append_left _ hc)) hsizes
  have harena := h.arena.of_brk_eq (joinLower_brk (last base l₁) b.addr s)
  refine ⟨l₁' ++ l₂, .of_freep harena ?_ hring ?_ ?_ ?_, ?_, ?_⟩
  · rcases hlower.last_mem base with heq | ⟨c, hc, heq⟩
    · exact .inl heq
    · exact .inr ⟨c, List.mem_append_left _ hc, heq⟩
  · exact hlower.sorted h.sorted₁ h.sorted₂ h.le h.lt
  · rw [List.append_assoc]
    exact hlower.packed h.packed
  · intro c hc
    rw [(joinLower_of_far (hfar c (List.mem_append_right _ hc)).symm).2]
    exact h.live_size c hc
  · obtain ⟨c, hc, hle⟩ := hlower.exists_size_le
    exact ⟨c, List.mem_append_left _ hc, hle⟩
  · have := hlower.length_le
    rw [List.length_append]
    omega

/-- A block in use becomes free; there is then a free block that is as large. -/
lemma wp_free {Q : PUnit → State → Prop} (h : Inv base C fl (b :: live) s)
    (hQ : ∀ s' fl', Inv base C fl' live s' → (∃ c ∈ fl', b.size ≤ c.size) →
      fl'.length ≤ fl.length + 1 → s'.brk = s.brk → Q ⟨⟩ s') :
    wp F (free (b.addr + HEADER)) Q s := by
  have hbmem : b ∈ fl ++ b :: live := List.mem_append_right _ (List.mem_cons_self ..)
  have hbase := (h.arena.bounds h.packed hbmem).1
  have hlen := h.length_le
  have hpacked : Packed C (spans (b :: (fl ++ live))) := h.packed.perm (List.perm_middle.map _)
  simp only [free, wp_bind, wp_get, Nat.add_sub_cancel]
  apply wp_findPlace h.ring h.sorted h.freep
  · rw [HEADER_eq] at hbase
    omega
  · intro c hc heq
    have hfar := far_of_packed hpacked (List.mem_append_left live hc)
    rw [heq, Far, HEADER_eq] at hfar
    omega
  · rw [rounds]
    omega
  · rintro k₁ k₂ rfl hlow hup
    obtain ⟨b', l₂', hhalf, haddr, hsize, hlen₂⟩ := h.joinUpper hlow hup
    have hbrk := joinLower_brk (last base k₁) b.addr (joinUpper (last base k₁) b.addr s)
    rw [joinUpper_brk] at hbrk
    obtain ⟨fl', hinv, ⟨c, hc, hle⟩, hlen'⟩ := hhalf.joinLower
    rw [haddr] at hinv
    simp only [wp_bind, wp_modify]
    generalize joinLower (last base k₁) b.addr (joinUpper (last base k₁) b.addr s) = s₂ at *
    exact hQ _ fl' hinv ⟨c, hc, hsize.trans hle⟩ (by rw [List.length_append]; omega) hbrk

end Free

end Xv6.Umalloc
