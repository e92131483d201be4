import Xv6.Umalloc.Heap

/-!
# Runs of the allocator

`malloc` keeps the invariant: it takes a block from the list or from the tail of one, after a search
that goes once around the list, or twice if it has to ask the kernel for memory. Hence any sequence
of calls leaves a well-formed free list, and blocks in use that do not overlap.
-/

namespace Xv6.Umalloc

open Core Coroutine Span

variable {base nunits : ℕ} {C : Set ℕ} {fl l₁ l₂ live : List Block} {s : State} {x : Block}
  {F : Halt → Prop}

/-! ### Taking a block -/

section Take

/-- A block of the right size leaves the list. -/
lemma Inv.unlink (h : Inv base C (l₁ ++ x :: l₂) live s) :
    Inv base C (l₁ ++ l₂) (x :: live)
      { s.setPtr (last base l₁) (s.ptr x.addr) with freep := last base l₁ } := by
  obtain ⟨hs₁, hs₂, hs₁₂⟩ := h.sorted.append
  have hpacked : Packed C (spans ((l₁ ++ l₂) ++ x :: live)) := by
    refine h.packed.perm (List.Perm.map _ ?_)
    rw [List.append_assoc, List.append_assoc]
    exact List.Perm.append_left l₁ List.perm_middle.symm
  obtain ⟨z, hpath₁, hzx, hxsize, hpath₂⟩ := Path.append.mp h.ring.path
  subst hzx
  have hall : Packed C (spans (l₁ ++ (x :: l₂ ++ live))) := by
    rw [← List.append_assoc]
    exact h.packed
  have hfar : ∀ c ∈ x :: l₂ ++ live, Far c.addr (last base l₁) := fun c hc =>
    (h.arena.last_far hall hc).symm
  have hsize : ∀ c ∈ x :: l₂ ++ live,
      (s.setPtr (last base l₁) (s.ptr x.addr)).size c.addr = s.size c.addr := fun c hc =>
    size_setPtr_of_far (hfar c hc)
  have hring : Ring base (l₁ ++ l₂) (s.setPtr (last base l₁) (s.ptr x.addr)) := by
    refine ⟨?_, Path.append.mpr ⟨s.ptr x.addr, ?_, ?_⟩⟩
    · rcases last_eq_or_mem base l₁ with heq | ⟨c, hc, heq⟩
      · rw [heq, size_setPtr_self, h.ring.base_size]
      · rw [heq, size_setPtr_of_far (.inl (hs₁.le c hc)), h.ring.base_size]
    · exact hpath₁.setPtr_last (ptr_lt _ _) hs₁.pairwise_far
    · refine hpath₂.congr fun c hc => ?_
      have hc' : c ∈ x :: l₂ ++ live := by simp [hc]
      exact ⟨ptr_setPtr_of_far (hfar c hc'), hsize c hc'⟩
  refine .of_freep (h.arena.of_brk_eq rfl) ?_ hring ?_ hpacked ?_
  · rcases last_eq_or_mem base l₁ with heq | ⟨c, hc, heq⟩
    · exact .inl heq
    · exact .inr ⟨c, List.mem_append_left _ hc, heq⟩
  · exact .of_append hs₁ hs₂.tail fun a ha c hc => hs₁₂ a ha c (List.mem_cons_of_mem x hc)
  · intro c hc
    have hc' : c ∈ x :: l₂ ++ live := by
      rcases List.mem_cons.mp hc with rfl | hc
      · simp
      · simp [hc]
    refine (hsize c hc').trans ?_
    rcases List.mem_cons.mp hc with rfl | hc
    · exact hxsize
    · exact h.live_size c hc

/-- A block gives its tail away. -/
lemma Inv.split (h : Inv base C (l₁ ++ x :: l₂) live s) {n : ℕ} (hn : 0 < n) (hlt : 0 < nunits)
    (hx : x.size = n + nunits) {p : ℕ} (hp : p = base ∨ ∃ c ∈ l₁, p = c.addr) :
    Inv base C (l₁ ++ ⟨x.addr, n⟩ :: l₂) (⟨x.addr + n * HEADER, nunits⟩ :: live)
      { (s.setSize x.addr n).setSize (x.addr + n * HEADER) nunits with freep := p } := by
  obtain ⟨hs₁, hs₂, hs₁₂⟩ := h.sorted.append
  set b : Block := ⟨x.addr + n * HEADER, nunits⟩ with hb
  have hstop : x.stop = b.stop := by
    rw [Block.stop, hx, hb, Block.stop]
    ring
  have hxpacked : Packed C (spans (x :: ((l₁ ++ l₂) ++ live))) := by
    refine h.packed.perm (List.Perm.map _ ?_)
    rw [List.append_assoc, List.append_assoc]
    exact List.perm_middle
  have hcut : Packed C (spans (⟨x.addr, n⟩ :: b :: ((l₁ ++ l₂) ++ live))) := by
    have hxb : Packed C (⟨x.addr, b.stop⟩ :: spans ((l₁ ++ l₂) ++ live)) := by
      rw [← hstop]
      exact hxpacked
    refine hxb.cut ?_ ?_
    · show x.addr < x.addr + n * HEADER
      rw [HEADER_eq]
      omega
    · show b.addr < b.addr + nunits * HEADER
      rw [HEADER_eq]
      omega
  have hbcut : Packed C (spans (b :: ⟨x.addr, n⟩ :: ((l₁ ++ l₂) ++ live))) :=
    hcut.perm ((List.Perm.swap _ _ _).map _)
  have hxlt := h.arena.size_lt hxpacked (List.mem_cons_self ..)
  have hfarx : ∀ c ∈ (l₁ ++ l₂) ++ live, Far c.addr x.addr := fun c hc =>
    (far_of_packed hxpacked hc).symm
  have hfarb : ∀ c ∈ (l₁ ++ l₂) ++ live, Far c.addr b.addr := fun c hc =>
    (far_of_packed hbcut (List.mem_cons_of_mem _ hc)).symm
  have hxb : Far x.addr b.addr :=
    far_of_packed (b := ⟨x.addr, n⟩) hcut (List.mem_cons_self ..)
  have hbasex := h.arena.base_far hxpacked (List.mem_cons_self ..)
  have hbaseb := h.arena.base_far hbcut (List.mem_cons_self ..)
  set s' := (s.setSize x.addr n).setSize b.addr nunits with hs'
  have hframe : ∀ q, Far q x.addr → Far q b.addr → s'.ptr q = s.ptr q ∧ s'.size q = s.size q := by
    intro q hqx hqb
    rw [hs', ptr_setSize_of_far hqb, ptr_setSize_of_far hqx, size_setSize_of_far hqb,
      size_setSize_of_far hqx]
    exact ⟨rfl, rfl⟩
  have hxsize : s'.size x.addr = n := by
    rw [hs', size_setSize_of_far hxb, size_setSize_self (by omega)]
  have hxptr : s'.ptr x.addr = s.ptr x.addr := by
    rw [hs', ptr_setSize_of_far hxb, ptr_setSize_self]
  have hbsize : s'.size b.addr = nunits := by
    rw [hs', size_setSize_self (by omega)]
  have hbase := hframe base hbasex hbaseb
  obtain ⟨z, hpath₁, hzx, -, hpath₂⟩ := Path.append.mp h.ring.path
  subst hzx
  have hmem : ∀ c ∈ l₁ ++ l₂, s'.ptr c.addr = s.ptr c.addr ∧ s'.size c.addr = s.size c.addr :=
    fun c hc => hframe _ (hfarx c (List.mem_append_left _ hc)) (hfarb c (List.mem_append_left _ hc))
  have hring : Ring base (l₁ ++ ⟨x.addr, n⟩ :: l₂) s' := by
    refine ⟨hbase.2.trans h.ring.base_size, Path.append.mpr ⟨x.addr, ?_, rfl, hxsize, ?_⟩⟩
    · rw [hbase.1]
      exact hpath₁.congr fun c hc => hmem c (List.mem_append_left _ hc)
    · rw [hxptr]
      exact hpath₂.congr fun c hc => hmem c (List.mem_append_right _ hc)
  refine .of_freep (h.arena.of_brk_eq rfl) ?_ hring ?_ ?_ ?_
  · rcases hp with hp | ⟨c, hc, hp⟩
    · exact .inl hp
    · exact .inr ⟨c, List.mem_append_left _ hc, hp⟩
  · refine .of_append hs₁ (hs₂.tail.cons (hs₂.le x (List.mem_cons_self ..)) hn ?_) ?_
    · intro c hc
      have := hs₂.head_stop_lt hc
      rw [Block.stop, hx, Nat.add_mul] at this
      rw [Block.stop]
      dsimp only
      omega
    · intro a ha
      refine List.forall_mem_cons.mpr ⟨hs₁₂ a ha x (List.mem_cons_self ..), fun c hc => ?_⟩
      exact hs₁₂ a ha c (List.mem_cons_of_mem x hc)
  · refine hcut.perm (List.Perm.map _ ?_)
    exact (List.perm_middle.symm.cons _).trans (List.perm_middle.symm.append_right _)
  · refine List.forall_mem_cons.mpr ⟨hbsize, fun c hc => ?_⟩
    have hc' : c ∈ (l₁ ++ l₂) ++ live := List.mem_append_right _ hc
    exact (hframe _ (hfarx c hc') (hfarb c hc')).2.trans (h.live_size c hc)

/-- A block of `nunits` headers is taken from a free block that has as many. -/
lemma wp_take {Q : ℕ → State → Prop} (h : Inv base C (l₁ ++ x :: l₂) live s) (hn : 0 < nunits)
    (hx : nunits ≤ x.size)
    (hQ : ∀ s' fl' b, b.size = nunits → Inv base C fl' (b :: live) s' → s'.brk = s.brk →
      Q (b.addr + HEADER) s') : wp F (take nunits (last base l₁) x.addr) Q s := by
  have hsize : s.size x.addr = x.size := h.ring.path.size_of_mem (by simp)
  simp only [take, wp_bind, wp_get, hsize]
  apply wp_ite
  · intro heq
    exact hQ _ _ x heq h.unlink rfl
  · intro hne
    have hlt := h.arena.size_lt h.packed (b := x) (by simp)
    have hsize' : (s.setSize x.addr (x.size - nunits)).size x.addr = x.size - nunits :=
      size_setSize_self (by omega)
    rw [hsize']
    have hinv := h.split (n := x.size - nunits) (by omega) hn (by omega) (last_eq_or_mem base l₁)
    exact hQ _ _ _ rfl hinv rfl

end Take

/-! ### The search -/

/-- The loop of `malloc`, where `more` gets memory when there is no block of `nunits` headers. -/
def searchBy (more : AllocM ℕ) (nunits : ℕ) : ℕ → ℕ → ℕ → AllocM ℕ
  | 0, _, _ => .fail .endless
  | fuel + 1, prevp, p => do
    let s ← get
    if nunits ≤ s.size p then
      take nunits prevp p
    else if p = s.freep then
      let p ← more
      if p = 0 then
        return 0
      else
        let next := (← get).ptr p
        searchBy more nunits fuel p next
    else
      searchBy more nunits fuel p (s.ptr p)

lemma search_eq (fuel prevp p : ℕ) :
    search nunits fuel prevp p = searchBy (morecore nunits) nunits fuel prevp p := by
  induction fuel generalizing prevp p with
  | zero => rfl
  | succ fuel ih => simp only [search, searchBy, ih]

section Search

variable {more : AllocM ℕ} {Q : ℕ → State → Prop} {fuel : ℕ}

/-- The loop of `malloc` passes over a part of the list, or takes a block from it. -/
lemma wp_search_walk {l₃ : List Block} (hring : Ring base fl s) (hfl : fl = l₁ ++ (l₂ ++ l₃))
    (hfreep : ∀ b ∈ l₂, b.addr ≠ s.freep)
    (hfound : ∀ k₁ x k₂, fl = k₁ ++ x :: k₂ → nunits ≤ x.size →
      wp F (take nunits (last base k₁) x.addr) Q s)
    (hrest : (∀ b ∈ l₂, b.size < nunits) → wp F (searchBy more nunits fuel (last base (l₁ ++ l₂))
      (s.ptr (last base (l₁ ++ l₂)))) Q s) :
    wp F (searchBy more nunits (l₂.length + fuel) (last base l₁) (s.ptr (last base l₁))) Q s := by
  induction l₂ generalizing l₁ with
  | nil =>
    rw [List.length_nil, Nat.zero_add]
    rw [List.append_nil] at hrest
    exact hrest (by simp)
  | cons b l₂ ih =>
    have hpath := hring.path
    rw [hfl] at hpath
    obtain ⟨z, hpath₁, hzb, hbsize, -⟩ := Path.append.mp hpath
    rw [hpath₁.ptr_last, hzb]
    rw [hzb] at hbsize
    have hlen : (b :: l₂).length + fuel = l₂.length + fuel + 1 := by
      rw [List.length_cons]
      omega
    rw [hlen]
    simp only [searchBy, wp_bind, wp_get, hbsize]
    apply wp_ite
    · intro hle
      exact hfound l₁ b (l₂ ++ l₃) (by rw [hfl, List.cons_append]) hle
    intro hlt
    rw [if_neg (hfreep b (List.mem_cons_self ..))]
    have happ : last base (l₁ ++ [b]) = b.addr := by
      rw [last_append]
      rfl
    have hgo : wp F (searchBy more nunits (l₂.length + fuel) (last base (l₁ ++ [b]))
        (s.ptr (last base (l₁ ++ [b])))) Q s := ih (by rw [hfl]; simp)
      (fun c hc => hfreep c (List.mem_cons_of_mem b hc)) (fun hall => by
        rw [← List.append_cons]
        exact hrest (List.forall_mem_cons.mpr ⟨by omega, hall⟩))
    rwa [happ] at hgo

/-- What the loop does when it has come around. -/
def refill (more : AllocM ℕ) (nunits fuel : ℕ) : AllocM ℕ := do
  let p ← more
  if p = 0 then
    return 0
  else
    let next := (← get).ptr p
    searchBy more nunits fuel p next

/-- The loop of `malloc` goes once around the list. -/
lemma wp_search (h : Inv base C fl live s) (hn : 0 < nunits)
    (hfound : ∀ k₁ x k₂, fl = k₁ ++ x :: k₂ → nunits ≤ x.size →
      wp F (take nunits (last base k₁) x.addr) Q s)
    (hnone : (∀ b ∈ fl, b.size < nunits) → wp F (refill more nunits fuel) Q s) :
    wp F (searchBy more nunits (fl.length + (1 + fuel)) s.freep (s.ptr s.freep)) Q s := by
  have hbase := h.ring.base_size
  rcases h.freep with hfreep | ⟨q, hq, hfreep⟩
  · rw [hfreep]
    refine wp_search_walk h.ring (show fl = [] ++ (fl ++ []) by simp) ?_ hfound ?_
    · intro b hb heq
      have := h.sorted.le b hb
      rw [heq, hfreep, HEADER_eq] at this
      omega
    · intro hall
      rw [List.nil_append, h.ring.path.ptr_last, Nat.add_comm]
      simp only [searchBy, wp_bind, wp_get, hbase]
      rw [if_neg (by omega), if_pos hfreep.symm]
      exact hnone hall
  · obtain ⟨l₁, l₂, rfl⟩ := List.append_of_mem hq
    obtain ⟨hs₁, hs₂, hs₁₂⟩ := h.sorted.append
    have hqsize : s.size q.addr = q.size := h.ring.path.size_of_mem hq
    have hlast : last base (l₁ ++ [q]) = q.addr := by
      rw [last_append]
      rfl
    have hqne : base ≠ s.freep := by
      have := hs₂.le q (List.mem_cons_self ..)
      rw [hfreep, HEADER_eq] at *
      omega
    have hup : ∀ b ∈ l₂, b.addr ≠ s.freep := by
      intro b hb
      have := hs₂.head_stop_lt hb
      have := Block.addr_lt_stop (hs₂.pos q (List.mem_cons_self ..))
      rw [HEADER_eq] at *
      omega
    have hlow : ∀ b ∈ l₁, b.addr ≠ s.freep := by
      intro b hb
      have := hs₁₂ b hb q (List.mem_cons_self ..)
      have := Block.addr_lt_stop (hs₁.pos b hb)
      rw [HEADER_eq] at *
      omega
    have hend : s.ptr (last base (l₁ ++ [q] ++ l₂)) = base := by
      rw [← List.append_cons]
      exact h.ring.path.ptr_last
    obtain ⟨z, hpath₁, hzq, -⟩ := Path.append.mp h.ring.path
    have hq' : s.ptr (last base l₁) = q.addr := hpath₁.ptr_last.trans hzq
    have hlen : (l₁ ++ q :: l₂).length + (1 + fuel) = l₂.length + (l₁.length + (1 + fuel) + 1) := by
      rw [List.length_append, List.length_cons]
      omega
    rw [hlen, hfreep, ← hlast]
    refine wp_search_walk h.ring (show _ = l₁ ++ [q] ++ (l₂ ++ []) by simp) hup hfound ?_
    intro hall₂
    -- at the end of the list the loop goes on from `base`
    rw [hend]
    simp only [searchBy, wp_bind, wp_get, hbase]
    rw [if_neg (by omega), if_neg hqne]
    refine wp_search_walk h.ring (show _ = [] ++ (l₁ ++ q :: l₂) from rfl) hlow hfound ?_
    intro hall₁
    rw [List.nil_append, hq', Nat.add_comm]
    simp only [searchBy, wp_bind, wp_get, hqsize]
    refine wp_ite (hfound l₁ q l₂ rfl) fun hlt => ?_
    rw [if_pos hfreep.symm]
    refine hnone fun b hb => ?_
    rcases List.mem_append.mp hb with hb | hb
    · exact hall₁ b hb
    rcases List.mem_cons.mp hb with rfl | hb
    · omega
    · exact hall₂ b hb

end Search

/-! ### malloc -/

section Malloc

variable {Q : ℕ → State → Prop} {n : ℕ}

lemma Inv.freep_ne_zero (h : Inv base C fl live s) : s.freep ≠ 0 := by
  have hpos := h.arena.base_pos
  rcases h.freep with hfreep | ⟨b, hb, hfreep⟩
  · omega
  · have := h.sorted.le b hb
    omega

/-- New memory at the end of user memory is a block in use. -/
lemma Inv.grow (h : Inv base C fl live s) (hn : 0 < n) (hbrk : s.brk + n * HEADER < MAXBRK)
    {s' : State} (hmem : s'.mem = s.mem) (hfreep : s'.freep = s.freep)
    (hs' : s'.brk = s.brk + n * HEADER) :
    Inv base (C ∪ Set.Ico s.brk s'.brk) fl (⟨s.brk, n⟩ :: live) (s'.setSize s.brk n) := by
  have hlt : s.brk < s'.brk := by
    rw [hs', HEADER_eq]
    omega
  have hfar : ∀ b ∈ fl ++ live, Far b.addr s.brk := by
    intro b hb
    have hstop := (h.arena.bounds h.packed hb).2
    exact .inl ((Block.addr_lt_stop (pos_of_packed h.packed hb)).trans hstop)
  have hptr : ∀ q, Far q s.brk → (s'.setSize s.brk n).ptr q = s.ptr q := by
    intro q hq
    rw [ptr_setSize_of_far hq, State.ptr, hmem, ← State.ptr]
  have hsize : ∀ q, Far q s.brk → (s'.setSize s.brk n).size q = s.size q := by
    intro q hq
    rw [size_setSize_of_far hq, State.size, hmem, ← State.size]
  have hbase : Far base s.brk := .inl h.arena.base_le
  refine ⟨⟨h.arena.base_pos, ?_, ?_, ?_⟩, ?_, ⟨?_, ?_⟩, h.sorted, ?_, ?_⟩
  · rintro x (hx | hx)
    · have hcore := h.arena.core x hx
      exact ⟨hcore.1, hcore.2.trans hlt⟩
    · exact ⟨h.arena.base_le.trans hx.1, hx.2⟩
  · exact h.arena.base_le.trans hlt.le
  · exact hs'.symm ▸ hbrk
  · rw [show (s'.setSize s.brk n).freep = s.freep from hfreep]
    exact h.freep
  · rw [hsize base hbase, h.ring.base_size]
  · rw [hptr base hbase]
    refine h.ring.path.congr fun b hb => ?_
    have hb' := hfar b (List.mem_append_left _ hb)
    exact ⟨hptr _ hb', hsize _ hb'⟩
  · have hext := h.packed.extend (b := s'.brk) (fun x hx => (h.arena.core x hx).2) hlt
    rw [hs'] at hext ⊢
    exact hext.perm (perm_spans_middle ⟨s.brk, n⟩ fl live)
  · refine List.forall_mem_cons.mpr ⟨?_, fun b hb => ?_⟩
    · apply size_setSize_self
      rw [MAXBRK, HEADER_eq] at hbrk
      omega
    · rw [hsize _ (hfar b (List.mem_append_right _ hb))]
      exact h.live_size b hb

/-- `more` adds a free block of at least `nunits` headers, unless there is no memory. -/
def Refills (F : Halt → Prop) (more : AllocM ℕ) (nunits : ℕ) : Prop :=
  ∀ {base : ℕ} {C : Set ℕ} {fl live : List Block} {s : State} {Q : ℕ → State → Prop},
    Inv base C fl live s → (∀ s', Inv base C fl live s' → s'.brk = s.brk → Q 0 s') →
    (∀ s' fl', s.brk ≤ s'.brk → Inv base (C ∪ Set.Ico s.brk s'.brk) fl' live s' →
      fl'.length ≤ fl.length + 1 → (∃ c ∈ fl', nunits ≤ c.size) → Q s'.freep s') →
    wp F more Q s

/-- What `morecore` does with the memory that it got. -/
def record (p nu : ℕ) : AllocM ℕ := do
  modify fun s => s.setSize p nu
  free (p + HEADER)
  return (← get).freep

/-- Memory at the end of user memory is given to the free list. -/
lemma wp_record (h : Inv base C fl live s) {s₁ : State} (hn : 0 < n) (hmem : s₁.mem = s.mem)
    (hfreep : s₁.freep = s.freep) (hbrk : s₁.brk = s.brk + n * HEADER) (hlt : s₁.brk < MAXBRK)
    (hQ : ∀ s' fl', s.brk ≤ s'.brk → Inv base (C ∪ Set.Ico s.brk s'.brk) fl' live s' →
      fl'.length ≤ fl.length + 1 → (∃ c ∈ fl', n ≤ c.size) → Q s'.freep s') :
    wp F (record s.brk n) Q s₁ := by
  simp only [record, wp_bind, wp_modify]
  refine wp_free (h.grow hn (hbrk ▸ hlt) hmem hfreep hbrk) ?_
  intro s' fl' hinv hfit hlen hbrk'
  have hs' : s'.brk = s₁.brk := hbrk'
  refine hQ s' fl' (by omega) ?_ hlen hfit
  rw [hs']
  exact hinv

lemma refills_morecore : Refills F (morecore nunits) nunits := by
  intro base C fl live s Q h hfail hok
  have hnu : nunits ≤ (if nunits < 4096 then 4096 else nunits) := by
    split_ifs
    · omega
    · exact le_rfl
  have hpos : 0 < (if nunits < 4096 then 4096 else nunits) := by
    split_ifs
    · norm_num
    · omega
  rw [morecore]
  generalize (if nunits < 4096 then 4096 else nunits) = nu at hnu hpos
  simp only [sbrk, wp_bind, wp_get, wp_modify]
  apply wp_ite
  · intro _
    exact hfail _ ⟨h.arena.of_brk_eq rfl, h.freep, h.ring.of_mem_eq rfl, h.sorted, h.packed,
      h.live_size⟩ rfl
  · intro hgo
    push Not at hgo
    refine wp_record h hpos rfl rfl rfl hgo.2 fun s' fl' hle hinv hlen hfit => ?_
    obtain ⟨c, hc, hcsize⟩ := hfit
    exact hok s' fl' hle hinv hlen ⟨c, hc, hnu.trans hcsize⟩

/-- `malloc` returns a block of the size asked for, or 0; in both cases it returns. -/
lemma wp_searchBy_units {more : AllocM ℕ} (hmore : Refills F more nunits)
    (h : Inv base C fl live s) (hn : 0 < nunits)
    (hfail : ∀ s' fl', Inv base C fl' live s' → s'.brk = s.brk → Q 0 s')
    (hok : ∀ s' fl' b, b.size = nunits → s.brk ≤ s'.brk →
      Inv base (C ∪ Set.Ico s.brk s'.brk) fl' (b :: live) s' → Q (b.addr + HEADER) s') :
    wp F (searchBy more nunits (2 * rounds s) s.freep (s.ptr s.freep)) Q s := by
  have hlen := h.length_le
  obtain ⟨fuel, hfuel⟩ : ∃ k, 2 * rounds s = fl.length + (1 + (fl.length + 1 + (1 + k))) :=
    ⟨2 * s.brk - 2 * fl.length - 3, by rw [rounds]; omega⟩
  rw [hfuel]
  apply wp_search h hn
  · rintro k₁ x k₂ rfl hx
    refine wp_take h hn hx fun s' fl' b hb hinv hbrk => hok s' fl' b hb hbrk.ge ?_
    rwa [hbrk, Set.Ico_self, Set.union_empty]
  · intro _
    rw [refill, wp_bind]
    apply hmore h
    · intro s' hinv hbrk
      rw [if_pos rfl]
      exact hfail s' fl hinv hbrk
    · intro s₁ fl₁ hle hinv hlen₁ hfit
      rw [if_neg hinv.freep_ne_zero]
      simp only [wp_bind, wp_get]
      obtain ⟨k, hk⟩ : ∃ k, fl.length + 1 + (1 + fuel) = fl₁.length + (1 + k) :=
        ⟨fl.length + 1 + fuel - fl₁.length, by omega⟩
      rw [hk]
      apply wp_search hinv hn
      · rintro k₁ x k₂ rfl hx
        refine wp_take hinv hn hx fun s' fl' b hb hinv' hbrk => hok s' fl' b hb (by omega) ?_
        rwa [hbrk]
      · intro hall
        obtain ⟨c, hc, hle⟩ := hfit
        exact absurd hle (Nat.not_le.mpr (hall c hc))

/-- `malloc`, where `more` gets memory when there is no block of `nunits` headers. -/
def mallocBy (more : AllocM ℕ) (base nunits : ℕ) : AllocM ℕ := do
  let s ← get
  if s.freep = 0 then
    set (({ s.setPtr base base with freep := base }).setSize base 0)
  let s ← get
  searchBy more nunits (2 * rounds s) s.freep (s.ptr s.freep)

lemma malloc_eq (base nbytes : ℕ) :
    malloc base nbytes = mallocBy (morecore (units nbytes)) base (units nbytes) := by
  simp only [malloc, mallocBy, search_eq]

end Malloc

end Xv6.Umalloc
